import SelectRouting.Proofs.Dialect.Departure
import SelectRouting.Proofs.Prefix.Settling
/-!
# Steps that settle their ends

The rules of the judgement for the parsers that every clause is built from.  A parser that demands a token ends with
passing it (`Demands`), and so does one that skips a region; a test of the current token may be the last thing a parser
does, so it has to fail at every mark.  A loop has more rounds than there are tokens left, and at the end of the input it
does nothing (`Settles.rounds`).
-/
namespace SelectRouting

namespace Token.Kind

theorem ne_of_alike {a b : Kind} (h : a.alike b = true) {k : Kind} (hk : k.Bare) (hb : b ≠ k) : a ≠ k := by
  rintro rfl
  refine hb ?_
  cases a <;> cases b <;> first | exact hk.elim | rfl | simp [alike] at h

theorem eq_of_keyword? {a : Kind} {k : Keyword} (h : a.keyword? = some k) : a = .keyword k := by
  unfold keyword? at h
  split at h
  · rw [Option.some.inj h]
  · cases h

end Token.Kind

namespace Cursor

variable {b c : Cursor}

theorem current_advance (hk : c.kind ≠ .eof) : c.advance.current = c.next := by
  obtain ⟨source, t, ts⟩ := c
  cases ts <;> simp_all [advance, Cursor.next]

/-- A parenthesis opens a subquery when `SELECT` is behind it. -/
theorem atSubquery_of_kind (hk : c.kind = .leftParen) : c.atSubquery = c.advance.atKeyword .select := by
  rw [atSubquery, decide_eq_true hk, Bool.true_and, nextIsKeyword, ← current_advance (by rw [hk]; decide)]
  rfl

/-- Where a region ends depends on the tokens alone. -/
theorem leaveRegion_of_tokens (h : b.tokens = c.tokens) :
    b.leaveRegion.1 = c.leaveRegion.1 ∧ b.leaveRegion.2.current = c.leaveRegion.2.current := by
  obtain ⟨source, t, ts⟩ := b
  obtain ⟨source', t', ts'⟩ := c
  obtain ⟨rfl, rfl⟩ := List.cons.inj h
  unfold leaveRegion
  rw [h]
  cases closing? 0 (tokens ⟨source', t, ts⟩) with
  | none => exact ⟨rfl, rfl⟩
  | some r =>
    obtain ⟨close, after⟩ := r
    cases after <;> exact ⟨rfl, rfl⟩

end Cursor

namespace Grammar

open Cursor (Reaches Alike)

section
variable {marks : Cursor → Prop} {opened : Prop} {n n' : Nat} {s : State} {α β : Type} {p p' : Parser α}
  {f f' : α → Parser β}

/-! ## Demanding -/

/-- A parser that passes a token which has a value for it, and fails in front of any other. -/
def Demands (q : Parser α) (value? : Token → Option α) (expected : String) : Prop :=
  ∀ s, q s = match value? s.cursor.current with
    | some a => .ok a s.advanced
    | none => unexpected expected s

section
variable {q : Parser α} {value? : Token → Option α} {expected : String}

theorem Demands.of_ok (hq : Demands q value? expected) {a : α} {t : State} (h : q s = .ok a t) :
    value? s.cursor.current = some a ∧ t = s.advanced := by
  rw [hq s] at h
  cases hv : value? s.cursor.current with
  | none =>
    rw [hv] at h
    cases h
  | some b =>
    rw [hv] at h
    cases h
    exact ⟨rfl, rfl⟩

theorem SettlesAt.demand_bind {opened' : Prop} (hq : Demands q value? expected)
    (heof : ∀ t a, value? t = some a → t.kind ≠ .eof)
    (hopened : ¬ opened' → ∀ t a, value? t = some a → t.kind ≠ .leftParen)
    (h : ∀ a, value? s.cursor.current = some a → SettlesAt marks opened' (n - 1) (n' - 1) s.advanced (f a) (f' a)) :
    SettlesAt marks opened n n' s (q >>= f) (q >>= f') := by
  cases hv : value? s.cursor.current with
  | some a =>
    have hrun : ∀ b : Cursor, b.current = s.cursor.current → q (s.moved b) = .ok a (s.moved b).advanced := by
      intro b hb
      rw [hq (s.moved b), show (s.moved b).cursor.current = s.cursor.current from hb, hv]
    refine .passing (heof _ a hv) (fun hno => hopened hno _ a hv) (h a hv) (bind_of_ok (hrun s.cursor rfl) f) ?_
    exact fun b hb _ => bind_of_ok (hrun b hb) f'
  | none =>
    have hrun : ∀ (b : Cursor) (g : α → Parser β), b.current = s.cursor.current →
        (q >>= g) (s.moved b) = Grammar.unexpected expected (s.moved b) := by
      intro b g hb
      have hfail : q (s.moved b) = Grammar.unexpected expected (s.moved b) := by
        rw [hq (s.moved b), show (s.moved b).cursor.current = s.cursor.current from hb, hv]
      exact bind_of_error (hfail : q (s.moved b) = .error _ _) g
    have hend : SettlesAt nowhere opened n n' s (Grammar.unexpected expected : Parser β)
        (Grammar.unexpected expected) := .unexpected
    intro hs hlt
    rw [show (q >>= f) s = Grammar.unexpected expected s from hrun s.cursor f rfl]
    exact (hend hs hlt).congrAt fun b _ _ hb => hrun b f' (hb.resolve_right id)

theorem Settles.demand (hq : Demands q value? expected) (heof : ∀ t a, value? t = some a → t.kind ≠ .eof) :
    Settles anywhere n n' q q := by
  intro s
  rw [← bind_pure q]
  exact .demand_bind hq heof (absurd trivial) fun _ _ => .pure

end

/-- A parser that passes a token is not where it started. -/
theorem State.not_reaches_advanced (hs : Token.Complete s.cursor.tokens) (hk : s.cursor.kind ≠ .eof) :
    ¬ Reaches s.cursor [] s.advanced.cursor :=
  fun h => List.cons_ne_nil _ _ ((Reaches.advance hs hk).unique h)

/-- The place of a token, if a test holds of it. -/
def placeIf (test : Token → Bool) (t : Token) : Option Span :=
  if test t then some t.span else none

theorem test_of_placeIf {test : Token → Bool} {t : Token} {span : Span} (h : placeIf test t = some span) :
    test t = true := by
  unfold placeIf at h
  split at h
  · assumption
  · cases h

theorem demands_of_skipWhen (test : Token → Bool) (expected : String) :
    Demands (look (·.span) >>= fun span => skipWhen (fun c => test c.current) >>= fun b =>
      if b then pure span else unexpected expected) (placeIf test) expected := by
  intro s
  rw [look_bind_apply]
  cases ht : test s.cursor.current with
  | true =>
    rw [placeIf, if_pos ht]
    have hrun : skipWhen (fun c => test c.current) s = .ok true s.advanced := skipWhen_of_true ht
    exact bind_of_ok hrun _
  | false =>
    rw [placeIf, if_neg (Bool.eq_false_iff.1 ht)]
    have hrun : skipWhen (fun c => test c.current) s = .ok false s := skipWhen_of_false ht
    exact bind_of_ok hrun _

theorem demands_expect (k : Token.Kind) : Demands (expect k) (placeIf (·.kind.alike k)) k.display :=
  demands_of_skipWhen (·.kind.alike k) k.display

theorem demands_expectKeyword (k : Keyword) :
    Demands (expectKeyword k) (placeIf fun t => decide (t.kind.keyword? = some k)) k.text :=
  demands_of_skipWhen (fun t => decide (t.kind.keyword? = some k)) k.text

theorem demands_expectName : Demands expectName Token.name? "identifier" := by
  intro s
  cases hn : s.cursor.name? with
  | some name =>
    rw [expectName_of_some hn, show s.cursor.current.name? = some name from hn]
  | none =>
    rw [expectName_of_none hn, show s.cursor.current.name? = none from hn]

/-- A bare kind is demanded where it stands. -/
theorem expect_of_kind {k : Token.Kind} (hk : s.cursor.kind = k) (hself : k.alike k = true) :
    expect k s = .ok s.cursor.span s.advanced := by
  have halike : s.cursor.current.kind.alike k = true := (congrArg (·.alike k) hk).trans hself
  rw [demands_expect k s, placeIf, if_pos halike]
  rfl

theorem settles_expect {k : Token.Kind} (hk : k ≠ .eof) : Settles anywhere n n' (expect k) (expect k) :=
  .demand (demands_expect k) fun _ _ h => Token.Kind.ne_of_alike (test_of_placeIf h) trivial hk

/-- A parser in front of a token that is demanded: with the token passed, what follows is not looked at. -/
theorem SettlesAt.bindDemand {γ : Type} {q : Parser β} {value? : Token → Option β} {expected : String}
    (hq : Demands q value? expected) (heof : ∀ t b, value? t = some b → t.kind ≠ .eof)
    (hword : ∀ t b, value? t = some b → t.kind ≠ .keyword .as ∧ t.kind ≠ .keyword .versions) (g : α → β → γ)
    (hp : SettlesAt nowhere opened n n' s p p') :
    SettlesAt anywhere opened n n' s (p >>= fun a => q >>= fun b => Pure.pure (g a b))
      (p' >>= fun a => q >>= fun b => Pure.pure (g a b)) := by
  have hdemand : ∀ a : α, Settles anywhere n n' (q >>= fun b => Pure.pure (g a b))
      (q >>= fun b => Pure.pure (g a b)) := by
    exact fun a t => .demand_bind hq heof (absurd trivial) fun _ _ => .pure
  refine hp.bindWith (fun a t _ => hdemand a t) (fun a t c u ts w w' ht _ hr hu hw _ => ?_) (absurd trivial)
  obtain ⟨b, t', hr', hr⟩ := ok_of_bind hr
  cases hr
  obtain ⟨hvalue, rfl⟩ := hq.of_ok hr'
  rw [hu.unique (.advance ht (heof _ b hvalue))] at hw
  exact .inl (.of_current hw.current_eq (hword _ b hvalue).1 (hword _ b hvalue).2)

theorem SettlesAt.bindClosing (hp : SettlesAt nowhere opened n n' s p p') :
    SettlesAt anywhere opened n n' s (p >>= fun a => expect .rightParen >>= fun _ => Pure.pure a)
      (p' >>= fun a => expect .rightParen >>= fun _ => Pure.pure a) := by
  have hk : ∀ t b, placeIf (·.kind.alike .rightParen) t = some b → t.kind = .rightParen := fun _ _ h =>
    Token.Kind.eq_of_alike (test_of_placeIf h) trivial
  refine hp.bindDemand (demands_expect .rightParen) (fun t b h => ?_) (fun t b h => ?_) fun a _ => a
  · exact hk t b h ▸ nofun
  · exact hk t b h ▸ ⟨nofun, nofun⟩

theorem SettlesAt.bindKeyword {γ : Type} {k : Keyword} (has : k ≠ .as) (hversions : k ≠ .versions) (g : α → γ)
    (hp : SettlesAt nowhere opened n n' s p p') :
    SettlesAt anywhere opened n n' s (p >>= fun a => expectKeyword k >>= fun _ => Pure.pure (g a))
      (p' >>= fun a => expectKeyword k >>= fun _ => Pure.pure (g a)) := by
  have hk : ∀ t b, placeIf (fun t => decide (t.kind.keyword? = some k)) t = some b → t.kind = .keyword k :=
    fun _ _ h => Token.Kind.eq_of_keyword? (of_decide_eq_true (test_of_placeIf h))
  refine hp.bindDemand (demands_expectKeyword k) (fun t b h => ?_) (fun t b h => ?_) fun a _ => g a
  · exact hk t b h ▸ nofun
  · rw [hk t b h]
    exact ⟨fun h => has (Token.Kind.keyword.inj h), fun h => hversions (Token.Kind.keyword.inj h)⟩

theorem settles_expectKeyword {k : Keyword} : Settles anywhere n n' (expectKeyword k) (expectKeyword k) :=
  .demand (demands_expectKeyword k) fun _ _ h => Token.Kind.eq_of_keyword? (of_decide_eq_true (test_of_placeIf h)) ▸ nofun

theorem eof_of_name? {t : Token} {name : String} (h : t.name? = some name) :
    t.kind ≠ .eof ∧ t.kind ≠ .leftParen := by
  constructor <;>
  · intro hk
    rw [Token.name?, hk] at h
    cases h

theorem settles_expectName : Settles anywhere n n' expectName expectName :=
  .demand demands_expectName fun _ _ h => (eof_of_name? h).1

section
variable {g g' : Span → Parser β}

theorem SettlesAt.expect_bind {k : Token.Kind} (hk : k ≠ .eof)
    (h : Settles marks (n - 1) (n' - 1) (g s.cursor.span) (g' s.cursor.span)) :
    SettlesAt marks opened n n' s (expect k >>= g) (expect k >>= g') := by
  refine .demand_bind (demands_expect k) (fun _ _ h => Token.Kind.ne_of_alike (test_of_placeIf h) trivial hk)
    (absurd trivial) fun span hspan => ?_
  have hplace : some s.cursor.span = some span := by
    rw [← hspan, placeIf, if_pos (test_of_placeIf hspan)]
    rfl
  exact Option.some.inj hplace ▸ h s.advanced

/-- Behind a keyword nothing has been opened. -/
theorem SettlesAt.expectKeyword_bind {k : Keyword}
    (h : ∀ span, SettlesBehind marks (n - 1) (n' - 1) (g span) (g' span)) :
    SettlesAt marks opened n n' s (expectKeyword k >>= g) (expectKeyword k >>= g') := by
  have hkind : ∀ t span, placeIf (fun t => decide (t.kind.keyword? = some k)) t = some span → t.kind = .keyword k :=
    fun t _ h => Token.Kind.eq_of_keyword? (of_decide_eq_true (test_of_placeIf h))
  exact .demand_bind (demands_expectKeyword k) (fun t a h => hkind t a h ▸ nofun)
    (fun _ t a h => hkind t a h ▸ nofun) fun span _ => h span s.advanced

end

theorem SettlesAt.expectName_bind {g g' : String → Parser β}
    (h : ∀ name, Settles marks (n - 1) (n' - 1) (g name) (g' name)) :
    SettlesAt marks opened n n' s (expectName >>= g) (expectName >>= g') :=
  .demand_bind demands_expectName (fun _ _ h => (eof_of_name? h).1) (absurd trivial) fun name _ => h name s.advanced

/-! ## Regions -/

/-- What follows the opening parenthesis of a region. -/
def restOfRegion (opening : Span) : Parser Span := do
  let closing ← look (·.leaveRegion.1)
  moveCursor (·.leaveRegion.2)
  match closing with
  | some close => return ⟨opening.start, close.span.stop⟩
  | none => unexpected "')'"

theorem restOfRegion_apply (opening : Span) (s : State) : restOfRegion opening s = match s.cursor.leaveRegion.1 with
    | some close => .ok ⟨opening.start, close.span.stop⟩ (s.moved s.cursor.leaveRegion.2)
    | none => unexpected "')'" (s.moved s.cursor.leaveRegion.2) := by
  unfold restOfRegion
  rw [look_bind_apply, moveCursor_bind_apply]
  cases s.cursor.leaveRegion.1 <;> rfl

/-- With its value, a region has passed a closing parenthesis last. -/
theorem closing_of_restOfRegion (hs : Token.Complete s.cursor.tokens) {opening span : Span} {t : State}
    (h : restOfRegion opening s = .ok span t) :
    ∃ region close, close.kind = .rightParen ∧ Reaches s.cursor (region ++ [close]) t.cursor := by
  rw [restOfRegion_apply] at h
  rcases Cursor.leaveRegion_settled hs with ⟨close, region, hclose, hkind, hreach, -⟩ | ⟨hclose, -⟩
  · rw [hclose] at h
    cases h
    exact ⟨region, close, hkind, hreach⟩
  · rw [hclose] at h
    cases h

theorem settles_restOfRegion (opening : Span) : Settles anywhere n n' (restOfRegion opening) (restOfRegion opening) := by
  intro s hs _
  rw [restOfRegion_apply]
  rcases Cursor.leaveRegion_settled hs with ⟨close, region, hclose, -, hreach, hall⟩ | ⟨hclose, heof, ts, hreach, htokens⟩
  · rw [hclose]
    refine ⟨region ++ [close], hreach, fun b b' _ _ hb _ => ?_⟩
    rw [restOfRegion_apply, show (s.moved b).cursor.leaveRegion = (some close, b') from hall b b' hb]
    rfl
  · rw [hclose]
    refine ⟨ts, hreach, .unexpected _ ts, fun b b' hb _ hbts hrests => ⟨s.moved b.leaveRegion.2, ?_⟩⟩
    -- Nothing but the end of the input follows, so the two texts are the same.
    have hcurrent : b'.current = s.cursor.leaveRegion.2.current := hrests.current
    have heof' : b'.kind = .eof := (congrArg Token.kind hcurrent).trans heof
    have hsame : b.tokens = s.cursor.tokens := by
      rw [hbts.tokens, htokens, Cursor.tokens_of_eof (hbts.complete hb) heof', hcurrent]
    obtain ⟨hb₁, hb₂⟩ := Cursor.leaveRegion_of_tokens hsame
    rw [restOfRegion_apply, show (s.moved b).cursor.leaveRegion.1 = none from hb₁.trans hclose]
    show EStateM.Result.error
      (⟨.unexpected "')'" b.leaveRegion.2.current.kind, b.leaveRegion.2.current.span⟩ : ParseError)
      (s.moved b.leaveRegion.2) = _
    rw [hb₂]
    rfl

theorem skipRegion_eq : skipRegion = expect .leftParen >>= restOfRegion := rfl

theorem settles_skipRegion : Settles anywhere n n' skipRegion skipRegion :=
  fun s => SettlesAt.andThen (settles_expect (k := .leftParen) nofun s) settles_restOfRegion

/-- Behind a region nothing has been opened. -/
theorem SettlesAt.skipRegion_bind {g g' : Span → Parser β} (h : ∀ span, SettlesBehind marks n n' (g span) (g' span)) :
    SettlesAt marks opened n n' s (skipRegion >>= g) (skipRegion >>= g') := by
  intro hs
  refine SettlesAt.bindWith (settles_skipRegion s).weaken (fun span t _ => h span t)
    (fun _ _ _ _ _ _ _ _ _ _ _ _ _ => .inr trivial) (fun _ span t ts hr hts => ?_) hs
  rw [skipRegion_eq] at hr
  obtain ⟨opening, s', hopening, hr⟩ := ok_of_bind hr
  have hs' : s' = s.advanced ∧ s.cursor.kind = .leftParen := by
    rw [demands_expect .leftParen s] at hopening
    cases hv : placeIf (·.kind.alike .leftParen) s.cursor.current with
    | none =>
      rw [hv] at hopening
      cases hopening
    | some span =>
      rw [hv] at hopening
      cases hopening
      exact ⟨rfl, Token.Kind.eq_of_alike (test_of_placeIf hv) trivial⟩
  obtain ⟨rfl, hk⟩ := hs'
  obtain ⟨region, close, hclose, hreach⟩ := closing_of_restOfRegion (Cursor.complete_advance hs) hr
  have hfirst := Reaches.advance hs (hk ▸ nofun)
  rw [hts.unique (hfirst.trans hreach), ← List.append_assoc, List.getLast?_append]
  show close.kind ≠ .leftParen
  rw [hclose]
  exact nofun

/-! ## Tests -/

section
variable {g g' : Bool → Parser β}

theorem SettlesAt.skip_bind {k : Token.Kind} (hk : k ≠ .eof) (hmarks : ∀ c, marks c → c.kind.alike k = false)
    (htrue : Settles marks (n - 1) (n' - 1) (g true) (g' true))
    (hfalse : SettlesAt marks opened n n' s (g false) (g' false)) :
    SettlesAt marks opened n n' s (skip k >>= g) (skip k >>= g') :=
  .skipWhen_bind (fun _ _ h => congrArg (·.kind.alike k) h) hmarks (fun h => Token.Kind.ne_of_alike h trivial hk)
    (fun _ => absurd trivial) (fun _ => htrue s.advanced) fun _ => hfalse

/-- Behind a keyword nothing has been opened. -/
theorem SettlesAt.skipKeyword_bind {k : Keyword} (hmarks : ∀ c, marks c → c.atKeyword k = false)
    (htrue : SettlesBehind marks (n - 1) (n' - 1) (g true) (g' true))
    (hfalse : SettlesAt marks opened n n' s (g false) (g' false)) :
    SettlesAt marks opened n n' s (skipKeyword k >>= g) (skipKeyword k >>= g') :=
  .skipWhen_bind (fun _ _ h => congrArg (fun t : Token => decide (t.kind.keyword? = some k)) h) hmarks
    (fun h => Cursor.kind_of_atKeyword h ▸ nofun) (fun h _ => Cursor.kind_of_atKeyword h ▸ nofun)
    (fun _ => htrue s.advanced) fun _ => hfalse

theorem SettlesAt.skipAny_bind {ks : List Keyword} (hmarks : ∀ c, marks c → c.atAny ks = false)
    (htrue : Settles marks (n - 1) (n' - 1) (g true) (g' true))
    (hfalse : SettlesAt marks opened n n' s (g false) (g' false)) :
    SettlesAt marks opened n n' s (skipAny ks >>= g) (skipAny ks >>= g') := by
  refine .skipWhen_bind (fun _ _ h => congrArg (fun t : Token => t.kind.keyword?.any ks.contains) h) hmarks (fun h => ?_)
    (fun _ => absurd trivial) (fun _ => htrue s.advanced) fun _ => hfalse
  obtain ⟨k, -, hk⟩ := Cursor.exists_kind_of_atAny h
  exact hk ▸ nofun

end

/-! ## Rejecting -/

/-- A construct that is rejected at its first word. -/
theorem SettlesAt.reject {test : Cursor → Bool} {construct : String} {x x' : Parser β}
    (htest : ∀ c c', c'.current = c.current → test c' = test c) (hmarks : ∀ c, marks c → test c = false)
    (hselect : test s.cursor = true → s.cursor.kind = .keyword .select → ¬ opened)
    (hx : SettlesAt marks opened n n' s x x') :
    SettlesAt marks opened n n' s (look test >>= fun b => if b then Grammar.unsupported construct else x)
      (look test >>= fun b => if b then Grammar.unsupported construct else x') := by
  cases ht : test s.cursor with
  | false =>
    intro hs hlt
    rw [unsupportedIf_of_false x ht]
    refine (hx hs hlt).congrAt fun b _ _ hb => unsupportedIf_of_false x' ?_
    exact hb.elim (fun hb => (htest s.cursor b hb).trans ht) (hmarks b)
  | true =>
    have hfail : SettlesAt nowhere opened n n' s (Grammar.unsupported construct : Parser β)
        (Grammar.unsupported construct) := .unsupported (hselect ht)
    intro hs hlt
    have hsecond : Settled nowhere opened n' s (look test >>= fun b => if b then Grammar.unsupported construct else x')
        (Grammar.unsupported construct s) := (hfail hs hlt).congrAt fun b _ _ hb =>
      unsupportedIf_of_true x' ((htest s.cursor b (hb.resolve_right id)).trans ht)
    rwa [unsupportedIf_of_true x ht]

/-- Whether a parenthesis opens a subquery is seen at the token behind it.  If it does not, a parser that passes the
parenthesis sees that token too. -/
theorem SettlesAt.rejectSubquery {x x' z z' : Parser β}
    (hmarks : ∀ c, marks c → c.kind ≠ .leftParen ∧ c.kind ≠ .keyword .select)
    (hx : ∀ s : State, s.cursor.kind = .leftParen → x s = z s.advanced)
    (hx' : ∀ s : State, s.cursor.kind = .leftParen → x' s = z' s.advanced)
    (hinside : SettlesAt marks True (n - 1) (n' - 1) s.advanced z z') (hother : SettlesAt marks opened n n' s x x') :
    SettlesAt marks opened n n' s
      (look (·.atSubquery) >>= fun b => if b then Grammar.unsupported "subquery" else x)
      (look (·.atSubquery) >>= fun b => if b then Grammar.unsupported "subquery" else x') := by
  have hno : ∀ c : Cursor, c.kind ≠ .leftParen → c.atSubquery = false := by
    intro c hk
    rw [Cursor.atSubquery, decide_eq_false hk, Bool.false_and]
  by_cases hk : s.cursor.kind = .leftParen
  · cases hsub : s.cursor.atSubquery with
    | true =>
      intro hs hlt
      rw [unsupportedIf_of_true x hsub]
      refine ⟨[], .refl, .unsupported _ [] fun h => absurd (hk.symm.trans h) nofun, fun b b' _ _ hb hrests => ?_⟩
      obtain rfl := hb.eq
      refine ⟨s.moved b, ?_⟩
      rw [unsupportedIf_of_true x' (hrests.2.trans hsub)]
      show EStateM.Result.error (⟨.unsupported "subquery", b.current.span⟩ : ParseError) (s.moved b) = _
      rw [hrests.1.current]
      rfl
    | false =>
      refine .passing (hk ▸ nofun) (absurd trivial) hinside ((unsupportedIf_of_false x hsub).trans (hx s hk))
        fun b hb hbehind => ?_
      have hkb : b.kind = .leftParen := (congrArg Token.kind hb).trans hk
      refine (unsupportedIf_of_false x' ?_).trans (hx' (s.moved b) hkb)
      -- Behind the parenthesis there is the same token, or a mark, which is no `SELECT` either.
      rw [show (s.moved b).cursor.atSubquery = b.advance.atKeyword .select from Cursor.atSubquery_of_kind hkb]
      rcases hbehind with hbehind | hmark
      · rw [Cursor.atKeyword, Cursor.keyword?, Cursor.kind, hbehind]
        exact (Cursor.atSubquery_of_kind hk).symm.trans hsub
      · exact Bool.eq_false_iff.2 fun h => (hmarks _ hmark).2 (Cursor.kind_of_atKeyword h)
  · intro hs hlt
    rw [unsupportedIf_of_false x (hno _ hk)]
    refine (hother hs hlt).congrAt fun b _ _ hb => unsupportedIf_of_false x' (hno b ?_)
    rcases hb with hb | hmark
    · rw [Cursor.kind, hb]
      exact hk
    · exact (hmarks b hmark).1

namespace Settles

variable {x x' y y' : Parser β}

theorem mono {marks' : Cursor → Prop} (hmarks : ∀ c, marks c → marks' c) (h : Settles marks' n n' p p') :
    Settles marks n n' p p' :=
  fun s => (h s).mono hmarks (Nat.le_refl _) (Nat.le_refl _)

/-- A parser that ends with passing a token has the same end at a mark as elsewhere. -/
theorem passed (h : Settles anywhere n n' p p') : Settles marks n n' p p' :=
  h.mono fun _ _ => trivial

theorem fewer {m m' : Nat} (hm : m ≤ n) (hm' : m' ≤ n') (h : Settles marks n n' p p') : Settles marks m m' p p' :=
  fun s => (h s).mono (fun _ => id) hm hm'

/-- No text has fewer than no tokens left. -/
theorem vacuous {q' : Parser α} (h : Settles marks n n' p p') : Settles marks n 0 p q' :=
  fun s hs hlt => ((h s hs hlt).mono (fun _ => id) (Nat.zero_le _)).congrAt fun _ _ hlt => absurd hlt (Nat.not_lt_zero _)

theorem behind (h : Settles marks n n' p p') : SettlesBehind marks n n' p p' :=
  fun s => (h s).weaken

theorem pure {a : α} : Settles marks n n' (Pure.pure a) (Pure.pure a) :=
  fun _ => .pure

theorem unexpected {expected : String} :
    Settles marks n n' (Grammar.unexpected expected : Parser α) (Grammar.unexpected expected) :=
  fun _ => .unexpected

theorem bind (hp : Settles nowhere n n' p p') (hf : ∀ a, Settles nowhere n n' (f a) (f' a)) :
    Settles nowhere n n' (p >>= f) (p' >>= f') :=
  fun s => (hp s).bind hf

theorem andThen (hp : Settles anywhere n n' p p') (hf : ∀ a, Settles marks n n' (f a) (f' a)) :
    Settles marks n n' (p >>= f) (p' >>= f') :=
  fun s => (hp s).andThen hf

theorem look_bind {look? : Cursor → α} (hlook : ∀ c c', Alike c c' → look? c' = look? c)
    (hf : ∀ a, Settles nowhere n n' (f a) (f' a)) :
    Settles nowhere n n' (Grammar.look look? >>= f) (Grammar.look look? >>= f') :=
  fun s => .look_bind hlook (hf _ s)

/-- Either way of a test for a token. -/
theorem branch {k : Token.Kind} (hk : k ≠ .eof) (hx : Settles nowhere (n - 1) (n' - 1) x x')
    (hy : Settles nowhere n n' y y') :
    Settles nowhere n n' (Grammar.skip k >>= fun b => if b then x else y)
      (Grammar.skip k >>= fun b => if b then x' else y') :=
  fun s => .skip_bind hk (fun _ h => h.elim) hx (hy s)

theorem branchKeyword {k : Keyword} (hx : SettlesBehind nowhere (n - 1) (n' - 1) x x')
    (hy : Settles nowhere n n' y y') :
    Settles nowhere n n' (Grammar.skipKeyword k >>= fun b => if b then x else y)
      (Grammar.skipKeyword k >>= fun b => if b then x' else y') :=
  fun s => .skipKeyword_bind (fun _ h => h.elim) hx (hy s)

theorem branchAny {ks : List Keyword} (hx : Settles nowhere (n - 1) (n' - 1) x x') (hy : Settles nowhere n n' y y') :
    Settles nowhere n n' (Grammar.skipAny ks >>= fun b => if b then x else y)
      (Grammar.skipAny ks >>= fun b => if b then x' else y') :=
  fun s => .skipAny_bind (fun _ h => h.elim) hx (hy s)

/-- What may stand behind a keyword. -/
theorem whenKeyword {k : Keyword} {x x' : Parser Unit} (hx : SettlesBehind nowhere (n - 1) (n' - 1) x x') :
    Settles nowhere n n' (Grammar.skipKeyword k >>= fun b => if b then x else Pure.pure ())
      (Grammar.skipKeyword k >>= fun b => if b then x' else Pure.pure ()) :=
  branchKeyword hx pure

theorem skip {k : Token.Kind} (hk : k ≠ .eof) : Settles nowhere n n' (Grammar.skip k) (Grammar.skip k) := by
  intro s
  rw [← bind_pure (Grammar.skip k)]
  exact .skip_bind hk (fun _ h => h.elim) pure .pure

theorem skipKeyword {k : Keyword} : Settles nowhere n n' (Grammar.skipKeyword k) (Grammar.skipKeyword k) := by
  intro s
  rw [← bind_pure (Grammar.skipKeyword k)]
  exact .skipKeyword_bind (fun _ h => h.elim) pure.behind .pure

theorem skipAny {ks : List Keyword} : Settles nowhere n n' (Grammar.skipAny ks) (Grammar.skipAny ks) := by
  intro s
  rw [← bind_pure (Grammar.skipAny ks)]
  exact .skipAny_bind (fun _ h => h.elim) pure .pure

/-! ## Filling the statement -/

theorem modify {put : Statement → Statement} : Settles anywhere n n' (modifyStatement put) (modifyStatement put) := by
  intro s
  rw [← bind_pure (modifyStatement put)]
  exact .modify_bind .pure

theorem claimParameter : Settles anywhere n n' Grammar.claimParameter Grammar.claimParameter :=
  fun _ => .inspect_bind (fun _ => rfl) (.modify_bind .pure)

theorem recordTable {rule : Rule} {name : String} {t : Token} :
    Settles anywhere n n' (Grammar.recordTable rule name t) (Grammar.recordTable rule name t) := by
  unfold Grammar.recordTable
  split
  · exact modify
  · exact pure

/-! ## Loops -/

/-- A loop with a bound for its rounds, in two texts with a bound each, both more than the tokens left.  At the end of
the input it does nothing, so that where one of the bounds is used up the other does not matter. -/
theorem rounds {γ : Type} {loop loop' : Nat → γ → Parser β} (result : γ → β)
    (heof : ∀ r c s, s.cursor.kind = .eof → loop r c s = .ok (result c) s)
    (heof' : ∀ r c s, s.cursor.kind = .eof → loop' r c s = .ok (result c) s)
    (hsucc : ∀ r r', (∀ c, Settles nowhere (min n (r + 1)) (min n' (r' + 1)) (loop r c) (loop' r' c)) →
      ∀ c, Settles nowhere (min n (r + 2)) (min n' (r' + 2)) (loop (r + 1) c) (loop' (r' + 1) c)) (r r' : Nat) (c : γ) :
    Settles nowhere (min n (r + 1)) (min n' (r' + 1)) (loop r c) (loop' r' c) := by
  induction r generalizing r' c with
  | zero =>
    intro s hs hlt
    have hk : s.cursor.kind = .eof := Cursor.kind_of_rest_nil hs (List.length_eq_zero_iff.1 (by omega))
    rw [heof 0 c s hk]
    refine ⟨[], .refl, fun b b' _ _ hb hmeets => ?_⟩
    have hkb : (s.moved b).cursor.kind = .eof := (congrArg Token.kind (hb.eq ▸ hmeets.alike.current)).trans hk
    rw [heof' r' c _ hkb, hb.eq]
  | succ r ih =>
    cases r' with
    | succ r' => exact hsucc r r' (ih r') c
    | zero =>
      intro s hs hlt
      refine ((hsucc r 0 (ih 0) c s hs hlt).mono (fun _ => id) (by omega)).congrAt fun b hb hlt' _ => ?_
      have hkb : b.kind = .eof := Cursor.kind_of_rest_nil hb (List.length_eq_zero_iff.1 (by omega))
      rw [heof' 0 c (s.moved b) hkb, heof' 1 c (s.moved b) hkb]

/-- As many rounds as there are tokens left. -/
theorem tokensLeft_bind {g g' : Nat → Parser β}
    (h : ∀ r r', Settles nowhere (min n (r + 1)) (min n' (r' + 1)) (g r) (g' r')) :
    Settles nowhere n n' (tokensLeft >>= g) (tokensLeft >>= g') := by
  intro s hs hlt
  have h := fun r' => h s.cursor.rest.length r' s hs (by omega)
  show Settled nowhere True n' s (tokensLeft >>= g') (g s.cursor.rest.length s)
  cases hr : g s.cursor.rest.length s with
  | ok a t =>
    rw [hr] at h
    obtain ⟨ts, hts, -⟩ := h 0
    refine ⟨ts, hts, fun b b' hb hlt' hbts hmeets => ?_⟩
    obtain ⟨us, hus, hall⟩ := h b.rest.length
    exact hall b b' hb (by omega) (hts.unique hus ▸ hbts) hmeets
  | error e t =>
    rw [hr] at h
    obtain ⟨ts, hts, hlocated, -⟩ := h 0
    refine ⟨ts, hts, hlocated, fun b b' hb hlt' hbts hrests => ?_⟩
    obtain ⟨us, hus, -, hall⟩ := h b.rest.length
    exact hall b b' hb (by omega) (hts.unique hus ▸ hbts) hrests

/-! ## Lists -/

section
variable {item item' : Parser α}

/-- What follows the first item of a list. -/
def furtherItems (item : Parser α) : Nat → α → Parser (List α)
  | 0, first => return [first]
  | rounds + 1, first => do
    if ← Grammar.skip .comma then return first :: (← Grammar.separated item rounds) else return [first]

theorem separated_eq (item : Parser α) (rounds : Nat) :
    Grammar.separated item rounds = item >>= furtherItems item rounds := by
  cases rounds <;> rfl

theorem furtherItems_of_eof {rounds : Nat} {first : α} (hk : s.cursor.kind = .eof) :
    furtherItems item rounds first s = .ok [first] s := by
  cases rounds with
  | zero => rfl
  | succ rounds => exact bind_of_ok (skipWhen_of_false (by rw [hk]; rfl)) _

theorem separated (hi : Settles nowhere n n' item item') (r r' : Nat) :
    Settles nowhere (min n (r + 1)) (min n' (r' + 1)) (Grammar.separated item r) (Grammar.separated item' r') := by
  have hfurther : ∀ r r' first,
      Settles nowhere (min n (r + 1)) (min n' (r' + 1)) (furtherItems item r first) (furtherItems item' r' first) := by
    refine rounds (fun first => [first]) (fun _ _ _ => furtherItems_of_eof) (fun _ _ _ => furtherItems_of_eof)
      fun r r' ih first => ?_
    refine branch nofun (bind ?_ fun _ => pure) pure
    rw [separated_eq, separated_eq]
    exact (bind (hi.fewer (by omega) (by omega)) ih).fewer (by omega) (by omega)
  rw [separated_eq, separated_eq]
  exact bind (hi.fewer (by omega) (by omega)) (hfurther r r')

theorem commaSeparated (hi : Settles nowhere n n' item item') :
    Settles nowhere n n' (Grammar.commaSeparated item) (Grammar.commaSeparated item') :=
  tokensLeft_bind fun r r' => separated hi r r'

theorem eachSeparated {item item' : Parser Unit} (hi : Settles nowhere n n' item item') :
    Settles nowhere n n' (Grammar.eachSeparated item) (Grammar.eachSeparated item') :=
  bind (commaSeparated hi) fun _ => pure

end

end Settles

end

end Grammar

end SelectRouting
