import SelectRouting.Proofs.Prefix.Expression
import SelectRouting.Proofs.Prior.Marks
/-!
# The same run without marks

A parser that ends with a value where marks are allowed is compared with one that reads the same tokens without the marks,
where marks are not allowed: that ends with the same value, in front of the same token and with the same statement
(`Unmarks`).  The second text has fewer tokens, and so the two parsers may differ in the bounds for loops and nesting.  What
stands in front of a mark sees another token in the second text, so it is recorded how the tokens that are passed begin
(`Front`): behind an inner expression nothing begins with a mark, and an operand that does is seen at its own first token.
-/
namespace SelectRouting.Grammar

open Cursor (Reaches)
open Token (unmark Unstarred Opens)

/-- The same state at another place, where marks are not allowed. -/
def State.plain (s : State) (c : Cursor) : State :=
  ⟨c, s.statement, false⟩

/-! ## How tokens begin -/

/-- What is known of how some tokens begin. -/
inductive Front where
  | any
  /-- They begin with no mark. -/
  | closed
  /-- They begin with an operand, which may be marked. -/
  | opened

def Front.Holds : Front → List Token → Prop
  | any, _ => True
  | closed, ts => ∀ t ∈ ts.head?, t.kind ≠ .keyword .prior
  | opened, ts => Opens ts

namespace Front

variable {F : Front} {t : Token} {ts us : List Token} {b b' c u : Cursor}

theorem closed_nil : closed.Holds [] := nofun

theorem closed_cons (h : t.kind ≠ .keyword .prior) : closed.Holds (t :: ts) :=
  fun _ hu => Option.some.inj hu ▸ h

theorem append (h : F.Holds ts) (hus : closed.Holds us) : F.Holds (ts ++ us) := by
  cases F with
  | any => trivial
  | opened => exact Opens.append h
  | closed =>
    cases ts with
    | nil => exact hus
    | cons t ts => exact h

/-- In front of tokens that begin with no mark, the same token is seen without the marks. -/
theorem current_of_closed (h : closed.Holds ts) (hu : Reaches c ts u) (hb : Reaches b (unmark ts) b')
    (hcurrent : b'.current = u.current) : b.current = c.current := by
  cases ts with
  | nil => rwa [hu.eq, hb.eq]
  | cons t ts =>
    rw [Token.unmark_cons (h t rfl)] at hb
    exact hb.current_eq.trans hu.current_eq.symm

end Front

/-! ## The judgement -/

section
variable {α β : Type}

/-- A parser has passed some tokens when it ends with a value, and without the marks a second parser ends with the same.
Each text has fewer tokens left than a bound of its own. -/
def Unmarks (F : Front) (n n' : Nat) (s : State) (p p' : Parser α) : Prop :=
  Token.Complete s.cursor.tokens → s.cursor.rest.length < n → s.priorAllowed = true → ∀ a t, p s = .ok a t →
    t.priorAllowed = true ∧ ∃ ts, Reaches s.cursor ts t.cursor ∧ F.Holds ts ∧ (Unstarred ts →
      ∀ b b', Token.Complete b.tokens → b.rest.length < n' → Reaches b (unmark ts) b' →
        b'.current = t.cursor.current → p' (s.plain b) = .ok a (t.plain b'))

namespace Unmarks

variable {F G : Front} {n n' m m' : Nat} {s : State} {p p' q q' : Parser α} {f f' : α → Parser β}

theorem any (h : Unmarks F n n' s p p') : Unmarks .any n n' s p p' := by
  intro hs hlt hallowed a t hr
  obtain ⟨ht, ts, hts, -, hall⟩ := h hs hlt hallowed a t hr
  exact ⟨ht, ts, hts, trivial, hall⟩

theorem fewer (hm : m ≤ n) (hm' : m' ≤ n') (h : Unmarks F n n' s p p') : Unmarks F m m' s p p' := by
  intro hs hlt hallowed a t hr
  obtain ⟨ht, ts, hts, hfront, hall⟩ := h hs (Nat.lt_of_lt_of_le hlt hm) hallowed a t hr
  exact ⟨ht, ts, hts, hfront, fun hun b b' hb hlt' => hall hun b b' hb (Nat.lt_of_lt_of_le hlt' hm')⟩

/-- No text has fewer than no tokens left. -/
theorem vacuous (h : Unmarks F n n' s p p') : Unmarks F n 0 s p q' := by
  intro hs hlt hallowed a t hr
  obtain ⟨ht, ts, hts, hfront, -⟩ := h hs hlt hallowed a t hr
  exact ⟨ht, ts, hts, hfront, fun _ _ _ _ hlt' => absurd hlt' (Nat.not_lt_zero _)⟩

theorem congr (h : Unmarks F n n' s q q') (hrun : s.priorAllowed = true → p s = q s)
    (hrun' : ∀ b, p' (s.plain b) = q' (s.plain b)) : Unmarks F n n' s p p' := by
  intro hs hlt hallowed a t hr
  rw [hrun hallowed] at hr
  obtain ⟨ht, ts, hts, hfront, hall⟩ := h hs hlt hallowed a t hr
  refine ⟨ht, ts, hts, hfront, fun hun b b' hb hlt' hbts hcurrent => ?_⟩
  rw [hrun' b]
  exact hall hun b b' hb hlt' hbts hcurrent

/-- What does not stand in front of a mark passes none first. -/
theorem closed (hk : s.cursor.kind ≠ .keyword .prior) (h : Unmarks F n n' s p p') : Unmarks .closed n n' s p p' := by
  intro hs hlt hallowed a t hr
  obtain ⟨ht, ts, hts, -, hall⟩ := h hs hlt hallowed a t hr
  refine ⟨ht, ts, hts, fun u hu => ?_, hall⟩
  obtain ⟨us, rfl⟩ := List.head?_eq_some_iff.1 hu
  rw [← hts.current_eq]
  exact hk

theorem of_fails (h : ∀ a t, p s ≠ .ok a t) : Unmarks F n n' s p p' :=
  fun _ _ _ a t hr => absurd hr (h a t)

theorem unexpected {expected : String} : Unmarks F n n' s (Grammar.unexpected expected) p' :=
  of_fails fun _ _ => nofun

theorem unsupported {construct : String} : Unmarks F n n' s (Grammar.unsupported construct) p' :=
  of_fails fun _ _ => nofun

theorem pure {a : α} : Unmarks .closed n n' s (Pure.pure a) (Pure.pure a) := by
  intro _ _ hallowed _ _ hr
  cases hr
  refine ⟨hallowed, [], .refl, Front.closed_nil, fun _ b b' _ _ hb _ => ?_⟩
  rw [← Reaches.eq hb]
  rfl

/-- One parser behind another that begins with no mark. -/
theorem bind (hp : Unmarks F n n' s p p') (hf : ∀ a t, Unmarks .closed n n' t (f a) (f' a)) :
    Unmarks F n n' s (p >>= f) (p' >>= f') := by
  intro hs hlt hallowed c u hr
  obtain ⟨a, t, hr, hr'⟩ := ok_of_bind hr
  obtain ⟨ht, ts, hts, hfront, hall⟩ := hp hs hlt hallowed a t hr
  have hlength := hts.length_rest
  obtain ⟨hu, us, hus, hclosed, hall'⟩ := hf a t (hts.complete hs) (by omega) ht c u hr'
  refine ⟨hu, ts ++ us, hts.trans hus, Front.append hfront hclosed, fun hun b b'' hb hlt' hbts hcurrent => ?_⟩
  obtain ⟨hun, hun'⟩ := hun.split
  rw [Token.unmark_append] at hbts
  -- On the second text, the first parser stops at the cursor between the tokens of both.
  obtain ⟨b', hb', hb''⟩ := hbts.split
  have hlength' := hb'.length_rest
  rw [bind_of_ok (hall hun b b' hb hlt' hb' (Front.current_of_closed hclosed hus hb'' hcurrent))]
  exact hall' hun' b' b'' (hb'.complete hb) (by omega) hb'' hcurrent

theorem reassoc {γ : Type} {g g' : β → Parser γ}
    (h : Unmarks F n n' s (p >>= fun a => f a >>= g) (p' >>= fun a => f' a >>= g')) :
    Unmarks F n n' s ((p >>= f) >>= g) ((p' >>= f') >>= g') := by
  rw [bind_assoc, bind_assoc]
  exact h

theorem advanced_lt (hs : Token.Complete s.cursor.tokens) (heof : s.cursor.kind ≠ .eof)
    (hlt : s.cursor.rest.length < n) : s.advanced.cursor.rest.length < n - 1 := by
  have hlength := Cursor.length_rest_advance hs heof
  show s.cursor.advance.rest.length < n - 1
  omega

/-- To pass the current token, which is no mark.  What is behind it may be seen to begin an operand. -/
theorem passing (hk : s.cursor.kind ≠ .keyword .prior) (heof : s.cursor.kind ≠ .eof)
    (h : Unmarks F (n - 1) (n' - 1) s.advanced q q') (hrun : p s = q s.advanced)
    (hrun' : ∀ b, b.current = s.cursor.current → (F = .opened → b.advance.kind.awaited = false) →
      p' (s.plain b) = q' (s.plain b).advanced) : Unmarks .closed n n' s p p' := by
  intro hs hlt hallowed a t hr
  rw [hrun] at hr
  have hlt := advanced_lt hs heof hlt
  obtain ⟨ht, ts, hts, hfront, hall⟩ := h (Cursor.complete_advance hs) hlt hallowed a t hr
  refine ⟨ht, s.cursor.current :: ts, (Reaches.advance hs heof).trans hts, Front.closed_cons hk, fun hun b b' hb hlt' hbts hcurrent => ?_⟩
  rw [Token.unmark_cons hk] at hbts
  obtain ⟨hne, hbts'⟩ := hbts.advance_of_cons hb
  have hlength := Cursor.length_rest_advance hb hne
  rw [hrun' b hbts.current_eq fun hF => ?_]
  · exact hall hun.behind b.advance b' (Cursor.complete_advance hb) (by omega) hbts' hcurrent
  · rw [hF] at hfront
    obtain ⟨x, us, hx, hawaited⟩ := Opens.first hfront
    rw [hx] at hbts'
    rw [Cursor.kind, hbts'.current_eq]
    exact hawaited

/-- To pass a mark, which the second text does not have. -/
theorem passingMark (hk : s.cursor.kind = .keyword .prior) (h : Unmarks F (n - 1) n' s.advanced q p')
    (hrun : s.priorAllowed = true → p s = q s.advanced) : Unmarks .any n n' s p p' := by
  intro hs hlt hallowed a t hr
  rw [hrun hallowed] at hr
  have heof : s.cursor.kind ≠ .eof := hk ▸ nofun
  have hlt := advanced_lt hs heof hlt
  obtain ⟨ht, ts, hts, -, hall⟩ := h (Cursor.complete_advance hs) hlt hallowed a t hr
  refine ⟨ht, s.cursor.current :: ts, (Reaches.advance hs heof).trans hts, trivial, fun hun b b' hb hlt' hbts hcurrent => ?_⟩
  rw [Token.unmark_mark hk] at hbts
  exact hall hun.behind b b' hb hlt' hbts hcurrent

/-- In front of a mark, a second parser sees the first token of the operand. -/
theorem atMark (hk : s.cursor.kind = .keyword .prior) (h : Unmarks .opened n n' s q q') (hrun : p s = q s)
    (hrun' : ∀ b, b.kind.awaited = false → b.kind ≠ .star → p' (s.plain b) = q' (s.plain b)) :
    Unmarks .opened n n' s p p' := by
  intro hs hlt hallowed a t hr
  rw [hrun] at hr
  obtain ⟨ht, ts, hts, hfront, hall⟩ := h hs hlt hallowed a t hr
  refine ⟨ht, ts, hts, hfront, fun hun b b' hb hlt' hbts hcurrent => ?_⟩
  have hfirst : ∃ x us, unmark ts = x :: us ∧ x.kind.awaited = false ∧ x.kind ≠ .star := by
    have hmark : ∀ {x : Token} {us : List Token}, ts = x :: us → x.kind = .keyword .prior := fun hx => by
      rw [hx] at hts
      rw [← hts.current_eq]
      exact hk
    cases hfront with
    | operand first => exact absurd (hmark rfl) (Token.ne_prior first)
    | marked mark behind =>
      rw [Token.unmark_mark mark]
      exact Opens.first_behind behind mark hun
  obtain ⟨x, us, hx, hawaited, hstar⟩ := hfirst
  have hkind : b.kind = x.kind := by
    rw [hx] at hbts
    rw [Cursor.kind, hbts.current_eq]
  rw [hrun' b (hkind ▸ hawaited) (hkind ▸ hstar)]
  exact hall hun b b' hb hlt' hbts hcurrent

/-! ## Steps -/

/-- A look at the current token. -/
theorem look_bind {look? : Cursor → α} (hlook : ∀ c c' : Cursor, c'.current = c.current → look? c' = look? c)
    (h : Unmarks .closed n n' s (f (look? s.cursor)) (f' (look? s.cursor))) :
    Unmarks .closed n n' s (look look? >>= f) (look look? >>= f') := by
  intro hs hlt hallowed a t hr
  obtain ⟨ht, ts, hts, hclosed, hall⟩ := h hs hlt hallowed a t hr
  refine ⟨ht, ts, hts, hclosed, fun hun b b' hb hlt' hbts hcurrent => ?_⟩
  rw [look_bind_apply, show look? (s.plain b).cursor = look? s.cursor from
    hlook _ _ (Front.current_of_closed hclosed hts hbts hcurrent)]
  exact hall hun b b' hb hlt' hbts hcurrent

theorem modify_bind {put : Statement → Statement} {g g' : Unit → Parser β}
    (h : Unmarks F n n' { s with statement := put s.statement } (g ()) (g' ())) :
    Unmarks F n n' s (modifyStatement put >>= g) (modifyStatement put >>= g') :=
  h

theorem claimParameter_bind {g g' : Nat → Parser β} (h : ∀ i t, Unmarks .closed n n' t (g i) (g' i)) :
    Unmarks .closed n n' s (claimParameter >>= g) (claimParameter >>= g') :=
  h s.statement.parameters { s with statement := s.statement.claimParameter }

theorem recordTable_bind {rule : Rule} {name : String} {token : Token} {g g' : Unit → Parser β}
    (h : ∀ t, Unmarks .closed n n' t (g ()) (g' ())) :
    Unmarks .closed n n' s (recordTable rule name token >>= g) (recordTable rule name token >>= g') := by
  unfold recordTable
  split
  · exact modify_bind (h _)
  · exact h s

theorem advance_bind {g g' : Unit → Parser β} (hk : s.cursor.kind ≠ .keyword .prior) (heof : s.cursor.kind ≠ .eof)
    (h : Unmarks F (n - 1) (n' - 1) s.advanced (g ()) (g' ())) :
    Unmarks .closed n n' s (advance >>= g) (advance >>= g') :=
  passing hk heof h rfl fun _ _ _ => rfl

/-- Whether a parenthesis opens a subquery is seen at the token behind it, which no operand begins with. -/
theorem rejectSubquery {x x' z z' : Parser β} (hother : s.cursor.kind ≠ .leftParen → ∀ a t, x s ≠ .ok a t)
    (hx : ∀ s : State, s.cursor.kind = .leftParen → x s = z s.advanced)
    (hx' : ∀ s : State, s.cursor.kind = .leftParen → x' s = z' s.advanced)
    (hinside : Unmarks .opened (n - 1) (n' - 1) s.advanced z z') :
    Unmarks .closed n n' s (look (·.atSubquery) >>= fun b => if b then Grammar.unsupported "subquery" else x)
      (look (·.atSubquery) >>= fun b => if b then Grammar.unsupported "subquery" else x') := by
  cases hsub : s.cursor.atSubquery with
  | true =>
    refine of_fails fun a t hr => ?_
    rw [unsupportedIf_of_true x hsub] at hr
    cases hr
  | false =>
    by_cases hk : s.cursor.kind = .leftParen
    · refine passing (hk ▸ nofun) (hk ▸ nofun) hinside ((unsupportedIf_of_false x hsub).trans (hx s hk))
        fun b hb hbehind => ?_
      have hkb : b.kind = .leftParen := (congrArg Token.kind hb).trans hk
      refine (unsupportedIf_of_false x' ?_).trans (hx' (s.plain b) hkb)
      rw [show (s.plain b).cursor.atSubquery = b.advance.atKeyword .select from Cursor.atSubquery_of_kind hkb]
      have hawaited := hbehind rfl
      exact Bool.eq_false_iff.2 fun hat => by rw [Cursor.kind_of_atKeyword hat] at hawaited; cases hawaited
    · refine of_fails fun a t hr => hother hk a t ?_
      rw [← hr]
      exact (unsupportedIf_of_false x hsub).symm

/-- Behind a token that has to stand there, and is no mark. -/
theorem demand_bind {value? : Token → Option α} {expected : String} {q : Parser α} (hq : Demands q value? expected)
    (hvalue : ∀ t a, value? t = some a → t.kind ≠ .keyword .prior ∧ t.kind ≠ .eof)
    (h : ∀ a, value? s.cursor.current = some a → Unmarks F (n - 1) (n' - 1) s.advanced (f a) (f' a)) :
    Unmarks .closed n n' s (q >>= f) (q >>= f') := by
  cases hv : value? s.cursor.current with
  | some a =>
    have hrun : q s = .ok a s.advanced := by rw [hq s, hv]
    refine passing (hvalue _ a hv).1 (hvalue _ a hv).2 (h a hv) (bind_of_ok hrun f) fun b hb _ => ?_
    have hrun' : q (s.plain b) = .ok a (s.plain b).advanced := by
      rw [hq (s.plain b), show (s.plain b).cursor.current = s.cursor.current from hb, hv]
    exact bind_of_ok hrun' f'
  | none =>
    refine of_fails fun a t hr => ?_
    obtain ⟨a, t, hr, -⟩ := ok_of_bind hr
    rw [hq s, hv] at hr
    cases hr

theorem expect_bind {k : Token.Kind} {g g' : Span → Parser β} (hbare : k.Bare) (hk : k ≠ .keyword .prior)
    (heof : k ≠ .eof) (h : ∀ span t, Unmarks F (n - 1) (n' - 1) t (g span) (g' span)) :
    Unmarks .closed n n' s (expect k >>= g) (expect k >>= g') := by
  refine demand_bind (demands_expect k) (fun t a ht => ?_) fun a _ => h a s.advanced
  rw [Token.Kind.eq_of_alike (test_of_placeIf ht) hbare]
  exact ⟨hk, heof⟩

theorem expectKeyword_bind {k : Keyword} {g g' : Span → Parser β} (hk : k ≠ .prior)
    (h : ∀ span t, Unmarks F (n - 1) (n' - 1) t (g span) (g' span)) :
    Unmarks .closed n n' s (expectKeyword k >>= g) (expectKeyword k >>= g') := by
  refine demand_bind (demands_expectKeyword k) (fun t a ht => ?_) fun a _ => h a s.advanced
  rw [Token.Kind.eq_of_keyword? (of_decide_eq_true (test_of_placeIf ht))]
  exact Token.Kind.keyword_ne hk

theorem expectName_bind {g g' : String → Parser β} (h : ∀ name t, Unmarks F (n - 1) (n' - 1) t (g name) (g' name)) :
    Unmarks .closed n n' s (expectName >>= g) (expectName >>= g') :=
  demand_bind demands_expectName
    (fun _ _ ht => ⟨Token.ne_prior (Token.not_awaited_of_name? ht), (eof_of_name? ht).1⟩) fun a _ => h a s.advanced

theorem skipWhen_bind {test : Cursor → Bool} {g g' : Bool → Parser β}
    (htest : ∀ c c' : Cursor, c'.current = c.current → test c' = test c)
    (hpass : test s.cursor = true → s.cursor.kind ≠ .keyword .prior ∧ s.cursor.kind ≠ .eof)
    (htrue : test s.cursor = true → Unmarks F (n - 1) (n' - 1) s.advanced (g true) (g' true))
    (hfalse : test s.cursor = false → Unmarks .closed n n' s (g false) (g' false)) :
    Unmarks .closed n n' s (skipWhen test >>= g) (skipWhen test >>= g') := by
  rw [Grammar.skipWhen_bind, Grammar.skipWhen_bind]
  refine look_bind htest ?_
  cases ht : test s.cursor with
  | true => exact advance_bind (hpass ht).1 (hpass ht).2 (htrue ht)
  | false => exact hfalse ht

theorem skip_bind {k : Token.Kind} {g g' : Bool → Parser β} (hbare : k.Bare) (hk : k ≠ .keyword .prior) (heof : k ≠ .eof)
    (htrue : Unmarks F (n - 1) (n' - 1) s.advanced (g true) (g' true))
    (hfalse : Unmarks .closed n n' s (g false) (g' false)) :
    Unmarks .closed n n' s (skip k >>= g) (skip k >>= g') := by
  refine skipWhen_bind (fun c c' h => by rw [Cursor.kind, Cursor.kind, h]) (fun ht => ?_) (fun _ => htrue) fun _ => hfalse
  rw [Token.Kind.eq_of_alike ht hbare]
  exact ⟨hk, heof⟩

theorem skipKeyword_bind {k : Keyword} {g g' : Bool → Parser β} (hk : k ≠ .prior)
    (htrue : s.cursor.kind = .keyword k → Unmarks F (n - 1) (n' - 1) s.advanced (g true) (g' true))
    (hfalse : Unmarks .closed n n' s (g false) (g' false)) :
    Unmarks .closed n n' s (skipKeyword k >>= g) (skipKeyword k >>= g') := by
  refine skipWhen_bind (fun c c' h => by rw [Cursor.atKeyword, Cursor.keyword?, Cursor.kind, h]; rfl) (fun ht => ?_)
    (fun ht => htrue (Cursor.kind_of_atKeyword ht)) fun _ => hfalse
  rw [Cursor.kind_of_atKeyword ht]
  exact Token.Kind.keyword_ne hk

/-! ## Loops -/

/-- As many rounds as there are tokens left. -/
theorem tokensLeft_bind {g g' : Nat → Parser β}
    (h : ∀ r r', Unmarks F (min n (r + 1)) (min n' (r' + 1)) s (g r) (g' r')) :
    Unmarks F n n' s (tokensLeft >>= g) (tokensLeft >>= g') := by
  intro hs hlt hallowed a t hr
  have hrun : g s.cursor.rest.length s = .ok a t := hr
  have h := fun r' => h s.cursor.rest.length r' hs (by omega) hallowed a t hrun
  obtain ⟨ht, ts, hts, hfront, -⟩ := h 0
  refine ⟨ht, ts, hts, hfront, fun hun b b' hb hlt' hbts hcurrent => ?_⟩
  obtain ⟨-, us, hus, -, hall⟩ := h b.rest.length
  obtain rfl := hts.unique hus
  exact hall hun b b' hb (by omega) hbts hcurrent

/-- A loop that at the end of the input does nothing, so that where one of the bounds for its rounds is used up the other
does not matter. -/
theorem rounds {γ : Type} {loop loop' : Nat → γ → Parser β} (result : γ → β)
    (heof : ∀ r c s, s.cursor.kind = .eof → loop r c s = .ok (result c) s)
    (heof' : ∀ r c s, s.cursor.kind = .eof → loop' r c s = .ok (result c) s)
    (hsucc : ∀ r r', (∀ c s, Unmarks .closed (min n (r + 1)) (min n' (r' + 1)) s (loop r c) (loop' r' c)) →
      ∀ c s, Unmarks .closed (min n (r + 2)) (min n' (r' + 2)) s (loop (r + 1) c) (loop' (r' + 1) c)) (r r' : Nat) (c : γ)
    (s : State) : Unmarks .closed (min n (r + 1)) (min n' (r' + 1)) s (loop r c) (loop' r' c) := by
  induction r generalizing r' c s with
  | zero =>
    intro hs hlt hallowed a t hr
    have hk : s.cursor.kind = .eof := Cursor.kind_of_rest_nil hs (List.length_eq_zero_iff.1 (by omega))
    rw [heof 0 c s hk] at hr
    cases hr
    refine ⟨hallowed, [], .refl, Front.closed_nil, fun _ b b' _ _ hb hcurrent => ?_⟩
    obtain rfl := Reaches.eq hb
    exact heof' r' c (s.plain b) ((congrArg Token.kind hcurrent).trans hk)
  | succ r ih =>
    cases r' with
    | succ r' => exact hsucc r r' (ih r') c s
    | zero =>
      intro hs hlt hallowed a t hr
      obtain ⟨ht, ts, hts, hclosed, hall⟩ := hsucc r 0 (ih 0) c s hs (by omega) hallowed a t hr
      refine ⟨ht, ts, hts, hclosed, fun hun b b' hb hlt' hbts hcurrent => ?_⟩
      have hkb : b.kind = .eof := Cursor.kind_of_rest_nil hb (List.length_eq_zero_iff.1 (by omega))
      rw [← hall hun b b' hb (by omega) hbts hcurrent, heof' 0 c (s.plain b) hkb, heof' 1 c (s.plain b) hkb]

end Unmarks

end

end SelectRouting.Grammar
