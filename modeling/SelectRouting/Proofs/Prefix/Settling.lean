import SelectRouting.Proofs.Nesting.Passing
import SelectRouting.Proofs.Prefix.Sight
/-!
# What a parser has passed settles how it ends

A parser that ends has looked no further than the place where it stops.  So on a second text that agrees with the first
up to there it ends in the same way: with the same value, if it may stop in front of what follows, or with the same
error (`SettlesAt`).  The second text may have more tokens or fewer, and with them other bounds for loops and nesting;
so two parsers are compared that differ in nothing but these bounds, and each bound is more than the tokens that are left.
The rules here follow the steps that parsers are made of; what a parser may see at its end is said in `Meets`, and where
its errors lie in `Located`.
-/
namespace SelectRouting.Grammar

open Cursor (Reaches Alike)

/-- The same state at another place. -/
def State.moved (s : State) (c : Cursor) : State :=
  { s with cursor := c }

/-! ## Ends -/

/-- Two cursors at which a parser comes to the same end: they are alike, or the second is at a mark where it ends
anyway. -/
def Meets (marks : Cursor → Prop) (c c' : Cursor) : Prop :=
  Alike c c' ∨ marks c'

/-- No mark. -/
def nowhere (_ : Cursor) : Prop :=
  False

/-- A parser that ends with passing a token does not look at what follows. -/
def anywhere (_ : Cursor) : Prop :=
  True

theorem Meets.alike {c c' : Cursor} (h : Meets nowhere c c') : Alike c c' :=
  h.resolve_right id

theorem Meets.mono {marks marks' : Cursor → Prop} (hmarks : ∀ c, marks c → marks' c) {c c' : Cursor}
    (h : Meets marks c c') : Meets marks' c c' :=
  h.imp_right (hmarks _)

/-- Cursors from which the same tokens lead to such an end have the same current token, or the second is at a mark. -/
theorem Meets.front {marks : Cursor → Prop} {c c' u w : Cursor} {ts : List Token} (h : Meets marks u w)
    (hu : Reaches c ts u) (hw : Reaches c' ts w) : c'.current = c.current ∨ marks c' := by
  cases ts with
  | nil =>
    rw [hu.eq, hw.eq]
    exact h.imp_left fun h => h.current
  | cons t ts => exact .inl (hw.current_eq.trans hu.current_eq.symm)

/-! ## Errors -/

/-- Where an error lies when a parser has failed at a cursor behind some tokens.  A construct is rejected at a `SELECT`
only behind a token other than an opening parenthesis; if there is none among the tokens, it must not have been opened. -/
inductive Located (opened : Prop) (c : Cursor) : ParseError → List Token → Prop where
  | unexpected (expected : String) (ts : List Token) : Located opened c ⟨.unexpected expected c.kind, c.span⟩ ts
  | unsupported (construct : String) (ts : List Token)
    (behind : c.kind = .keyword .select → match ts.getLast? with
      | some t => t.kind ≠ .leftParen
      | none => ¬ opened) : Located opened c ⟨.unsupported construct, c.span⟩ ts
  | negative {n : Int} (ts : List Token) (number : c.kind = .integer n) (below : n < 0) :
    Located opened c ⟨.invalid "Negative row count", c.span⟩ ts
  /-- The value of a `FETCH`, with the two words behind it. -/
  | fetched {v x y : Token} (ts : List Token) (value : v.kind = .question ∨ ∃ n, v.kind = .integer n) :
    Located opened c ⟨.invalid "Row count specified by both TOP and FETCH", v.span⟩ (ts ++ [v, x, y])

/-- What an error rests on at the place where the parser has failed, beside the tokens passed. -/
def Rests (e : ParseError) (c c' : Cursor) : Prop :=
  match e.cause with
  | .unexpected _ _ => Alike c c'
  | .unsupported _ => Alike c c' ∧ c'.atSubquery = c.atSubquery
  | .invalid message => message = "Negative row count" → Alike c c'

theorem Rests.refl {e : ParseError} {c : Cursor} : Rests e c c := by
  unfold Rests
  cases e.cause with
  | unexpected expected found => exact Alike.refl
  | unsupported construct => exact ⟨.refl, rfl⟩
  | invalid message => exact fun _ => .refl

namespace Located

variable {opened : Prop} {c : Cursor} {e : ParseError} {ts us : List Token}

/-- Behind other tokens an error lies where it lies. -/
theorem append {opened' : Prop} (ts : List Token) (h : Located opened' c e us)
    (hts : us = [] → ¬ opened' → match ts.getLast? with
      | some t => t.kind ≠ .leftParen
      | none => ¬ opened) : Located opened c e (ts ++ us) := by
  cases h with
  | unexpected expected => exact .unexpected expected _
  | unsupported construct _ behind =>
    refine .unsupported construct _ fun hk => ?_
    have hbehind := behind hk
    cases us with
    | nil =>
      rw [List.append_nil]
      exact hts rfl hbehind
    | cons u us =>
      rw [List.getLast?_append, List.getLast?_eq_some_getLast (List.cons_ne_nil u us), Option.some_or]
      rw [List.getLast?_eq_some_getLast (List.cons_ne_nil u us)] at hbehind
      exact hbehind
  | negative _ number below => exact .negative _ number below
  | fetched us value =>
    rw [← List.append_assoc]
    exact .fetched _ value

theorem weaken (h : Located True c e us) : Located opened c e us :=
  h.append [] fun _ hno => absurd trivial hno

/-- Where an error rests on what is seen at a cursor, the cursors in front of the tokens passed are alike. -/
theorem alike {b b' c₀ : Cursor} (h : Located opened c e us) (hr : Rests e c b') (hc : Reaches c₀ us c)
    (hb : Reaches b us b') : Alike c₀ b := by
  cases h with
  | unexpected expected => exact Alike.of_reaches hr hc hb
  | unsupported construct _ _ => exact Alike.of_reaches hr.1 hc hb
  | negative => exact Alike.of_reaches (hr rfl) hc hb
  | @fetched v x y us _ =>
    cases us with
    | nil => exact Alike.of_two hc hb
    | cons u us =>
      cases us with
      | nil => exact Alike.of_two hc hb
      | cons u' us => exact Alike.of_two hc hb

end Located

/-! ## The judgement -/

section
variable {marks marks' : Cursor → Prop} {opened : Prop} {n n' m m' : Nat} {s : State} {α β : Type}

/-- How a result is settled: on a text that agrees as far as tokens have been passed, with its own bound for the tokens
that are left, a parser has the same value, if it meets such an end, or the same error. -/
def Settled (marks : Cursor → Prop) (opened : Prop) (n' : Nat) (s : State) (p' : Parser α) :
    EStateM.Result ParseError State α → Prop
  | .ok a t => ∃ ts, Reaches s.cursor ts t.cursor ∧
    ∀ b b', Token.Complete b.tokens → b.rest.length < n' → Reaches b ts b' → Meets marks t.cursor b' →
      p' (s.moved b) = .ok a (t.moved b')
  | .error e t => ∃ ts, Reaches s.cursor ts t.cursor ∧ Located opened t.cursor e ts ∧
    ∀ b b', Token.Complete b.tokens → b.rest.length < n' → Reaches b ts b' → Rests e t.cursor b' →
      ∃ t', p' (s.moved b) = .error e t'

/-- From a state with fewer tokens left than a bound, the result is settled. -/
def SettlesAt (marks : Cursor → Prop) (opened : Prop) (n n' : Nat) (s : State) (p p' : Parser α) : Prop :=
  Token.Complete s.cursor.tokens → s.cursor.rest.length < n → Settled marks opened n' s p' (p s)

/-- From every state, also behind an opening parenthesis. -/
def Settles (marks : Cursor → Prop) (n n' : Nat) (p p' : Parser α) : Prop :=
  ∀ s, SettlesAt marks True n n' s p p'

/-- From every state that is not behind an opening parenthesis. -/
def SettlesBehind (marks : Cursor → Prop) (n n' : Nat) (p p' : Parser α) : Prop :=
  ∀ s, SettlesAt marks False n n' s p p'

variable {p p' : Parser α} {f f' : α → Parser β}

namespace Settled

variable {q' : Parser α} {r : EStateM.Result ParseError State α}

theorem mono (hmarks : ∀ c, marks c → marks' c) (hn : m' ≤ n') (h : Settled marks' opened n' s p' r) :
    Settled marks opened m' s p' r := by
  cases r with
  | ok a t =>
    obtain ⟨ts, hts, hall⟩ := h
    exact ⟨ts, hts, fun b b' hb hlt hbts hmeets =>
      hall b b' hb (Nat.lt_of_lt_of_le hlt hn) hbts (hmeets.mono hmarks)⟩
  | error e t =>
    obtain ⟨ts, hts, hlocated, hall⟩ := h
    exact ⟨ts, hts, hlocated, fun b b' hb hlt => hall b b' hb (Nat.lt_of_lt_of_le hlt hn)⟩

theorem weaken (h : Settled marks True n' s p' r) : Settled marks opened n' s p' r := by
  cases r with
  | ok a t => exact h
  | error e t =>
    obtain ⟨ts, hts, hlocated, hall⟩ := h
    exact ⟨ts, hts, hlocated.weaken, hall⟩

theorem congr (h : Settled marks opened n' s p' r) (hq : ∀ b, q' (s.moved b) = p' (s.moved b)) :
    Settled marks opened n' s q' r := by
  cases r with
  | ok a t =>
    obtain ⟨ts, hts, hall⟩ := h
    exact ⟨ts, hts, fun b b' hb hlt hbts hmeets => (hq b).trans (hall b b' hb hlt hbts hmeets)⟩
  | error e t =>
    obtain ⟨ts, hts, hlocated, hall⟩ := h
    refine ⟨ts, hts, hlocated, fun b b' hb hlt hbts hrests => ?_⟩
    obtain ⟨t', ht'⟩ := hall b b' hb hlt hbts hrests
    exact ⟨t', (hq b).trans ht'⟩

/-- A result that comes of passing the current token, which is then the same in both texts; so is the one behind it,
unless the second text is at a mark there. -/
theorem passing {opened' : Prop} (hs : Token.Complete s.cursor.tokens) (hk : s.cursor.kind ≠ .eof)
    (hopened : ¬ opened' → s.cursor.kind ≠ .leftParen) (h : Settled marks opened' (n' - 1) s.advanced p' r)
    (hq : ∀ b, b.current = s.cursor.current → b.advance.current = s.cursor.advance.current ∨ marks b.advance →
      q' (s.moved b) = p' (s.moved b).advanced) :
    Settled marks opened n' s q' r := by
  have hstep := Reaches.advance hs hk
  -- In the second text one token fewer is left behind the current one.
  have hsecond : ∀ {ts : List Token} {b b' : Cursor}, Token.Complete b.tokens → b.rest.length < n' →
      Reaches b (s.cursor.current :: ts) b' → b.current = s.cursor.current ∧ Token.Complete b.advance.tokens ∧
        b.advance.rest.length < n' - 1 ∧ Reaches b.advance ts b' := by
    intro ts b b' hb hlt hbts
    obtain ⟨hne, hadvance⟩ := hbts.advance_of_cons hb
    have hlength := Cursor.length_rest_advance hb hne
    exact ⟨hbts.current_eq, Cursor.complete_advance hb, by omega, hadvance⟩
  cases r with
  | ok a t =>
    obtain ⟨ts, hts, hall⟩ := h
    refine ⟨s.cursor.current :: ts, hstep.trans hts, fun b b' hb hlt hbts hmeets => ?_⟩
    obtain ⟨hcurrent, hb', hlt', hbts'⟩ := hsecond hb hlt hbts
    rw [hq b hcurrent (hmeets.front hts hbts')]
    exact hall b.advance b' hb' hlt' hbts' hmeets
  | error e t =>
    obtain ⟨ts, hts, hlocated, hall⟩ := h
    refine ⟨s.cursor.current :: ts, hstep.trans hts, ?_, fun b b' hb hlt hbts hrests => ?_⟩
    · exact hlocated.append [s.cursor.current] fun _ => hopened
    · obtain ⟨hcurrent, hb', hlt', hbts'⟩ := hsecond hb hlt hbts
      rw [hq b hcurrent (.inl (hlocated.alike hrests hts hbts').current)]
      exact hall b.advance b' hb' hlt' hbts' hrests

/-- Where a parser of the second text is another one only at places that do not meet the first. -/
theorem congrAt (h : Settled marks opened n' s p' r)
    (hq : ∀ b, Token.Complete b.tokens → b.rest.length < n' → b.current = s.cursor.current ∨ marks b →
      q' (s.moved b) = p' (s.moved b)) : Settled marks opened n' s q' r := by
  cases r with
  | ok a t =>
    obtain ⟨ts, hts, hall⟩ := h
    exact ⟨ts, hts, fun b b' hb hlt hbts hmeets =>
      (hq b hb hlt (hmeets.front hts hbts)).trans (hall b b' hb hlt hbts hmeets)⟩
  | error e t =>
    obtain ⟨ts, hts, hlocated, hall⟩ := h
    refine ⟨ts, hts, hlocated, fun b b' hb hlt hbts hrests => ?_⟩
    obtain ⟨t', ht'⟩ := hall b b' hb hlt hbts hrests
    exact ⟨t', (hq b hb hlt (.inl (hlocated.alike hrests hts hbts).current)).trans ht'⟩

/-- The same, of a parser that fails or passes the current token. -/
theorem congrPast (h : Settled marks opened n' s p' r) (hpast : ∀ a t, r = .ok a t → ¬ Reaches s.cursor [] t.cursor)
    (hq : ∀ b, b.current = s.cursor.current → q' (s.moved b) = p' (s.moved b)) : Settled marks opened n' s q' r := by
  cases r with
  | ok a t =>
    obtain ⟨ts, hts, hall⟩ := h
    refine ⟨ts, hts, fun b b' hb hlt hbts hmeets => ?_⟩
    cases ts with
    | nil => exact absurd hts (hpast a t rfl)
    | cons u ts =>
      rw [hq b (hbts.current_eq.trans hts.current_eq.symm)]
      exact hall b b' hb hlt hbts hmeets
  | error e t =>
    obtain ⟨ts, hts, hlocated, hall⟩ := h
    refine ⟨ts, hts, hlocated, fun b b' hb hlt hbts hrests => ?_⟩
    rw [hq b (hlocated.alike hrests hts hbts).current]
    exact hall b b' hb hlt hbts hrests

end Settled

namespace SettlesAt

theorem mono (hmarks : ∀ c, marks c → marks' c) (hn : m ≤ n) (hn' : m' ≤ n')
    (h : SettlesAt marks' opened n n' s p p') :
    SettlesAt marks opened m m' s p p' :=
  fun hs hlt => (h hs (Nat.lt_of_lt_of_le hlt hn)).mono hmarks hn'

theorem weaken (h : SettlesAt marks True n n' s p p') : SettlesAt marks opened n n' s p p' :=
  fun hs hlt => (h hs hlt).weaken

theorem pure {a : α} : SettlesAt marks opened n n' s (Pure.pure a) (Pure.pure a) :=
  fun _ _ => ⟨[], .refl, fun _ _ _ _ hb _ => by rw [← hb.eq]; rfl⟩

/-- One parser behind another.  What the first sees at its end, `hfront`, follows from what the second sees at its own. -/
theorem bindWith {opened' : Prop} (hp : SettlesAt marks' opened n n' s p p')
    (hf : ∀ a t, p s = .ok a t → SettlesAt marks opened' n n' t (f a) (f' a))
    (hfront : ∀ a t b u ts w w', Token.Complete t.cursor.tokens → p s = .ok a t → f a t = .ok b u →
      Reaches t.cursor ts u.cursor → Reaches w ts w' → Meets marks u.cursor w' → Meets marks' t.cursor w)
    (hopened : ¬ opened' → ∀ a t ts, p s = .ok a t → Reaches s.cursor ts t.cursor → match ts.getLast? with
      | some t => t.kind ≠ .leftParen
      | none => ¬ opened) :
    SettlesAt marks opened n n' s (p >>= f) (p' >>= f') := by
  intro hs hlt
  have hp := hp hs hlt
  rw [bind_apply]
  cases hr : p s with
  | error e t =>
    rw [hr] at hp
    obtain ⟨ts, hts, hlocated, hall⟩ := hp
    refine ⟨ts, hts, hlocated, fun b b' hb hlt' hbts hrests => ?_⟩
    obtain ⟨t', ht'⟩ := hall b b' hb hlt' hbts hrests
    exact ⟨t', by rw [bind_apply, ht']⟩
  | ok a t =>
    rw [hr] at hp
    obtain ⟨ts, hts, hall⟩ := hp
    have hlength := hts.length_rest
    have hf := hf a t hr (hts.complete hs) (by omega)
    -- On the second text, the first parser stops at the cursor between the tokens of both.
    have hfirst : ∀ us b b'', Token.Complete b.tokens → b.rest.length < n' → Reaches b (ts ++ us) b'' →
        (∀ b', Reaches b' us b'' → Meets marks' t.cursor b') → ∃ b', Token.Complete b'.tokens ∧ b'.rest.length < n' ∧
          Reaches b' us b'' ∧ p' (s.moved b) = .ok a (t.moved b') := by
      intro us b b'' hb hlt' hbts hmeets
      obtain ⟨b', hb', hb''⟩ := hbts.split
      have hlength' := hb'.length_rest
      exact ⟨b', hb'.complete hb, by omega, hb'', hall b b' hb hlt' hb' (hmeets b' hb'')⟩
    show Settled marks opened n' s (p' >>= f') (f a t)
    cases hr' : f a t with
    | ok c u =>
      rw [hr'] at hf
      obtain ⟨us, hus, hall'⟩ := hf
      refine ⟨ts ++ us, hts.trans hus, fun b b'' hb hlt' hbts hmeets => ?_⟩
      obtain ⟨b', hb', hblt, hbus, hrun⟩ := hfirst us b b'' hb hlt' hbts fun b' hb' =>
        hfront a t c u us b' b'' (hts.complete hs) hr hr' hus hb' hmeets
      rw [bind_apply, hrun]
      exact hall' b' b'' hb' hblt hbus hmeets
    | error e u =>
      rw [hr'] at hf
      obtain ⟨us, hus, hlocated, hall'⟩ := hf
      refine ⟨ts ++ us, hts.trans hus, ?_, fun b b'' hb hlt' hbts hrests => ?_⟩
      · exact hlocated.append ts fun _ hno => hopened hno a t ts hr hts
      · obtain ⟨b', hb', hblt, hbus, hrun⟩ := hfirst us b b'' hb hlt' hbts fun b' hb' =>
          .inl (hlocated.alike hrests hus hb')
        obtain ⟨t', ht'⟩ := hall' b' b'' hb' hblt hbus hrests
        exact ⟨t', by rw [bind_apply, hrun]; exact ht'⟩

theorem bind (hp : SettlesAt nowhere opened n n' s p p') (hf : ∀ a, Settles nowhere n n' (f a) (f' a)) :
    SettlesAt nowhere opened n n' s (p >>= f) (p' >>= f') :=
  hp.bindWith (fun a t _ => hf a t) (fun _ _ _ _ _ _ _ _ _ _ hu hw hmeets => .inl (.of_reaches hmeets.alike hu hw))
    (absurd trivial)

/-- Behind a parser that does not look at what follows. -/
theorem andThen (hp : SettlesAt anywhere opened n n' s p p') (hf : ∀ a, Settles marks n n' (f a) (f' a)) :
    SettlesAt marks opened n n' s (p >>= f) (p' >>= f') :=
  hp.bindWith (fun a t _ => hf a t) (fun _ _ _ _ _ _ _ _ _ _ _ _ _ => .inr trivial) (absurd trivial)

/-- Behind a parser that does not look at what follows, another is settled or fails wherever it is. -/
theorem andThenFail (hp : SettlesAt anywhere opened n n' s p p')
    (hf : ∀ a t, p s = .ok a t → SettlesAt marks True n n' t (f a) (f' a) ∨ ∃ e,
      (∀ c, f a (t.moved c) = .error e (t.moved c) ∧ f' a (t.moved c) = .error e (t.moved c)) ∧
        ∀ ts, Token.Complete s.cursor.tokens → Reaches s.cursor ts t.cursor → Located opened t.cursor e ts) :
    SettlesAt marks opened n n' s (p >>= f) (p' >>= f') := by
  cases hr : p s with
  | error e t =>
    refine hp.bindWith (fun a t h => ?_) (fun _ _ _ _ _ _ _ _ _ _ _ _ _ => .inr trivial) (absurd trivial)
    rw [hr] at h
    cases h
  | ok a t =>
    rcases hf a t hr with hf | ⟨e, hfail, hlocated⟩
    · refine hp.bindWith (fun a' t' h => ?_) (fun _ _ _ _ _ _ _ _ _ _ _ _ _ => .inr trivial) (absurd trivial)
      rw [hr] at h
      cases h
      exact hf
    · intro hs hlt
      have hp := hp hs hlt
      rw [hr] at hp
      obtain ⟨ts, hts, hall⟩ := hp
      rw [bind_apply, hr]
      show Settled marks opened n' s (p' >>= f') (f a (t.moved t.cursor))
      rw [(hfail t.cursor).1]
      refine ⟨ts, hts, hlocated ts hs hts, fun b b' hb hlt' hbts _ => ⟨t.moved b', ?_⟩⟩
      rw [bind_apply, hall b b' hb hlt' hbts (.inr trivial)]
      exact (hfail b').2

/-- One parser behind another that passes nothing in front of `AS` and `VERSIONS`: in front of any other token no more is
seen than that. -/
theorem bindKept (hp : SettlesAt marks opened n n' s p p') (hf : ∀ a, Settles marks n n' (f a) (f' a))
    (hkeep : ∀ a t b u, f a t = .ok b u → t.cursor.kind = .keyword .as ∨ t.cursor.kind = .keyword .versions →
      u.cursor = t.cursor) :
    SettlesAt marks opened n n' s (p >>= f) (p' >>= f') := by
  refine hp.bindWith (fun a t _ => hf a t) (fun a t b u ts w w' _ _ hr hu hw hmeets => ?_) (absurd trivial)
  cases ts with
  | nil => rwa [hu.eq, hw.eq]
  | cons v ts =>
    have hk : ¬ (t.cursor.kind = .keyword .as ∨ t.cursor.kind = .keyword .versions) := fun hk =>
      List.cons_ne_nil _ _ ((hkeep a t b u hr hk ▸ hu).unique .refl)
    rw [not_or] at hk
    exact .inl (.of_current (hw.current_eq.trans hu.current_eq.symm) hk.1 hk.2)

theorem reassoc {γ : Type} {g g' : β → Parser γ}
    (h : SettlesAt marks opened n n' s (p >>= fun a => f a >>= g) (p' >>= fun a => f' a >>= g')) :
    SettlesAt marks opened n n' s ((p >>= f) >>= g) ((p' >>= f') >>= g') := by
  rw [bind_assoc, bind_assoc]
  exact h

/-! ## Looking -/

theorem unexpected {expected : String} :
    SettlesAt marks opened n n' s (Grammar.unexpected expected : Parser α) (Grammar.unexpected expected) := by
  refine fun _ _ => ⟨[], .refl, .unexpected expected [], fun b b' _ _ hb hrests => ?_⟩
  have hcurrent : b.current = s.cursor.current := hb.eq ▸ hrests.current
  refine ⟨s.moved b, ?_⟩
  show EStateM.Result.error (⟨.unexpected expected b.current.kind, b.current.span⟩ : ParseError) (s.moved b) = _
  rw [hcurrent]

theorem unsupported {construct : String} (h : s.cursor.kind = .keyword .select → ¬ opened) :
    SettlesAt marks opened n n' s (Grammar.unsupported construct : Parser α) (Grammar.unsupported construct) := by
  refine fun _ _ => ⟨[], .refl, .unsupported construct [] h, fun b b' _ _ hb hrests => ?_⟩
  have hcurrent : b.current = s.cursor.current := hb.eq ▸ hrests.1.current
  refine ⟨s.moved b, ?_⟩
  show EStateM.Result.error (⟨.unsupported construct, b.current.span⟩ : ParseError) (s.moved b) = _
  rw [hcurrent]
  rfl

/-- A look at what two cursors that are alike have in common. -/
theorem look_bind {look? : Cursor → α} (hlook : ∀ c c', Alike c c' → look? c' = look? c)
    (h : SettlesAt nowhere opened n n' s (f (look? s.cursor)) (f' (look? s.cursor))) :
    SettlesAt nowhere opened n n' s (look look? >>= f) (look look? >>= f') := by
  intro hs hlt
  have h := h hs hlt
  rw [look_bind_apply]
  cases hr : f (look? s.cursor) s with
  | ok a t =>
    rw [hr] at h
    obtain ⟨ts, hts, hall⟩ := h
    refine ⟨ts, hts, fun b b' hb hlt' hbts hmeets => ?_⟩
    rw [look_bind_apply]
    exact (congrArg (f' · (s.moved b)) (hlook _ _ (.of_reaches hmeets.alike hts hbts))).trans
      (hall b b' hb hlt' hbts hmeets)
  | error e t =>
    rw [hr] at h
    obtain ⟨ts, hts, hlocated, hall⟩ := h
    refine ⟨ts, hts, hlocated, fun b b' hb hlt' hbts hrests => ?_⟩
    obtain ⟨t', ht'⟩ := hall b b' hb hlt' hbts hrests
    rw [look_bind_apply]
    exact ⟨t', (congrArg (f' · (s.moved b)) (hlook _ _ (hlocated.alike hrests hts hbts))).trans ht'⟩

/-- A look at the current token, in front of a parser that fails or passes it. -/
theorem look_bindPast {look? : Cursor → α} (hlook : ∀ c c', c'.current = c.current → look? c' = look? c)
    (hpast : ∀ a t, f (look? s.cursor) s = .ok a t → ¬ Reaches s.cursor [] t.cursor)
    (h : SettlesAt marks opened n n' s (f (look? s.cursor)) (f' (look? s.cursor))) :
    SettlesAt marks opened n n' s (look look? >>= f) (look look? >>= f') := by
  intro hs hlt
  rw [look_bind_apply]
  refine (h hs hlt).congrPast hpast fun b hb => ?_
  rw [look_bind_apply, show look? (s.moved b).cursor = look? s.cursor from hlook _ _ hb]

/-- A look at something that does not depend on the place. -/
theorem inspect_bind {look? : State → α} (hlook : ∀ c, look? (s.moved c) = look? s)
    (h : SettlesAt marks opened n n' s (f (look? s)) (f' (look? s))) :
    SettlesAt marks opened n n' s (inspect look? >>= f) (inspect look? >>= f') :=
  fun hs hlt => (h hs hlt).congr fun b => congrArg (f' · (s.moved b)) (hlook b)

/-- Changing the statement is the same everywhere. -/
theorem modify_bind {put : Statement → Statement} {g g' : Unit → Parser β}
    (h : SettlesAt marks opened n n' { s with statement := put s.statement } (g ()) (g' ())) :
    SettlesAt marks opened n n' s (modifyStatement put >>= g) (modifyStatement put >>= g') :=
  h

/-! ## Passing -/

theorem passing {opened' : Prop} {q q' : Parser α} (hk : s.cursor.kind ≠ .eof)
    (hopened : ¬ opened' → s.cursor.kind ≠ .leftParen) (h : SettlesAt marks opened' (n - 1) (n' - 1) s.advanced p p')
    (hq : q s = p s.advanced)
    (hq' : ∀ b, b.current = s.cursor.current → b.advance.current = s.cursor.advance.current ∨ marks b.advance →
      q' (s.moved b) = p' (s.moved b).advanced) :
    SettlesAt marks opened n n' s q q' := by
  intro hs hlt
  have hlength := Cursor.length_rest_advance hs hk
  rw [hq]
  exact (h (Cursor.complete_advance hs) (by show s.cursor.advance.rest.length < n - 1; omega)).passing hs hk hopened hq'

theorem advance_bind {g g' : Unit → Parser β} (hk : s.cursor.kind ≠ .eof)
    (h : Settles marks (n - 1) (n' - 1) (g ()) (g' ())) :
    SettlesAt marks opened n n' s (advance >>= g) (advance >>= g') :=
  passing hk (absurd trivial) (h s.advanced) rfl fun _ _ _ => rfl

/-- A test of the current token, which is passed if the test holds. -/
theorem skipWhen_bind {test : Cursor → Bool} {opened' : Prop} {g g' : Bool → Parser β}
    (htest : ∀ c c', c'.current = c.current → test c' = test c) (hmarks : ∀ c, marks c → test c = false)
    (heof : test s.cursor = true → s.cursor.kind ≠ .eof)
    (hopened : test s.cursor = true → ¬ opened' → s.cursor.kind ≠ .leftParen)
    (htrue : test s.cursor = true → SettlesAt marks opened' (n - 1) (n' - 1) s.advanced (g true) (g' true))
    (hfalse : test s.cursor = false → SettlesAt marks opened n n' s (g false) (g' false)) :
    SettlesAt marks opened n n' s (skipWhen test >>= g) (skipWhen test >>= g') := by
  have happly : ∀ (g : Bool → Parser β) (s : State), (skipWhen test >>= g) s =
      if test s.cursor = true then g true s.advanced else g false s := by
    intro g s
    rw [Grammar.skipWhen_bind, look_bind_apply]
    cases test s.cursor <;> rfl
  cases ht : test s.cursor with
  | true =>
    refine passing (heof ht) (hopened ht) (htrue ht) ((happly g s).trans (if_pos ht)) fun b hb _ => ?_
    exact (happly g' (s.moved b)).trans (if_pos ((htest s.cursor b hb).trans ht))
  | false =>
    intro hs hlt
    rw [happly, if_neg (Bool.eq_false_iff.1 ht)]
    refine (hfalse ht hs hlt).congrAt fun b _ _ hb => (happly g' (s.moved b)).trans (if_neg (Bool.eq_false_iff.1 ?_))
    exact hb.elim (fun hb => (htest s.cursor b hb).trans ht) (hmarks b)

end SettlesAt

/-! ## Whatever the bounds -/

section
variable {a : α} {e : ParseError} {t : State}

theorem SettlesAt.of_ok (h : ∀ n n', SettlesAt marks opened n n' s p p') (hs : Token.Complete s.cursor.tokens)
    (hr : p s = .ok a t) : ∃ ts, Reaches s.cursor ts t.cursor ∧ ∀ b b', Token.Complete b.tokens → Reaches b ts b' →
      Meets marks t.cursor b' → p' (s.moved b) = .ok a (t.moved b') := by
  have hall : ∀ n', Settled marks opened n' s p' (.ok a t) := fun n' => hr ▸ h _ n' hs (Nat.lt_succ_self _)
  obtain ⟨ts, hts, -⟩ := hall 0
  refine ⟨ts, hts, fun b b' hb hbts hmeets => ?_⟩
  obtain ⟨us, hus, hrun⟩ := hall (b.rest.length + 1)
  exact hrun b b' hb (Nat.lt_succ_self _) (hts.unique hus ▸ hbts) hmeets

theorem Settles.of_ok (h : ∀ n n', Settles marks n n' p p') (hs : Token.Complete s.cursor.tokens)
    (hr : p s = .ok a t) : ∃ ts, Reaches s.cursor ts t.cursor ∧ ∀ b b', Token.Complete b.tokens → Reaches b ts b' →
      Meets marks t.cursor b' → p' (s.moved b) = .ok a (t.moved b') :=
  SettlesAt.of_ok (fun n n' => h n n' s) hs hr

theorem Settles.of_error (h : ∀ n n', Settles marks n n' p p') (hs : Token.Complete s.cursor.tokens)
    (hr : p s = .error e t) : ∃ ts, Reaches s.cursor ts t.cursor ∧ Located True t.cursor e ts ∧
      ∀ b b', Token.Complete b.tokens → Reaches b ts b' → Rests e t.cursor b' → ∃ t', p' (s.moved b) = .error e t' := by
  have hall : ∀ n', Settled marks True n' s p' (.error e t) := fun n' => hr ▸ h _ n' s hs (Nat.lt_succ_self _)
  obtain ⟨ts, hts, hlocated, -⟩ := hall 0
  refine ⟨ts, hts, hlocated, fun b b' hb hbts hrests => ?_⟩
  obtain ⟨us, hus, -, hrun⟩ := hall (b.rest.length + 1)
  exact hrun b b' hb (Nat.lt_succ_self _) (hts.unique hus ▸ hbts) hrests

end

end

end SelectRouting.Grammar
