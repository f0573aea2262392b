import Mathlib.Logic.Function.Iterate
import SelectRouting.Proofs.Trace.Session
/-!
# The pace of a parser

Two parsers that differ only in what they call behind the first token do the same from a state, and what they do does
not go back (`Paced`).  A recursion whose rounds are paced over whatever they call with fewer tokens left is grounded:
it has one solution, and no bound on its depth is ever reached (`Grounded.of_descends`).
-/
namespace SelectRouting.Grammar

variable {α β ι : Type}

/-- The number of tokens behind the current one. -/
def State.left (s : State) : Nat :=
  s.cursor.rest.length

/-- From a state, both do the same, and with a value they are not behind it, or even ahead of it. -/
def Paced (ahead : Bool) (s : State) (p p' : Parser α) : Prop :=
  Token.Complete s.cursor.tokens → p s = p' s ∧
    ∀ a s', p s = .ok a s' → Token.Complete s'.cursor.tokens ∧ s'.left + ahead.toNat ≤ s.left

/-- A parser that, with a value, does not go back. -/
def Onward (p : Parser α) : Prop :=
  ∀ s, Token.Complete s.cursor.tokens → ∀ a s', p s = .ok a s' → Token.Complete s'.cursor.tokens ∧ s'.left ≤ s.left

theorem Onward.paced {p : Parser α} (h : Onward p) (s : State) : Paced false s p p :=
  fun hs => ⟨rfl, h s hs⟩

/-! ## Tokens left -/

section
variable {s s' : State}

theorem State.left_advanced (hs : Token.Complete s.cursor.tokens) (hk : s.cursor.kind ≠ .eof) :
    s.advanced.left + 1 = s.left :=
  Cursor.length_rest_advance hs hk

/-- With no token left, the current one is the end of the input. -/
theorem State.kind_of_left_eq_zero (hs : Token.Complete s.cursor.tokens) (h : s.left = 0) : s.cursor.kind = .eof :=
  Cursor.kind_of_rest_nil hs (List.eq_nil_of_length_eq_zero h)

theorem skipKeyword_of_eof (hk : s.cursor.kind = .eof) (k : Keyword) : skipKeyword k s = .ok false s := by
  unfold skipKeyword skipWhen
  rw [look_bind_apply, Cursor.atKeyword, Cursor.keyword?, hk]
  rfl

theorem Run.left_le {rule : Rule} {es : List Event} (h : Run rule s es s') : s'.left ≤ s.left := by
  have htokens := congrArg List.length h.tokens_eq
  simp only [Cursor.tokens, List.length_append, List.length_cons] at htokens
  unfold State.left
  omega

end

/-! ## Rules -/

namespace Paced

variable {s : State} {p p' : Parser α} {f f' : α → Parser β} {b : Bool}

theorem weaken (h : Paced b s p p') : Paced false s p p' := by
  intro hs
  obtain ⟨heq, hok⟩ := h hs
  refine ⟨heq, fun a s' hr => ?_⟩
  obtain ⟨hs', hle⟩ := hok a s' hr
  exact ⟨hs', Nat.le_trans (Nat.add_le_add_left (Nat.zero_le _) _) hle⟩

theorem of_true (h : Paced true s p p') : Paced b s p p' := by
  cases b with
  | true => exact h
  | false => exact h.weaken

/-- Parsers that stay where they are with the same value. -/
theorem of_ok {a : α} (h : p s = .ok a s) (h' : p' s = .ok a s) : Paced false s p p' := by
  refine fun hs => ⟨h.trans h'.symm, fun _ s' hr => ?_⟩
  cases h.symm.trans hr
  exact ⟨hs, Nat.le_refl _⟩

theorem pure {a : α} : Paced false s (Pure.pure a) (Pure.pure a) :=
  of_ok rfl rfl

/-- A parser that fails goes nowhere. -/
theorem of_error {e : ParseError} {s' : State} (h : p s = .error e s') (h' : p' s = .error e s') : Paced b s p p' :=
  fun _ => ⟨h.trans h'.symm, fun _ _ hr => nomatch h.symm.trans hr⟩

theorem unexpected {expected : String} :
    Paced b s (Grammar.unexpected expected : Parser α) (Grammar.unexpected expected) :=
  of_error rfl rfl

theorem unsupported {construct : String} :
    Paced b s (Grammar.unsupported construct : Parser α) (Grammar.unsupported construct) :=
  of_error rfl rfl

theorem congr_left {q : Parser α} (h : Paced b s p p') (hq : q s = p s) : Paced b s q p' := by
  unfold Paced
  rw [hq]
  exact h

theorem modifyStatement {f : Statement → Statement} :
    Paced false s (Grammar.modifyStatement f) (Grammar.modifyStatement f) := by
  refine fun hs => ⟨rfl, fun _ s' hr => ?_⟩
  cases hr
  exact ⟨hs, Nat.le_refl _⟩

/-- A parser that calls nothing that could differ. -/
theorem of_runs {rule : Rule} (hp : Runs rule p) : Paced false s p p := by
  refine fun hs => ⟨rfl, fun a s' hr => ?_⟩
  obtain ⟨es, hrun⟩ := hp s hs
  rw [State.after, hr] at hrun
  exact ⟨hrun.complete hs, hrun.left_le⟩

/-- What comes behind a parser that is ahead may call again whatever it likes. -/
theorem bind (hp : Paced b s p p')
    (hf : ∀ a s', s'.left + b.toNat ≤ s.left → Paced false s' (f a) (f' a)) : Paced b s (p >>= f) (p' >>= f') := by
  intro hs
  obtain ⟨heq, hok⟩ := hp hs
  rw [bind_apply, bind_apply, ← heq]
  cases hr : p s with
  | error e s' => exact ⟨rfl, fun _ _ hr' => nomatch hr'⟩
  | ok a s' =>
    obtain ⟨hs', hle⟩ := hok a s' hr
    obtain ⟨heq', hok'⟩ := hf a s' hle hs'
    refine ⟨heq', fun b' s'' hr' => ?_⟩
    obtain ⟨hs'', hle'⟩ := hok' b' s'' hr'
    exact ⟨hs'', by rw [Bool.toNat_false] at hle'; omega⟩

/-- What comes behind a parser that may have stood still has to get ahead by itself. -/
theorem andThen (hp : Paced false s p p') (hf : ∀ a s', s'.left ≤ s.left → Paced b s' (f a) (f' a)) :
    Paced b s (p >>= f) (p' >>= f') := by
  intro hs
  obtain ⟨heq, hok⟩ := hp hs
  rw [bind_apply, bind_apply, ← heq]
  cases hr : p s with
  | error e s' => exact ⟨rfl, fun _ _ hr' => nomatch hr'⟩
  | ok a s' =>
    obtain ⟨hs', hle⟩ := hok a s' hr
    obtain ⟨heq', hok'⟩ := hf a s' hle hs'
    refine ⟨heq', fun b' s'' hr' => ?_⟩
    obtain ⟨hs'', hle'⟩ := hok' b' s'' hr'
    exact ⟨hs'', Nat.le_trans hle' hle⟩

theorem look_bind {g : Cursor → α} (h : Paced b s (f (g s.cursor)) (f' (g s.cursor))) :
    Paced b s (look g >>= f) (look g >>= f') :=
  h

theorem advance (hk : s.cursor.kind ≠ .eof) : Paced true s Grammar.advance Grammar.advance := by
  refine fun hs => ⟨rfl, fun _ s' hr => ?_⟩
  cases hr
  exact ⟨Cursor.complete_advance hs, Nat.le_of_eq (State.left_advanced hs hk)⟩

theorem advance_bind {f f' : Unit → Parser β} (hk : s.cursor.kind ≠ .eof)
    (hf : ∀ s', s'.left < s.left → Paced false s' (f ()) (f' ())) :
    Paced true s (Grammar.advance >>= f) (Grammar.advance >>= f') :=
  (advance hk).bind fun _ s' hle => hf s' hle

/-- Either way of a test; behind the token that passes it, anything further on will do. -/
theorem skipWhen_bind {test : Cursor → Bool} {f f' : Bool → Parser β}
    (hk : test s.cursor = true → s.cursor.kind ≠ .eof)
    (htrue : ∀ s', s'.left < s.left → Paced false s' (f true) (f' true)) (hfalse : Paced b s (f false) (f' false)) :
    Paced b s (skipWhen test >>= f) (skipWhen test >>= f') := by
  rw [Grammar.skipWhen_bind, Grammar.skipWhen_bind]
  apply look_bind
  by_cases ht : test s.cursor = true
  · rw [if_pos ht, if_pos ht]
    exact (advance_bind (hk ht) htrue).of_true
  · rw [if_neg ht, if_neg ht]
    exact hfalse

theorem skip_bind {k : Token.Kind} {f f' : Bool → Parser β} (hk : k.Ordinary)
    (htrue : ∀ s', s'.left < s.left → Paced false s' (f true) (f' true)) (hfalse : Paced b s (f false) (f' false)) :
    Paced b s (skip k >>= f) (skip k >>= f') :=
  skipWhen_bind (fun h => (hk.of_alike h).2) htrue hfalse

theorem skipKeyword_bind {k : Keyword} {f f' : Bool → Parser β}
    (htrue : ∀ s', s'.left < s.left → Paced false s' (f true) (f' true)) (hfalse : Paced b s (f false) (f' false)) :
    Paced b s (skipKeyword k >>= f) (skipKeyword k >>= f') :=
  skipWhen_bind (fun h => Cursor.kind_of_atKeyword h ▸ nofun) htrue hfalse

/-- A token that has to stand here is passed. -/
theorem expect_bind {k : Token.Kind} {f f' : Span → Parser β} (hk : k.Ordinary)
    (hf : ∀ span s', s'.left < s.left → Paced false s' (f span) (f' span)) :
    Paced true s (expect k >>= f) (expect k >>= f') := by
  unfold expect
  rw [bind_assoc, bind_assoc]
  apply look_bind
  rw [bind_assoc, bind_assoc]
  exact skip_bind hk (hf _) (of_error rfl rfl)

theorem expectKeyword_bind {k : Keyword} {f f' : Span → Parser β}
    (hf : ∀ span s', s'.left < s.left → Paced false s' (f span) (f' span)) :
    Paced true s (expectKeyword k >>= f) (expectKeyword k >>= f') := by
  unfold expectKeyword
  rw [bind_assoc, bind_assoc]
  apply look_bind
  rw [bind_assoc, bind_assoc]
  exact skipKeyword_bind (hf _) (of_error rfl rfl)

theorem expectName_bind {f f' : String → Parser β}
    (hf : ∀ name s', s'.left < s.left → Paced false s' (f name) (f' name)) :
    Paced true s (expectName >>= f) (expectName >>= f') := by
  cases hn : s.cursor.name? with
  | none =>
    have hfail : ∀ g : String → Parser β, (expectName >>= g) s =
        .error ⟨.unexpected "identifier" s.cursor.current.kind, s.cursor.current.span⟩ s := fun g => by
      rw [bind_apply, expectName_of_none hn]
      rfl
    exact of_error (hfail f) (hfail f')
  | some name =>
    have hk : s.cursor.kind ≠ .eof := (Cursor.ordinary_of_name? hn).2
    intro hs
    rw [bind_apply, bind_apply, expectName_of_some hn]
    have hleft := State.left_advanced hs hk
    obtain ⟨heq, hok⟩ := hf name s.advanced (by omega) (Cursor.complete_advance hs)
    refine ⟨heq, fun a s' hr => ?_⟩
    obtain ⟨hs', hle⟩ := hok a s' hr
    exact ⟨hs', by rw [Bool.toNat_false] at hle; rw [Bool.toNat_true]; omega⟩

end Paced

theorem Onward.of_paced {p : Parser α} (h : ∀ s, Paced false s p p) : Onward p :=
  fun s hs => (h s hs).2

/-! ## Recursions -/

/-- Some parsers do the same as others, and do not go back, wherever fewer than `n` tokens are left. -/
def PacedBelow (n : Nat) (E E' : ι → Parser α) : Prop :=
  ∀ i s, s.left < n → Paced false s (E i) (E' i)

/-- A round of a recursion depends on what it calls with fewer tokens left alone. -/
def Descends (round : (ι → Parser α) → ι → Parser α) : Prop :=
  ∀ n E E', PacedBelow n E E' → PacedBelow (n + 1) (round E) (round E')

/-- What it means that a recursion ends: it passes a token before it calls itself. -/
structure Grounded (round : (ι → Parser α) → ι → Parser α) (run : ι → Parser α) : Prop where
  /-- A round from a state depends on what it calls further on alone, as long as that does not go back. -/
  further : ∀ E E' i s, Token.Complete s.cursor.tokens →
    (∀ j s', Token.Complete s'.cursor.tokens → s'.left < s.left → E j s' = E' j s' ∧
      ∀ a s'', E j s' = .ok a s'' → Token.Complete s''.cursor.tokens ∧ s''.left ≤ s'.left) →
    round E i s = round E' i s
  /-- What runs is what the rounds say. -/
  equation : ∀ i s, Token.Complete s.cursor.tokens → run i s = round run i s
  /-- Nothing else is. -/
  unique : ∀ E, (∀ i s, Token.Complete s.cursor.tokens → E i s = round E i s) →
    ∀ i s, Token.Complete s.cursor.tokens → E i s = run i s
  /-- Rounds are nested at most one deeper than there are tokens left: what stands at the bottom does not matter. -/
  depth : ∀ bottom n i s, Token.Complete s.cursor.tokens → s.left < n → round^[n] bottom i s = run i s

namespace Descends

variable {round : (ι → Parser α) → ι → Parser α} (h : Descends round)
include h

theorem iterate {n : Nat} : ∀ {m m' : Nat} (E E' : ι → Parser α), n ≤ m → n ≤ m' →
    PacedBelow n (round^[m] E) (round^[m'] E') := by
  induction n with
  | zero => exact fun _ _ _ _ i s hs => absurd hs (Nat.not_lt_zero _)
  | succ n ih =>
    intro m m' E E' hm hm'
    obtain ⟨m, rfl⟩ : ∃ k, m = k + 1 := ⟨m - 1, by omega⟩
    obtain ⟨m', rfl⟩ : ∃ k, m' = k + 1 := ⟨m' - 1, by omega⟩
    rw [Function.iterate_succ_apply', Function.iterate_succ_apply']
    exact h n _ _ (ih E E' (by omega) (by omega))

/-- A solution is its own image under any number of rounds. -/
theorem paced_of_solution {E : ι → Parser α} (hE : ∀ i s, Token.Complete s.cursor.tokens → E i s = round E i s) (n : Nat) :
    PacedBelow n E (round^[n] E) := by
  induction n with
  | zero => exact fun _ s hs => absurd hs (Nat.not_lt_zero s.left)
  | succ n ih =>
    intro i s hn hs
    rw [Function.iterate_succ_apply', hE i s hs]
    exact h n _ _ ih i s hn hs

/-- What runs with one round more than there are tokens left is the only solution, whatever stands at the bottom. -/
theorem grounded {run : ι → Parser α} (bottom : ι → Parser α)
    (hrun : ∀ i s, Token.Complete s.cursor.tokens → run i s = round^[s.left + 1] bottom i s) : Grounded round run := by
  have hdepth : ∀ E n i s, Token.Complete s.cursor.tokens → s.left < n → round^[n] E i s = run i s := by
    intro E n i s hs hn
    rw [hrun i s hs]
    exact (h.iterate E bottom hn (Nat.le_refl _) i s (Nat.lt_succ_self _) hs).1
  refine ⟨fun E E' i s hs hE => ?_, fun i s hs => ?_, fun E hE i s hs => ?_, hdepth⟩
  · have hbelow : PacedBelow s.left E E' := fun j s' hleft hs' => hE j s' hs' hleft
    exact (h s.left E E' hbelow i s (Nat.lt_succ_self _) hs).1
  · have hbelow : PacedBelow s.left (round^[s.left] bottom) run := by
      intro j s' hleft hs'
      have hpaced := h.iterate bottom bottom (Nat.le_refl s.left) (Nat.le_refl s.left) j s' hleft hs'
      exact ⟨hdepth bottom s.left j s' hs' hleft, hpaced.2⟩
    rw [hrun i s hs, Function.iterate_succ_apply']
    exact (h s.left _ _ hbelow i s (Nat.lt_succ_self _) hs).1
  · rw [← hdepth E (s.left + 1) i s hs (Nat.lt_succ_self _)]
    exact (h.paced_of_solution hE (s.left + 1) i s (Nat.lt_succ_self _) hs).1

/-- The same with one round less, where the bottom is right when no token is left. -/
theorem grounded_of_bottom {run : ι → Parser α} (bottom : ι → Parser α)
    (hbottom : ∀ i s, s.left = 0 → Paced false s (bottom i) (round bottom i))
    (hrun : ∀ i s, Token.Complete s.cursor.tokens → run i s = round^[s.left] bottom i s) : Grounded round run := by
  have hstep : ∀ n, PacedBelow (n + 1) (round^[n] bottom) (round^[n + 1] bottom) := by
    intro n
    induction n with
    | zero => exact fun i s hs => hbottom i s (Nat.lt_one_iff.1 hs)
    | succ n ih =>
      rw [Function.iterate_succ_apply', Function.iterate_succ_apply' round (n + 1)]
      exact h (n + 1) _ _ ih
  refine h.grounded bottom fun i s hs => ?_
  rw [hrun i s hs]
  exact (hstep s.left i s (Nat.lt_succ_self _) hs).1

end Descends

end SelectRouting.Grammar
