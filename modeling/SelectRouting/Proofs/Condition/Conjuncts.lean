import SelectRouting.Proofs.Meaning.Interpretation
/-!
# Conjuncts

The loop that splits a predicate keeps a stack of what is still to be split and puts out one conjunct after the other.
A round leaves the output and the flattened stack together as they are, and takes one off a weight of the stack
(`of_splitRound`); so the loop ends, after one round for each conjunct and each `AND`, with the flattened predicate
(`rounds_split`).  Main statement: the conjuncts are the flattened predicate, none of them can be split again, and their
conjunction is as true as the predicate (`conjuncts_flatten`).
-/
namespace SelectRouting

universe u

/-! ## Conjunctions of truth values -/

namespace Truth

theorem and_assoc (s t u : Truth) : (s.and t).and u = s.and (t.and u) := by
  cases s <;> cases t <;> cases u <;> rfl

theorem yes_and (t : Truth) : Truth.yes.and t = t := by
  cases t <;> rfl

theorem and_yes (t : Truth) : t.and .yes = t := by
  cases t <;> rfl

/-- The conjunction of a list. -/
def all {α : Type u} (f : α → Truth) (xs : List α) : Truth :=
  xs.foldr (fun x t => (f x).and t) .yes

variable {α : Type u} {f : α → Truth}

theorem all_singleton (x : α) : all f [x] = f x :=
  and_yes (f x)

theorem all_append (xs ys : List α) : all f (xs ++ ys) = (all f xs).and (all f ys) := by
  induction xs with
  | nil => exact (yes_and _).symm
  | cons x xs ih =>
    calc all f (x :: xs ++ ys) = (f x).and (all f (xs ++ ys)) := rfl
      _ = (f x).and ((all f xs).and (all f ys)) := by rw [ih]
      _ = (all f (x :: xs)).and (all f ys) := (and_assoc _ _ _).symm

end Truth

namespace Expr

/-! ## Flattening -/

/-- The operands of a conjunction, by recursion on the tree. -/
def flattened : Expr → List Expr
  | .paren inner => inner.flattened
  | .binary .and left right => left.flattened ++ right.flattened
  | e => [e]

/-- Neither in parentheses nor a conjunction. -/
def Single (e : Expr) : Prop :=
  (∀ inner, e ≠ .paren inner) ∧ ∀ left right, e ≠ .binary .and left right

theorem single_binary {op : BinaryOp} (hop : op ≠ .and) (left right : Expr) : (binary op left right).Single :=
  ⟨fun _ => Expr.noConfusion, fun _ _ heq => hop (binary.inj heq).1⟩

theorem flattened_of_single {e : Expr} (h : e.Single) : e.flattened = [e] := by
  unfold flattened
  split
  · exact absurd rfl (h.1 _)
  · exact absurd rfl (h.2 _ _)
  · rfl

theorem flattened_unparenthesized (e : Expr) : e.unparenthesized.flattened = e.flattened := by
  fun_induction unparenthesized e with
  | case1 inner ih => rw [flattened, ih]
  | case2 e hparen => rfl

/-- What an expression is inside its parentheses: a conjunction, or nothing that can be split. -/
theorem and_or_single (e : Expr) :
    (∃ left right, e.unparenthesized = .binary .and left right) ∨ e.unparenthesized.Single := by
  by_cases h : ∃ left right, e.unparenthesized = .binary .and left right
  · exact .inl h
  · exact .inr ⟨e.unparenthesized_ne_paren, fun left right heq => h ⟨left, right, heq⟩⟩

theorem flattened_of_and {e left right : Expr} (h : e.unparenthesized = .binary .and left right) :
    e.flattened = left.flattened ++ right.flattened := by
  rw [← flattened_unparenthesized, h, flattened]

theorem flattened_of_unparenthesized {e : Expr} (h : e.unparenthesized.Single) : e.flattened = [e.unparenthesized] := by
  rw [← flattened_unparenthesized, flattened_of_single h]

theorem length_flattened_pos (e : Expr) : 0 < e.flattened.length := by
  fun_induction flattened e with
  | case1 inner ih => exact ih
  | case2 left right ihl ihr =>
    rw [List.length_append]
    omega
  | case3 e => exact Nat.zero_lt_one

theorem single_of_mem_flattened (e : Expr) : ∀ c ∈ e.flattened, c.Single := by
  fun_induction flattened e with
  | case1 inner ih => exact ih
  | case2 left right ihl ihr => exact List.forall_mem_append.2 ⟨ihl, ihr⟩
  | case3 e hparen hand => exact List.forall_mem_singleton.2 ⟨hparen, hand⟩

/-! ## The loop -/

/-- What is still to be split, from the top of the stack, and what has been put out. -/
structure Splitting where
  stack : List Expr
  out : List Expr

/-- One round of the loop; there is none when the stack is empty. -/
def splitRound (s : Splitting) : Option Splitting :=
  match s.stack with
  | [] => none
  | e :: stack =>
    match e.unparenthesized with
    | .binary .and left right => some ⟨left :: right :: stack, s.out⟩
    | single => some ⟨stack, s.out ++ [single]⟩

/-- The loop from one state to its end, with the number of its rounds. -/
inductive Rounds : Nat → Splitting → Splitting → Prop where
  | done {s : Splitting} (stop : splitRound s = none) : Rounds 0 s s
  | round {n : Nat} {s s' s'' : Splitting} (head : splitRound s = some s') (tail : Rounds n s' s'') : Rounds (n + 1) s s''

/-- The rounds that a stack takes: one for each conjunct and each `AND`, which are one fewer. -/
def splitWeight : List Expr → Nat
  | [] => 0
  | e :: stack => 2 * e.flattened.length - 1 + splitWeight stack

theorem splitRound_of_and {e left right : Expr} {stack out : List Expr} (h : e.unparenthesized = .binary .and left right) :
    splitRound ⟨e :: stack, out⟩ = some ⟨left :: right :: stack, out⟩ := by
  simp only [splitRound, h]

theorem splitRound_of_single {e : Expr} {stack out : List Expr} (h : e.unparenthesized.Single) :
    splitRound ⟨e :: stack, out⟩ = some ⟨stack, out ++ [e.unparenthesized]⟩ := by
  unfold splitRound
  dsimp only
  split
  · next left right heq => exact absurd heq (h.2 left right)
  · rfl

/-- A round keeps the output with the flattened stack behind it, and the stack has one round fewer to go. -/
theorem of_splitRound {s s' : Splitting} (h : splitRound s = some s') :
    s'.out ++ s'.stack.flatMap flattened = s.out ++ s.stack.flatMap flattened ∧
      splitWeight s'.stack + 1 = splitWeight s.stack := by
  obtain ⟨stack, out⟩ := s
  cases stack with
  | nil => cases h
  | cons e stack =>
    rcases e.and_or_single with ⟨left, right, hand⟩ | hsingle
    · rw [splitRound_of_and hand] at h
      cases h
      constructor
      · simp only [List.flatMap_cons, flattened_of_and hand, List.append_assoc]
      · have hleft := left.length_flattened_pos
        have hright := right.length_flattened_pos
        simp only [splitWeight, flattened_of_and hand, List.length_append]
        omega
    · rw [splitRound_of_single hsingle] at h
      cases h
      constructor
      · simp only [List.flatMap_cons, flattened_of_unparenthesized hsingle, List.append_assoc]
      · simp only [splitWeight, flattened_of_unparenthesized hsingle, List.length_singleton]
        omega

theorem stack_eq_nil_of_splitRound {s : Splitting} (h : splitRound s = none) : s.stack = [] := by
  obtain ⟨stack, out⟩ := s
  cases stack with
  | nil => rfl
  | cons e stack =>
    rcases e.and_or_single with ⟨left, right, hand⟩ | hsingle
    · rw [splitRound_of_and hand] at h
      cases h
    · rw [splitRound_of_single hsingle] at h
      cases h

/-- **The loop ends** after as many rounds as its stack weighs, with the flattened stack behind what it had put out. -/
theorem rounds_split (s : Splitting) : Rounds (splitWeight s.stack) s ⟨[], s.out ++ s.stack.flatMap flattened⟩ := by
  generalize hn : splitWeight s.stack = n
  induction n generalizing s with
  | zero =>
    cases hround : splitRound s with
    | some s' =>
      have := (of_splitRound hround).2
      omega
    | none =>
      obtain ⟨stack, out⟩ := s
      obtain rfl : stack = [] := stack_eq_nil_of_splitRound hround
      rw [List.flatMap_nil, List.append_nil]
      exact .done rfl
  | succ n ih =>
    cases hround : splitRound s with
    | some s' =>
      obtain ⟨hkept, hweight⟩ := of_splitRound hround
      rw [← hkept]
      exact .round hround (ih s' (by omega))
    | none =>
      rw [stack_eq_nil_of_splitRound hround] at hn
      cases hn

/-! ## Conjuncts -/

theorem splitConjunctions_eq (stack : List Expr) : splitConjunctions stack = stack.flatMap flattened := by
  induction stack using splitConjunctions.induct with
  | case1 => rw [splitConjunctions, List.flatMap_nil]
  | case2 e stack left right hand ih =>
    rw [splitConjunctions_of_and hand, ih, List.flatMap_cons, List.flatMap_cons, List.flatMap_cons, flattened_of_and hand,
      List.append_assoc]
  | case3 e stack hno ih =>
    rw [splitConjunctions_of_single hno, ih, List.flatMap_cons,
      flattened_of_unparenthesized ⟨e.unparenthesized_ne_paren, hno⟩, List.singleton_append]

theorem conjuncts_eq (e : Expr) : e.conjuncts = e.flattened := by
  rw [conjuncts, splitConjunctions_eq, List.flatMap_singleton]

/-- The truth of a predicate, given that of everything that is neither in parentheses nor a conjunction. -/
def truthBy (f : Expr → Truth) : Expr → Truth
  | .paren inner => inner.truthBy f
  | .binary .and left right => (left.truthBy f).and (right.truthBy f)
  | e => f e

theorem truthBy_eq_all (f : Expr → Truth) (e : Expr) : e.truthBy f = .all f e.flattened := by
  fun_induction flattened e with
  | case1 inner ih => rw [truthBy, ih]
  | case2 left right ihl ihr => rw [truthBy, ihl, ihr, Truth.all_append]
  | case3 e hparen hand =>
    rw [Truth.all_singleton]
    unfold truthBy
    split
    · exact absurd rfl (hparen _)
    · exact absurd rfl (hand _ _)
    · rfl

theorem truthBy_truth {V : Type u} (I : Interpretation V) (e : Expr) : e.truthBy I.truth = I.truth e := by
  fun_induction truthBy I.truth e with
  | case1 inner ih => rw [ih, Interpretation.truth_paren]
  | case2 left right ihl ihr => rw [ihl, ihr, Interpretation.truth_and]
  | case3 e => rfl

/-- **Conjuncts are a predicate with its conjunctions flattened.**  The loop over a stack ends with them, after one round
for each of them and each `AND`.  None of them is in parentheses or a conjunction, so each is its own only conjunct.
Whatever truth values they have, and in every interpretation, their conjunction is as true as the predicate. -/
theorem conjuncts_flatten (e : Expr) : e.conjuncts = e.flattened ∧
    Rounds (2 * e.conjuncts.length - 1) ⟨[e], []⟩ ⟨[], e.conjuncts⟩ ∧
    (∀ c ∈ e.conjuncts, (∀ inner, c ≠ .paren inner) ∧ (∀ left right, c ≠ .binary .and left right) ∧ c.conjuncts = [c]) ∧
    (∀ f : Expr → Truth, e.truthBy f = .all f e.conjuncts) ∧
    ∀ {V : Type u} (I : Interpretation V), I.truth e = .all I.truth e.conjuncts := by
  rw [conjuncts_eq]
  refine ⟨rfl, ?_, fun c hc => ?_, fun f => truthBy_eq_all f e, fun I => ?_⟩
  · have hrun := rounds_split ⟨[e], []⟩
    simpa only [splitWeight, Nat.add_zero, List.flatMap_singleton, List.nil_append] using hrun
  · have hsingle := single_of_mem_flattened e c hc
    exact ⟨hsingle.1, hsingle.2, by rw [conjuncts_eq, flattened_of_single hsingle]⟩
  · rw [← truthBy_truth, truthBy_eq_all]

end Expr

end SelectRouting
