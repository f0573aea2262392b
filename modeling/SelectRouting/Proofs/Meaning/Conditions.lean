import SelectRouting.Proofs.Condition
import SelectRouting.Proofs.Meaning.Interpretation
import SelectRouting.Proofs.Trace.Select
/-!
# Conditions hold where the predicate is true

A condition never excludes a row that the statement selects: in every interpretation in which the predicate of an
accepted statement is true, each of its conditions holds of a column of the predicate (`conditions_hold`).  A true
conjunction has only true conjuncts, and a conjunct that a condition is made of is true if and only if the condition
holds of its column.
-/
namespace SelectRouting

universe u

variable {V : Type u} {I : Interpretation V}

theorem Interpretation.value_unparenthesized (I : Interpretation V) (e : Expr) :
    I.value e.unparenthesized = I.value e := by
  refine Expr.unparenthesized_of_paren (P := fun e' => I.value e' = I.value e) (fun inner h => ?_) e rfl
  rw [← h, I.value_paren]

namespace Condition

/-- The value that a constant or a parameter has. -/
def Value.meaning (I : Interpretation V) : Value → V
  | .literal l => I.literal l
  | .parameter i => I.parameter i

/-- How a value relates to those of a condition: it is equal to the only one or to some of them, or lies between the
two. -/
def Relation.Holds (I : Interpretation V) (v : V) : Relation → List V → Prop
  | .equal, [w] => I.compare .eq v w = .yes
  | .oneOf, ws => ∃ w ∈ ws, I.compare .eq v w = .yes
  | .between, [low, high] => I.compare .gtEq v low = .yes ∧ I.compare .ltEq v high = .yes
  | _, _ => False

/-- A condition holds of a predicate if it does of a column in it, one with the name of the condition's column. -/
def Holds (I : Interpretation V) (predicate : Expr) (c : Condition) : Prop :=
  ∃ owner span, .column owner c.column.name span ∈ predicate.nodes ∧
    c.relation.Holds I (I.column owner c.column.name span) (c.values.map (Value.meaning I))

theorem meaning_of_shardingValue? {e : Expr} {v : Value} (h : e.shardingValue? = some v) : v.meaning I = I.value e := by
  rw [← I.value_unparenthesized e]
  rcases unparenthesized_of_shardingValue? h with ⟨l, he, rfl⟩ | ⟨i, span, he, rfl⟩
  · rw [he, Interpretation.value, Value.meaning]
  · rw [he, Interpretation.value, Value.meaning]

theorem map_meaning_of_mapM {operands : List Expr} {values : List Value}
    (h : operands.mapM Expr.shardingValue? = some values) : values.map (Value.meaning I) = operands.map I.value := by
  induction operands generalizing values with
  | nil =>
    cases h
    rfl
  | cons o operands ih =>
    rw [List.mapM_cons] at h
    obtain ⟨v, hv, h⟩ := Option.bind_eq_some_iff.1 h
    obtain ⟨vs, hvs, h⟩ := Option.bind_eq_some_iff.1 h
    cases h
    rw [List.map_cons, List.map_cons, meaning_of_shardingValue? hv, ih hvs]

/-- What a comparison says is what its relation says of the tested side, whichever side of an equality that is. -/
theorem truth_eq_yes_of_comparison? {e tested : Expr} {relation : Relation} {operands : List Expr}
    (h : comparison? e = some (tested, relation, operands)) :
    I.truth e = .yes ↔ relation.Holds I (I.value tested) (operands.map I.value) := by
  unfold comparison? at h
  split at h
  · next left right =>
    rw [Interpretation.truth_eq]
    split at h
    · cases h
      exact Iff.rfl
    · cases h
      rw [I.compare_eq_comm]
      exact Iff.rfl
  · next tested members =>
    cases h
    rw [Interpretation.truth_within]
    exact I.within_eq_yes
  · next tested low high =>
    cases h
    rw [Interpretation.truth_between]
    exact I.between_eq_yes
  · cases h

/-- Where a predicate is true, so are all its conjuncts. -/
theorem truth_of_mem_conjuncts {predicate : Expr} (h : I.truth predicate = .yes) :
    ∀ e ∈ predicate.conjuncts, I.truth e = .yes := by
  refine Expr.forall_mem_conjuncts (P := fun e => I.truth e = .yes) (fun inner hinner => ?_)
    (fun left right hand => ?_) h
  · rw [← Interpretation.truth_paren]
    exact hinner
  · rw [Interpretation.truth_and] at hand
    exact Truth.and_eq_yes.1 hand

theorem holds_of_truth {rule : Rule} {tables : List (String × Option String)} {predicate : Expr} {c : Condition}
    (hc : c ∈ ofPredicate rule tables predicate) (h : I.truth predicate = .yes) : c.Holds I predicate := by
  obtain ⟨e, he, tested, operands, hcomparison, ⟨owner, span, hcolumn⟩, hvalues⟩ := exists_comparison hc
  have hmem : tested.unparenthesized ∈ predicate.nodes :=
    Expr.mem_nodes_trans (Expr.mem_nodes_of_mem_conjuncts he)
      (Expr.mem_nodes_of_mem_children (mem_children_of_comparison? hcomparison).1 tested.unparenthesized_mem_nodes)
  have htested : I.value tested = I.column owner c.column.name span := by
    rw [← I.value_unparenthesized tested, hcolumn, Interpretation.value]
  rw [hcolumn] at hmem
  refine ⟨owner, span, hmem, ?_⟩
  rw [map_meaning_of_mapM hvalues, ← htested]
  exact (truth_eq_yes_of_comparison? hcomparison).1 (truth_of_mem_conjuncts h e he)

end Condition

namespace Statement

/-- Where the predicate of an accepted statement is true, its conditions hold; without a predicate there are none. -/
theorem conditions_hold {d : Dialect} {rule : Rule} {source : String} {s : Statement}
    (h : parse d rule source = .ok s) : ∀ c ∈ s.conditions, ∃ p, s.predicate = some p ∧
      ∀ {V : Type u} (I : Interpretation V), I.truth p = .yes → c.Holds I p := by
  intro c hc
  obtain ⟨es, h⟩ := readFrom_of_parse h
  rw [h.read.conditions] at hc
  obtain ⟨p, hp, hc⟩ := List.mem_flatMap.1 hc
  exact ⟨p, Option.mem_toList.1 hp, fun I htrue => Condition.holds_of_truth hc htrue⟩

/-- A text with three conditions, and with comparisons of the same columns under `NOT` and `OR`. -/
def guardedText : String :=
  "SELECT a FROM t WHERE (3 = a AND NOT b = 1) AND (b = 1 OR a = 3) AND b IN (?, 4) AND a BETWEEN 1 AND ?"

/-- A row where `a` is 3 and `b` is 2, and 2 and 9 are bound to the parameters. -/
def guardedRow : Interpretation (Option Int) :=
  .numbers (fun name => if name = "a" then some 3 else if name = "b" then some 2 else none) ([2, 9][·]?)

def guardedConditions : List Condition :=
  [⟨⟨"t", "a"⟩, .equal, [.literal (.integer 3)]⟩,
    ⟨⟨"t", "b"⟩, .oneOf, [.parameter 0, .literal (.integer 4)]⟩,
    ⟨⟨"t", "a"⟩, .between, [.literal (.integer 1), .parameter 1]⟩]

theorem conditions_hold_guarded :
    ∃ s, parse .oracle ⟨[⟨"t", ["a", "b"], []⟩]⟩ guardedText = .ok s ∧ s.conditions = guardedConditions ∧
      ∃ p, s.predicate = some p ∧ guardedRow.truth p = .yes ∧ ∀ c ∈ guardedConditions, c.Holds guardedRow p := by
  refine exists_of_parse (fun s => (s.predicate.map guardedRow.truth, s.conditions)) (some .yes, guardedConditions)
    rfl (by decide +kernel) fun s hs hrun => ?_
  obtain ⟨htruth, hconditions⟩ := Prod.mk.inj hrun
  obtain ⟨p, hp, htrue⟩ := Option.map_eq_some_iff.1 htruth
  refine ⟨hconditions, p, hp, htrue, fun c hc => ?_⟩
  obtain ⟨q, hq, hholds⟩ := conditions_hold hs c (hconditions ▸ hc)
  cases hp.symm.trans hq
  exact hholds guardedRow htrue

end Statement

end SelectRouting
