import SelectRouting.Proofs.Condition.Conjuncts
import SelectRouting.Condition.Extract
import Mathlib.Logic.Relation
/-!
# Conditions and the way a predicate is written

Parentheses, the grouping of `AND` and the sides of an equality do not count for the conditions of a predicate
(`Statement.conditions_of_rewritten`).  A rewriting step at the root of a predicate regroups or keeps its conjuncts; inside a
conjunct it changes nothing that a condition is made of, since columns and values are looked for inside parentheses
(`atom?_of_rewrites`).
-/
namespace SelectRouting

namespace Expr

/-! ## Rewriting -/

/-- An expression with one of its parts missing. -/
inductive Frame where
  | leftOf (op : BinaryOp) (right : Expr)
  | rightOf (op : BinaryOp) (left : Expr)
  | operandOf (op : UnaryOp)
  | argumentOf (name : String) (distinct : Bool) (before after : List Expr)
  | testedNull (negated : Bool)
  | testedWithin (members : List Expr) (negated : Bool)
  | memberOf (tested : Expr) (before after : List Expr) (negated : Bool)
  | testedBetween (low high : Expr) (negated : Bool)
  | lowOf (tested high : Expr) (negated : Bool)
  | highOf (tested low : Expr) (negated : Bool)
  | caseOf (branches : List (Expr × Expr)) (otherwise : Option Expr)
  | whenOf (operand : Option Expr) (before : List (Expr × Expr)) (value : Expr) (after : List (Expr × Expr))
    (otherwise : Option Expr)
  | thenOf (operand : Option Expr) (before : List (Expr × Expr)) (condition : Expr) (after : List (Expr × Expr))
    (otherwise : Option Expr)
  | elseOf (operand : Option Expr) (branches : List (Expr × Expr))
  | innerOf

/-- The expression with its missing part. -/
def Frame.fill (e : Expr) : Frame → Expr
  | leftOf op right => .binary op e right
  | rightOf op left => .binary op left e
  | operandOf op => .unary op e
  | argumentOf name distinct before after => .call name distinct (before ++ e :: after)
  | testedNull negated => .isNull e negated
  | testedWithin members negated => .within e members negated
  | memberOf tested before after negated => .within tested (before ++ e :: after) negated
  | testedBetween low high negated => .between e low high negated
  | lowOf tested high negated => .between tested e high negated
  | highOf tested low negated => .between tested low e negated
  | caseOf branches otherwise => .case (some e) branches otherwise
  | whenOf operand before value after otherwise => .case operand (before ++ (e, value) :: after) otherwise
  | thenOf operand before condition after otherwise => .case operand (before ++ (condition, e) :: after) otherwise
  | elseOf operand branches => .case operand branches (some e)
  | innerOf => .paren e

/-- One rewriting step, at the root or anywhere inside. -/
inductive Rewrites : Expr → Expr → Prop where
  | enclose (e : Expr) : Rewrites e (.paren e)
  | regroup (a b c : Expr) : Rewrites (.binary .and (.binary .and a b) c) (.binary .and a (.binary .and b c))
  | swap (a b : Expr) : Rewrites (.binary .eq a b) (.binary .eq b a)
  | inside (f : Frame) {e e' : Expr} (h : Rewrites e e') : Rewrites (f.fill e) (f.fill e')

/-! ## Columns and values -/

/-- What a condition can be made of: a column, a constant or a parameter, in any parentheses. -/
def atom? (e : Expr) : Option Expr :=
  match e.unparenthesized with
  | .column owner name span => some (.column owner name span)
  | .literal v => some (.literal v)
  | .placeholder i span => some (.placeholder i span)
  | _ => none

/-- A step changes neither a column nor a value, and makes none of anything else. -/
theorem atom?_of_rewrites {e e' : Expr} (h : Rewrites e e') : e.atom? = e'.atom? := by
  induction h with
  | enclose | regroup | swap => rfl
  | inside f _ ih =>
    cases f with
    | innerOf => exact ih
    | _ => rfl

theorem isColumn_eq (e : Expr) : e.isColumn = (e.atom?.any fun a => a.isColumn) := by
  unfold isColumn atom?
  cases e.unparenthesized <;> rfl

theorem shardingValue?_eq (e : Expr) : e.shardingValue? = e.atom?.bind shardingValue? := by
  unfold shardingValue? atom?
  cases e.unparenthesized <;> rfl

end Expr

namespace Condition

open SelectRouting.Expr (Rewrites)

variable {rule : Rule} {tables : List (String × Option String)} {e e' : Expr}

theorem column?_eq (e : Expr) : column? rule tables e = e.atom?.bind (column? rule tables) := by
  unfold column? Expr.atom?
  cases e.unparenthesized <;> rfl

/-- A comparison by the atoms of its operands, which is all that a condition is made of. -/
def atoms (c : Expr × Relation × List Expr) : Option Expr × Relation × List (Option Expr) :=
  (c.1.atom?, c.2.1, c.2.2.map Expr.atom?)

theorem mapM_shardingValue? (es : List Expr) :
    es.mapM Expr.shardingValue? = (es.map Expr.atom?).mapM fun a => a.bind Expr.shardingValue? := by
  induction es with
  | nil => rfl
  | cons e es ih => rw [List.mapM_cons, List.map_cons, List.mapM_cons, ih, Expr.shardingValue?_eq]

/-- Conjuncts that compare the same atoms make the same condition. -/
theorem ofConjunct?_congr (h : (comparison? e).map atoms = (comparison? e').map atoms) :
    ofConjunct? rule tables e = ofConjunct? rule tables e' := by
  unfold ofConjunct?
  cases hc : comparison? e with
  | none =>
    rw [hc, Option.map_none] at h
    rw [Option.map_eq_none_iff.1 h.symm]
  | some c =>
    rw [hc, Option.map_some] at h
    obtain ⟨c', hc', hatoms⟩ := Option.map_eq_some_iff.1 h.symm
    obtain ⟨tested, relation, operands⟩ := c
    obtain ⟨tested', relation', operands'⟩ := c'
    obtain ⟨htested, hrest⟩ := Prod.mk.inj hatoms
    obtain ⟨hrelation, hoperands⟩ := Prod.mk.inj hrest
    have hcolumn : column? rule tables tested = column? rule tables tested' := by
      rw [column?_eq, column?_eq tested', htested]
    have hvalues : operands.mapM Expr.shardingValue? = operands'.mapM Expr.shardingValue? := by
      rw [mapM_shardingValue?, mapM_shardingValue? operands', hoperands]
    obtain rfl : relation' = relation := hrelation
    rw [hc']
    simp only [Option.bind_eq_bind, Option.bind_some, hcolumn, hvalues]

/-- A step inside a conjunct leaves the atoms that the conjunct compares. -/
theorem atoms_of_inside {f : Expr.Frame} (h : Rewrites e e') :
    (comparison? (f.fill e)).map atoms = (comparison? (f.fill e')).map atoms := by
  have hatom := Expr.atom?_of_rewrites h
  have hcolumn : e.isColumn = e'.isColumn := by rw [Expr.isColumn_eq, Expr.isColumn_eq e', hatom]
  cases f with
  | leftOf op right =>
    cases op with
    | eq =>
      simp only [Expr.Frame.fill, comparison?, hcolumn]
      cases e'.isColumn <;> simp [atoms, hatom]
    | _ => rfl
  | rightOf op left =>
    cases op with
    | eq =>
      simp only [Expr.Frame.fill, comparison?]
      cases left.isColumn <;> simp [atoms, hatom]
    | _ => rfl
  | testedWithin members negated => cases negated <;> simp [Expr.Frame.fill, comparison?, atoms, hatom]
  | memberOf tested before after negated => cases negated <;> simp [Expr.Frame.fill, comparison?, atoms, hatom]
  | testedBetween low high negated => cases negated <;> simp [Expr.Frame.fill, comparison?, atoms, hatom]
  | lowOf tested high negated => cases negated <;> simp [Expr.Frame.fill, comparison?, atoms, hatom]
  | highOf tested low negated => cases negated <;> simp [Expr.Frame.fill, comparison?, atoms, hatom]
  | _ => rfl

/-! ## Equality -/

theorem column?_of_not_isColumn (h : e.isColumn = false) : column? rule tables e = none := by
  unfold Expr.isColumn at h
  unfold column?
  cases hu : e.unparenthesized <;> simp_all

theorem shardingValue?_of_isColumn (h : e.isColumn = true) : e.shardingValue? = none := by
  unfold Expr.isColumn at h
  unfold Expr.shardingValue?
  cases hu : e.unparenthesized <;> simp_all

/-- The condition that a column and another operand of an equality make. -/
def equating? (rule : Rule) (tables : List (String × Option String)) (tested operand : Expr) : Option Condition :=
  (column? rule tables tested).bind fun column => operand.shardingValue?.map fun v => ⟨column, .equal, [v]⟩

theorem ofConjunct?_eq (a b : Expr) : ofConjunct? rule tables (.binary .eq a b) =
    if a.isColumn then equating? rule tables a b else equating? rule tables b a := by
  have hsingle : ∀ o : Expr, [o].mapM Expr.shardingValue? = o.shardingValue?.map fun v => [v] := fun o => by
    cases h : o.shardingValue? <;> simp [h]
  unfold ofConjunct? equating?
  simp only [comparison?]
  split <;> simp only [Option.bind_eq_bind, Option.bind_some, hsingle]
  all_goals
    congr 1
    funext column
    rw [Option.bind_map, Option.map_eq_bind]
    rfl

/-- The side of the column does not count: where both sides are columns, or neither is, there is no condition. -/
theorem ofConjunct?_swap (a b : Expr) :
    ofConjunct? rule tables (.binary .eq a b) = ofConjunct? rule tables (.binary .eq b a) := by
  have hnone : ∀ t o : Expr, t.isColumn = o.isColumn → equating? rule tables t o = none := fun t o hsame => by
    unfold equating?
    cases ht : t.isColumn with
    | false => rw [column?_of_not_isColumn ht, Option.bind_none]
    | true =>
      rw [shardingValue?_of_isColumn (hsame ▸ ht)]
      cases column? rule tables t <;> rfl
  rw [ofConjunct?_eq, ofConjunct?_eq]
  cases ha : a.isColumn <;> cases hb : b.isColumn
  · rw [hnone b a (hb.trans ha.symm), hnone a b (ha.trans hb.symm)]
  · rfl
  · rfl
  · rw [hnone a b (ha.trans hb.symm), hnone b a (hb.trans ha.symm)]

/-! ## Predicates -/

theorem ofPredicate_paren (e : Expr) : ofPredicate rule tables (.paren e) = ofPredicate rule tables e := by
  rw [ofPredicate, ofPredicate, Expr.conjuncts_eq, Expr.conjuncts_eq, Expr.flattened]

theorem ofPredicate_and (left right : Expr) : ofPredicate rule tables (.binary .and left right) =
    ofPredicate rule tables left ++ ofPredicate rule tables right := by
  simp only [ofPredicate, Expr.conjuncts_eq, Expr.flattened, List.filterMap_append]

theorem ofPredicate_of_single (h : e.Single) : ofPredicate rule tables e = (ofConjunct? rule tables e).toList := by
  rw [ofPredicate, Expr.conjuncts_eq, Expr.flattened_of_single h]
  cases hc : ofConjunct? rule tables e <;> simp [hc]

theorem ofPredicate_of_rewrites (h : Rewrites e e') : ofPredicate rule tables e = ofPredicate rule tables e' := by
  induction h with
  | enclose e => rw [ofPredicate_paren]
  | regroup a b c => simp only [ofPredicate_and, List.append_assoc]
  | swap a b =>
    have hsingle := Expr.single_binary (show BinaryOp.eq ≠ .and by decide)
    rw [ofPredicate_of_single (hsingle a b), ofPredicate_of_single (hsingle b a), ofConjunct?_swap]
  | @inside f e e' h ih =>
    -- Only parentheses and conjunctions are looked through; any other expression is a conjunct as a whole.
    have hconjunct : (f.fill e).Single → (f.fill e').Single →
        ofPredicate rule tables (f.fill e) = ofPredicate rule tables (f.fill e') := fun hsingle hsingle' => by
      rw [ofPredicate_of_single hsingle, ofPredicate_of_single hsingle', ofConjunct?_congr (atoms_of_inside h)]
    cases f with
    | innerOf =>
      rw [Expr.Frame.fill, Expr.Frame.fill, ofPredicate_paren, ofPredicate_paren]
      exact ih
    | leftOf op right =>
      by_cases hop : op = .and
      · subst hop
        rw [Expr.Frame.fill, Expr.Frame.fill, ofPredicate_and, ofPredicate_and, ih]
      · exact hconjunct (Expr.single_binary hop _ _) (Expr.single_binary hop _ _)
    | rightOf op left =>
      by_cases hop : op = .and
      · subst hop
        rw [Expr.Frame.fill, Expr.Frame.fill, ofPredicate_and, ofPredicate_and, ih]
      · exact hconjunct (Expr.single_binary hop _ _) (Expr.single_binary hop _ _)
    | _ => exact hconjunct ⟨nofun, nofun⟩ ⟨nofun, nofun⟩

end Condition

namespace Statement

open SelectRouting.Expr (Rewrites)

/-- **The way a predicate is written does not count.**  Predicates that any number of steps lead from one to the other, each
step taken either way, have the same conditions against the tables of every statement. -/
theorem conditions_of_rewritten (rule : Rule) (s : Statement) {p p' : Expr} (h : Relation.EqvGen Rewrites p p') :
    Condition.ofPredicate rule s.tables p = Condition.ofPredicate rule s.tables p' := by
  induction h with
  | rel _ _ h => exact Condition.ofPredicate_of_rewrites h
  | refl _ => rfl
  | symm _ _ _ ih => exact ih.symm
  | trans _ _ _ _ _ ih ih' => exact ih.trans ih'

/-- The tree of `a = 1 AND (b = 2 AND c IN (?, 3))`, but without a node for its parentheses. -/
def plainPredicate : Expr :=
  .binary .and (.binary .eq (.ofName "a") (.literal (.integer 1)))
    (.binary .and (.binary .eq (.ofName "b") (.literal (.integer 2)))
      (.within (.ofName "c") [.placeholder 0 ⟨0, 0⟩, .literal (.integer 3)] false))

/-- The tree of `1 = (a) AND b = 2 AND c IN ((?), 3)`. -/
def respelledPredicate : Expr :=
  .binary .and
    (.binary .and (.binary .eq (.literal (.integer 1)) (.paren (.ofName "a")))
      (.binary .eq (.ofName "b") (.literal (.integer 2))))
    (.within (.ofName "c") [.paren (.placeholder 0 ⟨0, 0⟩), .literal (.integer 3)] false)

def respelledConditions : List Condition :=
  [⟨⟨"t", "a"⟩, .equal, [.literal (.integer 1)]⟩, ⟨⟨"t", "b"⟩, .equal, [.literal (.integer 2)]⟩,
    ⟨⟨"t", "c"⟩, .oneOf, [.parameter 0, .literal (.integer 3)]⟩]

theorem conditions_of_rewritten_respelled : Relation.EqvGen Rewrites plainPredicate respelledPredicate ∧
    Condition.ofPredicate ⟨[⟨"t", ["a", "b", "c"], []⟩]⟩
      { empty with sources := [.table none "t" none ⟨0, 0⟩] }.tables respelledPredicate = respelledConditions := by
  have hsteps : Relation.EqvGen Rewrites plainPredicate respelledPredicate := by
    refine .trans _ _ _ (.symm _ _ (.rel _ _ (.regroup _ _ _))) ?_
    refine .trans _ _ _ (.rel _ _ (.inside (.leftOf .and _) (.inside (.leftOf .and _) (.swap _ _)))) ?_
    refine .trans _ _ _
      (.rel _ _ (.inside (.leftOf .and _) (.inside (.leftOf .and _) (.inside (.rightOf .eq _) (.enclose _))))) ?_
    exact .rel _ _ (.inside (.rightOf .and _) (.inside (.memberOf _ [] _ _) (.enclose _)))
  exact ⟨hsteps, (conditions_of_rewritten _ _ hsteps).symm.trans (by decide +kernel)⟩

end Statement

end SelectRouting
