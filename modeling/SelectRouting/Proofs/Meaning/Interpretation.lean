import SelectRouting.Statement
/-!
# The meaning of expressions

An interpretation gives a value to what an expression is made of, and a truth value to each comparison.  There are
three truth values, and `AND`, `OR` and `NOT` are Kleene's.  Of the comparisons only so much is asked: that equality
is symmetric, that `IN` is true when equality with a member is, and `BETWEEN` when both comparisons with the bounds
are.  `numbers` is an interpretation in which null is neither equal nor unequal to anything.
-/
namespace SelectRouting

universe u

inductive Truth where
  | yes
  | no
  | unknown
  deriving DecidableEq

namespace Truth

def and : Truth → Truth → Truth
  | .no, _ | _, .no => .no
  | .yes, .yes => .yes
  | _, _ => .unknown

def or : Truth → Truth → Truth
  | .yes, _ | _, .yes => .yes
  | .no, .no => .no
  | _, _ => .unknown

def not : Truth → Truth
  | .yes => .no
  | .no => .yes
  | .unknown => .unknown

def ofBool (b : Bool) : Truth :=
  if b then .yes else .no

theorem and_eq_yes : ∀ {s t : Truth}, s.and t = .yes ↔ s = .yes ∧ t = .yes
  | .yes, t => by cases t <;> simp [and]
  | .no, t => by cases t <;> simp [and]
  | .unknown, t => by cases t <;> simp [and]

theorem or_eq_yes : ∀ {s t : Truth}, s.or t = .yes ↔ s = .yes ∨ t = .yes
  | .yes, t => by cases t <;> simp [or]
  | .no, t => by cases t <;> simp [or]
  | .unknown, t => by cases t <;> simp [or]

/-- The disjunction of a list. -/
def any {α : Type u} (f : α → Truth) (xs : List α) : Truth :=
  xs.foldr (fun x t => (f x).or t) .no

theorem any_eq_yes {α : Type u} {f : α → Truth} {xs : List α} : any f xs = .yes ↔ ∃ x ∈ xs, f x = .yes := by
  induction xs with
  | nil => simp [any]
  | cons x xs ih =>
    rw [any, List.foldr_cons, or_eq_yes]
    simp only [List.mem_cons, exists_eq_or_imp]
    exact or_congr_right ih

end Truth

/-- Values for what expressions are made of.  Truth values are values too. -/
structure Interpretation (V : Type u) where
  literal : Literal → V
  /-- A column at one place; the same name may have another value at another. -/
  column : Option String → String → Span → V
  /-- The value bound to the parameter with an ordinal. -/
  parameter : Nat → V
  star : Option String → V
  call : String → Bool → List V → V
  null : V
  toTruth : V → Truth
  ofTruth : Truth → V
  compare : BinaryOp → V → V → Truth
  arithmetic : BinaryOp → V → V → V
  negate : V → V
  isNull : V → Truth
  within : V → List V → Truth
  between : V → V → V → Truth
  toTruth_ofTruth (t : Truth) : toTruth (ofTruth t) = t
  compare_eq_comm (v w : V) : compare .eq v w = compare .eq w v
  within_eq_yes {v : V} {members : List V} : within v members = .yes ↔ ∃ m ∈ members, compare .eq v m = .yes
  between_eq_yes {v low high : V} :
    between v low high = .yes ↔ compare .gtEq v low = .yes ∧ compare .ltEq v high = .yes

namespace Interpretation

variable {V : Type u}

/-! ## Values of expressions -/

section
variable (I : Interpretation V)

def binary (op : BinaryOp) (v w : V) : V :=
  match op with
  | .and => I.ofTruth ((I.toTruth v).and (I.toTruth w))
  | .or => I.ofTruth ((I.toTruth v).or (I.toTruth w))
  | .eq | .notEq | .lt | .ltEq | .gt | .gtEq | .like => I.ofTruth (I.compare op v w)
  | .add | .sub | .concat | .mul | .div | .mod => I.arithmetic op v w

def unary (op : UnaryOp) (v : V) : V :=
  match op with
  | .not => I.ofTruth (I.toTruth v).not
  | .neg => I.negate v

/-- The value of a test, turned around by `NOT`. -/
def test (negated : Bool) (t : Truth) : V :=
  I.ofTruth (if negated then t.not else t)

/-- The value of the first branch that is equal to the operand, or that is true. -/
def case (operand : Option V) (branches : List (V × V)) (otherwise : Option V) : V :=
  let chosen (b : V × V) : Bool :=
    match operand with
    | some v => I.compare .eq v b.1 = .yes
    | none => I.toTruth b.1 = .yes
  match branches.find? chosen with
  | some b => b.2
  | none => otherwise.getD I.null

mutual

def value : Expr → V
  | .literal l => I.literal l
  | .column owner name span => I.column owner name span
  | .binary op left right => I.binary op (value left) (value right)
  | .unary op operand => I.unary op (value operand)
  | .call name distinct arguments => I.call name distinct (values arguments)
  | .isNull tested negated => I.test negated (I.isNull (value tested))
  | .within tested members negated => I.test negated (I.within (value tested) (values members))
  | .between tested low high negated => I.test negated (I.between (value tested) (value low) (value high))
  | .case operand branches otherwise =>
    I.case (optionalValue operand) (branchValues branches) (optionalValue otherwise)
  | .paren inner => value inner
  | .placeholder i _ => I.parameter i
  | .wildcard owner => I.star owner

def values : List Expr → List V
  | [] => []
  | e :: es => value e :: values es

def branchValues : List (Expr × Expr) → List (V × V)
  | [] => []
  | (condition, result) :: bs => (value condition, value result) :: branchValues bs

def optionalValue : Option Expr → Option V
  | none => none
  | some e => some (value e)

end

/-- Whether a predicate is true. -/
def truth (e : Expr) : Truth :=
  I.toTruth (I.value e)

end

variable {I : Interpretation V}

theorem values_eq_map (es : List Expr) : I.values es = es.map I.value := by
  induction es with
  | nil => rw [values, List.map_nil]
  | cons e es ih => rw [values, ih, List.map_cons]

theorem value_paren (e : Expr) : I.value (.paren e) = I.value e :=
  rfl

theorem truth_paren (e : Expr) : I.truth (.paren e) = I.truth e := by
  rw [truth, value_paren, truth]

theorem truth_and (left right : Expr) : I.truth (.binary .and left right) = (I.truth left).and (I.truth right) := by
  show I.toTruth (I.ofTruth ((I.truth left).and (I.truth right))) = _
  rw [I.toTruth_ofTruth]

theorem truth_eq (left right : Expr) :
    I.truth (.binary .eq left right) = I.compare .eq (I.value left) (I.value right) := by
  show I.toTruth (I.ofTruth (I.compare .eq (I.value left) (I.value right))) = _
  rw [I.toTruth_ofTruth]

theorem truth_within (tested : Expr) (members : List Expr) :
    I.truth (.within tested members false) = I.within (I.value tested) (members.map I.value) := by
  show I.toTruth (I.ofTruth (I.within (I.value tested) (I.values members))) = _
  rw [I.toTruth_ofTruth, values_eq_map]

theorem truth_between (tested low high : Expr) :
    I.truth (.between tested low high false) = I.between (I.value tested) (I.value low) (I.value high) := by
  show I.toTruth (I.ofTruth (I.between (I.value tested) (I.value low) (I.value high))) = _
  rw [I.toTruth_ofTruth]

/-! ## Numbers -/

/-- A comparison of two numbers; with a null it is not known. -/
def compareNumbers (op : BinaryOp) : Option Int → Option Int → Truth
  | some n, some k =>
    match op with
    | .eq => .ofBool (n = k)
    | .notEq => .ofBool (n ≠ k)
    | .lt => .ofBool (n < k)
    | .ltEq => .ofBool (n ≤ k)
    | .gt => .ofBool (k < n)
    | .gtEq => .ofBool (k ≤ n)
    | _ => .unknown
  | _, _ => .unknown

theorem compareNumbers_eq_comm : ∀ v w : Option Int, compareNumbers .eq v w = compareNumbers .eq w v
  | some n, some k => by simp only [compareNumbers, eq_comm]
  | some _, none | none, some _ | none, none => rfl

/-- Integers and null; a number is true if it is not zero. -/
def numbers (column : String → Option Int) (parameter : Nat → Option Int) : Interpretation (Option Int) where
  literal
    | .integer n => some n
    | _ => none
  column _ name _ := column name
  parameter := parameter
  star _ := none
  call _ _ _ := none
  null := none
  toTruth
    | some n => .ofBool (n ≠ 0)
    | none => .unknown
  ofTruth
    | .yes => some 1
    | .no => some 0
    | .unknown => none
  compare := compareNumbers
  arithmetic _ _ _ := none
  negate v := v.map (- ·)
  isNull v := .ofBool v.isNone
  within v members := .any (compareNumbers .eq v) members
  between v low high := (compareNumbers .gtEq v low).and (compareNumbers .ltEq v high)
  toTruth_ofTruth t := by cases t <;> rfl
  compare_eq_comm := compareNumbers_eq_comm
  within_eq_yes := Truth.any_eq_yes
  between_eq_yes := Truth.and_eq_yes

end Interpretation

end SelectRouting
