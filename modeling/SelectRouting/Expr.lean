import SelectRouting.Span
import SelectRouting.Literal
/-!
# Expressions

The tree of an expression keeps what routing looks at: columns with the place they are written at, parameters with their
ordinals, and the operators around them.  Parentheses stay in the tree.  Every walk over a tree goes through `children`,
the direct parts in the order in which they are written.  Main statement: a property that holds of a tree whenever it holds
of its children holds of all trees (`induction_children`).
-/
namespace SelectRouting

inductive BinaryOp where
  | or | and
  | eq | notEq | lt | ltEq | gt | gtEq | like
  | add | sub | concat
  | mul | div | mod
  deriving DecidableEq

inductive UnaryOp where
  | neg | not
  deriving DecidableEq

inductive Expr where
  | literal (value : Literal)
  /-- `name` or `owner.name`; the span covers the owner too. -/
  | column (owner : Option String) (name : String) (span : Span)
  | binary (op : BinaryOp) (left right : Expr)
  | unary (op : UnaryOp) (operand : Expr)
  /-- `name([DISTINCT] arguments)`. -/
  | call (name : String) (distinct : Bool) (arguments : List Expr)
  | isNull (tested : Expr) (negated : Bool)
  | within (tested : Expr) (members : List Expr) (negated : Bool)
  | between (tested low high : Expr) (negated : Bool)
  /-- With an operand each `WHEN` is compared to it, without one each is a condition. -/
  | case (operand : Option Expr) (branches : List (Expr × Expr)) (otherwise : Option Expr)
  | paren (inner : Expr)
  /-- A `?` with its ordinal among all parameters, from 0. -/
  | placeholder (ordinal : Nat) (span : Span)
  /-- `*` or `owner.*`. -/
  | wildcard (owner : Option String)

namespace Expr

/-- A column with no place in a text. -/
def ofName (name : String) : Expr :=
  .column none name ⟨0, 0⟩

/-! ## Parts -/

/-- The direct parts, in the order in which they are written. -/
def children : Expr → List Expr
  | .literal _ | .column .. | .placeholder .. | .wildcard _ => []
  | .binary _ left right => [left, right]
  | .unary _ operand => [operand]
  | .call _ _ arguments => arguments
  | .isNull tested _ => [tested]
  | .within tested members _ => tested :: members
  | .between tested low high _ => [tested, low, high]
  | .case operand branches otherwise =>
    operand.toList ++ branches.flatMap (fun b => [b.1, b.2]) ++ otherwise.toList
  | .paren inner => [inner]

theorem sizeOf_lt_of_mem_children {e c : Expr} (h : c ∈ e.children) : sizeOf c < sizeOf e := by
  cases e with
  | literal | column | placeholder | wildcard => simp [children] at h
  | binary op left right =>
    simp only [children, List.mem_cons, List.not_mem_nil, or_false] at h
    rw [binary.sizeOf_spec]
    rcases h with rfl | rfl <;> omega
  | unary op operand =>
    simp only [children, List.mem_cons, List.not_mem_nil, or_false] at h
    rw [unary.sizeOf_spec, h]
    omega
  | call name distinct arguments =>
    have := List.sizeOf_lt_of_mem (show c ∈ arguments from h)
    rw [call.sizeOf_spec]
    omega
  | isNull tested negated =>
    simp only [children, List.mem_cons, List.not_mem_nil, or_false] at h
    rw [isNull.sizeOf_spec, h]
    omega
  | within tested members negated =>
    rw [within.sizeOf_spec]
    rcases List.mem_cons.1 h with rfl | h
    · omega
    · have := List.sizeOf_lt_of_mem h
      omega
  | between tested low high negated =>
    simp only [children, List.mem_cons, List.not_mem_nil, or_false] at h
    rw [between.sizeOf_spec]
    rcases h with rfl | rfl | rfl <;> omega
  | case operand branches otherwise =>
    simp only [children, List.mem_append, Option.mem_toList, List.mem_flatMap, List.mem_cons, List.not_mem_nil,
      or_false] at h
    rw [case.sizeOf_spec]
    rcases h with (h | ⟨b, hb, h⟩) | h
    · rw [Option.mem_def.1 h, Option.some.sizeOf_spec]
      omega
    · have := List.sizeOf_lt_of_mem hb
      obtain ⟨w, t⟩ := b
      rw [Prod.mk.sizeOf_spec] at this
      rcases h with rfl | rfl <;> omega
    · rw [Option.mem_def.1 h, Option.some.sizeOf_spec]
      omega
  | paren inner =>
    simp only [children, List.mem_cons, List.not_mem_nil, or_false] at h
    rw [paren.sizeOf_spec, h]
    omega

/-- What holds of a tree as soon as it holds of its children holds of every tree. -/
theorem induction_children {P : Expr → Prop} (step : ∀ e : Expr, (∀ c ∈ e.children, P c) → P e) (e : Expr) : P e :=
  step e fun c _ => induction_children step c
termination_by sizeOf e
decreasing_by exact sizeOf_lt_of_mem_children ‹_›

/-- All nodes, each in front of its parts, and these in the order in which they are written. -/
def nodes (e : Expr) : List Expr :=
  e :: e.children.attach.flatMap fun c => nodes c.1
termination_by sizeOf e
decreasing_by exact sizeOf_lt_of_mem_children c.2

theorem nodes_eq (e : Expr) : e.nodes = e :: e.children.flatMap nodes := by
  conv => rhs; rw [← List.attach_map_subtype_val e.children, List.flatMap_map]
  rw [nodes]

/-- The number of nodes on the longest path. -/
def depth (e : Expr) : Nat :=
  1 + e.children.attach.foldl (fun d c => max d (depth c.1)) 0
termination_by sizeOf e
decreasing_by exact sizeOf_lt_of_mem_children c.2

/-! ## Parentheses and conjuncts -/

/-- The expression inside any number of parentheses. -/
def unparenthesized : Expr → Expr
  | .paren inner => inner.unparenthesized
  | e => e

theorem unparenthesized_ne_paren (e inner : Expr) : e.unparenthesized ≠ .paren inner := by
  fun_induction unparenthesized e with
  | case1 inner' ih => exact ih
  | case2 e hparen => exact hparen inner

theorem sizeOf_unparenthesized_le : ∀ e : Expr, sizeOf e.unparenthesized ≤ sizeOf e
  | .paren inner => by
    have := sizeOf_unparenthesized_le inner
    rw [unparenthesized, paren.sizeOf_spec]
    omega
  | .literal _ | .column .. | .binary .. | .unary .. | .call .. | .isNull .. | .within .. | .between .. | .case ..
  | .placeholder .. | .wildcard _ => by simp [unparenthesized]

/-- The operands that the expressions of a stack are conjunctions of, left to right. -/
def splitConjunctions : List Expr → List Expr
  | [] => []
  | e :: stack =>
    match _h : e.unparenthesized with
    | .binary .and left right => splitConjunctions (left :: right :: stack)
    | single => single :: splitConjunctions stack
termination_by stack => sizeOf stack
decreasing_by
  · have := sizeOf_unparenthesized_le e
    rw [_h, binary.sizeOf_spec, BinaryOp.and.sizeOf_spec] at this
    simp only [List.cons.sizeOf_spec]
    omega
  · rw [List.cons.sizeOf_spec]
    omega

theorem splitConjunctions_of_and {e left right : Expr} {stack : List Expr}
    (h : e.unparenthesized = .binary .and left right) :
    splitConjunctions (e :: stack) = splitConjunctions (left :: right :: stack) := by
  rw [splitConjunctions]
  split
  · next l r heq =>
    rw [h] at heq
    cases heq
    rfl
  · next hsingle => exact absurd h (hsingle left right)

theorem splitConjunctions_of_single {e : Expr} {stack : List Expr}
    (h : ∀ left right, e.unparenthesized ≠ .binary .and left right) :
    splitConjunctions (e :: stack) = e.unparenthesized :: splitConjunctions stack := by
  rw [splitConjunctions]
  split
  · next left right heq => exact absurd heq (h left right)
  · rfl

/-- The operands of the conjunction that a predicate is, seen through parentheses; a predicate that is none is its only
operand. -/
def conjuncts (e : Expr) : List Expr :=
  splitConjunctions [e]

end Expr

end SelectRouting
