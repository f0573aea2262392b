import SelectRouting.Statement
/-!
# The leaves of a statement

Its parameters and its names, in the order in which they are written.  A leaf keeps what the tree keeps of it, so a row
count or an offset has an ordinal and no place, and a star has an owner and no place.  Constants and operators are no
leaves, and neither are aliases.
-/
namespace SelectRouting

inductive Leaf where
  /-- A `?` in an expression. -/
  | placeholder (ordinal : Nat) (span : Span)
  /-- A `?` for a row count or an offset. -/
  | bound (ordinal : Nat)
  | column (owner : Option String) (name : String) (span : Span)
  | star (owner : Option String)
  | table (schema : Option String) (name : String) (span : Span)
  deriving DecidableEq

namespace Leaf

def ordinal? : Leaf → Option Nat
  | .placeholder i _ | .bound i => some i
  | _ => none

def placeholderSpan? : Leaf → Option Span
  | .placeholder _ span => some span
  | _ => none

/-- Not a `?` for a row count or an offset. -/
def InTree : Leaf → Prop
  | .bound _ => False
  | _ => True

end Leaf

/-! ## Expressions -/

namespace Expr

def leaf? : Expr → Option Leaf
  | .placeholder i span => some (.placeholder i span)
  | .column owner name span => some (.column owner name span)
  | .wildcard owner => some (.star owner)
  | _ => none

def leaves (e : Expr) : List Leaf :=
  e.nodes.filterMap leaf?

theorem leaves_eq (e : Expr) : e.leaves = e.leaf?.toList ++ e.children.flatMap leaves := by
  rw [leaves, nodes_eq, List.filterMap_cons, List.filterMap_flatMap]
  cases e.leaf? <;> rfl

/-- The leaves of a node are those of what it has. -/
theorem leaves_of_node {e : Expr} (h : e.leaf? = none) : e.leaves = e.children.flatMap leaves := by
  rw [leaves_eq, h]
  rfl

@[simp] theorem leaves_literal (v : Literal) : (literal v).leaves = [] := leaves_eq _

@[simp] theorem leaves_placeholder (i : Nat) (span : Span) : (placeholder i span).leaves = [.placeholder i span] :=
  leaves_eq _

@[simp] theorem leaves_column (owner : Option String) (name : String) (span : Span) :
    (column owner name span).leaves = [.column owner name span] :=
  leaves_eq _

@[simp] theorem leaves_wildcard (owner : Option String) : (wildcard owner).leaves = [.star owner] := leaves_eq _

@[simp] theorem leaves_binary (op : BinaryOp) (left right : Expr) :
    (binary op left right).leaves = left.leaves ++ right.leaves := by
  have hparts : (binary op left right).leaves = [left, right].flatMap leaves := leaves_of_node rfl
  rw [hparts, List.flatMap_cons, List.flatMap_singleton]

@[simp] theorem leaves_unary (op : UnaryOp) (e : Expr) : (unary op e).leaves = e.leaves := by
  have hparts : (unary op e).leaves = [e].flatMap leaves := leaves_of_node rfl
  rw [hparts, List.flatMap_singleton]

@[simp] theorem leaves_call (name : String) (distinct : Bool) (args : List Expr) :
    (call name distinct args).leaves = args.flatMap leaves :=
  leaves_eq _

@[simp] theorem leaves_isNull (e : Expr) (negated : Bool) : (isNull e negated).leaves = e.leaves := by
  have hparts : (isNull e negated).leaves = [e].flatMap leaves := leaves_of_node rfl
  rw [hparts, List.flatMap_singleton]

@[simp] theorem leaves_within (e : Expr) (members : List Expr) (negated : Bool) :
    (within e members negated).leaves = e.leaves ++ members.flatMap leaves :=
  leaves_eq _

@[simp] theorem leaves_between (e low high : Expr) (negated : Bool) :
    (between e low high negated).leaves = e.leaves ++ (low.leaves ++ high.leaves) := by
  have hparts : (between e low high negated).leaves = [e, low, high].flatMap leaves := leaves_of_node rfl
  rw [hparts, List.flatMap_cons, List.flatMap_cons, List.flatMap_singleton]

@[simp] theorem leaves_case (operand : Option Expr) (branches : List (Expr × Expr)) (otherwise : Option Expr) :
    (case operand branches otherwise).leaves = operand.toList.flatMap leaves ++
      (branches.flatMap (fun b => b.1.leaves ++ b.2.leaves) ++ otherwise.toList.flatMap leaves) := by
  have hparts : (case operand branches otherwise).leaves =
      (operand.toList ++ branches.flatMap (fun b => [b.1, b.2]) ++ otherwise.toList).flatMap leaves := leaves_of_node rfl
  simp [hparts, List.flatMap_assoc]

@[simp] theorem leaves_paren (e : Expr) : (paren e).leaves = e.leaves := by
  have hparts : (paren e).leaves = [e].flatMap leaves := leaves_of_node rfl
  rw [hparts, List.flatMap_singleton]

theorem eq_of_leaf? {n m : Expr} {l : Leaf} (hn : n.leaf? = some l) (hm : m.leaf? = some l) : m = n := by
  cases n <;> cases hn <;> cases m <;> cases hm <;> rfl

theorem inTree_of_mem_leaves {e : Expr} {l : Leaf} (h : l ∈ e.leaves) : l.InTree := by
  obtain ⟨n, -, hn⟩ := List.mem_filterMap.1 h
  cases n <;> cases hn <;> trivial

/-- A node that is a leaf is found among the leaves. -/
theorem mem_nodes_iff_of_leaf? {e n : Expr} {l : Leaf} (h : n.leaf? = some l) : n ∈ e.nodes ↔ l ∈ e.leaves := by
  rw [leaves, List.mem_filterMap]
  constructor
  · exact fun hn => ⟨n, hn, h⟩
  · rintro ⟨m, hm, hl⟩
    rwa [← eq_of_leaf? h hl]

/-- A parameter among the leaves is a node. -/
theorem placeholder_mem_nodes {e : Expr} {i : Nat} {span : Span} :
    placeholder i span ∈ e.nodes ↔ Leaf.placeholder i span ∈ e.leaves :=
  mem_nodes_iff_of_leaf? rfl

/-- A column among the leaves is a node. -/
theorem column_mem_nodes {e : Expr} {owner : Option String} {name : String} {span : Span} :
    column owner name span ∈ e.nodes ↔ Leaf.column owner name span ∈ e.leaves :=
  mem_nodes_iff_of_leaf? rfl

end Expr

/-! ## Statements -/

def OrderItem.leaves (o : OrderItem) : List Leaf :=
  o.expr.leaves

def SelectItem.leaves : SelectItem → List Leaf
  | .star owner => [.star owner]
  | .expression e _ => e.leaves
  | .rowNumber order _ => order.flatMap OrderItem.leaves

/-- The condition of a join stands behind its right side. -/
def TableRef.leaves : TableRef → List Leaf
  | .table schema name _ span => [.table schema name span]
  | .join _ left right condition _ => left.leaves ++ (right.leaves ++ condition.toList.flatMap Expr.leaves)

def Limit.Value.leaves : Limit.Value → List Leaf
  | .literal _ => []
  | .parameter i => [.bound i]

namespace Statement

def rowCountLeaves (s : Statement) : List Leaf :=
  (s.limit.bind (·.rowCount)).toList.flatMap Limit.Value.leaves

def offsetLeaves (s : Statement) : List Leaf :=
  (s.limit.bind (·.offset)).toList.flatMap Limit.Value.leaves

/-- The leaves from the select list to the order. -/
def clauseLeaves (s : Statement) : List Leaf :=
  s.items.flatMap SelectItem.leaves ++ (s.sources.flatMap TableRef.leaves ++ (s.predicate.toList.flatMap Expr.leaves ++
    (s.groups.flatMap Expr.leaves ++ (s.having.toList.flatMap Expr.leaves ++ s.order.flatMap OrderItem.leaves))))

/-- All leaves in the order in which they are written.  The row count comes first when it is the one of `TOP`, and last
when it is the one of `FETCH`, which the statement alone does not tell. -/
def leaves (top : Bool) (s : Statement) : List Leaf :=
  if top then s.rowCountLeaves ++ (s.clauseLeaves ++ s.offsetLeaves)
  else s.clauseLeaves ++ (s.offsetLeaves ++ s.rowCountLeaves)

/-- All but the number of parameters and the edits. -/
def clauses (s : Statement) : Statement :=
  { s with parameters := 0, edits := [] }

theorem eq_of_clauses {s t : Statement} (hc : s.clauses = t.clauses) (hp : s.parameters = t.parameters)
    (he : s.edits = t.edits) : s = t := by
  cases s
  cases t
  simp_all [clauses]

end Statement

end SelectRouting
