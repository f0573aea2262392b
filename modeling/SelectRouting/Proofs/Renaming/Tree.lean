import SelectRouting.Proofs.Leaf
import Mathlib.Data.List.Basic
/-!
# Renaming a column

Places tell columns apart, so the column at a place can be renamed (`Expr.rename`).  Nothing else of a tree changes: the
parts of a renamed tree are its renamed parts (`Expr.children_rename`), and so are its nodes (`Expr.nodes_rename`).
-/
namespace SelectRouting.Expr

/-- With another name for the column without an owner that stands at a place. -/
def rename (span : Span) (word : String) : Expr → Expr
  | .literal value => .literal value
  | .column owner name place => if owner = none ∧ place = span then .column none word span else .column owner name place
  | .binary op left right => .binary op (left.rename span word) (right.rename span word)
  | .unary op operand => .unary op (operand.rename span word)
  | .call name distinct arguments => .call name distinct (arguments.attach.map fun e => rename span word e.1)
  | .isNull tested negated => .isNull (tested.rename span word) negated
  | .within tested members negated =>
    .within (tested.rename span word) (members.attach.map fun e => rename span word e.1) negated
  | .between tested low high negated =>
    .between (tested.rename span word) (low.rename span word) (high.rename span word) negated
  | .case operand branches otherwise =>
    .case (operand.attach.map fun e => rename span word e.1)
      (branches.attach.map fun b => (rename span word b.1.1, rename span word b.1.2))
      (otherwise.attach.map fun e => rename span word e.1)
  | .paren inner => .paren (inner.rename span word)
  | .placeholder ordinal place => .placeholder ordinal place
  | .wildcard owner => .wildcard owner
termination_by e => sizeOf e
decreasing_by
  all_goals refine sizeOf_lt_of_mem_children ?_
  all_goals simp only [children, List.mem_cons, List.mem_append, List.mem_flatMap, Option.mem_toList, true_or, or_true]
  · exact e.2
  · exact .inr e.2
  · exact .inl (.inl e.2)
  · exact .inl (.inr ⟨b.1, b.2, .inl rfl⟩)
  · exact .inl (.inr ⟨b.1, b.2, .inr (.inl rfl)⟩)
  · exact .inr e.2

variable {span : Span} {word : String}

section
attribute [local simp] rename

@[simp] theorem rename_literal (value : Literal) : (literal value).rename span word = .literal value := by
  simp

@[simp] theorem rename_placeholder (i : Nat) (place : Span) :
    (placeholder i place).rename span word = .placeholder i place := by
  simp

@[simp] theorem rename_wildcard (owner : Option String) : (wildcard owner).rename span word = .wildcard owner := by
  simp

@[simp] theorem rename_qualified (owner name : String) (place : Span) :
    (column (some owner) name place).rename span word = .column (some owner) name place := by
  simp

@[simp] theorem rename_column (name : String) : (column none name span).rename span word = .column none word span := by
  simp

theorem rename_column_of_ne {place : Span} (h : place ≠ span) (name : String) :
    (column none name place).rename span word = .column none name place := by
  simp [h]

@[simp] theorem rename_binary (op : BinaryOp) (left right : Expr) :
    (binary op left right).rename span word = .binary op (left.rename span word) (right.rename span word) := by
  simp

@[simp] theorem rename_unary (op : UnaryOp) (e : Expr) : (unary op e).rename span word = .unary op (e.rename span word) := by
  simp

@[simp] theorem rename_call (name : String) (distinct : Bool) (arguments : List Expr) :
    (call name distinct arguments).rename span word = .call name distinct (arguments.map (rename span word)) := by
  rw [rename, List.attach_map_val]

@[simp] theorem rename_isNull (e : Expr) (negated : Bool) :
    (isNull e negated).rename span word = .isNull (e.rename span word) negated := by
  simp

@[simp] theorem rename_within (e : Expr) (members : List Expr) (negated : Bool) :
    (within e members negated).rename span word =
      .within (e.rename span word) (members.map (rename span word)) negated := by
  rw [rename, List.attach_map_val]

@[simp] theorem rename_between (e low high : Expr) (negated : Bool) : (between e low high negated).rename span word =
    .between (e.rename span word) (low.rename span word) (high.rename span word) negated := by
  simp

@[simp] theorem rename_case (operand : Option Expr) (branches : List (Expr × Expr)) (otherwise : Option Expr) :
    (case operand branches otherwise).rename span word = .case (operand.map (rename span word))
      (branches.map fun b => (b.1.rename span word, b.2.rename span word)) (otherwise.map (rename span word)) := by
  have hbranches : (branches.attach.map fun b => (b.1.1.rename span word, b.1.2.rename span word)) =
      branches.map fun b => (b.1.rename span word, b.2.rename span word) :=
    List.attach_map_val (f := fun b : Expr × Expr => (b.1.rename span word, b.2.rename span word))
  rw [rename, Option.attach_map_val, Option.attach_map_val, hbranches]

@[simp] theorem rename_paren (e : Expr) : (paren e).rename span word = .paren (e.rename span word) := by
  simp

end

theorem children_rename (e : Expr) : (e.rename span word).children = e.children.map (rename span word) := by
  cases e with
  | column owner name place =>
    rw [rename]
    split <;> rfl
  | case operand branches otherwise =>
    cases operand <;> cases otherwise <;> simp [children, List.map_flatMap, List.flatMap_map]
  | _ => simp [children]

/-- **Nothing is lost**: the nodes of a renamed tree are its nodes, renamed. -/
theorem nodes_rename (e : Expr) : (e.rename span word).nodes = e.nodes.map (rename span word) := by
  induction e using induction_children with
  | step e ih =>
    rw [nodes_eq, nodes_eq e, children_rename, List.map_cons, List.map_flatMap, List.flatMap_map]
    congr 1
    exact List.flatMap_congr fun c hc => ih c hc

end SelectRouting.Expr
