import SelectRouting.Token
import SelectRouting.ParseError
import SelectRouting.Condition.Extract
/-!
# Views of a statement

A view says how much of the letters and places of a text is seen: it maps the letters of every name, the spans, and the
starts of the edits, and leaves all else as it is.  Two statements are alike when a view cannot tell them apart.  Main
statement: conditions can be extracted from what is seen, when a view keeps letters up to their case
(`Condition.ofPredicate_map`).
-/
namespace SelectRouting

structure View where
  letter : Char → Char
  span : Span → Span
  /-- The start of an edit. -/
  start : Nat → Nat
  /-- A letter changes its case at most. -/
  toLower_letter : ∀ c, (letter c).toLower = c.toLower

namespace View

/-- No place is seen. -/
def unplaced : View :=
  ⟨id, fun _ => ⟨0, 0⟩, fun _ => 0, fun _ => rfl⟩

/-- All letters and places are seen. -/
def whole : View :=
  ⟨id, id, id, fun _ => rfl⟩

def name (v : View) (s : String) : String :=
  String.ofList (s.toList.map v.letter)

variable {v : View}

@[simp] theorem fold_name (s : String) : Text.fold (v.name s) = Text.fold s := by
  simp [Text.fold, name, v.toLower_letter]

@[simp] theorem sameName_name_left (a b : String) : Text.sameName (v.name a) b = Text.sameName a b := by
  simp [Text.sameName]

@[simp] theorem sameName_name_right (a b : String) : Text.sameName a (v.name b) = Text.sameName a b := by
  simp [Text.sameName]

theorem name_append (a b : String) : v.name (a ++ b) = v.name a ++ v.name b := by
  simp [name]

end View

section
variable (v : View)

/-! ## Values -/

def Token.Kind.map : Token.Kind → Token.Kind
  | .identifier name => .identifier (v.name name)
  | k => k

namespace Expr

def map : Expr → Expr
  | .literal value => .literal value
  | .column owner name span => .column (owner.map v.name) (v.name name) (v.span span)
  | .binary op left right => .binary op left.map right.map
  | .unary op operand => .unary op operand.map
  | .call name distinct arguments => .call (v.name name) distinct (arguments.attach.map fun e => map e.1)
  | .isNull tested negated => .isNull tested.map negated
  | .within tested members negated => .within tested.map (members.attach.map fun e => map e.1) negated
  | .between tested low high negated => .between tested.map low.map high.map negated
  | .case operand branches otherwise =>
    .case (operand.attach.map fun e => map e.1) (branches.attach.map fun b => (map b.1.1, map b.1.2))
      (otherwise.attach.map fun e => map e.1)
  | .paren inner => .paren inner.map
  | .placeholder ordinal span => .placeholder ordinal (v.span span)
  | .wildcard owner => .wildcard (owner.map v.name)
termination_by e => sizeOf e
decreasing_by
  all_goals refine sizeOf_lt_of_mem_children ?_
  all_goals simp only [children, List.mem_cons, List.mem_append, List.mem_flatMap, Option.mem_toList, true_or, or_true]
  · exact e.2
  · exact .inr e.2
  · exact .inl (.inl e.2)
  · exact .inl (.inr ⟨b.1, b.2, .inl rfl⟩)
  · exact .inl (.inr ⟨b.1, b.2, .inr (.inl rfl)⟩)
  · exact .inr e.2

/-- What is seen of the root of an expression, with its parts mapped by `f`. -/
def mapRoot (f : Expr → Expr) : Expr → Expr
  | .literal value => .literal value
  | .column owner name span => .column (owner.map v.name) (v.name name) (v.span span)
  | .binary op left right => .binary op (f left) (f right)
  | .unary op operand => .unary op (f operand)
  | .call name distinct arguments => .call (v.name name) distinct (arguments.map f)
  | .isNull tested negated => .isNull (f tested) negated
  | .within tested members negated => .within (f tested) (members.map f) negated
  | .between tested low high negated => .between (f tested) (f low) (f high) negated
  | .case operand branches otherwise =>
    .case (operand.map f) (branches.map fun b => (f b.1, f b.2)) (otherwise.map f)
  | .paren inner => .paren (f inner)
  | .placeholder ordinal span => .placeholder ordinal (v.span span)
  | .wildcard owner => .wildcard (owner.map v.name)

theorem map_eq (e : Expr) : e.map v = e.mapRoot v (map v) := by
  cases e with
  | call name distinct arguments => rw [map, List.attach_map_val, mapRoot]
  | within tested members negated => rw [map, List.attach_map_val, mapRoot]
  | case operand branches otherwise =>
    have hbranches : (branches.attach.map fun b => (b.1.1.map v, b.1.2.map v)) =
        branches.map fun b => (b.1.map v, b.2.map v) :=
      List.attach_map_val (f := fun b : Expr × Expr => (b.1.map v, b.2.map v))
    rw [map, Option.attach_map_val, Option.attach_map_val, hbranches, mapRoot]
  | _ => rw [map, mapRoot]

@[simp] theorem map_literal (value : Literal) : (literal value).map v = .literal value :=
  map_eq v _

@[simp] theorem map_column (owner : Option String) (name : String) (span : Span) :
    (column owner name span).map v = .column (owner.map v.name) (v.name name) (v.span span) :=
  map_eq v _

@[simp] theorem map_binary (op : BinaryOp) (left right : Expr) :
    (binary op left right).map v = .binary op (left.map v) (right.map v) :=
  map_eq v _

@[simp] theorem map_unary (op : UnaryOp) (operand : Expr) : (unary op operand).map v = .unary op (operand.map v) :=
  map_eq v _

@[simp] theorem map_call (name : String) (distinct : Bool) (arguments : List Expr) :
    (call name distinct arguments).map v = .call (v.name name) distinct (arguments.map (map v)) :=
  map_eq v _

@[simp] theorem map_isNull (tested : Expr) (negated : Bool) :
    (isNull tested negated).map v = .isNull (tested.map v) negated :=
  map_eq v _

@[simp] theorem map_within (tested : Expr) (members : List Expr) (negated : Bool) :
    (within tested members negated).map v = .within (tested.map v) (members.map (map v)) negated :=
  map_eq v _

@[simp] theorem map_between (tested low high : Expr) (negated : Bool) :
    (between tested low high negated).map v = .between (tested.map v) (low.map v) (high.map v) negated :=
  map_eq v _

@[simp] theorem map_case (operand : Option Expr) (branches : List (Expr × Expr)) (otherwise : Option Expr) :
    (case operand branches otherwise).map v =
      .case (operand.map (map v)) (branches.map fun b => (b.1.map v, b.2.map v)) (otherwise.map (map v)) :=
  map_eq v _

@[simp] theorem map_paren (inner : Expr) : (paren inner).map v = .paren (inner.map v) :=
  map_eq v _

@[simp] theorem map_placeholder (ordinal : Nat) (span : Span) :
    (placeholder ordinal span).map v = .placeholder ordinal (v.span span) :=
  map_eq v _

@[simp] theorem map_wildcard (owner : Option String) : (wildcard owner).map v = .wildcard (owner.map v.name) :=
  map_eq v _

end Expr

def OrderItem.map (i : OrderItem) : OrderItem :=
  { i with expr := i.expr.map v }

def SelectItem.map : SelectItem → SelectItem
  | .star owner => .star (owner.map v.name)
  | .expression e a => .expression (e.map v) (a.map v.name)
  | .rowNumber order a => .rowNumber (order.map (OrderItem.map v)) (a.map v.name)

def TableRef.map : TableRef → TableRef
  | .table schema name a span => .table (schema.map v.name) (v.name name) (a.map v.name) (v.span span)
  | .join kind left right condition columns =>
    .join kind left.map right.map (condition.map (Expr.map v)) (columns.map v.name)

def Condition.map (c : Condition) : Condition :=
  { c with column := ⟨v.name c.column.table, v.name c.column.name⟩ }

def Edit.map : Edit → Edit
  | .table start written => .table (v.start start) (v.name written)
  | .rowCount start value => .rowCount (v.start start) value
  | .offset start value => .offset (v.start start) value

def ParseError.Cause.map : ParseError.Cause → ParseError.Cause
  | .unexpected expected found => .unexpected expected (found.map v)
  | .unsupported construct => .unsupported (v.name construct)
  | .invalid message => .invalid message

/-- What is seen of a statement. -/
def Statement.map (s : Statement) : Statement :=
  { s with
    items := s.items.map (SelectItem.map v)
    sources := s.sources.map (TableRef.map v)
    predicate := s.predicate.map (Expr.map v)
    groups := s.groups.map (Expr.map v)
    having := s.having.map (Expr.map v)
    order := s.order.map (OrderItem.map v)
    conditions := s.conditions.map (Condition.map v)
    edits := s.edits.map (Edit.map v) }

end

/-! ## Conditions -/

section
variable {v : View}

namespace Expr

theorem unparenthesized_map (e : Expr) : (e.map v).unparenthesized = e.unparenthesized.map v := by
  fun_induction unparenthesized e with
  | case1 inner ih => rw [map_paren, unparenthesized, ih]
  | case2 e hparen =>
    cases e with
    | paren inner => exact absurd rfl (hparen inner)
    | _ => simp [unparenthesized]

/-- An expression looks like a conjunction only if it is one. -/
theorem exists_and_of_map {e l r : Expr} (h : e.map v = .binary .and l r) : ∃ left right, e = .binary .and left right := by
  cases e with
  | binary op left right =>
    rw [map_binary] at h
    cases h
    exact ⟨left, right, rfl⟩
  | _ => simp at h

theorem splitConjunctions_map (stack : List Expr) :
    splitConjunctions (stack.map (map v)) = (splitConjunctions stack).map (map v) := by
  induction stack using splitConjunctions.induct with
  | case1 => simp [splitConjunctions]
  | case2 e stack left right h ih =>
    have hmap : (e.map v).unparenthesized = .binary .and (left.map v) (right.map v) := by
      rw [unparenthesized_map, h, map_binary]
    rw [List.map_cons, splitConjunctions_of_and hmap, splitConjunctions_of_and h, ← ih]
    rfl
  | case3 e stack h ih =>
    have hmap : ∀ left right, (e.map v).unparenthesized ≠ .binary .and left right := by
      intro left right heq
      rw [unparenthesized_map] at heq
      obtain ⟨l, r, hand⟩ := exists_and_of_map heq
      exact h l r hand
    rw [List.map_cons, splitConjunctions_of_single hmap, splitConjunctions_of_single h, ih, unparenthesized_map]
    rfl

theorem conjuncts_map (e : Expr) : (e.map v).conjuncts = e.conjuncts.map (map v) :=
  splitConjunctions_map [e]

theorem shardingValue?_map (e : Expr) : (e.map v).shardingValue? = e.shardingValue? := by
  unfold shardingValue?
  rw [unparenthesized_map]
  cases e.unparenthesized <;> simp

theorem isColumn_map (e : Expr) : (e.map v).isColumn = e.isColumn := by
  unfold isColumn
  rw [unparenthesized_map]
  cases e.unparenthesized <;> simp

end Expr

/-- What is seen of a table by its name and its alias. -/
def View.table (v : View) (t : String × Option String) : String × Option String :=
  (v.name t.1, t.2.map v.name)

theorem TableRef.tables_map (t : TableRef) : (t.map v).tables = t.tables.map v.table := by
  induction t with
  | table schema name a span => rfl
  | join kind left right condition columns ihl ihr => rw [map, tables, tables, ihl, ihr, List.map_append]

theorem Rule.isShardingColumn_name (rule : Rule) (table column : String) :
    rule.isShardingColumn (v.name table) (v.name column) = rule.isShardingColumn table column := by
  simp [isShardingColumn, table?, TableRule.isShardingColumn]

theorem Rule.containsTable_name (rule : Rule) (name : String) :
    rule.containsTable (v.name name) = rule.containsTable name := by
  simp [containsTable, table?]

namespace Condition

theorem isCalled_map (owner : String) (t : String × Option String) :
    isCalled (v.name owner) (v.table t) = isCalled owner t := by
  obtain ⟨name, a⟩ := t
  cases a <;> simp [isCalled, View.table]

theorem table?_map (rule : Rule) (tables : List (String × Option String)) (owner : Option String) (name : String) :
    table? rule (tables.map v.table) (owner.map v.name) (v.name name) =
      (table? rule tables owner name).map v.name := by
  cases owner with
  | some o =>
    have hcalled : isCalled (v.name o) ∘ v.table = isCalled o := funext fun t => isCalled_map o t
    show ((tables.map v.table).find? (isCalled (v.name o))).map (·.1) = _
    have hname : (fun t : String × Option String => t.1) ∘ v.table = v.name ∘ fun t => t.1 := rfl
    rw [List.find?_map, hcalled, Option.map_map, hname, ← Option.map_map]
    rfl
  | none =>
    have hsharding : (fun t => rule.isShardingColumn t.1 (v.name name)) ∘ v.table =
        fun t : String × Option String => rule.isShardingColumn t.1 name :=
      funext fun t => rule.isShardingColumn_name t.1 name
    have hfilter := List.filter_map (f := v.table) (p := fun t => rule.isShardingColumn t.1 (v.name name)) (l := tables)
    rw [hsharding] at hfilter
    cases tables with
    | nil => rfl
    | cons t tables =>
      cases tables with
      | nil => rfl
      | cons u ts =>
        simp only [List.map_cons] at hfilter
        simp only [table?, Option.map_none, List.map_cons, hfilter]
        cases (t :: u :: ts).filter fun t : String × Option String => rule.isShardingColumn t.1 name with
        | nil => rfl
        | cons t ts => cases ts <;> rfl

theorem column?_map (rule : Rule) (tables : List (String × Option String)) (e : Expr) :
    column? rule (tables.map v.table) (e.map v) =
      (column? rule tables e).map fun c => ⟨v.name c.table, v.name c.name⟩ := by
  unfold column?
  rw [Expr.unparenthesized_map]
  cases e.unparenthesized with
  | column owner name span =>
    rw [Expr.map_column]
    simp only [table?_map]
    cases table? rule tables owner name with
    | none => rfl
    | some t =>
      simp only [Option.map_some, Option.bind_some, rule.isShardingColumn_name]
      split <;> rfl
  | _ => simp

theorem comparison?_map (e : Expr) : comparison? (e.map v) =
    (comparison? e).map fun c => (c.1.map v, c.2.1, c.2.2.map (Expr.map v)) := by
  cases e with
  | binary op left right =>
    cases op with
    | eq =>
      simp only [Expr.map_binary, comparison?, Expr.isColumn_map]
      split <;> rfl
    | _ => simp [comparison?]
  | within tested members negated => cases negated <;> simp [comparison?]
  | between tested low high negated => cases negated <;> simp [comparison?]
  | _ => simp [comparison?]

theorem ofConjunct?_map (rule : Rule) (tables : List (String × Option String)) (e : Expr) :
    ofConjunct? rule (tables.map v.table) (e.map v) = (ofConjunct? rule tables e).map (Condition.map v) := by
  have hvalues : ∀ es : List Expr, (es.map (Expr.map v)).mapM Expr.shardingValue? = es.mapM Expr.shardingValue? := by
    intro es
    induction es with
    | nil => rfl
    | cons e es ih => simp only [List.map_cons, List.mapM_cons, Expr.shardingValue?_map, ih]
  unfold ofConjunct?
  rw [comparison?_map]
  cases comparison? e with
  | none => rfl
  | some c =>
    obtain ⟨tested, relation, operands⟩ := c
    simp only [Option.map_some, Option.bind_eq_bind, Option.bind_some, column?_map, hvalues]
    cases column? rule tables tested with
    | none => rfl
    | some column =>
      cases operands.mapM Expr.shardingValue? with
      | none => rfl
      | some values => rfl

/-- The conditions of what is seen of a predicate are what is seen of its conditions. -/
theorem ofPredicate_map (rule : Rule) (tables : List (String × Option String)) (e : Expr) :
    ofPredicate rule (tables.map v.table) (e.map v) = (ofPredicate rule tables e).map (Condition.map v) := by
  have hconjunct : ofConjunct? rule (tables.map v.table) ∘ Expr.map v =
      fun e => (ofConjunct? rule tables e).map (Condition.map v) :=
    funext fun e => ofConjunct?_map rule tables e
  rw [ofPredicate, Expr.conjuncts_map, List.filterMap_map, hconjunct, ofPredicate, List.map_filterMap]

end Condition

end

end SelectRouting
