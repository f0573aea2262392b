import SelectRouting.Proofs.Likeness.Select
/-!
# One text under two rules

The grammar asks the rule for nothing: a text is read alike under any two rules, token by token the same.  The rule
decides only which table names get an edit, and which conditions there are (`parse_of_rules`).
-/
namespace SelectRouting

/-! ## Everything seen -/

namespace View

@[simp] theorem name_whole : whole.name = id := by
  funext s
  simp [name, whole]

@[simp] theorem span_whole (span : Span) : whole.span span = span :=
  rfl

@[simp] theorem table_whole : whole.table = id := by
  funext ⟨name, a⟩
  simp [table]

end View

@[simp] theorem Token.Kind.map_whole (k : Token.Kind) : k.map .whole = k := by
  cases k <;> simp [Token.Kind.map]

theorem Expr.mapRoot_whole {f : Expr → Expr} {e : Expr} (h : ∀ c ∈ e.children, f c = c) : e.mapRoot .whole f = e := by
  have hlist : ∀ es : List Expr, (∀ c ∈ es, c ∈ e.children) → es.map f = es := fun es hes =>
    (List.map_congr_left fun c hc => h c (hes c hc)).trans es.map_id
  have hoption : ∀ e? : Option Expr, (∀ c ∈ e?.toList, c ∈ e.children) → e?.map f = e?
    | none, _ => rfl
    | some c, hc => congrArg some (h c (hc c List.mem_cons_self))
  cases e with
  | literal | column | placeholder | wildcard => simp [mapRoot]
  | binary op left right => rw [mapRoot, h left (by simp [children]), h right (by simp [children])]
  | unary op operand => rw [mapRoot, h operand (by simp [children])]
  | call name distinct arguments => rw [mapRoot, hlist arguments fun _ hc => hc, View.name_whole, id]
  | isNull tested negated => rw [mapRoot, h tested (by simp [children])]
  | within tested members negated =>
    rw [mapRoot, h tested (by simp [children]), hlist members fun _ hc => List.mem_cons_of_mem _ hc]
  | between tested low high negated =>
    rw [mapRoot, h tested (by simp [children]), h low (by simp [children]), h high (by simp [children])]
  | case operand branches otherwise =>
    have hbranches : branches.map (fun b => (f b.1, f b.2)) = branches := by
      refine (List.map_congr_left fun b hb => ?_).trans branches.map_id
      have hchild : ∀ c ∈ [b.1, b.2], f c = c := fun c hc =>
        h c (List.mem_append_left _ (List.mem_append_right _ (List.mem_flatMap.2 ⟨b, hb, hc⟩)))
      exact Prod.ext (hchild b.1 (by simp)) (hchild b.2 (by simp))
    rw [mapRoot, hbranches, hoption operand fun _ hc => List.mem_append_left _ (List.mem_append_left _ hc),
      hoption otherwise fun _ hc => List.mem_append_right _ hc]
  | paren inner => rw [mapRoot, h inner (by simp [children])]

@[simp] theorem Expr.map_whole : Expr.map .whole = id := by
  funext e
  induction e using Expr.induction_children with
  | step e ih => rw [Expr.map_eq, Expr.mapRoot_whole ih, id]

@[simp] theorem OrderItem.map_whole : OrderItem.map .whole = id := by
  funext i
  simp [OrderItem.map]

@[simp] theorem SelectItem.map_whole : SelectItem.map .whole = id := by
  funext i
  cases i <;> simp [SelectItem.map]

@[simp] theorem TableRef.map_whole : TableRef.map .whole = id := by
  funext t
  induction t with
  | table schema name a span => simp [map]
  | join kind left right condition columns ihl ihr => simp [map, ihl, ihr]

@[simp] theorem ParseError.Cause.map_whole (c : ParseError.Cause) : c.map .whole = c := by
  cases c <;> simp [ParseError.Cause.map]

/-! ## Rules -/

namespace Rule

/-- Every table that one rule lists is listed in the other. -/
def Within (rule rule' : Rule) : Prop :=
  ∀ t ∈ rule.tables, rule'.containsTable t.name = true

theorem containsTable_iff {rule : Rule} {name : String} :
    rule.containsTable name = true ↔ ∃ t ∈ rule.tables, Text.sameName t.name name = true := by
  simp [containsTable, table?]

theorem Within.containsTable {rule rule' : Rule} (h : rule.Within rule') {name : String}
    (hname : rule.containsTable name = true) : rule'.containsTable name = true := by
  obtain ⟨t, ht, hsame⟩ := containsTable_iff.1 hname
  obtain ⟨t', ht', hsame'⟩ := containsTable_iff.1 (h t ht)
  exact containsTable_iff.2 ⟨t', ht', by rwa [Text.sameName_congr hsame']⟩

theorem containsTable_empty (name : String) : empty.containsTable name = false :=
  rfl

end Rule

theorem Condition.ofPredicate_empty (tables : List (String × Option String)) (e : Expr) :
    ofPredicate .empty tables e = [] := by
  have hcolumn : ∀ tested, column? .empty tables tested = none := fun tested => by
    unfold column?
    split
    · exact Option.bind_eq_none_iff.2 fun t _ => rfl
    · rfl
  refine List.filterMap_eq_nil_iff.2 fun c _ => ?_
  unfold ofConjunct?
  cases comparison? c with
  | none => rfl
  | some comparison => simp [hcolumn]

/-! ## Statements -/

def Edit.isTable : Edit → Bool
  | .table .. => true
  | .rowCount .. | .offset .. => false

namespace Grammar

/-- Edits under two rules: at the same places but for tables, and for these too when one rule is within the other. -/
structure RuledEdits (rule rule' : Rule) (es es' : List Edit) : Prop where
  ordered : Edit.Ordered es
  ordered' : Edit.Ordered es'
  limits : es.filter (!·.isTable) = es'.filter (!·.isTable)
  sublist : rule.Within rule' → es.Sublist es'
  none : rule = .empty → ∀ e ∈ es, e.isTable = false

namespace RuledEdits

variable {rule rule' : Rule} {es es' : List Edit}

theorem insert {e : Edit} (he : e.isTable = false) (h : RuledEdits rule rule' es es') :
    RuledEdits rule rule' (e.insert es) (e.insert es') where
  ordered := Edit.insert_ordered e h.ordered
  ordered' := Edit.insert_ordered e h.ordered'
  limits := by
    have hlimit : (!e.isTable) = true := by rw [he]; rfl
    rw [Edit.filter_insert_of_pos hlimit h.ordered, Edit.filter_insert_of_pos hlimit h.ordered', h.limits]
  sublist := fun hwithin => Edit.insert_sublist_insert (h.sublist hwithin) h.ordered'
  none := fun hrule x hx => by
    rcases List.mem_cons.1 ((Edit.insert_perm e es).mem_iff.1 hx) with rfl | hx
    · exact he
    · exact h.none hrule x hx

theorem insertTable (name : String) {start : Nat} {written : String} (h : RuledEdits rule rule' es es') :
    RuledEdits rule rule' (if rule.containsTable name then (Edit.table start written).insert es else es)
      (if rule'.containsTable name then (Edit.table start written).insert es' else es') where
  ordered := by
    split
    · exact Edit.insert_ordered _ h.ordered
    · exact h.ordered
  ordered' := by
    split
    · exact Edit.insert_ordered _ h.ordered'
    · exact h.ordered'
  limits := by
    have htable : (!(Edit.table start written).isTable) = false := rfl
    rw [apply_ite (List.filter _), apply_ite (List.filter _), Edit.filter_insert_of_neg htable,
      Edit.filter_insert_of_neg htable, ite_self, ite_self, h.limits]
  sublist := fun hwithin => by
    by_cases hname : rule.containsTable name = true
    · rw [if_pos hname, if_pos (hwithin.containsTable hname)]
      exact Edit.insert_sublist_insert (h.sublist hwithin) h.ordered'
    · rw [if_neg hname]
      split
      · exact (h.sublist hwithin).trans (Edit.sublist_insert _ _)
      · exact h.sublist hwithin
  none := by
    rintro rfl
    rw [if_neg (by rw [Rule.containsTable_empty]; exact Bool.false_ne_true)]
    exact h.none rfl

end RuledEdits

/-- The same tokens under two rules. -/
def ruled (rule rule' : Rule) : Likeness rule rule' where
  view := .whole
  token := Eq
  edits := RuledEdits rule rule'
  conditions := fun cs _ => rule = .empty → cs = []
  kind := fun h => by rw [h]
  text := fun h => by rw [h]
  span := fun h => by rw [h]
  wideSpan := fun h h' => by rw [h, h']
  noEdits := ⟨.nil, .nil, rfl, fun _ => List.nil_sublist _, fun _ _ => nofun⟩
  tableEdit := by
    intro t u name name' es es' htu hname hes
    rw [View.name_whole] at hname
    obtain rfl := htu
    obtain rfl : name = name' := hname
    exact hes.insertTable name
  rowCountEdit := fun n htu hes => by
    rw [htu]
    exact hes.insert rfl
  offsetEdit := fun n htu hes => by
    rw [htu]
    exact hes.insert rfl
  noConditions := fun _ => rfl
  predicate := by
    rintro p p' tables tables' cs cs' - - hcs rfl
    rw [hcs rfl, Condition.ofPredicate_empty]
    rfl

end Grammar

namespace Statement

/-- What is left of a statement without the table edits and the conditions. -/
def unruled (s : Statement) : Statement :=
  { s with conditions := [], edits := s.edits.filter (!·.isTable) }

theorem unruled_eq {rule rule' : Rule} {s s' : Statement} (h : (Grammar.ruled rule rule').Statements s s') :
    s.unruled = s'.unruled := by
  obtain ⟨distinct, items, sources, predicate, groups, having, order, limit, parameters, edits, -⟩ := h
  simp only [Grammar.ruled, SelectItem.map_whole, TableRef.map_whole, Expr.map_whole, OrderItem.map_whole,
    Grammar.Same, List.map_id, Option.map_id, id] at items sources predicate groups having order
  rw [unruled, unruled, distinct, items, sources, predicate, groups, having, order, limit, parameters, edits.limits]

/-- **The rule has no say in the grammar.**  Under two rules, a text is refused with one error, or accepted with statements
that differ in their table edits and conditions only; and the table edits under a rule are among those under another that
lists all its tables.  Without tables in the rule there are neither table edits nor conditions. -/
theorem parse_of_rules (d : Dialect) (rule rule' : Rule) (source : String) :
    ((∃ e, parse d rule source = .error e ∧ parse d rule' source = .error e) ∨
      ∃ s s', parse d rule source = .ok s ∧ parse d rule' source = .ok s' ∧ s.unruled = s'.unruled ∧
        (rule.Within rule' → (s.edits.filter (·.isTable)).Sublist (s'.edits.filter (·.isTable)))) ∧
    ∀ s, parse d .empty source = .ok s → s.edits.filter (·.isTable) = [] ∧ s.conditions = [] := by
  have htokens : List.Forall₂ (Eq : Token → Token → Prop) (Token.lex source) (Token.lex source) :=
    List.forall₂_same.2 fun _ _ => rfl
  constructor
  · have houtcomes := Grammar.Likeness.parse_alike (Grammar.ruled rule rule') d htokens
    generalize parse d rule source = r, parse d rule' source = r' at houtcomes
    cases houtcomes with
    | @ok s s' statement =>
      exact .inr ⟨s, s', rfl, rfl, unruled_eq statement, fun h => (statement.edits.sublist h).filter _⟩
    | @error e e' error =>
      have hcause : e.cause.map .whole = e'.cause.map .whole := error.cause
      rw [ParseError.Cause.map_whole, ParseError.Cause.map_whole] at hcause
      obtain ⟨t, u, rfl, hspan, hspan'⟩ := error.place
      have heq : e' = e := by
        rw [ParseError.mk.injEq]
        exact ⟨hcause.symm, hspan'.trans hspan.symm⟩
      exact .inl ⟨e, rfl, by rw [heq]⟩
  · intro s hs
    have houtcomes := Grammar.Likeness.parse_alike (Grammar.ruled .empty .empty) d htokens
    rw [hs] at houtcomes
    cases houtcomes with
    | ok statement =>
      refine ⟨List.filter_eq_nil_iff.2 fun e he => ?_, statement.conditions rfl⟩
      rw [statement.edits.none rfl e he]
      exact Bool.false_ne_true

/-- A text with two logic tables and a row count. -/
def joinedText : String :=
  "SELECT TOP 5 T.a FROM t JOIN u ON t.a = u.a WHERE u.b = ?"

/-- A rule for one of the tables. -/
def narrowRule : Rule :=
  ⟨[⟨"t", ["a"], []⟩]⟩

/-- A rule for both tables. -/
def wideRule : Rule :=
  ⟨[⟨"u", ["b"], []⟩, ⟨"T", [], []⟩]⟩

theorem parse_of_rules_joinedText : narrowRule.Within wideRule ∧
    ∃ s, parse .sqlServer narrowRule joinedText = .ok s ∧
      s.edits = [.rowCount 11 5, .table 13 "T", .table 22 "t", .table 34 "t"] ∧
      ∃ s', parse .sqlServer wideRule joinedText = .ok s' ∧ s'.edits = [.rowCount 11 5, .table 13 "T", .table 22 "t",
        .table 29 "u", .table 34 "t", .table 40 "u", .table 50 "u"] ∧
        s.unruled = s'.unruled ∧ (s.edits.filter (·.isTable)).Sublist (s'.edits.filter (·.isTable)) := by
  have hwithin : narrowRule.Within wideRule := by
    unfold Rule.Within
    decide
  refine ⟨hwithin, exists_of_parse edits _ rfl (by decide +kernel) fun s hs hedits => ⟨hedits, ?_⟩⟩
  refine exists_of_parse edits _ rfl (by decide +kernel) fun s' hs' hedits' => ⟨hedits', ?_⟩
  rcases (parse_of_rules .sqlServer narrowRule wideRule joinedText).1 with ⟨e, he, -⟩ | ⟨_, _, h, h', heq, hsublist⟩
  · cases hs.symm.trans he
  · cases hs.symm.trans h
    cases hs'.symm.trans h'
    exact ⟨heq, hsublist hwithin⟩

end Statement

end SelectRouting
