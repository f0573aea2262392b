import SelectRouting.Proofs.Likeness.Select
/-!
# Pairs of tokens in one order

When the rules agree on every name, and tokens that are alike start in the same order in both texts, then the edits are
alike one by one, each pair at a pair of tokens, and the conditions look the same.  So the statements look the same
(`Pairing.parse_alike`).
-/
namespace SelectRouting

/-! ## Conditions and edits -/

theorem Condition.ofPredicate_congr {rule rule' : Rule}
    (h : ∀ table column, rule.isShardingColumn table column = rule'.isShardingColumn table column)
    (tables : List (String × Option String)) (e : Expr) : ofPredicate rule tables e = ofPredicate rule' tables e := by
  have hsharding : rule.isShardingColumn = rule'.isShardingColumn := funext₂ h
  have htable : table? rule = table? rule' := by
    funext tables owner name
    unfold table?
    rw [hsharding]
  have hcolumn : column? rule = column? rule' := by
    funext tables e
    unfold column?
    rw [htable, hsharding]
  have hconjunct : ofConjunct? rule tables = ofConjunct? rule' tables := by
    funext e
    unfold ofConjunct?
    rw [hcolumn]
  rw [ofPredicate, ofPredicate, hconjunct]

theorem Edit.forall₂_insert {E : Edit → Edit → Prop}
    (horder : ∀ {x x' e e'}, E x x' → E e e' → (x.start ≤ e.start ↔ x'.start ≤ e'.start)) {e e' : Edit} (he : E e e')
    {es es' : List Edit} (h : List.Forall₂ E es es') : List.Forall₂ E (e.insert es) (e'.insert es') := by
  induction h with
  | nil => exact .cons he .nil
  | @cons x x' xs xs' hx hxs ih =>
    rw [insert_cons, insert_cons]
    by_cases hle : x.start ≤ e.start
    · rw [if_pos hle, if_pos ((horder hx he).1 hle)]
      exact .cons hx ih
    · rw [if_neg hle, if_neg (mt (horder hx he).2 hle)]
      exact .cons he (.cons hx hxs)

namespace Grammar

/-- Tokens of two texts that are alike, and start in the same order. -/
structure Pairing (rule rule' : Rule) where
  view : View
  token : Token → Token → Prop
  kind : ∀ {t u}, token t u → t.kind.map view = u.kind.map view
  text : ∀ {t u}, token t u → view.name t.text = view.name u.text
  span : ∀ {t u t' u'}, token t u → token t' u' →
    view.span ⟨t.span.start, t'.span.stop⟩ = view.span ⟨u.span.start, u'.span.stop⟩
  start : ∀ {t u}, token t u → view.start t.span.start = view.start u.span.start
  order : ∀ {t u t' u'}, token t u → token t' u' → (t.span.start ≤ t'.span.start ↔ u.span.start ≤ u'.span.start)
  containsTable : ∀ name, rule.containsTable name = rule'.containsTable name
  isShardingColumn : ∀ table column, rule.isShardingColumn table column = rule'.isShardingColumn table column

namespace Pairing

variable {rule rule' : Rule} (P : Pairing rule rule')

/-- Edits that look the same, at two tokens that are alike. -/
structure Edits (e e' : Edit) : Prop where
  map : e.map P.view = e'.map P.view
  tokens : ∃ t u, P.token t u ∧ e.start = t.span.start ∧ e'.start = u.span.start

variable {P}

theorem Edits.insert {e e' : Edit} (he : P.Edits e e') {es es' : List Edit} (h : List.Forall₂ P.Edits es es') :
    List.Forall₂ P.Edits (e.insert es) (e'.insert es') := by
  refine Edit.forall₂_insert (fun {x x' e e'} hx he => ?_) he h
  obtain ⟨t, u, htu, hx, hx'⟩ := hx.tokens
  obtain ⟨t', u', htu', he, he'⟩ := he.tokens
  rw [hx, hx', he, he']
  exact P.order htu htu'

theorem containsTable_eq {name name' : String} (h : P.view.name name = P.view.name name') :
    rule.containsTable name = rule'.containsTable name' := by
  rw [← rule.containsTable_name (v := P.view), h, rule.containsTable_name, P.containsTable]

variable (P)

def likeness : Likeness rule rule' where
  view := P.view
  token := P.token
  edits := List.Forall₂ P.Edits
  conditions := Same (List.map (Condition.map P.view))
  kind := P.kind
  text := P.text
  span := fun h => P.span h h
  wideSpan := P.span
  noEdits := .nil
  tableEdit := by
    intro t u name name' es es' htu hname hes
    rw [containsTable_eq hname]
    split
    · refine Edits.insert ⟨?_, t, u, htu, rfl, rfl⟩ hes
      exact congrArg₂ Edit.table (P.start htu) (P.text htu)
    · exact hes
  rowCountEdit := by
    intro t u es es' n htu hes
    refine Edits.insert ⟨?_, t, u, htu, rfl, rfl⟩ hes
    exact congrArg (Edit.rowCount · n) (P.start htu)
  offsetEdit := by
    intro t u es es' n htu hes
    refine Edits.insert ⟨?_, t, u, htu, rfl, rfl⟩ hes
    exact congrArg (Edit.offset · n) (P.start htu)
  noConditions := rfl
  predicate := by
    intro p p' tables tables' cs cs' hp htables hcs
    have hpredicate : (Condition.ofPredicate rule tables p).map (Condition.map P.view) =
        (Condition.ofPredicate rule' tables' p').map (Condition.map P.view) := by
      rw [← Condition.ofPredicate_map, ← Condition.ofPredicate_map, hp, htables,
        Condition.ofPredicate_congr P.isShardingColumn]
    rw [Same, List.map_append, List.map_append, hcs, hpredicate]

variable {P}

theorem map_eq_of_statements {s s' : Statement} (h : P.likeness.Statements s s') : s.map P.view = s'.map P.view := by
  have hitems : s.items.map (SelectItem.map P.view) = s'.items.map (SelectItem.map P.view) := h.items
  have hsources : s.sources.map (TableRef.map P.view) = s'.sources.map (TableRef.map P.view) := h.sources
  have hpredicate : s.predicate.map (Expr.map P.view) = s'.predicate.map (Expr.map P.view) := h.predicate
  have hgroups : s.groups.map (Expr.map P.view) = s'.groups.map (Expr.map P.view) := h.groups
  have hhaving : s.having.map (Expr.map P.view) = s'.having.map (Expr.map P.view) := h.having
  have horder : s.order.map (OrderItem.map P.view) = s'.order.map (OrderItem.map P.view) := h.order
  have hconditions : s.conditions.map (Condition.map P.view) = s'.conditions.map (Condition.map P.view) := h.conditions
  have hedits : s.edits.map (Edit.map P.view) = s'.edits.map (Edit.map P.view) := by
    have hmaps := List.Forall₂.imp (fun _ _ he => Edits.map he) h.edits
    rwa [← List.forall₂_eq_eq_eq, List.forall₂_map_left_iff, List.forall₂_map_right_iff]
  unfold Statement.map
  rw [h.distinct, hitems, hsources, hpredicate, hgroups, hhaving, horder, h.limit, hconditions, h.parameters, hedits]

/-- **Texts whose tokens pair up have outcomes that look the same**: statements with their edits at pairs of tokens, or
errors with the same cause at a pair of tokens. -/
theorem parse_alike (P : Pairing rule rule') (d : Dialect) {a b : String}
    (h : List.Forall₂ P.token (Token.lex a) (Token.lex b)) :
    (∃ s s', Statement.parse d rule a = .ok s ∧ Statement.parse d rule' b = .ok s' ∧ s.map P.view = s'.map P.view ∧
      List.Forall₂ P.Edits s.edits s'.edits) ∨
    ∃ e e', Statement.parse d rule a = .error e ∧ Statement.parse d rule' b = .error e' ∧
      e.cause.map P.view = e'.cause.map P.view ∧ ∃ t u, P.token t u ∧ e.span = t.span ∧ e'.span = u.span := by
  have houtcomes := Likeness.parse_alike P.likeness d h
  generalize Statement.parse d rule a = r, Statement.parse d rule' b = r' at houtcomes
  cases houtcomes with
  | ok statement => exact .inl ⟨_, _, rfl, rfl, map_eq_of_statements statement, statement.edits⟩
  | error error => exact .inr ⟨_, _, rfl, rfl, error.cause, error.place⟩

end Pairing

end Grammar

end SelectRouting
