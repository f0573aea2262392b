import SelectRouting.Proofs.HandOver
import SelectRouting.Proofs.Likeness.Rule
import SelectRouting.Proofs.Rule.Distinct
/-!
# Loading a rule

A rule is loaded from its own text as long as it lists no table twice, and otherwise refused for the first entry that
repeats an earlier one.  A rule that is loaded may have its entries in any order: the grammar and the conditions know a
rule by its look-ups only (`parse_congr`), and these do not depend on the order (`load_and_order`).
-/
namespace SelectRouting

/-! ## Rules with the same look-ups -/

theorem Condition.ofPredicate_of_table?_eq {rule rule' : Rule} (h : rule.table? = rule'.table?) :
    ofPredicate rule = ofPredicate rule' := by
  have hcolumns : rule.isShardingColumn = rule'.isShardingColumn := Rule.isShardingColumn_congr h
  have htable : table? rule = table? rule' := by
    funext tables owner name
    simp only [table?, hcolumns]
  have hcolumn : column? rule = column? rule' := by
    funext tables e
    rw [column?, column?, htable, hcolumns]
  funext tables e
  have hconjunct : ofConjunct? rule tables = ofConjunct? rule' tables := by
    funext c
    rw [ofConjunct?, ofConjunct?, hcolumn]
  rw [ofPredicate, ofPredicate, hconjunct]

namespace Grammar

/-- The same tokens, edits and conditions under two rules with the same look-ups. -/
def lookedUp {rule rule' : Rule} (h : rule.table? = rule'.table?) : Likeness rule rule' :=
  { ruled rule rule' with
    edits := Eq
    conditions := Eq
    noEdits := rfl
    tableEdit := by
      intro t u name name' es es' htu hname hes
      simp only [ruled, View.name_whole, id] at htu hname
      rw [Rule.containsTable_congr h, htu, hname, hes]
    rowCountEdit := fun n htu hes => by rw [hes, htu]
    offsetEdit := fun n htu hes => by rw [hes, htu]
    noConditions := rfl
    predicate := by
      intro p p' tables tables' cs cs' hp htables hcs
      simp only [ruled, Expr.map_whole, View.table_whole, List.map_id, id] at hp htables
      rw [Condition.ofPredicate_of_table?_eq h, hp, htables, hcs] }

theorem lookedUp_statements {rule rule' : Rule} (h : rule.table? = rule'.table?) {s s' : Statement}
    (hs : (lookedUp h).Statements s s') : s = s' := by
  obtain ⟨distinct, items, sources, predicate, groups, having, order, limit, parameters, edits, conditions⟩ := hs
  simp only [lookedUp, ruled, SelectItem.map_whole, TableRef.map_whole, Expr.map_whole, OrderItem.map_whole, Same, List.map_id,
    Option.map_id, id] at items sources predicate groups having order edits conditions
  rw [Statement.mk.injEq]
  exact ⟨distinct, items, sources, predicate, groups, having, order, limit, conditions, parameters, edits⟩

theorem lookedUp_errors {rule rule' : Rule} (h : rule.table? = rule'.table?) {e e' : ParseError}
    (he : (lookedUp h).Errors e e') : e = e' := by
  have hcause : e.cause.map .whole = e'.cause.map .whole := he.cause
  rw [ParseError.Cause.map_whole, ParseError.Cause.map_whole] at hcause
  obtain ⟨t, u, rfl, hspan, hspan'⟩ := he.place
  rw [ParseError.mk.injEq]
  exact ⟨hcause, hspan.trans hspan'.symm⟩

end Grammar

/-- A rule counts for a text by its look-ups only. -/
theorem Statement.parse_congr {rule rule' : Rule} (h : rule.table? = rule'.table?) (d : Dialect) (source : String) :
    parse d rule source = parse d rule' source := by
  have htokens : List.Forall₂ (Eq : Token → Token → Prop) (Token.lex source) (Token.lex source) :=
    List.forall₂_same.2 fun _ _ => rfl
  have houtcomes := Grammar.Likeness.parse_alike (Grammar.lookedUp h) d htokens
  generalize parse d rule source = r, parse d rule' source = r' at houtcomes
  cases houtcomes with
  | ok statement => rw [Grammar.lookedUp_statements h statement]
  | error error => rw [Grammar.lookedUp_errors h error]

/-! ## Texts of rules -/

namespace Rule

open Json (ReadBack)

theorem readBack (r : Rule) : ReadBack toJson ofJson? r where
  plain := .object (by simp [(ReadBack.list fun t (_ : t ∈ r.tables) => TableRule.readBack t).plain])
  value := by
    have hfields : (toJson r).fields? ["tables"] = some [.present (Json.list TableRule.toJson r.tables)] :=
      Json.fields?_record rfl
    have htables := (ReadBack.list fun t (_ : t ∈ r.tables) => TableRule.readBack t).value
    simp [ofJson?, hfields, Json.Field.defaulted, htables]

variable {r : Rule}

theorem load_text_of_distinct (h : r.Distinct) : load r.toJson.text = .ok r := by
  rw [load, (readBack r).of_text]
  simp only [repeated?_eq_none.2 h]

theorem load_text_of_firstRepeat {t : TableRule} (h : r.FirstRepeat t) :
    load r.toJson.text = .error (.repeated t.name) := by
  rw [load, (readBack r).of_text]
  simp only [repeated?_of_firstRepeat h]

theorem distinct_of_load {text : String} (h : load text = .ok r) : r.Distinct := by
  rw [load] at h
  cases hread : (Json.parse? text).bind ofJson? with
  | none =>
    rw [hread] at h
    cases h
  | some r' =>
    rw [hread] at h
    cases hrepeated : r'.repeated? with
    | none =>
      simp only [hrepeated] at h
      cases h
      exact repeated?_eq_none.1 hrepeated
    | some name =>
      simp only [hrepeated] at h
      cases h

/-- **A rule is loaded exactly when it lists no table twice, and its order does not matter.**  From its own text a rule is
loaded as it is, or refused under the name, as it is written, of the first entry that repeats an earlier one.  Of a rule
that is loaded from any text, the entries may be put in any order: look-ups answer the same for all names, and every text
is read the same in every dialect. -/
theorem load_and_order (r : Rule) :
    (load r.toJson.text = .ok r ↔ r.Distinct) ∧
    (∀ t, r.FirstRepeat t → load r.toJson.text = .error (.repeated t.name)) ∧
    (¬ r.Distinct → ∃ t, r.FirstRepeat t) ∧
    ∀ text, load text = .ok r → ∀ r' : Rule, r'.tables.Perm r.tables →
      (∀ name, r'.table? name = r.table? name) ∧
      (∀ name, r'.containsTable name = r.containsTable name) ∧
      (∀ table column, r'.isShardingColumn table column = r.isShardingColumn table column) ∧
      ∀ d source, Statement.parse d r' source = Statement.parse d r source := by
  refine ⟨⟨distinct_of_load, load_text_of_distinct⟩, fun t => load_text_of_firstRepeat, exists_firstRepeat, ?_⟩
  intro text hload r' hperm
  have htable : r'.table? = r.table? := table?_of_perm (distinct_of_load hload) hperm
  exact ⟨congrFun htable, congrFun (containsTable_congr htable),
    fun table column => congrFun (congrFun (isShardingColumn_congr htable) table) column,
    Statement.parse_congr htable⟩

/-- A rule for two tables. -/
def orderRule : Rule :=
  ⟨[⟨"t_order", ["user_id"], ["t_order_0"]⟩, ⟨"t_item", ["item_id", "user_id"], []⟩]⟩

/-- A rule in which two names stand twice: the second `u` comes before the second `t`. -/
def repeatingRule : Rule :=
  ⟨[⟨"t", [], []⟩, ⟨"u", ["a"], []⟩, ⟨"v", [], []⟩, ⟨"U", [], []⟩, ⟨"T", ["b"], []⟩]⟩

theorem load_and_order_orderRule : load orderRule.toJson.text = .ok orderRule ∧
    (∀ name, (Rule.mk orderRule.tables.reverse).table? name = orderRule.table? name) ∧
    (∀ d source, Statement.parse d ⟨orderRule.tables.reverse⟩ source = Statement.parse d orderRule source) ∧
    load repeatingRule.toJson.text = .error (.repeated "U") := by
  have hload : load orderRule.toJson.text = .ok orderRule := (load_and_order orderRule).1.2 (by decide)
  obtain ⟨htable, -, -, hparse⟩ := (load_and_order orderRule).2.2.2 _ hload ⟨orderRule.tables.reverse⟩
    (List.reverse_perm _)
  have hrepeat : repeatingRule.FirstRepeat ⟨"U", [], []⟩ :=
    ⟨[⟨"t", [], []⟩, ⟨"u", ["a"], []⟩, ⟨"v", [], []⟩], [⟨"T", ["b"], []⟩], rfl, by decide, ⟨"u", ["a"], []⟩,
      by simp, by decide⟩
  exact ⟨hload, htable, hparse, (load_and_order repeatingRule).2.1 _ hrepeat⟩

end Rule

end SelectRouting
