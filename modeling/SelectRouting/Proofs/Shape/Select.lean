import Mathlib.Data.List.Forall2
import SelectRouting.Proofs.Condition
import SelectRouting.Proofs.Shape.Reading
import SelectRouting.Proofs.Trace.Select
/-!
# The shape of accepted statements

A clause puts nothing into the statement that has not its shape and takes no item away (`Statement.Kept`), so the clauses
of an accepted statement are well-shaped and there is an item among them.  Its conditions are taken from the conjuncts of
the predicate in their order, each with as many values as its relation wants.  Main statement: `shaped_of_parse`.
-/
namespace SelectRouting

/-! ## Clauses -/

namespace Statement

/-- All that the clauses hold has its shape. -/
structure WellShaped (d : Dialect) (s : Statement) : Prop where
  items : ∀ i ∈ s.items, i.Shaped d
  sources : ∀ r ∈ s.sources, r.Shaped
  predicate : ∀ e ∈ s.predicate, e.Shaped
  groups : ∀ e ∈ s.groups, e.Shaped
  having : ∀ e ∈ s.having, e.Shaped
  order : ∀ o ∈ s.order, o.Shaped

theorem wellShaped_empty {d : Dialect} : empty.WellShaped d where
  items := List.forall_mem_nil _
  sources := List.forall_mem_nil _
  predicate := nofun
  groups := List.forall_mem_nil _
  having := nofun
  order := List.forall_mem_nil _

/-- A change that leaves the clauses well-shaped, and an item among them if there is one. -/
structure Kept (d : Dialect) (c c' : Statement) : Prop where
  shaped : c.WellShaped d → c'.WellShaped d
  items : c.items ≠ [] → c'.items ≠ []

namespace Kept

variable {d : Dialect} {c c' c'' : Statement}

theorem refl (c : Statement) : c.Kept d c :=
  ⟨id, id⟩

theorem trans (h : c.Kept d c') (h' : c'.Kept d c'') : c.Kept d c'' :=
  ⟨h'.shaped ∘ h.shaped, h'.items ∘ h.items⟩

/-- A change of what has no shape. -/
theorem of_limit (b : Bool) (l : Option Limit) : c.Kept d { c with distinct := b, limit := l } :=
  ⟨fun h => ⟨h.items, h.sources, h.predicate, h.groups, h.having, h.order⟩, id⟩

end Kept

end Statement

namespace Grammar

section
variable {d : Dialect} {rule : Rule} {s : State} {α : Type} {P : α → Prop}

theorem Traced.gives {m : Mode} {p : Parser α} {Q : α → List Event → State → Prop} (h : Traced d rule m s p Q)
    (hp : Gives p P) : Traced d rule m s p fun a es s' => Q a es s' ∧ P a := by
  intro hs
  have hout := h hs
  cases hr : p s with
  | error e s' =>
    rw [hr] at hout
    exact hout
  | ok a s' =>
    rw [hr] at hout
    obtain ⟨es, hrun, hall, hwhole, hq⟩ := hout
    exact ⟨es, hrun, hall, hwhole, hq, hp s a s' hr⟩

/-! ## Changes that keep the shape -/

/-- A clause that keeps the shape of the statement. -/
abbrev KeepsShape (d : Dialect) (rule : Rule) (p : Parser Unit) : Prop :=
  Fills d rule p fun c c' _ => c.Kept d c'

/-- A clause behind which there is an item. -/
abbrev Itemizes (d : Dialect) (rule : Rule) (p : Parser Unit) : Prop :=
  Fills d rule p fun c c' _ => c.Kept d c' ∧ c'.items ≠ []

variable {p q : Parser Unit}

theorem KeepsShape.bind (hp : KeepsShape d rule p) (hq : KeepsShape d rule q) : KeepsShape d rule (p >>= fun _ => q) :=
  (Fills.bind hp hq).mono fun _ _ _ ⟨_, _, _, h, h', _⟩ => h.trans h'

theorem KeepsShape.itemizes (hp : KeepsShape d rule p) (hq : Itemizes d rule q) : Itemizes d rule (p >>= fun _ => q) :=
  (Fills.bind hp hq).mono fun _ _ _ ⟨_, _, _, h, h', _⟩ => ⟨h.trans h'.1, h'.2⟩

theorem Itemizes.bind (hp : Itemizes d rule p) (hq : KeepsShape d rule q) : Itemizes d rule (p >>= fun _ => q) :=
  (Fills.bind hp hq).mono fun _ _ _ ⟨_, _, _, h, h', _⟩ => ⟨h.1.trans h', h'.items h.2⟩

theorem keepsShape_of_drops (hp : Drops d rule p) : KeepsShape d rule p :=
  (Fills.of_traced hp).mono fun _ c _ h => h ▸ .refl c

theorem KeepsShape.whenKeyword {k : Keyword} (hp : KeepsShape d rule p) :
    KeepsShape d rule (skipKeyword k >>= fun b => if b then p else Pure.pure ()) := by
  refine (Fills.whenKeyword hp).mono ?_
  rintro c c' ls (h | ⟨rfl, -⟩)
  · exact h
  · exact .refl c'

theorem KeepsShape.eachSeparated (hp : KeepsShape d rule p) : KeepsShape d rule (eachSeparated p) :=
  .repeated (fun _ _ _ _ _ h h' => h.trans h') hp

/-- What is read and then stored, with what is known of it. -/
theorem Fills.storeGiven {p : Parser α} {f : α → List Leaf} {put : α → Statement → Statement}
    (hr : Reads d rule .reading [] p f) (hp : Gives p P) (hput : ∀ a, Stores (put a)) :
    Fills d rule (p >>= fun a => modifyStatement (put a)) fun c c' _ => ∃ a, P a ∧ c' = put a c := by
  refine fun s => ((hr s).gives hp).storing.bind fun a es s' ⟨⟨_, ha⟩, hc⟩ => ?_
  exact (Traced.modifyStatement (hput a)).mono fun _ _ s'' ⟨_, hc'⟩ => ⟨a, ha, by rw [hc', hc]⟩

theorem KeepsShape.store {p : Parser α} {f : α → List Leaf} {put : α → Statement → Statement}
    (hr : Reads d rule .reading [] p f) (hp : Gives p P) (hput : ∀ a, Stores (put a))
    (h : ∀ a c, P a → Statement.Kept d c (put a c)) : KeepsShape d rule (p >>= fun a => modifyStatement (put a)) := by
  refine (Fills.storeGiven hr hp hput).mono ?_
  rintro c _ _ ⟨a, ha, rfl⟩
  exact h a c ha

/-! ## One clause after the other -/

theorem keepsShape_distinct : KeepsShape d rule (distinct d) := by
  refine fun s => (traced_distinct s.cursor.current).mono fun _ _ s' ⟨_, ⟨b, hb⟩, _⟩ => ?_
  rw [hb]
  exact .of_limit b _

theorem itemizes_selectList : Itemizes d rule (selectList d rule) := by
  refine .repeated (fun _ _ _ _ _ h h' => ⟨h.1.trans h'.1, h'.2⟩) ?_
  refine (Fills.storeGiven reads_selectItem gives_selectItem ?_).mono ?_
  · exact fun _ => ⟨fun _ => rfl, fun _ => rfl, fun _ => rfl⟩
  · rintro c _ _ ⟨item, hitem, rfl⟩
    have hne : c.items ++ [item] ≠ [] := by simp
    refine ⟨⟨fun h => ?_, fun _ => hne⟩, hne⟩
    exact ⟨List.forall_mem_append.2 ⟨h.items, List.forall_mem_singleton.2 hitem⟩, h.sources, h.predicate, h.groups,
      h.having, h.order⟩

theorem keepsShape_fromClause : KeepsShape d rule (fromClause d rule) := by
  refine .whenKeyword (.eachSeparated (.store reads_tableReference gives_tableReference ?_ fun r c hr => ?_))
  · exact fun _ => ⟨fun _ => rfl, fun _ => rfl, fun _ => rfl⟩
  · refine ⟨fun h => ?_, id⟩
    exact ⟨h.items, List.forall_mem_append.2 ⟨h.sources, List.forall_mem_singleton.2 hr⟩, h.predicate, h.groups,
      h.having, h.order⟩

theorem forall_mem_some {a : α} (h : P a) : ∀ b ∈ some a, P b := by
  rintro _ ⟨⟩
  exact h

theorem keepsShape_whereClause : KeepsShape d rule (whereClause rule) := by
  refine .whenKeyword (.store reads_expression gives_expression ?_ fun e c he => ?_)
  · exact fun _ => ⟨fun _ => rfl, fun _ => rfl, fun _ => rfl⟩
  · exact ⟨fun h => ⟨h.items, h.sources, forall_mem_some he, h.groups, h.having, h.order⟩, id⟩

theorem keepsShape_grouping : KeepsShape d rule (grouping d rule) := by
  refine fun s => .look_bind ?_
  split
  · exact .unsupported
  · refine KeepsShape.store reads_expression gives_expression ?_ (fun e c he => ?_) s
    · exact fun _ => ⟨fun _ => rfl, fun _ => rfl, fun _ => rfl⟩
    · refine ⟨fun h => ?_, id⟩
      exact ⟨h.items, h.sources, h.predicate, List.forall_mem_append.2 ⟨h.groups, List.forall_mem_singleton.2 he⟩,
        h.having, h.order⟩

theorem keepsShape_groupBy : KeepsShape d rule (groupBy d rule) :=
  .whenKeyword (.expectKeyword_bind (KeepsShape.eachSeparated keepsShape_grouping))

theorem keepsShape_havingClause : KeepsShape d rule (havingClause rule) := by
  refine .whenKeyword (.store reads_expression gives_expression ?_ fun e c he => ?_)
  · exact fun _ => ⟨fun _ => rfl, fun _ => rfl, fun _ => rfl⟩
  · exact ⟨fun h => ⟨h.items, h.sources, h.predicate, h.groups, forall_mem_some he, h.order⟩, id⟩

theorem keepsShape_orderBy : KeepsShape d rule (orderBy d rule) := by
  refine .whenKeyword (.expectKeyword_bind (KeepsShape.store reads_orderItems gives_orderItems ?_ fun os c hos => ?_))
  · exact fun _ => ⟨fun _ => rfl, fun _ => rfl, fun _ => rfl⟩
  · exact ⟨fun h => ⟨h.items, h.sources, h.predicate, h.groups, h.having, hos⟩, id⟩

theorem keepsShape_topClause : KeepsShape d rule topClause := by
  refine fun s => traced_topClause.mono fun _ _ s' => ?_
  rintro (⟨-, -, hc⟩ | ⟨-, v, -, hc⟩)
  · exact hc ▸ .refl _
  · exact hc ▸ .of_limit _ _

theorem keepsShape_offsetFetch : KeepsShape d rule offsetFetch := by
  refine fills_offsetFetch.mono fun c c' _ => ?_
  rintro (⟨rfl, -⟩ | ⟨v, w, -, -, rfl⟩)
  · exact .refl _
  · exact .of_limit _ _

/-! ## All clauses -/

/-- The clauses that all dialects have, with what keeps the shape between them. -/
theorem itemizes_commonClauses {behindWhere behindHaving : Parser Unit} (hw : KeepsShape d rule behindWhere)
    (hh : KeepsShape d rule behindHaving) : Itemizes d rule (commonClauses d rule behindWhere behindHaving) := by
  have hhaving := keepsShape_havingClause.bind (hh.bind keepsShape_orderBy)
  have hgroups := hw.bind (keepsShape_groupBy.bind hhaving)
  have hfrom := keepsShape_fromClause.bind (keepsShape_whereClause.bind hgroups)
  exact itemizes_selectList.bind hfrom

theorem itemizes_clauses : Itemizes d rule (clauses d rule) := by
  have hsilent : Silent d rule .reading (pure ()) := .pure rfl
  have hnothing : KeepsShape d rule (pure ()) := keepsShape_of_drops hsilent.drops
  have hcommon : Itemizes d rule (commonClauses d rule (pure ()) (pure ())) := itemizes_commonClauses hnothing hnothing
  cases d with
  | generic =>
    rw [clauses_generic]
    exact keepsShape_distinct.itemizes hcommon
  | oracle =>
    have hhierarchy : KeepsShape .oracle rule (skipHierarchy rule) := keepsShape_of_drops drops_skipHierarchy
    have hmodel : KeepsShape .oracle rule skipModel := keepsShape_of_drops (silent_skipModel (by decide)).drops
    have hlock : KeepsShape .oracle rule (skipForUpdate rule) := keepsShape_of_drops drops_skipForUpdate
    have hclauses := (itemizes_commonClauses hhierarchy hmodel).bind hlock
    rw [clauses_oracle]
    exact keepsShape_distinct.itemizes hclauses
  | sqlServer =>
    have houtput : KeepsShape .sqlServer rule skipForOutput := keepsShape_of_drops (silent_skipForOutput (by decide)).drops
    have hclauses := hcommon.bind (keepsShape_offsetFetch.bind houtput)
    rw [clauses_sqlServer]
    exact keepsShape_distinct.itemizes (keepsShape_topClause.itemizes hclauses)

theorem itemizes_select : Itemizes d rule (select d rule) := by
  refine fun s => .expectKeyword_bind fun _ => ?_
  refine (itemizes_clauses s.advanced).bind fun _ _ s' hkept => traced_endOfStatement.mono fun _ _ s'' ⟨_, hc, _⟩ => ?_
  rw [hc]
  exact hkept

end

end Grammar

/-! ## Conditions -/

namespace Condition

/-- How many values a relation wants. -/
def Relation.Takes : Relation → Nat → Prop
  | .equal, n => n = 1
  | .between, n => n = 2
  | .oneOf, n => 1 ≤ n

/-- A condition is on a sharding column of one of the tables, with as many values as its relation wants. -/
structure Fits (rule : Rule) (tables : List (String × Option String)) (c : Condition) : Prop where
  column : rule.isShardingColumn c.column.table c.column.name = true
  table : c.column.table ∈ tables.map (·.1)
  values : c.relation.Takes c.values.length

/-- A condition is taken from a conjunct: the conjunct compares a column of its name with its values. -/
def TakenFrom (e : Expr) (c : Condition) : Prop :=
  ∃ tested operands, comparison? e = some (tested, c.relation, operands) ∧
    (∃ owner span, tested.unparenthesized = .column owner c.column.name span) ∧
      operands.mapM Expr.shardingValue? = some c.values

variable {rule : Rule} {tables : List (String × Option String)}

theorem mem_tables_of_table? {owner : Option String} {name t : String} (h : table? rule tables owner name = some t) :
    t ∈ tables.map (·.1) := by
  cases owner with
  | some o =>
    obtain ⟨u, hu, rfl⟩ := Option.map_eq_some_iff.1 h
    exact List.mem_map_of_mem (List.mem_of_find?_eq_some hu)
  | none =>
    simp only [table?] at h
    split at h
    · cases h
      exact List.mem_cons_self
    · split at h
      · next u hu =>
        cases h
        exact List.mem_map_of_mem (List.mem_of_mem_filter (hu ▸ List.mem_cons_self))
      · cases h

theorem fits_of_column? {e : Expr} {c : Column} (h : column? rule tables e = some c) :
    rule.isShardingColumn c.table c.name = true ∧ c.table ∈ tables.map (·.1) := by
  unfold column? at h
  split at h
  · obtain ⟨t, ht, h⟩ := Option.bind_eq_some_iff.1 h
    split at h
    · next hsharding =>
      cases h
      exact ⟨hsharding, mem_tables_of_table? ht⟩
    · cases h
  · cases h

theorem length_of_mapM {operands : List Expr} {values : List Value}
    (h : operands.mapM Expr.shardingValue? = some values) : values.length = operands.length := by
  induction operands generalizing values with
  | nil =>
    cases h
    rfl
  | cons o operands ih =>
    rw [List.mapM_cons] at h
    obtain ⟨w, -, h⟩ := Option.bind_eq_some_iff.1 h
    obtain ⟨ws, hws, h⟩ := Option.bind_eq_some_iff.1 h
    cases h
    exact congrArg (· + 1) (ih hws)

/-- A filled conjunct compares with as many operands as its relation wants. -/
theorem takes_of_comparison? {e tested : Expr} {relation : Relation} {operands : List Expr} (he : e.Filled)
    (h : comparison? e = some (tested, relation, operands)) : relation.Takes operands.length := by
  unfold comparison? at h
  split at h
  · split at h <;> cases h <;> rfl
  · cases h
    exact List.length_pos_iff.2 he
  · cases h
    rfl
  · cases h

theorem takenFrom_of_ofConjunct? {e : Expr} {c : Condition} (he : e.Filled)
    (h : ofConjunct? rule tables e = some c) : TakenFrom e c ∧ c.Fits rule tables := by
  unfold ofConjunct? at h
  obtain ⟨⟨tested, relation, operands⟩, hcomparison, h⟩ := Option.bind_eq_some_iff.1 h
  obtain ⟨column, hcolumn, h⟩ := Option.bind_eq_some_iff.1 h
  obtain ⟨values, hvalues, h⟩ := Option.bind_eq_some_iff.1 h
  cases h
  obtain ⟨hsharding, htable⟩ := fits_of_column? hcolumn
  refine ⟨⟨tested, operands, hcomparison, exists_column_of_column? hcolumn, hvalues⟩, hsharding, htable, ?_⟩
  have htakes := takes_of_comparison? he hcomparison
  rwa [← length_of_mapM hvalues] at htakes

/-- What a partial function gives, in order, comes from a part of the list, in order. -/
theorem exists_sublist_of_filterMap {α β : Type} {f : α → Option β} {R : α → β → Prop} (as : List α)
    (h : ∀ a ∈ as, ∀ b, f a = some b → R a b) : ∃ taken, taken.Sublist as ∧ List.Forall₂ R taken (as.filterMap f) := by
  induction as with
  | nil => exact ⟨[], .refl _, .nil⟩
  | cons a as ih =>
    obtain ⟨taken, hsub, hall⟩ := ih fun b hb => h b (List.mem_cons_of_mem a hb)
    cases hf : f a with
    | none =>
      rw [List.filterMap_cons_none hf]
      exact ⟨taken, hsub.cons a, hall⟩
    | some b =>
      rw [List.filterMap_cons_some hf]
      exact ⟨a :: taken, hsub.cons_cons a, .cons (h a List.mem_cons_self b hf) hall⟩

end Condition

/-! ## Statements -/

namespace Statement

/-- The conditions are taken from the conjuncts of the predicate in their order, at most one from each. -/
def Conditioned (s : Statement) : Prop :=
  ∃ taken, taken.Sublist (s.predicate.toList.flatMap Expr.conjuncts) ∧
    List.Forall₂ Condition.TakenFrom taken s.conditions

theorem items_of_parse {d : Dialect} {rule : Rule} {source : String} {s : Statement}
    (h : parse d rule source = .ok s) : s.items ≠ [] ∧ s.WellShaped d := by
  obtain ⟨s', hr, rfl⟩ := exists_select_of_parse h
  have hitemizes : Grammar.Itemizes d rule (Grammar.select d rule) := Grammar.itemizes_select
  have hout := hitemizes (.ofSource source) (Grammar.State.complete_ofSource source)
  rw [hr] at hout
  obtain ⟨es, -, -, -, hkept, hitems⟩ := hout
  have hshaped := hkept.shaped wellShaped_empty
  exact ⟨hitems, hshaped.items, hshaped.sources, hshaped.predicate, hshaped.groups, hshaped.having, hshaped.order⟩

/-- An accepted statement has an item, its clauses have their shape, and its conditions are on sharding columns of its
tables and are taken from its predicate. -/
theorem shaped_of_parse {d : Dialect} {rule : Rule} {source : String} {s : Statement}
    (h : parse d rule source = .ok s) :
    s.items ≠ [] ∧ s.WellShaped d ∧ (s.predicate = none → s.conditions = []) ∧
      (∀ c ∈ s.conditions, c.Fits rule s.tables) ∧ s.Conditioned := by
  obtain ⟨hitems, hshaped⟩ := items_of_parse h
  obtain ⟨es, hread⟩ := readFrom_of_parse h
  have hconditions := hread.read.conditions
  have htaken : ∀ p ∈ s.predicate, ∀ e ∈ p.conjuncts, ∀ c, Condition.ofConjunct? rule s.tables e = some c →
      Condition.TakenFrom e c ∧ c.Fits rule s.tables := fun p hp e he c hc =>
    Condition.takenFrom_of_ofConjunct? (hshaped.predicate p hp e (Expr.mem_nodes_of_mem_conjuncts he)) hc
  refine ⟨hitems, hshaped, fun hnone => by rw [hconditions, hnone]; rfl, fun c hc => ?_, ?_⟩
  · rw [hconditions] at hc
    obtain ⟨p, hp, hc⟩ := List.mem_flatMap.1 hc
    obtain ⟨e, he, hc⟩ := List.mem_filterMap.1 hc
    exact (htaken p (Option.mem_toList.1 hp) e he c hc).2
  · rw [Conditioned, hconditions]
    cases hp : s.predicate with
    | none => exact ⟨[], .refl _, .nil⟩
    | some p =>
      have := Condition.exists_sublist_of_filterMap p.conjuncts fun e he c hc => (htaken p hp e he c hc).1
      simpa [Condition.ofPredicate] using this

/-- A text with each of the shapes. -/
def shapedText : String :=
  "SELECT ROW_NUMBER() OVER (ORDER BY a) r, CASE WHEN a IN (1, 2) THEN 1 END FROM t CROSS JOIN u JOIN v USING (a) " ++
    "WHERE t.k BETWEEN 1 AND ? AND (a > 1 AND ? = u.k)"

theorem shaped_of_parse_shapedText : ∃ s, parse .sqlServer ⟨[⟨"t", ["k"], []⟩, ⟨"u", ["k"], []⟩]⟩ shapedText = .ok s ∧
    s.conditions = [⟨⟨"t", "k"⟩, .between, [.literal (.integer 1), .parameter 0]⟩,
      ⟨⟨"u", "k"⟩, .equal, [.parameter 1]⟩] ∧ s.WellShaped .sqlServer ∧ s.Conditioned := by
  refine exists_of_parse Statement.conditions _ (String.ofList_append ..).symm (by decide +kernel) fun s hs hconditions => ⟨hconditions, ?_⟩
  obtain ⟨-, hshaped, -, -, htaken⟩ := shaped_of_parse hs
  exact ⟨hshaped, htaken⟩

end Statement

end SelectRouting
