import SelectRouting.Proofs.Condition
import SelectRouting.Proofs.Trace.Select
/-!
# The table of a qualified column

A table of `FROM` is exposed by its alias, or by its own name when it has none.  The owner of a column is looked up
among aliases and names alike, hidden names included, and the first match counts; so the only table exposed by the
owner is found if and only if no name that an alias hides stands in front of it and leads to another table
(`table_of_owner_iff`).
-/
namespace SelectRouting

namespace Condition

/-- The name by which a statement refers to a table: its alias, which hides its own name. -/
def exposedName (t : String × Option String) : String :=
  t.2.getD t.1

/-- A table is exposed by a name, in any case of its letters. -/
def Exposes (owner : String) (t : String × Option String) : Prop :=
  Text.sameName (exposedName t) owner = true

instance (owner : String) (t : String × Option String) : Decidable (Exposes owner t) :=
  inferInstanceAs (Decidable (_ = true))

/-- The owner of the column that a conjunct compares. -/
def owner? (e : Expr) : Option String :=
  (comparison? e).bind fun c =>
    match c.1.unparenthesized with
    | .column owner _ _ => owner
    | _ => none

variable {rule : Rule} {tables : List (String × Option String)}

theorem isCalled_of_exposes {owner : String} {t : String × Option String} (h : Exposes owner t) :
    isCalled owner t = true := by
  obtain ⟨name, a⟩ := t
  unfold isCalled
  cases a with
  | none => exact h
  | some a =>
    have ha : Text.sameName a owner = true := h
    simp [ha]

/-- A table that is not exposed by a name can only be found by the name that its alias hides. -/
theorem isCalled_of_not_exposes {owner : String} {t : String × Option String} (h : ¬ Exposes owner t) :
    isCalled owner t = Text.sameName t.1 owner := by
  obtain ⟨name, a⟩ := t
  unfold isCalled
  cases a with
  | none => rfl
  | some a =>
    have ha : Text.sameName a owner = false := by simpa [Exposes, exposedName] using h
    simp [ha]

/-- Where one table is exposed by a name, the look-up finds it behind all hidden names in front of it. -/
theorem find?_isCalled {owner : String} {before after : List (String × Option String)} {t : String × Option String}
    (ht : Exposes owner t) (hbefore : ∀ u ∈ before, ¬ Exposes owner u) :
    (before ++ t :: after).find? (isCalled owner) = some ((before.find? (Text.sameName ·.1 owner)).getD t) := by
  induction before with
  | nil =>
    rw [List.nil_append, List.find?_cons_of_pos (isCalled_of_exposes ht)]
    rfl
  | cons u before ih =>
    obtain ⟨hu, hbefore⟩ := List.forall_mem_cons.1 hbefore
    have hcalled := isCalled_of_not_exposes hu
    rw [List.cons_append, List.find?_cons, List.find?_cons, hcalled]
    cases Text.sameName u.1 owner with
    | true => rfl
    | false => exact ih hbefore

/-- The table of a condition is the one that the owner of its column leads to. -/
theorem table_of_ofConjunct? {e : Expr} {owner : String} {c : Condition} (h : ofConjunct? rule tables e = some c)
    (ho : owner? e = some owner) : (tables.find? (isCalled owner)).map (·.1) = some c.column.table := by
  unfold ofConjunct? at h
  obtain ⟨⟨tested, relation, operands⟩, hcomparison, h⟩ := Option.bind_eq_some_iff.1 h
  obtain ⟨column, hcolumn, h⟩ := Option.bind_eq_some_iff.1 h
  obtain ⟨values, -, h⟩ := Option.bind_eq_some_iff.1 h
  cases h
  obtain ⟨owner', span, htested⟩ := exists_column_of_column? hcolumn
  have howner : owner' = some owner := by
    rw [owner?, hcomparison] at ho
    simpa [htested] using ho
  rw [column?, htested, howner] at hcolumn
  obtain ⟨table, htable, hcolumn⟩ := Option.bind_eq_some_iff.1 hcolumn
  split at hcolumn
  · rw [← Option.some.inj hcolumn]
    exact htable
  · cases hcolumn

end Condition

namespace Statement

/-- The conditions of the predicate, each with the owner of the column that it is about. -/
def ownedConditions (rule : Rule) (s : Statement) : List (Option String × Condition) :=
  s.predicate.toList.flatMap fun p => p.conjuncts.filterMap fun e =>
    (Condition.ofConjunct? rule s.tables e).map (Condition.owner? e, ·)

variable {d : Dialect} {rule : Rule} {source : String} {s : Statement}

theorem conditions_eq_map_ownedConditions (h : parse d rule source = .ok s) :
    s.conditions = (s.ownedConditions rule).map Prod.snd := by
  obtain ⟨es, h⟩ := readFrom_of_parse h
  rw [h.read.conditions, ownedConditions, List.map_flatMap]
  congr 1
  funext p
  rw [Condition.ofPredicate, List.map_filterMap]
  congr 1
  funext e
  rw [Option.map_map]
  exact Option.map_id'.symm

/-- The condition on a column `o.c` is about the only table that is exposed by `o` if and only if the first name in
front of it that is `o`, which an alias hides, is the name of the same table. -/
theorem table_of_owner_iff (h : parse d rule source = .ok s) :
    s.conditions = (s.ownedConditions rule).map Prod.snd ∧
    ∀ o c, (some o, c) ∈ s.ownedConditions rule → ∀ before t after, s.tables = before ++ t :: after →
      Condition.Exposes o t → (∀ u ∈ before ++ after, ¬ Condition.Exposes o u) →
        (c.column.table = t.1 ↔ ∀ u, before.find? (Text.sameName ·.1 o) = some u → u.1 = t.1) := by
  refine ⟨conditions_eq_map_ownedConditions h, fun o c hc before t after htables ht honly => ?_⟩
  obtain ⟨p, -, hc⟩ := List.mem_flatMap.1 hc
  obtain ⟨e, -, hc⟩ := List.mem_filterMap.1 hc
  obtain ⟨c', hc', heq⟩ := Option.map_eq_some_iff.1 hc
  obtain ⟨ho, rfl⟩ := Prod.mk.inj heq
  have htable := Condition.table_of_ofConjunct? hc' ho
  rw [htables, Condition.find?_isCalled ht fun u hu => honly u (List.mem_append_left _ hu), Option.map_some,
    Option.some.injEq] at htable
  rw [← htable]
  cases before.find? (Text.sameName ·.1 o) with
  | none => simp
  | some u => simp

/-- A text where the only table exposed by `t` is `u`, and an alias in front of it hides the name `t`. -/
def hiddenNameText : String :=
  "SELECT a FROM t b, u t WHERE t.k = 1"

/-- Two tables with a sharding column of the same name. -/
def hiddenNameRule : Rule :=
  ⟨[⟨"t", ["k"], []⟩, ⟨"u", ["k"], []⟩]⟩

/-- The condition of that text, which is about the hidden table. -/
def hiddenNameCondition : Condition :=
  ⟨⟨"t", "k"⟩, .equal, [.literal (.integer 1)]⟩

theorem hidden_name_found : ∃ s, parse .generic hiddenNameRule hiddenNameText = .ok s ∧
    s.tables = [("t", some "b"), ("u", some "t")] ∧ ¬ Condition.Exposes "t" ("t", some "b") ∧
      Condition.Exposes "t" ("u", some "t") ∧ s.conditions = [hiddenNameCondition] ∧
        s.ownedConditions hiddenNameRule = [(some "t", hiddenNameCondition)] ∧
          hiddenNameCondition.column.table ≠ "u" := by
  refine exists_of_parse (fun s => (s.tables, s.conditions, s.ownedConditions hiddenNameRule))
    ([("t", some "b"), ("u", some "t")], [hiddenNameCondition], [(some "t", hiddenNameCondition)])
    rfl (by decide +kernel) fun s _ hrun => ?_
  simp only [Prod.mk.injEq] at hrun
  obtain ⟨htables, hconditions, howned⟩ := hrun
  exact ⟨htables, by decide, by decide, hconditions, howned, by decide⟩

/-- A text with two such columns, each of them exposed by one table and by no hidden name in front of it. -/
def exposedText : String :=
  "SELECT a FROM v w JOIN u T ON w.i = t.i, t b WHERE t.k = 1 AND B.k IN (2, ?)"

theorem table_of_owner_iff_exposed : ∃ s, parse .sqlServer hiddenNameRule exposedText = .ok s ∧
    s.tables = [("v", some "w"), ("u", some "T"), ("t", some "b")] ∧
      ∃ c c', s.ownedConditions hiddenNameRule = [(some "t", c), (some "B", c')] ∧
        c.column.table = "u" ∧ c'.column.table = "t" := by
  refine exists_of_parse (fun s => (s.tables, s.ownedConditions hiddenNameRule))
    ([("v", some "w"), ("u", some "T"), ("t", some "b")],
      [(some "t", ⟨⟨"u", "k"⟩, .equal, [.literal (.integer 1)]⟩),
        (some "B", ⟨⟨"t", "k"⟩, .oneOf, [.literal (.integer 2), .parameter 0]⟩)]) rfl (by decide +kernel)
    fun s hs hrun => ?_
  obtain ⟨htables, howned⟩ := Prod.mk.inj hrun
  obtain ⟨-, htable⟩ := table_of_owner_iff hs
  refine ⟨htables, _, _, howned, ?_, ?_⟩
  · refine (htable "t" _ ?_ [("v", some "w")] ("u", some "T") [("t", some "b")] htables (by decide)
      (by decide)).2 (by decide)
    rw [howned]
    exact List.mem_cons_self
  · refine (htable "B" _ ?_ [("v", some "w"), ("u", some "T")] ("t", some "b") [] htables (by decide)
      (by decide)).2 (by decide)
    rw [howned]
    exact List.mem_cons_of_mem _ List.mem_cons_self

end Statement

end SelectRouting
