import Mathlib.Data.List.Find
import Mathlib.Data.List.Induction
import Mathlib.Data.List.Pairwise
import SelectRouting.Rule
/-!
# Rules that list no table twice

The scan for repeated names finds nothing exactly when the names are pairwise different (`repeated?_eq_none`), however far
apart two of them stand, and otherwise it finds the first entry that repeats an earlier one (`repeated?_of_firstRepeat`).
Among different names the first match of a look-up is the only one, so the order of the entries does not matter
(`table?_of_perm`).
-/
namespace SelectRouting.Rule

open Text (sameName)

/-- The logic tables are pairwise different, the case of ASCII letters aside. -/
def Distinct (r : Rule) : Prop :=
  r.tables.Pairwise fun t u => sameName t.name u.name = false

instance (r : Rule) : Decidable r.Distinct :=
  inferInstanceAs (Decidable (r.tables.Pairwise fun t u => sameName t.name u.name = false))

/-- The first entry with the name of an earlier one: in front of it no name stands twice. -/
def FirstRepeat (r : Rule) (t : TableRule) : Prop :=
  ∃ before after, r.tables = before ++ t :: after ∧ Distinct ⟨before⟩ ∧ ∃ u ∈ before, sameName u.name t.name = true

/-! ## The scan -/

theorem firstRepeated_append (more : List String) : ∀ (names seen : List String),
    firstRepeated seen (names ++ more) = (firstRepeated seen names).or (firstRepeated (names.reverse ++ seen) more)
  | [], _ => rfl
  | name :: names, seen => by
    rw [List.cons_append, firstRepeated, firstRepeated]
    by_cases hseen : seen.any (sameName · name) = true
    · rw [if_pos hseen, if_pos hseen, Option.some_or]
    · rw [if_neg hseen, if_neg hseen, firstRepeated_append more names, List.reverse_cons, List.append_assoc,
        List.singleton_append]

theorem firstRepeated_eq_none : ∀ {names seen : List String}, firstRepeated seen names = none ↔
    (∀ name ∈ names, seen.any (sameName · name) = false) ∧ names.Pairwise (sameName · · = false)
  | [], _ => by simp [firstRepeated]
  | name :: names, seen => by
    by_cases hseen : seen.any (sameName · name) = true
    · rw [firstRepeated, if_pos hseen, List.forall_mem_cons, hseen]
      simp
    · have hnone : seen.any (sameName · name) = false := Bool.eq_false_iff.2 hseen
      rw [firstRepeated, if_neg hseen, firstRepeated_eq_none, List.forall_mem_cons, List.pairwise_cons]
      simp only [List.any_cons, Bool.or_eq_false_iff, hnone, true_and, forall_and, and_assoc]
      constructor
      · rintro ⟨hname, hnames, hdistinct⟩
        exact ⟨hnames, hname, hdistinct⟩
      · rintro ⟨hnames, hname, hdistinct⟩
        exact ⟨hname, hnames, hdistinct⟩

variable {r r' : Rule}

theorem repeated?_eq_none : r.repeated? = none ↔ r.Distinct := by
  simp [repeated?, firstRepeated_eq_none, Distinct, List.pairwise_map]

theorem repeated?_of_firstRepeat {t : TableRule} (h : r.FirstRepeat t) : r.repeated? = some t.name := by
  obtain ⟨before, after, htables, hbefore, u, hu, hsame⟩ := h
  have hnone : firstRepeated [] (before.map (·.name)) = none := repeated?_eq_none.2 hbefore
  have hseen : ((before.map fun u : TableRule => u.name).reverse ++ []).any (sameName · t.name) = true := by
    rw [List.append_nil, List.any_reverse, List.any_map, List.any_eq_true]
    exact ⟨u, hu, hsame⟩
  rw [repeated?, htables, List.map_append, firstRepeated_append, hnone, Option.none_or, List.map_cons, firstRepeated,
    if_pos hseen]

theorem exists_firstRepeat (h : ¬ r.Distinct) : ∃ t, r.FirstRepeat t := by
  obtain ⟨tables⟩ := r
  -- the entries are added at the end one by one: the first that spoils the rule is the one looked for
  induction tables using List.reverseRecOn with
  | nil => exact absurd List.Pairwise.nil h
  | append_singleton before t ih =>
    by_cases hbefore : Distinct ⟨before⟩
    · have hrepeat : ∃ u ∈ before, sameName u.name t.name = true := by
        by_contra hnone
        refine h (List.pairwise_append.2 ⟨hbefore, List.pairwise_singleton _ _, fun u hu v hv => ?_⟩)
        rw [List.mem_singleton.1 hv]
        exact Bool.eq_false_iff.2 fun hsame => hnone ⟨u, hu, hsame⟩
      exact ⟨t, before, [], rfl, hbefore, hrepeat⟩
    · obtain ⟨u, front, after, htables, hfront, hrepeat⟩ := ih hbefore
      have htables' : before ++ [t] = front ++ u :: (after ++ [t]) := by
        rw [← List.cons_append, ← List.append_assoc]
        exact congrArg (· ++ [t]) htables
      exact ⟨u, front, after ++ [t], htables', hfront, hrepeat⟩

/-! ## Look-ups -/

/-- Entries that a name finds are one entry. -/
theorem Distinct.eq_of_sameName (h : r.Distinct) {t u : TableRule} (ht : t ∈ r.tables) (hu : u ∈ r.tables)
    (hsame : sameName t.name u.name = true) : t = u := by
  have hsymm : Std.Symm fun t u : TableRule => sameName t.name u.name = false :=
    ⟨fun t u htu => by rwa [Text.sameName_comm]⟩
  by_contra hne
  have hdiffer := List.Pairwise.forall h ht hu hne
  rw [hsame] at hdiffer
  cases hdiffer

theorem table?_of_perm (h : r.Distinct) (hperm : r'.tables.Perm r.tables) : r'.table? = r.table? := by
  funext name
  refine (List.find?_eq_find?_of_perm hperm.symm ?_).symm
  rintro t ⟨ht, htname⟩ u ⟨hu, huname⟩
  refine h.eq_of_sameName ht hu ?_
  rw [Text.sameName_congr htname, Text.sameName_comm]
  exact huname

section
variable (h : r.table? = r'.table?)
include h

theorem containsTable_congr : r.containsTable = r'.containsTable := by
  funext name
  rw [containsTable, containsTable, h]

theorem isShardingColumn_congr : r.isShardingColumn = r'.isShardingColumn := by
  funext table column
  rw [isShardingColumn, isShardingColumn, h]

end

end SelectRouting.Rule
