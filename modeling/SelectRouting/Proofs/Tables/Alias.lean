import SelectRouting.Proofs.Tables
import Mathlib.Data.List.Nodup
/-!
# References to an alias

The owner of a column or a star may be the alias of a table instead of its name.  An owner is edited by its spelling
alone, before `FROM` has been read; so references to aliases are left as they are if and only if no alias that is
referred to has the spelling of a logic table (`unedited_aliases_iff`).
-/
namespace SelectRouting

/-- A token of a text is the only one that starts where it starts. -/
theorem Token.eq_of_start_eq {source : String} {t u : Token} (ht : t ∈ lex source) (hu : u ∈ lex source)
    (h : t.span.start = u.span.start) : t = u := by
  have hstarts : ((lex source).map (·.span.start)).Nodup :=
    List.pairwise_map.2 ((pairwise_before_lex source).imp fun hbefore => Nat.ne_of_lt hbefore.1)
  exact List.inj_on_of_nodup_map hstarts ht hu h

/-- The owner of a column or a star. -/
def Leaf.owner? : Leaf → Option String
  | .column owner _ _ | .star owner => owner
  | _ => none

namespace Mention

variable {rule : Rule} {source : String} {m : Mention}

/-- The owner of a column or a star is, in any case of its letters, the alias of a table. -/
def RefersToAlias (tables : List (String × Option String)) (m : Mention) : Prop :=
  ∃ owner, m.leaf.owner? = some owner ∧ ∃ t ∈ tables, ∃ a, t.2 = some a ∧ Text.sameName a owner = true

theorem StandsIn.mem_lex (h : m.StandsIn source) : m.token ∈ Token.lex source := by
  obtain ⟨ts, hts, -, htoken⟩ := h
  exact hts.subset (Event.tableToken?_mem htoken)

/-- The token of an owner is its name. -/
theorem StandsIn.name?_of_owner? (h : m.StandsIn source) {owner : String} (ho : m.leaf.owner? = some owner) :
    m.token.name? = some owner := by
  obtain ⟨ts, -, hspelled, htoken⟩ := h
  obtain ⟨name, start?, htable, hname, -⟩ := Leaf.table?_of_tableToken? hspelled htoken
  have howner : name = owner := by
    generalize m.leaf = l at ho htable
    cases l with
    | column owner' name' span =>
      cases ho
      exact (Prod.mk.inj (Option.some.inj htable)).1.symm
    | star owner' =>
      cases ho
      exact (Prod.mk.inj (Option.some.inj htable)).1.symm
    | _ => cases ho
  rw [hname, howner]

/-- A mention is edited if and only if its token is spelled like a logic table. -/
theorem edit?_eq_some {e : String × Nat} : m.edit? rule = some e ↔
    m.token.name?.any rule.containsTable = true ∧ e = (Token.unquoted m.token.text, m.token.span.start) := by
  unfold edit? Token.tableEdit?
  split
  · next h => simp [h, Edit.table?, eq_comm]
  · next h => simp [h]

end Mention

namespace Statement

variable {d : Dialect} {rule : Rule} {source : String} {s : Statement}

/-- The table edits are those of all mentions that are spelled like a logic table, so no reference to an alias is edited
if and only if none of them is spelled like one. -/
theorem unedited_aliases_iff (h : parse d rule source = .ok s) :
    ∃ ms : List Mention, (ms.map Mention.token).Sublist (Token.lex source) ∧ (∀ m ∈ ms, m.StandsIn source) ∧
      s.tableLeaves.Sublist (ms.map Mention.leaf) ∧ (d ≠ .oracle → s.tableLeaves = ms.map Mention.leaf) ∧
      s.tableEdits = ms.filterMap (Mention.edit? rule) ∧
      ((∀ m ∈ ms, m.RefersToAlias s.tables → ∀ e ∈ s.tableEdits, e.2 ≠ m.token.span.start) ↔
        ∀ m ∈ ms, m.RefersToAlias s.tables → ∀ owner, m.leaf.owner? = some owner →
          rule.containsTable owner = false) := by
  obtain ⟨ms, htokens, hms, hedits, kept, hkept, hall, hleaves⟩ := exists_mentions_of_parse h
  refine ⟨ms, htokens, hms, ?_, fun hd => by rw [hleaves, hall hd], hedits, ?_⟩
  · rw [hleaves]
    exact hkept.map _
  rw [hedits]
  constructor
  · intro hunedited m hm halias owner ho
    by_contra hlogic
    have hany : m.token.name?.any rule.containsTable = true := by
      rw [(hms m hm).name?_of_owner? ho]
      simpa using hlogic
    have hedit := Mention.edit?_eq_some.2 ⟨hany, rfl⟩
    exact hunedited m hm halias _ (List.mem_filterMap.2 ⟨m, hm, hedit⟩) rfl
  · intro hother m hm halias e he hstart
    obtain ⟨m', hm', hedit⟩ := List.mem_filterMap.1 he
    obtain ⟨hany, rfl⟩ := Mention.edit?_eq_some.1 hedit
    have htoken := Token.eq_of_start_eq (hms m' hm').mem_lex (hms m hm).mem_lex hstart
    obtain ⟨owner, ho, hsame⟩ := halias
    rw [htoken, (hms m hm).name?_of_owner? ho, Option.any_some, hother m hm ⟨owner, ho, hsame⟩ owner ho] at hany
    cases hany

/-- The logic table of the texts below. -/
def singleRule : Rule :=
  ⟨[⟨"t", [], []⟩]⟩

/-- A text whose only column has an owner that is an alias and looks like the logic table. -/
def aliasText : String :=
  "SELECT t.a FROM u t"

/-- The owners of the columns in the select list, and where each starts. -/
def selectedOwners (s : Statement) : List (String × Nat) :=
  s.items.filterMap fun
    | .expression (.column (some owner) _ span) _ => some (owner, span.start)
    | _ => none

theorem alias_edited : ∃ s, parse .generic singleRule aliasText = .ok s ∧ s.tables = [("u", some "t")] ∧
    s.selectedOwners = [("t", 7)] ∧ s.tableEdits = [("t", 7)] := by
  refine exists_of_parse (fun s => (s.tables, s.selectedOwners, s.tableEdits))
    ([("u", some "t")], [("t", 7)], [("t", 7)]) rfl (by decide +kernel) fun s _ hrun => ?_
  simpa using hrun

/-- A text with a reference to an alias and one to the logic table. -/
def plainText : String :=
  "SELECT X.a, T.b FROM u x JOIN t ON x.i = t.i"

/-- A name that agrees with the alias of that text is no logic table. -/
theorem containsTable_of_sameName {owner : String} (h : Text.sameName "x" owner = true) :
    singleRule.containsTable owner = false := by
  have hother : Text.sameName "t" owner = false := by
    rw [Text.sameName_comm, ← Text.sameName_congr h]
    decide
  simp [Rule.containsTable, Rule.table?, singleRule, hother]

theorem unedited_aliases_iff_plain : ∃ s, parse .generic singleRule plainText = .ok s ∧
    s.tableEdits = [("T", 12), ("t", 30), ("t", 41)] ∧
      ∃ ms : List Mention, s.tableLeaves = ms.map Mention.leaf ∧
        ∀ m ∈ ms, m.RefersToAlias s.tables → ∀ e ∈ s.tableEdits, e.2 ≠ m.token.span.start := by
  refine exists_of_parse (fun s => (s.tableEdits, s.tables))
    ([("T", 12), ("t", 30), ("t", 41)], [("u", some "x"), ("t", none)]) rfl (by decide +kernel) fun s hs hrun => ?_
  obtain ⟨hedits, htables⟩ := Prod.mk.inj hrun
  obtain ⟨ms, -, -, -, hleaves, -, hiff⟩ := unedited_aliases_iff hs
  refine ⟨hedits, ms, hleaves (by decide), hiff.2 fun m _ halias owner ho => containsTable_of_sameName ?_⟩
  obtain ⟨owner', ho', t, ht, a, ha, hsame⟩ := halias
  cases ho.symm.trans ho'
  rw [htables] at ht
  rcases List.mem_pair.1 ht with rfl | rfl
  · cases ha
    exact hsame
  · cases ha

end Statement

end SelectRouting
