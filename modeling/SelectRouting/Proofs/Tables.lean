import SelectRouting.Proofs.Edits
import SelectRouting.Proofs.Token.Name
import Mathlib.Data.List.Forall2
/-!
# Mentions of tables

A statement mentions a table by a name of `FROM` and by the owner of a column or a star.  Every mention is a token of
the text, and the table edits are those of the mentions that name a logic table (`exists_mentions_of_parse`).  So the
table edits are the logic tables that the clauses name, one by one and in their order; in Oracle the clauses may have
lost some of them (`tableEdits_of_logicTables`).
-/
namespace SelectRouting

/-! ## Mentions -/

/-- The unquoted name that a table edit replaces, and where it starts. -/
def Edit.table? : Edit → Option (String × Nat)
  | .table start written => some (Token.unquoted written, start)
  | _ => none

/-- A place where a table may be named: a leaf, and the token that names the table. -/
structure Mention where
  leaf : Leaf
  token : Token

namespace Leaf

/-- The name that may be a table's, and where it starts as far as the tree says. -/
def table? : Leaf → Option (String × Option Nat)
  | .column owner _ span => owner.map (·, some span.start)
  | .star owner => owner.map (·, none)
  | .table _ name span => some (name, some span.start)
  | _ => none

theorem isSome_tableToken? {l : Leaf} {ts : List Token} (h : l.SpelledBy ts) :
    (l.tableToken? ts).isSome = l.table?.isSome := by
  unfold SpelledBy at h
  split at h
  all_goals first | rfl | exact h.elim

/-- The name and its place are those of the token. -/
theorem table?_of_tableToken? {l : Leaf} {ts : List Token} {t : Token} (h : l.SpelledBy ts)
    (ht : l.tableToken? ts = some t) :
    ∃ name start?, l.table? = some (name, start?) ∧ t.name? = some name ∧ ∀ start ∈ start?, start = t.span.start := by
  unfold SpelledBy at h
  split at h
  all_goals first | exact h.elim | cases ht
  all_goals simp_all [table?]

end Leaf

/-- A name of the clauses and a table edit are about one place: the names agree, and so do the starts where the tree
keeps them. -/
def SameTable (named : String × Option Nat) (edited : String × Nat) : Prop :=
  edited.1 = named.1 ∧ ∀ start ∈ named.2, edited.2 = start

namespace Mention

/-- The mention stands in the text: its leaf is spelled there, and its token is the one that may name a table. -/
def StandsIn (source : String) (m : Mention) : Prop :=
  ∃ ts, ts <:+: Token.lex source ∧ m.leaf.SpelledBy ts ∧ m.leaf.tableToken? ts = some m.token

/-- The logic table that the leaf names. -/
def logicTable? (rule : Rule) (m : Mention) : Option (String × Option Nat) :=
  m.leaf.table?.filter (rule.containsTable ·.1)

/-- What the edit of the token is about. -/
def edit? (rule : Rule) (m : Mention) : Option (String × Nat) :=
  (m.token.tableEdit? rule).bind Edit.table?

/-- A mention is edited if and only if it names a logic table, and then the edit is about the same place. -/
theorem StandsIn.edited {rule : Rule} {source : String} {m : Mention} (h : m.StandsIn source) :
    Option.Rel SameTable (m.logicTable? rule) (m.edit? rule) := by
  obtain ⟨ts, hts, hspelled, htoken⟩ := h
  obtain ⟨name, start?, htable, hname, hstart⟩ := Leaf.table?_of_tableToken? hspelled htoken
  have hmem : m.token ∈ Token.lex source := hts.subset (Event.tableToken?_mem htoken)
  rw [logicTable?, edit?, htable, Token.tableEdit?, hname, Option.any_some, Option.filter_some]
  cases rule.containsTable name with
  | false => exact .none
  | true => exact .some ⟨Token.unquoted_text hmem hname, fun start h => (hstart start h).symm⟩

end Mention

/-! ## The mentions of a run -/

namespace Event

variable {rule : Rule} {source : String}

def mention? : Event → Option Mention
  | .name l ts => (l.tableToken? ts).map (⟨l, ·⟩)
  | _ => none

def mentions (es : List Event) : List Mention :=
  es.filterMap mention?

theorem mentions_cons (ev : Event) (es : List Event) : mentions (ev :: es) = ev.mention?.toList ++ mentions es := by
  rw [mentions, List.filterMap_cons]
  cases ev.mention? <;> rfl

/-- An event that is not broken off edits a table if and only if it mentions one. -/
theorem filterMap_table?_edits {ev : Event} (hsound : ev.Sound) (hwhole : ev.Whole) :
    (ev.edits rule).filterMap Edit.table? = ev.mention?.toList.filterMap (Mention.edit? rule) := by
  cases ev with
  | name l ts =>
    rw [edits, mention?]
    cases l.tableToken? ts with
    | none => rfl
    | some t =>
      cases h : t.tableEdit? rule with
      | none => simp [Mention.edit?, h]
      | some e => cases he : e.table? <;> simp [Mention.edit?, h, he]
  | owner o dot => exact hwhole.elim
  | limit e t us =>
    obtain ⟨v, -, rfl | rfl⟩ := hsound
    · rfl
    · rfl
  | _ => rfl

theorem filterMap_table?_flatMap_edits {es : List Event} (hsound : ∀ ev ∈ es, ev.Sound)
    (hwhole : ∀ ev ∈ es, ev.Whole) : (es.flatMap (edits rule)).filterMap Edit.table? =
      (mentions es).filterMap (Mention.edit? rule) := by
  induction es with
  | nil => rfl
  | cons ev es ih =>
    obtain ⟨hev, hsound⟩ := List.forall_mem_cons.1 hsound
    obtain ⟨hev', hwhole⟩ := List.forall_mem_cons.1 hwhole
    rw [List.flatMap_cons, List.filterMap_append, filterMap_table?_edits hev hev', ih hsound hwhole, mentions_cons,
      List.filterMap_append]

/-- The leaves of the mentions are those that name a table. -/
theorem map_leaf_mention? {ev : Event} (h : ev.Sound) :
    ev.mention?.toList.map Mention.leaf = ev.leaf?.toList.filter (·.table?.isSome) := by
  cases ev with
  | name l ts =>
    have hl := Leaf.isSome_tableToken? h
    rw [mention?, leaf?]
    cases ht : l.tableToken? ts <;> rw [ht] at hl <;> simp [← hl]
  | parameter l t =>
    obtain ⟨-, i, rfl | rfl⟩ := h
    · rfl
    · rfl
  | _ => rfl

theorem map_leaf_mentions {es : List Event} (h : ∀ ev ∈ es, ev.Sound) :
    (mentions es).map Mention.leaf = (leaves es).filter (·.table?.isSome) := by
  induction es with
  | nil => rfl
  | cons ev es ih =>
    obtain ⟨hev, hes⟩ := List.forall_mem_cons.1 h
    rw [mentions_cons, List.map_append, map_leaf_mention? hev, ih hes, leaves_cons, List.filter_append]

theorem map_token_mentions_sublist (es : List Event) : ((mentions es).map Mention.token).Sublist (passed es) := by
  induction es with
  | nil => exact .slnil
  | cons ev es ih =>
    have hev : (ev.mention?.toList.map Mention.token).Sublist ev.tokens := by
      cases ev with
      | name l ts =>
        rw [mention?]
        cases ht : l.tableToken? ts with
        | none => exact List.nil_sublist _
        | some t => simpa [tokens] using tableToken?_mem ht
      | _ => exact List.nil_sublist _
    rw [mentions_cons, List.map_append, passed_cons]
    exact hev.append ih

theorem tokens_infix_passed {ev : Event} {es : List Event} (h : ev ∈ es) : ev.tokens <:+: passed es := by
  obtain ⟨before, after, rfl⟩ := List.append_of_mem h
  rw [passed_append, passed_cons]
  exact ⟨passed before, passed after, List.append_assoc ..⟩

theorem standsIn_of_mem_mentions {es : List Event} (hsound : ∀ ev ∈ es, ev.Sound)
    (hes : passed es <:+: Token.lex source) {m : Mention} (hm : m ∈ mentions es) : m.StandsIn source := by
  obtain ⟨ev, hev, hm⟩ := List.mem_filterMap.1 hm
  cases ev with
  | name l ts =>
    obtain ⟨t, ht, rfl⟩ := Option.map_eq_some_iff.1 hm
    exact ⟨ts, (tokens_infix_passed hev).trans hes, hsound _ hev, ht⟩
  | _ => cases hm

end Event

/-! ## Whole texts -/

namespace Statement

variable {d : Dialect} {rule : Rule} {source : String} {s : Statement}

/-- The mentions of the clauses, in the order in which they are written. -/
def tableLeaves (s : Statement) : List Leaf :=
  s.clauseLeaves.filter (·.table?.isSome)

/-- A row count and an offset mention no table. -/
theorem filter_leaves (s : Statement) (top : Bool) : (s.leaves top).filter (·.table?.isSome) = s.tableLeaves := by
  have hbounds : ∀ vs : List Limit.Value, (vs.flatMap Limit.Value.leaves).filter (·.table?.isSome) = [] := by
    intro vs
    refine List.filter_eq_nil_iff.2 fun l hl => ?_
    obtain ⟨v, -, hl⟩ := List.mem_flatMap.1 hl
    cases v with
    | literal n => cases hl
    | parameter i =>
      rw [List.mem_singleton.1 hl]
      exact nofun
  unfold leaves
  split <;> simp [rowCountLeaves, offsetLeaves, hbounds, tableLeaves]

namespace ReadFrom

variable {es : List Event}

theorem passed_infix (h : s.ReadFrom d rule source es) : Event.passed es <:+: Token.lex source := by
  obtain ⟨t, -, ht⟩ := h.tokens
  rw [ht]
  exact (List.prefix_append _ _).isInfix

/-- The edits of a statement are those of its events in their order. -/
theorem edits_eq (h : s.ReadFrom d rule source es) : s.edits = es.flatMap (Event.edits rule) := by
  have hsublist : ((Event.edited rule es).map Prod.snd).Sublist (Token.lex source) :=
    (Event.map_snd_edited_sublist es).trans h.passed_infix.sublist
  have hbefore := List.pairwise_map.1 ((Token.pairwise_before_lex source).sublist hsublist)
  have hstart : ∀ x ∈ Event.edited rule es, x.2.span.start = x.1.start := fun x hx => by
    obtain ⟨ev, hev, hx⟩ := List.mem_filterMap.1 hx
    have htokens := ((Event.tokens_infix_passed hev).trans h.passed_infix).subset
    exact (Event.replaces_of_edited? (h.sound ev hev) (fun _ ht => htokens ht) hx).1
  have hedits : (es.flatMap (Event.edits rule)).Pairwise fun a b => a.start < b.start := by
    rw [← Event.map_fst_edited]
    refine List.pairwise_map.2 (hbefore.imp_of_mem fun {x y} hx hy hxy => ?_)
    rw [← hstart x hx, ← hstart y hy]
    exact hxy.1
  exact h.edits.trans (Edit.foldl_insert (List.forall_mem_nil _) hedits)

end ReadFrom

/-- The unquoted names of the table edits, and where each starts. -/
def tableEdits (s : Statement) : List (String × Nat) :=
  s.edits.filterMap Edit.table?

/-- The logic tables that the clauses name, in the order in which they are written, and where each name starts; for the
owner of a star the tree does not tell. -/
def logicTables (rule : Rule) (s : Statement) : List (String × Option Nat) :=
  (s.clauseLeaves.filterMap Leaf.table?).filter (rule.containsTable ·.1)

theorem logicTables_eq (rule : Rule) {s : Statement} {ms : List Mention} (h : s.tableLeaves = ms.map Mention.leaf) :
    s.logicTables rule = ms.filterMap (Mention.logicTable? rule) := by
  have hleaves : s.logicTables rule = s.tableLeaves.filterMap fun l => l.table?.filter (rule.containsTable ·.1) := by
    rw [logicTables, tableLeaves, List.filter_filterMap, List.filterMap_filter]
    congr 1
    funext l
    cases l.table? <;> rfl
  rw [hleaves, h, List.filterMap_map]
  rfl

/-- The table edits of an accepted text are those of the mentions that stand in it, one behind the other; the clauses
keep all of these mentions, or in Oracle some of them. -/
theorem exists_mentions_of_parse (h : parse d rule source = .ok s) :
    ∃ ms : List Mention, (ms.map Mention.token).Sublist (Token.lex source) ∧ (∀ m ∈ ms, m.StandsIn source) ∧
      s.tableEdits = ms.filterMap (Mention.edit? rule) ∧
      ∃ kept : List Mention, kept.Sublist ms ∧ (d ≠ .oracle → kept = ms) ∧ s.tableLeaves = kept.map Mention.leaf := by
  obtain ⟨es, h⟩ := readFrom_of_parse h
  have hleaves := Event.map_leaf_mentions h.sound
  refine ⟨Event.mentions es, (Event.map_token_mentions_sublist es).trans h.passed_infix.sublist,
    fun m hm => Event.standsIn_of_mem_mentions h.sound h.passed_infix hm, ?_, ?_⟩
  · rw [tableEdits, h.edits_eq]
    exact Event.filterMap_table?_flatMap_edits h.sound h.whole
  · by_cases hd : d = .oracle
    · have hsublist := h.read.sublist.filter (·.table?.isSome)
      rw [filter_leaves, ← hleaves] at hsublist
      obtain ⟨kept, hkept, heq⟩ := List.sublist_map_iff.1 hsublist
      exact ⟨kept, hkept, fun h => absurd hd h, heq⟩
    · rw [h.read.leaves hd, filter_leaves] at hleaves
      exact ⟨_, List.Sublist.refl _, fun _ => rfl, hleaves.symm⟩

/-- The table edits are the logic tables that the clauses name, one by one and in their order; in Oracle there may be
more of them. -/
theorem tableEdits_of_logicTables (h : parse d rule source = .ok s) :
    ∃ kept, kept.Sublist s.tableEdits ∧ (d ≠ .oracle → kept = s.tableEdits) ∧
      List.Forall₂ SameTable (s.logicTables rule) kept := by
  obtain ⟨ms, -, hms, hedits, kept, hkept, hall, hleaves⟩ := exists_mentions_of_parse h
  rw [hedits, logicTables_eq rule hleaves]
  refine ⟨_, hkept.filterMap (Mention.edit? rule), fun hd => by rw [hall hd], ?_⟩
  have hedited : List.Forall₂ (fun m m' : Mention => Option.Rel SameTable (m.logicTable? rule) (m'.edit? rule))
      kept kept := List.forall₂_same.2 fun m hm => (hms m (hkept.subset hm)).edited
  exact List.rel_filterMap (fun _ _ h => h) hedited

/-- Two logic tables. -/
def orderRule : Rule :=
  ⟨[⟨"t", [], []⟩, ⟨"item", [], []⟩]⟩

/-- A text that names them with and without quotes, in every place where a table may be named. -/
def orderText : String :=
  "SELECT T.*, x.a, COUNT([t].b) FROM s.\x22t\x22 JOIN item x ON t.i = Item.i AND x.j IN (t.j, 1)"

/-- The names as they stand there, without their quotes. -/
def orderedNames : List (String × Nat) :=
  [("T", 7), ("t", 23), ("t", 37), ("item", 46), ("t", 56), ("Item", 62), ("t", 81)]

theorem tableEdits_of_logicTables_ordered : ∃ s, parse .sqlServer orderRule orderText = .ok s ∧
    List.Forall₂ SameTable (s.logicTables orderRule) orderedNames := by
  refine exists_of_parse tableEdits orderedNames rfl (by decide +kernel) fun s hs hedits => ?_
  obtain ⟨kept, -, hall, hsame⟩ := tableEdits_of_logicTables hs
  rw [← hedits, ← hall (by decide)]
  exact hsame

end Statement

end SelectRouting
