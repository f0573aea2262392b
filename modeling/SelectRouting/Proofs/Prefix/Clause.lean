import SelectRouting.Grammar.Select
import SelectRouting.Proofs.Prefix.Expression
/-!
# Clauses that settle their ends

One lemma for each clause, in the order of the grammar.  A clause that is not there is known by the token at its place; a
clause that is there, by the tokens it has passed and the one behind them.  The alias of a table is followed by what
Oracle rejects, so there it also has to be seen that neither `AS OF` nor `VERSIONS BETWEEN` is part of an alias
(`flashback`).
-/
namespace SelectRouting.Grammar

open Cursor (Alike)

section
variable {d : Dialect} {rule : Rule} {n n' : Nat} {s : State} {opened : Prop} {α β : Type}

/-! ## Orders -/

theorem settles_nullsFirstLast : Settles nowhere n n' nullsFirstLast nullsFirstLast := by
  refine .branchKeyword (Settles.behind ?_) .pure
  refine .branchKeyword Settles.pure.behind (.branchKeyword Settles.pure.behind .unexpected)

theorem settles_nullOrder : Settles nowhere n n' (nullOrder d) (nullOrder d) := by
  cases d with
  | sqlServer => exact .pure
  | generic | oracle => exact settles_nullsFirstLast

theorem settles_direction : Settles nowhere n n' direction direction :=
  .branchKeyword Settles.pure.behind (.bind .skipKeyword fun _ => .pure)

theorem settles_orderItem : Settles nowhere n n' (orderItem d rule) (orderItem d rule) := by
  refine .bind settles_expression fun e => .bind settles_direction fun rows => ?_
  exact .bind settles_nullOrder fun nulls => .pure

theorem settles_orderItems : Settles nowhere n n' (orderItems d rule) (orderItems d rule) :=
  .commaSeparated settles_orderItem

theorem settles_orderBy : Settles nowhere n n' (orderBy d rule) (orderBy d rule) := by
  refine .whenKeyword (Settles.behind (.andThen settles_expectKeyword fun _ => ?_))
  exact .bind settles_orderItems fun items => Settles.modify.passed

/-! ## Aliases -/

/-- In front of the words that ask for an earlier state of a table. -/
def flashback (c : Cursor) : Prop :=
  c.atAsOf = true ∨ c.atVersionsBetween = true

theorem kind_of_flashback {c : Cursor} (h : flashback c) : c.kind = .keyword .as ∨ c.kind = .keyword .versions := by
  rcases h with h | h
  · exact .inl (Cursor.kind_of_atKeyword (Bool.and_eq_true_iff.1 h).1)
  · exact .inr (Cursor.kind_of_atKeyword (Bool.and_eq_true_iff.1 h).1)

theorem atKeyword_of_flashback {c : Cursor} {k : Keyword} (h : flashback c) (has : k ≠ .as) (hversions : k ≠ .versions) :
    c.atKeyword k = false := by
  refine Bool.eq_false_iff.2 fun hk => ?_
  have hk := Cursor.kind_of_atKeyword hk
  rcases kind_of_flashback h with h | h
  · exact has (Token.Kind.keyword.inj (hk.symm.trans h))
  · exact hversions (Token.Kind.keyword.inj (hk.symm.trans h))

/-- The name that a token can be behind `AS`. -/
def aliasName? (t : Token) : Option String :=
  match t.kind with
  | .string text => some text
  | _ => t.name?

theorem demands_aliasAfterAs : Demands aliasAfterAs aliasName? "identifier" := by
  intro s
  unfold aliasAfterAs aliasName?
  rw [look_bind_apply]
  rw [show s.cursor.kind = s.cursor.current.kind from rfl]
  cases s.cursor.current.kind with
  | string text => rfl
  | _ => exact demands_expectName s

theorem settles_aliasAfterAs : Settles anywhere n n' aliasAfterAs aliasAfterAs := by
  refine .demand demands_aliasAfterAs fun t name h heof => ?_
  have hname : aliasName? t = t.name? := by rw [aliasName?, heof]
  exact (eof_of_name? (hname ▸ h)).1 heof

theorem aliasClause_of_atAsOf (h : s.cursor.atAsOf = true) : aliasClause s = .ok none s := by
  unfold aliasClause
  rw [look_bind_apply, show (s.cursor.atKeyword .as && s.cursor.nextIsKeyword .of) = true from h]
  rfl

theorem aliasClause_of_as (h : s.cursor.atAsOf = false) (hk : s.cursor.kind = .keyword .as) :
    aliasClause s = (aliasAfterAs >>= fun name => pure (some name)) s.advanced := by
  unfold aliasClause
  rw [look_bind_apply, show (s.cursor.atKeyword .as && s.cursor.nextIsKeyword .of) = false from h]
  exact bind_of_ok (skipKeyword_of_true hk) _

/-- Without `AS`, an alias is a name that is no keyword. -/
theorem aliasClause_of_not_as (hk : s.cursor.atKeyword .as = false) : aliasClause s =
    if s.cursor.atIdentifier then (expectName >>= fun name => pure (some name)) s else .ok none s := by
  unfold aliasClause
  rw [look_bind_apply, hk, Bool.false_and]
  refine (bind_of_ok (skipKeyword_of_false hk) _).trans ?_
  show (look (·.atIdentifier) >>= _) s = _
  rw [look_bind_apply]
  cases s.cursor.atIdentifier <;> rfl

/-- In front of what asks for an earlier state there is no alias. -/
theorem aliasClause_of_flashback (h : flashback s.cursor) : aliasClause s = .ok none s := by
  rcases h with h | h
  · exact aliasClause_of_atAsOf h
  · have hk : s.cursor.kind = .keyword .versions := Cursor.kind_of_atKeyword (Bool.and_eq_true_iff.1 h).1
    have hat : s.cursor.atIdentifier = false := by rw [Cursor.atIdentifier, hk]
    have has : s.cursor.atKeyword .as = false := by rw [Cursor.atKeyword, Cursor.keyword?_of_kind hk]; rfl
    rw [aliasClause_of_not_as has, hat]
    rfl

/-- Without an alias nothing is passed, and it stays so wherever the second text may be. -/
theorem settlesAt_aliasClause_of_none (hs : aliasClause s = .ok none s)
    (hall : ∀ b, Alike s.cursor b → aliasClause (s.moved b) = .ok none (s.moved b)) :
    SettlesAt flashback True n n' s aliasClause aliasClause := by
  intro _ _
  rw [hs]
  refine ⟨[], .refl, fun b b' _ _ hb hmeets => ?_⟩
  obtain rfl := hb.eq
  exact hmeets.elim (hall b) fun h => aliasClause_of_flashback h

theorem atAsOf_of_as {c : Cursor} (hk : c.kind = .keyword .as) : c.atAsOf = c.advance.atKeyword .of := by
  rw [Cursor.atAsOf, Cursor.atKeyword_iff.2 hk, Bool.true_and, Cursor.nextIsKeyword,
    ← Cursor.current_advance (by rw [hk]; decide)]
  rfl

theorem settlesAt_aliasClause_of_as (hof : s.cursor.atAsOf = false) (hk : s.cursor.kind = .keyword .as) :
    SettlesAt flashback True n n' s aliasClause aliasClause := by
  have hne : s.cursor.kind ≠ .eof := by rw [hk]; decide
  have htail : Settles flashback (n - 1) (n' - 1) (aliasAfterAs >>= fun name => pure (some name))
      (aliasAfterAs >>= fun name => pure (some name)) := .andThen settles_aliasAfterAs fun _ => .pure
  refine .passing hne (absurd trivial) (htail s.advanced) (aliasClause_of_as hof hk) fun b hb hmeets => ?_
  have hkb : b.kind = .keyword .as := (congrArg Token.kind hb).trans hk
  refine aliasClause_of_as ((atAsOf_of_as hkb).trans ?_) hkb
  rcases hmeets with hmeets | hmark
  · rw [← hof, atAsOf_of_as hk, Cursor.atKeyword, Cursor.keyword?, Cursor.kind, hmeets]
    rfl
  · exact atKeyword_of_flashback hmark (by decide) (by decide)

/-- Without `AS`, the first token decides whether it is the alias. -/
theorem settlesAt_aliasClause_of_not_as (has : s.cursor.atKeyword .as = false) :
    SettlesAt flashback True n n' s aliasClause aliasClause := by
  have hword : ∀ b : Cursor, b.current = s.cursor.current → b.atKeyword .as = false := fun b hb =>
    (congrArg (fun t : Token => decide (t.kind.keyword? = some .as)) hb).trans has
  have hident : ∀ b : Cursor, b.current = s.cursor.current → b.atIdentifier = s.cursor.atIdentifier := by
    intro b hb
    unfold Cursor.atIdentifier Cursor.kind
    rw [hb]
  cases hat : s.cursor.atIdentifier with
  | false =>
    refine settlesAt_aliasClause_of_none ?_ fun b hb => ?_
    · rw [aliasClause_of_not_as has, hat]
      rfl
    · rw [aliasClause_of_not_as (hword b hb.current), show (s.moved b).cursor.atIdentifier = false from
        (hident b hb.current).trans hat]
      rfl
  | true =>
    have hname : ∃ name, ∀ b : Cursor, b.current = s.cursor.current → b.name? = some name := by
      unfold Cursor.atIdentifier at hat
      split at hat
      · next name hk =>
        refine ⟨name, fun b hb => ?_⟩
        rw [Cursor.name?, Cursor.kind, hb, show s.cursor.current.kind = .identifier name from hk]
      · cases hat
    obtain ⟨name, hname⟩ := hname
    have hrun : ∀ b : Cursor, b.current = s.cursor.current →
        aliasClause (s.moved b) = .ok (some name) (s.moved b).advanced := by
      intro b hb
      have hat' : (s.moved b).cursor.atIdentifier = true := (hident b hb).trans hat
      rw [aliasClause_of_not_as (hword b hb), hat']
      exact bind_of_ok (expectName_of_some (hname b hb)) _
    have htail : SettlesAt flashback True (n - 1) (n' - 1) s.advanced (pure (some name)) (pure (some name)) := .pure
    have hk : s.cursor.kind ≠ .eof := (eof_of_name? (hname s.cursor rfl)).1
    exact .passing hk (absurd trivial) htail (hrun s.cursor rfl) fun b hb _ => hrun b hb

theorem settles_aliasClause : Settles flashback n n' aliasClause aliasClause := by
  intro s
  by_cases hof : s.cursor.atAsOf = true
  · exact settlesAt_aliasClause_of_none (aliasClause_of_atAsOf hof) fun b hb =>
      aliasClause_of_atAsOf (hb.atAsOf.trans hof)
  · by_cases has : s.cursor.atKeyword .as = true
    · exact settlesAt_aliasClause_of_as (Bool.eq_false_iff.2 hof) (Cursor.kind_of_atKeyword has)
    · exact settlesAt_aliasClause_of_not_as (Bool.eq_false_iff.2 has)

/-! ## The select list -/

/-- In front of the function that numbers rows. -/
def numbering (c : Cursor) : Prop :=
  c.kind = .keyword .rowNumber

theorem atAny_of_numbering {c : Cursor} {ks : List Keyword} (h : numbering c) (hks : .rowNumber ∉ ks) :
    c.atAny ks = false := by
  rw [Cursor.atAny_of_kind h]
  exact Bool.eq_false_iff.2 fun h => hks (List.contains_iff_mem.1 h)

theorem atKeyword_of_numbering {c : Cursor} {k : Keyword} (h : numbering c) (hk : k ≠ .rowNumber) :
    c.atKeyword k = false := by
  refine Bool.eq_false_iff.2 fun hat => ?_
  exact hk (Token.Kind.keyword.inj ((Cursor.kind_of_atKeyword hat).symm.trans h))

theorem settles_distinct : Settles numbering n n' (distinct d) (distinct d) := by
  have hks : .rowNumber ∉ Keyword.distinct :: d.distinctSynonyms := by cases d <;> decide
  refine fun s => .skipAny_bind (fun _ h => atAny_of_numbering h hks) ?_ ?_
  · rw [if_pos rfl]
    exact Settles.modify.passed
  · exact .skipKeyword_bind (fun _ h => atKeyword_of_numbering h nofun) Settles.pure.behind .pure

theorem settles_windowOrder : Settles nowhere n n' (windowOrder d rule) (windowOrder d rule) :=
  .branchKeyword (Settles.behind (.andThen settles_expectKeyword fun _ => settles_orderItems)) .pure

theorem settles_windowItem : Settles nowhere n n' (windowItem d rule) (windowItem d rule) := by
  refine .andThen settles_expectKeyword fun _ => .andThen settles_skipRegion fun _ => ?_
  refine .andThen settles_expectKeyword fun _ => .andThen (settles_expect nofun) fun _ s => ?_
  refine .reject (fun _ _ h => congrArg (fun t : Token => decide (t.kind.keyword? = some .partition)) h)
    (fun _ h => h.elim) (fun h hselect => ?_) (Settles.bind settles_windowOrder (fun order => ?_) s)
  · rw [Cursor.kind_of_atKeyword h] at hselect
    cases hselect
  · refine .andThen (settles_expect nofun) fun _ => .bind (settles_aliasClause.mono fun _ h => h.elim) fun _ => .pure

theorem settles_rowNumberItem : Settles nowhere n n' (rowNumberItem d rule) (rowNumberItem d rule) := by
  cases d with
  | sqlServer => exact settles_windowItem
  | generic | oracle => exact .unexpected

theorem settles_expressionItem : Settles nowhere n n' (expressionItem rule) (expressionItem rule) := by
  refine .bind settles_expression fun e => ?_
  split
  · exact .pure
  · exact .bind (settles_aliasClause.mono fun _ h => h.elim) fun _ => .pure

theorem settles_selectItem : Settles nowhere n n' (selectItem d rule) (selectItem d rule) := by
  have hitem : Settles nowhere n n'
      (atRowNumberItem d >>= fun b => if b then rowNumberItem d rule else expressionItem rule)
      (atRowNumberItem d >>= fun b => if b then rowNumberItem d rule else expressionItem rule) := by
    have hat : Settles nowhere n n' (atRowNumberItem d) (atRowNumberItem d) := by
      cases d with
      | sqlServer => exact .look_bind (fun _ _ => atKeyword_of_alike .rowNumber) fun _ => .pure
      | generic | oracle => exact .pure
    refine .bind hat fun b => ?_
    cases b with
    | true => exact settles_rowNumberItem
    | false => exact settles_expressionItem
  exact .bind .skipAny fun _ => hitem

theorem settles_selectList : Settles nowhere n n' (selectList d rule) (selectList d rule) :=
  .eachSeparated (.bind settles_selectItem fun _ => Settles.modify.passed)

/-! ## Filters -/

theorem settles_whereClause : Settles nowhere n n' (whereClause rule) (whereClause rule) :=
  .whenKeyword (Settles.behind (.bind settles_expression fun _ => Settles.modify.passed))

theorem settles_grouping : Settles nowhere n n' (grouping d rule) (grouping d rule) := by
  intro s
  refine .look_bind (fun c c' h => ?_) ?_
  · rw [Cursor.keyword?, Cursor.keyword?, kind_of_alike h]
  · cases hk : s.cursor.keyword?.filter d.unsupportedGrouping.contains with
    | none => exact Settles.bind settles_expression (fun _ => Settles.modify.passed) s
    | some k =>
      obtain ⟨hkeyword, hmem⟩ := Option.filter_eq_some_iff.1 hk
      refine .unsupported fun hselect => ?_
      rw [Cursor.keyword?_of_kind hselect] at hkeyword
      obtain rfl := Option.some.inj hkeyword
      have hno : .select ∉ d.unsupportedGrouping := by cases d <;> decide
      exact absurd (List.contains_iff_mem.1 hmem) hno

theorem settles_groupBy : Settles nowhere n n' (groupBy d rule) (groupBy d rule) :=
  .whenKeyword (Settles.behind (.andThen settles_expectKeyword fun _ => .eachSeparated settles_grouping))

theorem settles_havingClause : Settles nowhere n n' (havingClause rule) (havingClause rule) :=
  .whenKeyword (Settles.behind (.bind settles_expression fun _ => Settles.modify.passed))

/-! ## Hierarchies -/

theorem settles_skipConnectBy : Settles nowhere n n' (skipConnectBy rule) (skipConnectBy rule) := by
  refine .whenKeyword (Settles.behind (.andThen settles_expectKeyword fun _ => .bind .skipKeyword fun _ => ?_))
  exact .bind settles_hierarchicalCondition fun _ => .pure

theorem settles_skipStartWith : Settles nowhere n n' (skipStartWith rule) (skipStartWith rule) :=
  .whenKeyword (Settles.behind (.andThen settles_expectKeyword fun _ => .bind settles_expression fun _ => .pure))

theorem settles_skipHierarchy : Settles nowhere n n' (skipHierarchy rule) (skipHierarchy rule) :=
  .bind settles_skipConnectBy fun _ => .bind settles_skipStartWith fun _ => settles_skipConnectBy

/-! ## Models -/

/-- A word that one of others has to be followed by. -/
theorem settles_anyThenKeyword {ks : List Keyword} {k : Keyword} {a : β} :
    Settles nowhere n n' (skipAny ks >>= fun b => if b then expectKeyword k >>= fun _ => pure a else pure a)
      (skipAny ks >>= fun b => if b then expectKeyword k >>= fun _ => pure a else pure a) :=
  .branchAny (.andThen settles_expectKeyword fun _ => .pure) .pure

theorem settles_skipCellOptions : Settles nowhere n n' skipCellOptions skipCellOptions := by
  refine .bind settles_anyThenKeyword fun _ => .whenKeyword (Settles.behind ?_)
  exact .branchKeyword (Settles.behind (.andThen settles_expectKeyword fun _ => .pure))
    (.andThen settles_expectKeyword fun _ => .pure)

theorem settles_skipReturn : Settles nowhere n n' skipReturn skipReturn :=
  .whenKeyword (Settles.behind (.branchAny (.andThen settles_expectKeyword fun _ => .pure) .unexpected))

theorem settles_rejectReference : Settles nowhere n n' rejectReference rejectReference := by
  refine .whenKeyword (Settles.behind (.andThen settles_expectName fun _ => .andThen settles_expectKeyword fun _ s => ?_))
  exact .skipRegion_bind fun _ _ => .unsupported fun _ => id

theorem settles_skipModelPartition : Settles nowhere n n' skipModelPartition skipModelPartition := by
  refine .whenKeyword (Settles.behind fun s => .expectKeyword_bind fun _ s => ?_)
  refine .look_bind (fun _ _ => check_of_alike .leftParen) ?_
  cases s.cursor.kind.alike .leftParen with
  | true => exact Settles.andThen settles_skipRegion (fun _ => .pure) s |>.weaken
  | false => exact .unsupported fun _ => id

theorem settles_skipColumns : Settles nowhere n n' skipColumns skipColumns := by
  refine .andThen settles_expectKeyword fun _ => .andThen settles_expectKeyword fun _ => ?_
  refine .andThen settles_skipRegion fun _ => .andThen settles_expectKeyword fun _ => ?_
  exact .andThen settles_skipRegion fun _ => .pure

theorem settles_skipRules : Settles nowhere n n' skipRules skipRules := by
  have hkind : Settles nowhere n n' skipRuleKind skipRuleKind :=
    .branchKeyword (Settles.behind (.bind .skipKeyword fun _ => .pure)) (.bind .skipKeyword fun _ => .pure)
  have hoptions : Settles nowhere n n' skipRuleOptions skipRuleOptions :=
    .whenKeyword (Settles.behind (.bind (hkind.fewer (Nat.sub_le _ 1) (Nat.sub_le _ 1)) fun _ => settles_anyThenKeyword))
  have hiteration : Settles nowhere n n' skipIteration skipIteration := by
    refine .whenKeyword (Settles.behind (.andThen settles_skipRegion fun _ => .whenKeyword (Settles.behind ?_)))
    exact .andThen settles_skipRegion fun _ => .pure
  exact .bind hoptions fun _ => .bind hiteration fun _ => .andThen settles_skipRegion fun _ => .pure

theorem settles_skipModel : Settles nowhere n n' skipModel skipModel := by
  have hname : Settles nowhere n n' skipMainName skipMainName :=
    .whenKeyword (Settles.behind (.andThen settles_expectName fun _ => .pure))
  have hmain : Settles nowhere n n' skipMainModel skipMainModel := by
    refine .bind hname fun _ => .bind settles_skipModelPartition fun _ => .bind settles_skipColumns fun _ => ?_
    exact .bind settles_skipCellOptions fun _ => settles_skipRules
  refine .whenKeyword (Settles.behind (.bind settles_skipCellOptions fun _ => .bind settles_skipReturn fun _ => ?_))
  exact .bind settles_rejectReference fun _ => hmain.fewer (Nat.sub_le _ 1) (Nat.sub_le _ 1)

/-! ## FOR -/

theorem settles_skipForUpdate : Settles nowhere n n' (skipForUpdate rule) (skipForUpdate rule) := by
  have hcolumns : Settles nowhere n n' (skipLockedColumns rule) (skipLockedColumns rule) :=
    .whenKeyword (Settles.behind (.bind (.commaSeparated settles_expression) fun _ => .pure))
  have hwaiting : Settles nowhere n n' skipWaiting skipWaiting := by
    refine .branchKeyword (Settles.behind (.andThen (settles_expect nofun) fun _ => .pure)) ?_
    refine .branchKeyword (Settles.behind (.andThen settles_expectKeyword fun _ => .pure)) ?_
    exact .bind .skipKeyword fun _ => .pure
  refine .whenKeyword (Settles.behind (.andThen settles_expectKeyword fun _ => .bind ?_ fun _ => ?_))
  · exact hcolumns.fewer (Nat.sub_le _ 1) (Nat.sub_le _ 1)
  · exact hwaiting.fewer (Nat.sub_le _ 1) (Nat.sub_le _ 1)

theorem settles_skipOptionalRegion : Settles nowhere n n' skipOptionalRegion skipOptionalRegion := by
  refine .look_bind (fun _ _ => check_of_alike .leftParen) fun b => ?_
  cases b with
  | true => exact .andThen settles_skipRegion fun _ => .pure
  | false => exact .pure

theorem settles_skipXmlOption : Settles nowhere n n' skipXmlOption skipXmlOption := by
  intro s
  refine .look_bind (fun _ _ h => congrArg Token.Kind.keyword? (kind_of_alike h)) ?_
  have hne : ∀ {k : Keyword}, s.cursor.keyword? = some k → s.cursor.kind ≠ .eof := fun h =>
    Cursor.kind_of_atKeyword (decide_eq_true h) ▸ nofun
  split
  case h_1 hk | h_2 hk | h_3 hk | h_4 hk => exact .advance_bind (hne hk) settles_skipOptionalRegion
  case h_5 hk | h_6 hk | h_7 hk => exact .advance_bind (hne hk) .pure
  case h_8 hk => exact .advance_bind (hne hk) (.bind .skipAny fun _ => .pure)
  case h_9 => exact .unexpected

theorem settlesBehind_skipMarkup : SettlesBehind nowhere n n' skipMarkup skipMarkup := by
  intro s
  refine .look_bind (fun _ _ h => h.current) ?_
  split
  · exact .unexpected
  · refine .skipKeyword_bind (fun _ h => h.elim) (Settles.behind (.eachSeparated settles_skipXmlOption)) ?_
    exact .unsupported fun _ => id

theorem settles_skipForOutput : Settles nowhere n n' skipForOutput skipForOutput := by
  refine .whenKeyword fun s => .skipKeyword_bind (fun _ h => h.elim) Settles.pure.behind ?_
  exact settlesBehind_skipMarkup s

end

end SelectRouting.Grammar
