import SelectRouting.Grammar.From
import SelectRouting.Grammar.Filter
import SelectRouting.Grammar.Hierarchy
import SelectRouting.Grammar.Model
import SelectRouting.Grammar.ForClause
import SelectRouting.Proofs.Nesting.Expression
/-!
# The parentheses of the clauses

Each clause other than those of the pagination ends at the depth where it starts, and neither sets a limit nor records
the edit of a number.  Regions are only skipped in a dialect with clauses that it does not look into.
-/
namespace SelectRouting.Grammar

section
variable {d : Dialect} {rule : Rule} {α : Type}

/-! ## Orders -/

theorem steady_nullsFirstLast : Steady d nullsFirstLast := by
  refine fun _ => .branch (.skipKeyword rfl) ?_ .pure
  exact .branch (.skipKeyword rfl) .pure (.branch (.skipKeyword rfl) .pure .unexpected)

theorem steady_nullOrder : Steady d (nullOrder d) := by
  intro n
  cases d with
  | sqlServer => exact .pure
  | generic | oracle => exact steady_nullsFirstLast n

theorem steady_direction : Steady d direction :=
  fun _ => .branch (.skipKeyword rfl) .pure (.bind (.skipKeyword rfl) fun _ => .pure)

theorem steady_orderItem : Steady d (orderItem d rule) := by
  refine fun n => .bind (steady_expression n) fun _ => .bind (steady_direction n) fun _ => ?_
  exact .bind (steady_nullOrder n) fun _ => .pure

theorem steady_orderItems : Steady d (orderItems d rule) :=
  fun n => .commaSeparated (steady_orderItem n)

theorem steady_orderBy : Steady d (orderBy d rule) := by
  refine fun n => .branch (.skipKeyword rfl) (.bind (.expectKeyword rfl) fun _ => ?_) .pure
  exact .bind (steady_orderItems n) fun _ => .modify fun _ => rfl

/-! ## The select list -/

theorem steady_distinct : Steady d (distinct d) := by
  have hks : ∀ k ∈ Keyword.distinct :: d.distinctSynonyms, (Token.Kind.keyword k).common = true := by
    cases d <;> decide
  exact fun n => .branch (.skipAny hks) (.modify fun _ => rfl) (.bind (.skipKeyword rfl) fun _ => .pure)

theorem steady_aliasAfterAs : Steady d aliasAfterAs := by
  refine fun n s => .look_bind ?_
  split
  · next hk => exact WalksAt.advance_bind (congrArg Token.Kind.common hk) .pure
  · exact Walks.expectName s

theorem steady_aliasClause : Steady d aliasClause := by
  refine fun n => .branch .look .pure (.branch (.skipKeyword rfl) ?_ (.branch .look ?_ .pure))
  · exact .bind (steady_aliasAfterAs n) fun _ => .pure
  · exact .bind .expectName fun _ => .pure

theorem steady_windowOrder : Steady d (windowOrder d rule) :=
  fun n => .branch (.skipKeyword rfl) (.bind (.expectKeyword rfl) fun _ => steady_orderItems n) .pure

theorem steady_windowItem (hd : d ≠ .generic) : Steady d (windowItem d rule) := by
  refine fun n => .bind (.expectKeyword rfl) fun _ => .bind (.region hd) fun _ => .bind (.expectKeyword rfl) fun _ => ?_
  refine .bind .opening fun _ => .branch .look .unsupported (.bind (steady_windowOrder (n + 1)) fun _ => ?_)
  exact .bind .closing fun _ => .bind (steady_aliasClause n) fun _ => .pure

theorem steady_rowNumberItem : Steady d (rowNumberItem d rule) := by
  intro n
  cases d with
  | sqlServer => exact steady_windowItem (by decide) n
  | generic | oracle => exact .unexpected

theorem steady_expressionItem : Steady d (expressionItem rule) := by
  refine fun n => .bind (steady_expression n) fun e => ?_
  split
  · exact .pure
  · exact .bind (steady_aliasClause n) fun _ => .pure

theorem steady_atRowNumberItem : Steady d (atRowNumberItem d) := by
  intro n
  cases d with
  | sqlServer =>
    show Walks .sqlServer n (checkKeyword .rowNumber) n
    exact .look
  | generic | oracle => exact .pure

theorem steady_selectItem : Steady d (selectItem d rule) := by
  have hks : ∀ k ∈ d.skippedBeforeItem, (Token.Kind.keyword k).common = true := by
    cases d <;> decide
  refine fun n => .bind (.skipAny hks) fun _ => .branch (steady_atRowNumberItem n) ?_ ?_
  · exact steady_rowNumberItem n
  · exact steady_expressionItem n

theorem steady_selectList : Steady d (selectList d rule) :=
  fun n => .eachSeparated (.bind (steady_selectItem n) fun _ => .modify fun _ => rfl)

/-! ## What stands behind a table -/

section
variable (hd : d ≠ .generic)
include hd

theorem steady_skipSample : Steady d skipSample := by
  refine fun _ => .branch (.skipKeyword rfl) (.bind (.skipKeyword rfl) fun _ => .bind (.region hd) fun _ => ?_) .pure
  exact .branch (.skipKeyword rfl) (.bind (.region hd) fun _ => .pure) .pure

theorem steady_skipPartition {k : Keyword} (hk : (Token.Kind.keyword k).common = true) :
    Steady d (skipPartition k) := by
  refine fun _ => .branch (.skipKeyword hk) (.branch (.skipKeyword rfl) ?_ ?_) .pure
  · exact .bind (.region hd) fun _ => .pure
  · refine .bind (.region hd) fun _ => .branch (.skipKeyword rfl) ?_ .pure
    exact .bind (.region hd) fun _ => .pure

omit hd in
theorem steady_skipNullColumns : Steady d skipNullColumns :=
  fun _ => .branch (.skipAny (by decide)) (.bind (.expectKeyword rfl) fun _ => .pure) .pure

theorem steady_skipPivot : Steady d skipPivot := by
  refine fun n => .branch (.skipKeyword rfl) ?_ (.branch (.skipKeyword rfl) ?_ .pure)
  · exact .bind (.skipKeyword rfl) fun _ => .bind (.region hd) fun _ => .pure
  · exact .bind (steady_skipNullColumns n) fun _ => .bind (.region hd) fun _ => .pure

theorem steady_skipHint : Steady d skipHint :=
  fun _ => .branch (.skipKeyword rfl) (.bind (.region hd) fun _ => .pure) .pure

end

theorem steady_rejectFlashback : Steady d rejectFlashback :=
  fun _ => .branch .look .unsupported (.branch .look .unsupported .pure)

/-! ## FROM -/

theorem steady_tableNamed (schema : Option String) (name : String) (token : Token) :
    Steady d (tableNamed rule schema name token) :=
  fun n => .bind .recordTable fun _ => .bind (steady_aliasClause n) fun _ => .pure

theorem steady_tableName : Steady d (tableName rule) := by
  refine fun n => .look_bind fun first => .bind .expectName fun name => .branch (.skip trivial rfl) ?_ ?_
  · exact .look_bind fun second => .bind .expectName fun inner => steady_tableNamed (some name) inner second n
  · exact steady_tableNamed none name first n

section
variable {entry : Parser TableRef} (hentry : Steady d entry)
include hentry

theorem steady_plainFactor : Steady d (plainFactor rule entry) := by
  refine fun n => .branch .look .unsupported (.branchOpening ?_ (steady_tableName n))
  exact .bind (hentry _) fun _ => .bind .closing fun _ => .pure

theorem steady_suffixedFactor (hd : d ≠ .generic) : Steady d (suffixedFactor rule entry) := by
  refine fun n => .bind (steady_plainFactor hentry n) fun _ => .bind (steady_skipSample hd n) fun _ => ?_
  refine .bind (steady_skipPartition hd rfl n) fun _ => .bind (steady_skipPartition hd rfl n) fun _ => ?_
  exact .pure

theorem steady_oracleFactor (hd : d ≠ .generic) : Steady d (oracleFactor rule entry) := by
  have hsuffixed : Steady d (suffixedFactor rule entry) := steady_suffixedFactor hentry hd
  have honly : Steady d (onlyFactor rule entry) := by
    refine fun n => .branchOpening ?_ (hsuffixed n)
    exact .bind (hsuffixed _) fun _ => .bind .closing fun _ => .pure
  have hpivoted : Steady d (pivotedFactor rule entry) :=
    fun n => .bind (hsuffixed n) fun _ => .bind (steady_skipPivot hd n) fun _ => .pure
  intro n
  unfold oracleFactor
  refine .bind (.skipKeyword rfl) fun b => ?_
  cases b with
  | true => exact .bind (honly n) fun _ => .bind (steady_rejectFlashback n) fun _ => .pure
  | false => exact .bind (hpivoted n) fun _ => .bind (steady_rejectFlashback n) fun _ => .pure

theorem steady_factorOver : Steady d (factorOver d rule entry) := by
  intro n
  cases d with
  | oracle => exact steady_oracleFactor hentry (by decide) n
  | generic | sqlServer => exact steady_plainFactor hentry n

end

theorem steady_skipOuter (kind : JoinKind) : Steady d (skipOuter kind) := by
  intro n
  cases kind with
  | left | right | full => exact .bind (.skipKeyword rfl) fun _ => .pure
  | inner | cross => exact .pure

theorem steady_joinKind : Steady d joinKind := by
  have hjoin : ∀ {s : State} {n : Nat} (kind : JoinKind), s.cursor.kind.common = true →
      WalksAt d s n (joinOf kind) n := by
    refine fun kind hk => .advance_bind hk (.bind (steady_skipOuter kind _) fun _ => ?_)
    exact .bind (.expectKeyword rfl) fun _ => .pure
  refine fun n s => .look_bind ?_
  split
  case h_1 hk => exact WalksAt.advance_bind (Walks.common_of_keyword? hk rfl) .pure
  case h_2 hk | h_3 hk | h_4 hk | h_5 hk | h_6 hk => exact hjoin _ (Walks.common_of_keyword? hk rfl)
  case h_7 => exact .pure ⟨.nil, rfl⟩

theorem steady_joinedBy (kind : JoinKind) : Steady d (joinedBy rule kind) := by
  intro n
  have hby : Walks d n (joinedBy rule .inner) n := by
    refine .branch (.skipKeyword rfl) ?_ (.branch (.skipKeyword rfl) ?_ .unexpected)
    · exact .bind (steady_expression n) fun _ => .pure
    · exact .bind .opening fun _ => .bind (.commaSeparated .expectName) fun _ => .bind .closing fun _ => .pure
  cases kind with
  | cross => exact .pure
  | inner | left | right | full => exact hby

theorem steady_hintBehind (left : TableRef) : Steady d (hintBehind d left) := by
  intro n
  cases d with
  | sqlServer =>
    show Walks .sqlServer n (if endsWithFactor left then skipHint else pure ()) n
    split
    · exact steady_skipHint (by decide) n
    · exact .pure
  | generic | oracle => exact .pure

section
variable {factor : Parser TableRef} (hfactor : Steady d factor)
include hfactor

theorem steady_nextJoin (left : TableRef) : Steady d (nextJoin rule factor left) := by
  refine fun n => .bind (steady_joinKind n) fun kind? => ?_
  split
  · exact .pure
  · exact .bind (hfactor n) fun _ => .bind (steady_joinedBy _ n) fun _ => .pure

theorem steady_joinsOver (rounds : Nat) (left : TableRef) : Steady d (joinsOver d rule factor rounds left) := by
  intro n
  induction rounds generalizing left with
  | zero => exact .pure
  | succ rounds ih =>
    refine .bind (steady_hintBehind left n) fun _ => .bind (steady_nextJoin hfactor left n) fun joined? => ?_
    split
    · exact ih _
    · exact .pure

end

theorem steady_tableReferenceAt (depth : Nat) : Steady d (tableReferenceAt d rule depth) := by
  induction depth with
  | zero => exact fun _ => .unexpected
  | succ depth ih =>
    have hfactor : Steady d (factorOver d rule (tableReferenceAt d rule depth)) := steady_factorOver ih
    exact fun n => .bind (hfactor n) fun left => .look_bind fun rounds => steady_joinsOver hfactor rounds left n

theorem steady_tableReference : Steady d (tableReference d rule) :=
  fun n => .look_bind fun tokens => steady_tableReferenceAt (tokens + 1) n

theorem steady_fromClause : Steady d (fromClause d rule) := by
  refine fun n => .branch (.skipKeyword rfl) (.eachSeparated ?_) .pure
  exact .bind (steady_tableReference n) fun _ => .modify fun _ => rfl

/-! ## WHERE, GROUP BY and HAVING -/

theorem steady_whereClause : Steady d (whereClause rule) :=
  fun n => .branch (.skipKeyword rfl) (.bind (steady_expression n) fun _ => .modify fun _ => rfl) .pure

theorem steady_grouping : Steady d (grouping d rule) := by
  refine fun n => .look_bind fun k? => ?_
  split
  · exact .unsupported
  · exact .bind (steady_expression n) fun _ => .modify fun _ => rfl

theorem steady_groupBy : Steady d (groupBy d rule) := by
  refine fun n => .branch (.skipKeyword rfl) (.bind (.expectKeyword rfl) fun _ => ?_) .pure
  exact .eachSeparated (steady_grouping n)

theorem steady_havingClause : Steady d (havingClause rule) :=
  fun n => .branch (.skipKeyword rfl) (.bind (steady_expression n) fun _ => .modify fun _ => rfl) .pure

/-! ## Clauses of Oracle -/

theorem steady_skipHierarchy : Steady d (skipHierarchy rule) := by
  have hconnect : Steady d (skipConnectBy rule) := by
    refine fun n => .branch (.skipKeyword rfl) (.bind (.expectKeyword rfl) fun _ => ?_) .pure
    exact .bind (.skipKeyword rfl) fun _ => .bind (steady_hierarchicalCondition n) fun _ => .pure
  have hstart : Steady d (skipStartWith rule) := by
    refine fun n => .branch (.skipKeyword rfl) (.bind (.expectKeyword rfl) fun _ => ?_) .pure
    exact .bind (steady_expression n) fun _ => .pure
  exact fun n => .bind (hconnect n) fun _ => .bind (hstart n) fun _ => hconnect n

theorem steady_skipCellOptions : Steady d skipCellOptions := by
  have hmissing : Steady d skipMissing :=
    fun _ => .branch (.skipAny (by decide)) (.bind (.expectKeyword rfl) fun _ => .pure) .pure
  have huniqueness : Steady d skipUniqueness := by
    refine fun _ => .branch (.skipKeyword rfl) (.branch (.skipKeyword rfl) ?_ ?_) .pure
    · exact .bind (.expectKeyword rfl) fun _ => .pure
    · exact .bind (.expectKeyword rfl) fun _ => .pure
  exact fun n => .bind (hmissing n) fun _ => huniqueness n

theorem steady_skipReturn : Steady d skipReturn := by
  refine fun _ => .branch (.skipKeyword rfl) (.branch (.skipAny (by decide)) ?_ .unexpected) .pure
  exact .bind (.expectKeyword rfl) fun _ => .pure

section
variable (hd : d ≠ .generic)
include hd

theorem steady_rejectReference : Steady d rejectReference := by
  refine fun _ => .branch (.skipKeyword rfl) (.bind .expectName fun _ => .bind (.expectKeyword rfl) fun _ => ?_) .pure
  exact .bind (.region hd) fun _ => .unsupported

theorem steady_skipModelPartition : Steady d skipModelPartition := by
  refine fun _ => .branch (.skipKeyword rfl) (.bind (.expectKeyword rfl) fun _ => .branch .look ?_ .unsupported) .pure
  exact .bind (.region hd) fun _ => .pure

theorem steady_skipColumns : Steady d skipColumns := by
  refine fun _ => .bind (.expectKeyword rfl) fun _ => .bind (.expectKeyword rfl) fun _ => .bind (.region hd) fun _ => ?_
  exact .bind (.expectKeyword rfl) fun _ => .bind (.region hd) fun _ => .pure

omit hd in
theorem steady_skipRuleOptions : Steady d skipRuleOptions := by
  have hkind : Steady d skipRuleKind := by
    refine fun _ => .branch (.skipKeyword rfl) ?_ ?_
    · exact .bind (.skipKeyword rfl) fun _ => .pure
    · exact .bind (.skipKeyword rfl) fun _ => .pure
  have horder : Steady d skipRuleOrder :=
    fun _ => .branch (.skipAny (by decide)) (.bind (.expectKeyword rfl) fun _ => .pure) .pure
  exact fun n => .branch (.skipKeyword rfl) (.bind (hkind n) fun _ => horder n) .pure

theorem steady_skipIteration : Steady d skipIteration := by
  refine fun _ => .branch (.skipKeyword rfl) (.bind (.region hd) fun _ => .branch (.skipKeyword rfl) ?_ .pure) .pure
  exact .bind (.region hd) fun _ => .pure

theorem steady_skipRules : Steady d skipRules := by
  refine fun n => .bind (steady_skipRuleOptions n) fun _ => .bind (steady_skipIteration hd n) fun _ => ?_
  exact .bind (.region hd) fun _ => .pure

theorem steady_skipMainModel : Steady d skipMainModel := by
  have hname : Steady d skipMainName :=
    fun _ => .branch (.skipKeyword rfl) (.bind .expectName fun _ => .pure) .pure
  refine fun n => .bind (hname n) fun _ => .bind (steady_skipModelPartition hd n) fun _ => ?_
  refine .bind (steady_skipColumns hd n) fun _ => .bind (steady_skipCellOptions n) fun _ => ?_
  exact steady_skipRules hd n

theorem steady_skipModel : Steady d skipModel := by
  refine fun n => .branch (.skipKeyword rfl) (.bind (steady_skipCellOptions n) fun _ => ?_) .pure
  refine .bind (steady_skipReturn n) fun _ => .bind (steady_rejectReference hd n) fun _ => ?_
  exact steady_skipMainModel hd n

end

theorem steady_skipWaiting : Steady d skipWaiting := by
  refine fun _ => .branch (.skipKeyword rfl) ?_ (.branch (.skipKeyword rfl) ?_ ?_)
  · exact .bind .expectInteger fun _ => .pure
  · exact .bind (.expectKeyword rfl) fun _ => .pure
  · exact .bind (.skipKeyword rfl) fun _ => .pure

theorem steady_skipForUpdate : Steady d (skipForUpdate rule) := by
  have hcolumns : Steady d (skipLockedColumns rule) := by
    refine fun n => .branch (.skipKeyword rfl) ?_ .pure
    exact .bind (.commaSeparated (steady_expression n)) fun _ => .pure
  refine fun n => .branch (.skipKeyword rfl) (.bind (.expectKeyword rfl) fun _ => ?_) .pure
  exact .bind (hcolumns n) fun _ => steady_skipWaiting n

/-! ## Clauses of SQL Server -/

theorem steady_skipXmlOption (hd : d ≠ .generic) : Steady d skipXmlOption := by
  have hregion : Steady d skipOptionalRegion := fun _ => .branch .look (.bind (.region hd) fun _ => .pure) .pure
  refine fun n s => .look_bind ?_
  split
  case h_1 hk | h_2 hk | h_3 hk | h_4 hk => exact WalksAt.advance_bind (Walks.common_of_keyword? hk rfl) (hregion n)
  case h_5 hk | h_6 hk | h_7 hk => exact WalksAt.advance_bind (Walks.common_of_keyword? hk rfl) .pure
  case h_8 hk =>
    refine WalksAt.advance_bind (Walks.common_of_keyword? hk rfl) (.bind (.skipAny (by decide)) fun _ => ?_)
    exact .pure
  case h_9 => exact .unexpected

theorem steady_skipForOutput (hd : d ≠ .generic) : Steady d skipForOutput := by
  refine fun n => .branch (.skipKeyword rfl) (.branch (.skipKeyword rfl) .pure ?_) .pure
  refine .look_bind fun token => ?_
  split
  · exact .unexpected
  · exact .branch (.skipKeyword rfl) (.eachSeparated (steady_skipXmlOption hd n)) .unsupported

end

end SelectRouting.Grammar
