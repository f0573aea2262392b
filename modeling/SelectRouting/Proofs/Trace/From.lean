import SelectRouting.Grammar.From
import SelectRouting.Proofs.Trace.Expression
/-!
# The leaves of a select list and of FROM

An item and an entry read their own leaves (`reads_selectItem`, `reads_tableReference`).  Row numbers, samples,
partitions, pivots and hints are skipped as single events.
-/
namespace SelectRouting.Grammar

section
variable {d : Dialect} {rule : Rule} {s s' : State}

/-! ## Select items -/

theorem silent_aliasAfterAs : Silent d rule .reading aliasAfterAs := by
  refine fun s => .look_bind ?_
  split
  · next hk => exact .advance_bind (.of_eq hk ⟨nofun, nofun⟩) (.pure rfl)
  · exact silent_expectName s

theorem silent_aliasClause : Silent d rule .reading aliasClause := by
  refine .branch silent_look (.pure rfl) (.branch silent_skipKeyword ?_ (.branch silent_look ?_ (.pure rfl)))
  · exact .silent_bind silent_aliasAfterAs fun _ => .pure rfl
  · exact .silent_bind silent_expectName fun _ => .pure rfl

theorem silent_nullsFirstLast : Silent d rule .reading nullsFirstLast := by
  refine .branch silent_skipKeyword ?_ (.pure rfl)
  exact .branch silent_skipKeyword (.pure rfl) (.branch silent_skipKeyword (.pure rfl) .unexpected)

theorem silent_nullOrder : Silent d rule .reading (nullOrder d) := by
  cases d with
  | generic | oracle => exact silent_nullsFirstLast
  | sqlServer => exact .pure rfl

theorem silent_direction : Silent d rule .reading direction :=
  .branch silent_skipKeyword (.pure rfl) (.silent_bind silent_skipKeyword fun _ => .pure rfl)

theorem reads_orderItem : Reads d rule .reading [] (orderItem d rule) OrderItem.leaves := by
  refine reads_expression.andThen fun e => .silent_bind silent_direction fun rows => ?_
  exact .silent_bind silent_nullOrder fun nulls => .pure rfl

theorem reads_orderItems : Reads d rule .reading [] (orderItems d rule) (·.flatMap OrderItem.leaves) :=
  reads_orderItem.commaSeparated

theorem reads_windowOrder : Reads d rule .reading [] (windowOrder d rule) (·.flatMap OrderItem.leaves) :=
  .branch silent_skipKeyword (.silent_bind silent_expectKeyword fun _ => reads_orderItems) (.pure rfl)

theorem reads_windowItem (hd : .rowNumber ∈ d.skippedClauses) :
    Reads d rule .reading [] (windowItem d rule) SelectItem.leaves := by
  refine .expectClause_bind hd skims_region fun _ => .silent_bind silent_expectKeyword fun _ => ?_
  refine .silent_bind (silent_expect ⟨nofun, nofun⟩) fun _ => .branch silent_look .unsupported ?_
  refine reads_windowOrder.andThen fun order => .silent_bind (silent_expect ⟨nofun, nofun⟩) fun _ => ?_
  exact .silent_bind silent_aliasClause fun a => .pure rfl

theorem reads_rowNumberItem : Reads d rule .reading [] (rowNumberItem d rule) SelectItem.leaves := by
  cases d with
  | generic | oracle => exact .unexpected
  | sqlServer => exact reads_windowItem (by decide)

theorem reads_expressionItem : Reads d rule .reading [] (expressionItem rule) SelectItem.leaves := by
  refine reads_expression.andThen fun e => ?_
  split
  · exact .pure (Expr.leaves_wildcard _)
  · exact .silent_bind silent_aliasClause fun a => .pure rfl

theorem silent_atRowNumberItem : Silent d rule .reading (atRowNumberItem d) := by
  cases d with
  | generic | oracle => exact .pure rfl
  | sqlServer => exact silent_look (f := (·.atKeyword .rowNumber))

theorem reads_selectItem : Reads d rule .reading [] (selectItem d rule) SelectItem.leaves :=
  .silent_bind silent_skipAny fun _ => .branch silent_atRowNumberItem reads_rowNumberItem reads_expressionItem

/-! ## Tables -/

/-- Behind its name a table has its edit, and perhaps an alias. -/
theorem outcome_tableNamed {schema : Option String} {name : String} {t : Token} (ts : List Token)
    (ht : s.cursor.tokens = ts ++ s'.cursor.tokens) (hs : Token.Complete s'.cursor.tokens)
    (hst : s'.statement = s.statement) (hl : (Leaf.table schema name t.span).SpelledBy ts) (hname : t.name? = some name)
    (htoken : (Leaf.table schema name t.span).tableToken? ts = some t) :
    Outcome d rule .reading s (tableNamed rule schema name t s') fun r es _ => Event.leaves es = r.leaves := by
  have hstep : Step rule s (.name (.table schema name t.span) ts) (s'.recorded rule t) := by
    refine .name ht hl ?_
    rw [htoken, State.recorded, hst]
    rfl
  have hreads : Reads d rule .reading [.table schema name t.span]
      (aliasClause >>= fun a => pure (.table schema name a t.span)) TableRef.leaves :=
    .silent_bind silent_aliasClause fun a => .pure rfl
  unfold tableNamed
  rw [recordTable_bind_apply hname]
  exact .after (.single hstep) (List.forall_mem_singleton.2 trivial) (List.forall_mem_singleton.2 trivial)
    (hreads (s'.recorded rule t) hs)

/-- Behind a schema and its point there has to be a name. -/
theorem outcome_schemaTable {o dot : Token} {schema : String} (ho : o.name? = some schema) (hdot : dot.kind = .dot)
    (hs : Token.Complete s'.cursor.tokens) (ht : s.cursor.tokens = o :: dot :: s'.cursor.tokens)
    (hst : s'.statement = s.statement) (hok : o.kind ≠ .question) :
    Outcome d rule .reading s ((expectName >>= fun name =>
      tableNamed rule (some schema) name s'.cursor.current) s') fun r es _ => Event.leaves es = r.leaves := by
  rw [bind_apply]
  cases hn : s'.cursor.name? with
  | none =>
    -- A schema alone records no edit.
    have hallowed : ∀ ev ∈ [o, dot].map Event.pass, ev.Allowed d .reading := by
      refine List.forall_mem_cons.2 ⟨hok, List.forall_mem_singleton.2 ?_⟩
      show dot.kind ≠ .question
      rw [hdot]
      exact nofun
    rw [expectName_of_none hn]
    exact ⟨_, .pass ht hst, hallowed⟩
  | some name =>
    have hadvance := Cursor.tokens_advance hs (Cursor.ordinary_of_name? hn).2
    rw [expectName_of_some hn]
    exact outcome_tableNamed [o, dot, s'.cursor.current] (by rw [ht, hadvance]; rfl) (Cursor.complete_advance hs) hst
      ⟨ho, hdot, hn, rfl⟩ hn rfl

theorem reads_tableName : Reads d rule .reading [] (tableName rule) TableRef.leaves := by
  intro s hs
  show Outcome d rule .reading s ((expectName >>= fun name => skip .dot >>= fun b =>
    if b then look (·.current) >>= fun second => expectName >>= fun inner => tableNamed rule (some name) inner second
    else tableNamed rule none name s.cursor.current) s) _
  rw [bind_apply]
  cases hn : s.cursor.name? with
  | none =>
    rw [expectName_of_none hn]
    exact Traced.unexpected (α := TableRef) hs
  | some name =>
    have hk := Cursor.ordinary_of_name? hn
    have hadvance := Cursor.tokens_advance hs hk.2
    have hs' : Token.Complete s.advanced.cursor.tokens := Cursor.complete_advance hs
    rw [expectName_of_some hn]
    show Outcome d rule .reading s ((skip .dot >>= fun b =>
      if b then look (·.current) >>= fun second => expectName >>= fun inner => tableNamed rule (some name) inner second
      else tableNamed rule none name s.cursor.current) s.advanced) _
    rw [skip_bind_apply]
    by_cases hdot : s.advanced.cursor.kind.alike .dot = true
    · have hdot' : s.advanced.cursor.kind = .dot := Token.Kind.eq_of_alike hdot trivial
      have hadvance' := Cursor.tokens_advance hs' (hdot' ▸ nofun)
      rw [if_pos hdot]
      exact outcome_schemaTable hn hdot' (Cursor.complete_advance hs') (hadvance.trans (congrArg _ hadvance')) rfl hk.1
    · rw [if_neg hdot]
      exact outcome_tableNamed [s.cursor.current] hadvance hs' rfl ⟨hn, rfl⟩ hn rfl

/-! ## Factors -/

theorem silent_skipSample (hd : .sample ∈ d.skippedClauses) : Silent d rule .reading skipSample := by
  refine silent_skipClause hd ?_ (.pure rfl)
  exact .skipKeyword_bind fun _ => .region_bind fun _ => .branch (.region_bind fun _ => .pure) .pure

theorem skims_partitionKey : Skims d rule skipPartitionKey := by
  refine .branch (.region_bind fun _ => .pure) ?_
  exact .region_bind fun _ => .branch (.region_bind fun _ => .pure) .pure

theorem silent_skipPartition {k : Keyword} (hd : k ∈ d.skippedClauses) : Silent d rule .reading (skipPartition k) :=
  silent_skipClause hd skims_partitionKey (.pure rfl)

theorem skims_nullColumns : Skims d rule skipNullColumns :=
  .branchAny (.expectKeyword_bind fun _ => .pure) .pure

theorem silent_skipPivot (hp : .pivot ∈ d.skippedClauses) (hu : .unpivot ∈ d.skippedClauses) :
    Silent d rule .reading skipPivot := by
  refine silent_skipClause hp ?_ (silent_skipClause hu ?_ (.pure rfl))
  · exact .skipKeyword_bind fun _ => .region_bind fun _ => .pure
  · exact skims_nullColumns.bind fun _ => .region_bind fun _ => .pure

theorem silent_rejectFlashback : Silent d rule .reading rejectFlashback :=
  .branch silent_look .unsupported (.branch silent_look .unsupported (.pure rfl))

theorem silent_skipHint (hd : .with ∈ d.skippedClauses) : Silent d rule .reading skipHint :=
  silent_skipClause hd (.region_bind fun _ => .pure) (.pure rfl)

theorem reads_plainFactor {entry : Parser TableRef} (hentry : Reads d rule .reading [] entry TableRef.leaves) :
    Reads d rule .reading [] (plainFactor rule entry) TableRef.leaves := by
  refine .branch silent_look .unsupported (.branch (silent_skip ⟨nofun, nofun⟩) ?_ reads_tableName)
  exact hentry.andThen fun r => .silent_bind (silent_expect ⟨nofun, nofun⟩) fun _ => .pure rfl

theorem reads_oracleFactor {entry : Parser TableRef} (hentry : Reads .oracle rule .reading [] entry TableRef.leaves) :
    Reads .oracle rule .reading [] (oracleFactor rule entry) TableRef.leaves := by
  have hsuffixed : Reads .oracle rule .reading [] (suffixedFactor rule entry) TableRef.leaves := by
    refine (reads_plainFactor hentry).andThen fun r => .silent_bind (silent_skipSample (by decide)) fun _ => ?_
    refine .silent_bind (silent_skipPartition (by decide)) fun _ => ?_
    exact .silent_bind (silent_skipPartition (by decide)) fun _ => .pure rfl
  have honly : Reads .oracle rule .reading [] (onlyFactor rule entry) TableRef.leaves := by
    refine .branch (silent_skip ⟨nofun, nofun⟩) ?_ hsuffixed
    exact hsuffixed.andThen fun r => .silent_bind (silent_expect ⟨nofun, nofun⟩) fun _ => .pure rfl
  have hpivoted : Reads .oracle rule .reading [] (pivotedFactor rule entry) TableRef.leaves :=
    hsuffixed.andThen fun r => .silent_bind (silent_skipPivot (by decide) (by decide)) fun _ => .pure rfl
  refine .silent_bind silent_skipKeyword fun b => ?_
  cases b with
  | true => exact honly.andThen fun r => .silent_bind silent_rejectFlashback fun _ => .pure rfl
  | false => exact hpivoted.andThen fun r => .silent_bind silent_rejectFlashback fun _ => .pure rfl

theorem reads_factorOver {entry : Parser TableRef} (hentry : Reads d rule .reading [] entry TableRef.leaves) :
    Reads d rule .reading [] (factorOver d rule entry) TableRef.leaves := by
  cases d with
  | generic | sqlServer => exact reads_plainFactor hentry
  | oracle => exact reads_oracleFactor hentry

/-! ## Joins -/

theorem silent_skipOuter (kind : JoinKind) : Silent d rule .reading (skipOuter kind) := by
  cases kind with
  | left | right | full => exact .silent_bind silent_skipKeyword fun _ => .pure rfl
  | inner | cross => exact .pure rfl

theorem silent_joinKind : Silent d rule .reading joinKind := by
  have hjoinOf : ∀ kind s, s.cursor.kind.Ordinary → ReadsAt d rule .reading s [] (joinOf kind) fun _ => [] :=
    fun kind _ hk => .advance_bind hk (.silent_bind (silent_skipOuter kind) fun _ =>
      .silent_bind silent_expectKeyword fun _ => .pure rfl)
  have hordinary : ∀ {s : State} {k : Keyword}, s.cursor.keyword? = some k → s.cursor.kind.Ordinary := fun {s k} h =>
    .of_eq (Cursor.kind_of_atKeyword (decide_eq_true h)) (Token.Kind.ordinary_keyword k)
  refine fun s => .look_bind ?_
  split
  case h_1 hk => exact ReadsAt.advance_bind (hordinary hk) (.pure rfl)
  case h_2 hk | h_3 hk | h_4 hk | h_5 hk | h_6 hk => exact hjoinOf _ s (hordinary hk)
  case h_7 => exact .pure rfl

theorem reads_joinedBy (kind : JoinKind) :
    Reads d rule .reading [] (joinedBy rule kind) (·.1.toList.flatMap Expr.leaves) := by
  have hby : Reads d rule .reading [] (joinedBy rule .inner) (·.1.toList.flatMap Expr.leaves) := by
    refine .branch silent_skipKeyword (reads_expression.andThen fun e => .pure ?_)
      (.branch silent_skipKeyword ?_ .unexpected)
    · simp
    · refine .silent_bind (silent_expect ⟨nofun, nofun⟩) fun _ => ?_
      refine silent_expectName.commaSeparated.andThen fun columns => ?_
      refine .silent_bind (silent_expect ⟨nofun, nofun⟩) fun _ => .pure ?_
      simp
  cases kind with
  | cross => exact .pure rfl
  | inner | left | right | full => exact hby

theorem silent_hintBehind (left : TableRef) : Silent d rule .reading (hintBehind d left) := by
  cases d with
  | generic | oracle => exact .pure rfl
  | sqlServer =>
    show Silent .sqlServer rule .reading (if endsWithFactor left then skipHint else pure ())
    cases endsWithFactor left with
    | true => exact silent_skipHint (by decide)
    | false => exact .pure rfl

section
variable {factor : Parser TableRef} (hfactor : Reads d rule .reading [] factor TableRef.leaves)
include hfactor

theorem reads_nextJoin (left : TableRef) :
    Reads d rule .reading left.leaves (nextJoin rule factor left) fun r => (r.getD left).leaves := by
  refine .silent_bind silent_joinKind fun kind? => ?_
  cases kind? with
  | none => exact .pure rfl
  | some kind =>
    refine hfactor.andThen fun right => (reads_joinedBy kind).andThen fun _ => .pure ?_
    rw [List.append_assoc]
    rfl

theorem reads_joinsOver (rounds : Nat) (left : TableRef) :
    Reads d rule .reading left.leaves (joinsOver d rule factor rounds left) TableRef.leaves := by
  induction rounds generalizing left with
  | zero => exact .pure rfl
  | succ rounds ih =>
    refine .silent_bind (silent_hintBehind left) fun _ => (reads_nextJoin hfactor left).bind fun joined? => ?_
    cases joined? with
    | none => exact .pure rfl
    | some joined => exact ih joined

end

/-! ## The knot -/

theorem reads_tableReferenceAt (depth : Nat) :
    Reads d rule .reading [] (tableReferenceAt d rule depth) TableRef.leaves := by
  induction depth with
  | zero => exact .unexpected
  | succ depth ih =>
    refine (reads_factorOver ih).bind fun left => .look_bind fun rounds => ?_
    exact reads_joinsOver (reads_factorOver ih) rounds left

theorem reads_tableReference : Reads d rule .reading [] (tableReference d rule) TableRef.leaves :=
  .look_bind fun n => reads_tableReferenceAt (n + 1)

theorem reads_tableFactor : Reads d rule .reading [] (tableFactor d rule) TableRef.leaves :=
  .look_bind fun n => reads_factorOver (reads_tableReferenceAt n)

theorem reads_commonTableFactor : Reads d rule .reading [] (commonTableFactor d rule) TableRef.leaves :=
  .look_bind fun n => reads_plainFactor (reads_tableReferenceAt n)

theorem reads_joins (left : TableRef) : Reads d rule .reading left.leaves (joins d rule left) TableRef.leaves :=
  .look_bind fun rounds => reads_joinsOver reads_tableFactor rounds left

theorem reads_commonJoins (left : TableRef) :
    Reads d rule .reading left.leaves (commonJoins d rule left) TableRef.leaves := by
  refine (reads_nextJoin reads_tableFactor left).bind fun joined? => ?_
  cases joined? with
  | none => exact .pure rfl
  | some joined => exact reads_joins joined

end

end SelectRouting.Grammar
