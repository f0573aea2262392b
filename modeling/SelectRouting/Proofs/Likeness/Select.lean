import SelectRouting.Proofs.Likeness.Clause
import SelectRouting.Proofs.Trace.Select
/-!
# Statements side by side

The clauses that only some dialects have, and all clauses together: two texts whose tokens are alike are read to statements
that are alike, or refused with errors that are alike (`parse_alike`).
-/
namespace SelectRouting

namespace Grammar.Likeness

section
variable {rule rule' : Rule} {C : Likeness rule rule'}

theorem agrees_region : C.Agrees Whatever (skipRegion >>= fun _ => pure ()) (skipRegion >>= fun _ => pure ()) :=
  Agrees.skipRegion.andThen fun _ _ => .pure trivial

/-- A keyword that has to stand here. -/
theorem agrees_keyword {k : Keyword} :
    C.Agrees Whatever (expectKeyword k >>= fun _ => pure ()) (expectKeyword k >>= fun _ => pure ()) :=
  Agrees.expectKeyword.andThen fun _ _ => .pure trivial

/-- A keyword that may stand here. -/
theorem agrees_word {k : Keyword} :
    C.Agrees Whatever (skipKeyword k >>= fun _ => pure ()) (skipKeyword k >>= fun _ => pure ()) :=
  Agrees.skipKeyword.bind_eq fun _ => .pure trivial

/-! ## Hierarchies and models -/

theorem agrees_skipHierarchy : C.Agrees Whatever (skipHierarchy rule) (skipHierarchy rule') := by
  have hconnect : C.Agrees Whatever (skipConnectBy rule) (skipConnectBy rule') :=
    .whenKeyword (Agrees.expectKeyword.andThen fun _ _ => Agrees.skipKeyword.bind_eq fun _ =>
      agrees_hierarchicalCondition.bind fun _ _ _ => .pure trivial)
  have hstart : C.Agrees Whatever (skipStartWith rule) (skipStartWith rule') :=
    .whenKeyword (Agrees.expectKeyword.andThen fun _ _ => agrees_expression.bind fun _ _ _ => .pure trivial)
  exact hconnect.andThen fun _ _ => hstart.andThen fun _ _ => hconnect

theorem agrees_skipCellOptions : C.Agrees Whatever skipCellOptions skipCellOptions := by
  have hmissing : C.Agrees Whatever skipMissing skipMissing := .branch .skipAny agrees_keyword (.pure trivial)
  exact hmissing.andThen fun _ _ => .whenKeyword (.branch .skipKeyword agrees_keyword agrees_keyword)

theorem agrees_rejectReference : C.Agrees Whatever rejectReference rejectReference := by
  refine .whenKeyword (Agrees.expectName.bind fun _ _ _ => Agrees.expectKeyword.andThen fun _ _ => ?_)
  exact Agrees.skipRegion.andThen fun _ _ => .unsupported

theorem agrees_skipModelPartition : C.Agrees Whatever skipModelPartition skipModelPartition :=
  .whenKeyword (Agrees.expectKeyword.andThen fun _ _ => .branch .check agrees_region .unsupported)

theorem agrees_skipColumns : C.Agrees Whatever skipColumns skipColumns := by
  refine Agrees.expectKeyword.andThen fun _ _ => Agrees.expectKeyword.andThen fun _ _ => ?_
  exact Agrees.skipRegion.andThen fun _ _ => Agrees.expectKeyword.andThen fun _ _ => agrees_region

theorem agrees_skipRules : C.Agrees Whatever skipRules skipRules := by
  have hkind : C.Agrees Whatever skipRuleKind skipRuleKind := .branch .skipKeyword agrees_word agrees_word
  have horder : C.Agrees Whatever skipRuleOrder skipRuleOrder := .branch .skipAny agrees_keyword (.pure trivial)
  have hoptions : C.Agrees Whatever skipRuleOptions skipRuleOptions := .whenKeyword (hkind.andThen fun _ _ => horder)
  have hiteration : C.Agrees Whatever skipIteration skipIteration :=
    .whenKeyword (Agrees.skipRegion.andThen fun _ _ => .whenKeyword agrees_region)
  exact hoptions.andThen fun _ _ => hiteration.andThen fun _ _ => agrees_region

theorem agrees_skipModel : C.Agrees Whatever skipModel skipModel := by
  have hreturn : C.Agrees Whatever skipReturn skipReturn :=
    .whenKeyword (.branch .skipAny agrees_keyword .unexpected)
  have hname : C.Agrees Whatever skipMainName skipMainName :=
    .whenKeyword (Agrees.expectName.bind fun _ _ _ => .pure trivial)
  have hmain : C.Agrees Whatever skipMainModel skipMainModel :=
    hname.andThen fun _ _ => agrees_skipModelPartition.andThen fun _ _ => agrees_skipColumns.andThen fun _ _ =>
      agrees_skipCellOptions.andThen fun _ _ => agrees_skipRules
  exact .whenKeyword (agrees_skipCellOptions.andThen fun _ _ => hreturn.andThen fun _ _ =>
    agrees_rejectReference.andThen fun _ _ => hmain)

/-! ## Pagination -/

/-- The same limit, at the places of two tokens that are alike. -/
def Limits (C : Likeness rule rule') (l l' : Limit.Value × Span) : Prop :=
  l.1 = l'.1 ∧ C.Places l.2 l'.2

theorem agrees_literalLimit (n : Int) {span span' : Span} (hspan : C.Places span span') :
    C.Agrees C.Limits (literalLimit n span) (literalLimit n span') := by
  unfold literalLimit
  split
  · exact .fail rfl hspan
  · exact Agrees.advance.andThen fun _ _ => .pure ⟨rfl, hspan⟩

theorem agrees_limitValue : C.Agrees C.Limits limitValue limitValue := by
  refine Agrees.current.bind fun t u htu => ?_
  have hspan : C.Places t.span u.span := ⟨t, u, htu, rfl, rfl⟩
  rcases eq_or_names htu with hkind | ⟨name, name', ht, hu, -⟩
  · rw [hkind]
    split
    · exact agrees_literalLimit _ hspan
    · exact Agrees.claimParameter.bind_eq fun ordinal => Agrees.advance.andThen fun _ _ => .pure ⟨rfl, hspan⟩
    · exact .unexpected
  · rw [ht, hu]
    exact .unexpected

theorem agrees_recordLimit {edit : Nat → Nat → Edit}
    (hedit : ∀ {t u es es'} (n : Nat), C.token t u → C.edits es es' →
      C.edits ((edit t.span.start n).insert es) ((edit u.span.start n).insert es'))
    (value : Limit.Value) {span span' : Span} (hspan : C.Places span span') :
    C.Agrees Whatever (recordLimit edit value span) (recordLimit edit value span') := by
  cases value with
  | parameter ordinal => exact .pure trivial
  | literal n =>
    obtain ⟨t, u, htu, rfl, rfl⟩ := hspan
    show C.Agrees Whatever (modifyStatement (·.addEdit (edit t.span.start n)))
      (modifyStatement (·.addEdit (edit u.span.start n)))
    exact .modifyStatement fun s s' hs => { hs with edits := hedit n htu hs.edits }

theorem agrees_topClause : C.Agrees Whatever topClause topClause := by
  have hvalue : C.Agrees C.Limits topValue topValue :=
    .branch .skip (agrees_limitValue.bind fun l l' hl => Agrees.expect.andThen fun _ _ => .pure hl) agrees_limitValue
  refine .whenKeyword (hvalue.bind fun ⟨value, span⟩ ⟨value', span'⟩ ⟨heq, hspan⟩ => ?_)
  obtain rfl : value = value' := heq
  refine .branch .checkKeyword .unsupported ?_
  have hties : C.Agrees Whatever skipTies skipTies := .whenKeyword agrees_keyword
  refine hties.andThen fun _ _ => (agrees_recordLimit C.rowCountEdit value hspan).andThen fun _ _ => ?_
  refine .modifyStatement fun s s' hs => { hs with limit := ?_ }
  rw [storeRowCount, storeRowCount, Statement.limitOr, Statement.limitOr, hs.limit]

theorem agrees_fetchClause : C.Agrees Eq fetchClause fetchClause := by
  refine .branch .skipKeyword (.branch .skipAny ?_ .unexpected) (.pure rfl)
  have hrows : C.Agrees Whatever expectRows expectRows := .branch .skipAny (.pure trivial) .unexpected
  refine agrees_limitValue.bind fun ⟨value, span⟩ ⟨value', span'⟩ ⟨heq, hspan⟩ => hrows.andThen fun _ _ => ?_
  obtain rfl : value = value' := heq
  refine Agrees.expectKeyword.andThen fun _ _ => ?_
  have hcounted : C.Agrees Eq (inspect (·.statement.hasRowCount)) (inspect (·.statement.hasRowCount)) :=
    .inspect fun s s' hs => by rw [Statement.hasRowCount, Statement.hasRowCount, hs.statement.limit]
  have hrecord : C.Agrees Whatever (recordFetch value span) (recordFetch value span') :=
    .branch hcounted (.fail rfl hspan) (agrees_recordLimit C.rowCountEdit value hspan)
  exact hrecord.andThen fun _ _ => .pure rfl

theorem agrees_offsetFetch : C.Agrees Whatever offsetFetch offsetFetch := by
  have hrows : C.Agrees Whatever expectRows expectRows := .branch .skipAny (.pure trivial) .unexpected
  refine .whenKeyword (agrees_limitValue.bind fun ⟨value, span⟩ ⟨value', span'⟩ ⟨heq, hspan⟩ => ?_)
  obtain rfl : value = value' := heq
  refine hrows.andThen fun _ _ => (agrees_recordLimit C.offsetEdit value hspan).andThen fun _ _ => ?_
  refine agrees_fetchClause.bind_eq fun rowCount => .modifyStatement fun s s' hs => { hs with limit := ?_ }
  rw [Statement.mergeLimit, Statement.mergeLimit, Statement.limitOr, Statement.limitOr, hs.limit]

/-! ## FOR -/

theorem agrees_skipForUpdate : C.Agrees Whatever (skipForUpdate rule) (skipForUpdate rule') := by
  have hcolumns : C.Agrees Whatever (skipLockedColumns rule) (skipLockedColumns rule') :=
    .whenKeyword (agrees_expression.commaSeparated.bind fun _ _ _ => .pure trivial)
  have hwaiting : C.Agrees Whatever skipWaiting skipWaiting :=
    .branch .skipKeyword (Agrees.expect.andThen fun _ _ => .pure trivial) (.branch .skipKeyword agrees_keyword agrees_word)
  exact .whenKeyword (Agrees.expectKeyword.andThen fun _ _ => hcolumns.andThen fun _ _ => hwaiting)

theorem agrees_skipXmlOption : C.Agrees Whatever skipXmlOption skipXmlOption := by
  have hregion : C.Agrees Whatever skipOptionalRegion skipOptionalRegion := .branch .check agrees_region (.pure trivial)
  refine Agrees.keyword?.bind_eq fun k? => ?_
  split
  · exact Agrees.advance.andThen fun _ _ => hregion
  · exact Agrees.advance.andThen fun _ _ => hregion
  · exact Agrees.advance.andThen fun _ _ => hregion
  · exact Agrees.advance.andThen fun _ _ => hregion
  · exact .advance
  · exact .advance
  · exact .advance
  · exact Agrees.advance.andThen fun _ _ => Agrees.skipAny.bind_eq fun _ => .pure trivial
  · exact .unexpected

theorem agrees_skipForOutput : C.Agrees Whatever skipForOutput skipForOutput := by
  refine .whenKeyword (.branch .skipKeyword (.pure trivial) (Agrees.current.bind fun t u htu => ?_))
  have hend : decide (t.kind = .eof) = decide (u.kind = .eof) ∧
      decide (t.kind = .semicolon) = decide (u.kind = .semicolon) :=
    ⟨kind_congr htu (fun k => decide (k = .eof)) fun _ _ => rfl,
      kind_congr htu (fun k => decide (k = .semicolon)) fun _ _ => rfl⟩
  rw [hend.1, hend.2]
  split
  · exact .unexpected
  · refine .branch .skipKeyword (.eachSeparated agrees_skipXmlOption) (.unsupportedNamed ?_)
    rw [View.name_append, View.name_append, C.text htu]

/-! ## Whole statements -/

theorem agrees_endOfStatement : C.Agrees Whatever endOfStatement endOfStatement := by
  have hoperator : C.Agrees Eq (look setOperator?) (look setOperator?) :=
    .look fun _ _ hc => congrArg (Option.filter _) hc.keyword?_eq
  refine hoperator.bind_eq fun k? => ?_
  cases k? with
  | some k => exact .unsupported
  | none => exact Agrees.skip.bind_eq fun _ => .branch .check (.pure trivial) .unexpected

theorem agrees_clauses (d : Dialect) : C.Agrees Whatever (clauses d rule) (clauses d rule') := by
  cases d with
  | generic =>
    refine (agrees_distinct _).andThen fun _ _ => (agrees_selectList _).andThen fun _ _ => ?_
    refine (agrees_fromClause _).andThen fun _ _ => agrees_whereClause.andThen fun _ _ => ?_
    exact (agrees_groupBy _).andThen fun _ _ => agrees_havingClause.andThen fun _ _ => agrees_orderBy _
  | oracle =>
    refine (agrees_distinct _).andThen fun _ _ => (agrees_selectList _).andThen fun _ _ => ?_
    refine (agrees_fromClause _).andThen fun _ _ => agrees_whereClause.andThen fun _ _ => ?_
    refine agrees_skipHierarchy.andThen fun _ _ => (agrees_groupBy _).andThen fun _ _ => ?_
    refine agrees_havingClause.andThen fun _ _ => agrees_skipModel.andThen fun _ _ => ?_
    exact (agrees_orderBy _).andThen fun _ _ => agrees_skipForUpdate
  | sqlServer =>
    refine (agrees_distinct _).andThen fun _ _ => agrees_topClause.andThen fun _ _ => ?_
    refine (agrees_selectList _).andThen fun _ _ => (agrees_fromClause _).andThen fun _ _ => ?_
    refine agrees_whereClause.andThen fun _ _ => (agrees_groupBy _).andThen fun _ _ => ?_
    refine agrees_havingClause.andThen fun _ _ => (agrees_orderBy _).andThen fun _ _ => ?_
    exact agrees_offsetFetch.andThen fun _ _ => agrees_skipForOutput

theorem agrees_select (d : Dialect) : C.Agrees Whatever (select d rule) (select d rule') :=
  Agrees.expectKeyword.andThen fun _ _ => (agrees_clauses d).andThen fun _ _ => agrees_endOfStatement

/-- The outcomes of two texts: statements that are alike, or errors that are alike. -/
inductive Outcomes (C : Likeness rule rule') : Except ParseError Statement → Except ParseError Statement → Prop where
  | ok {s s' : Statement} (statement : C.Statements s s') : Outcomes C (.ok s) (.ok s')
  | error {e e' : ParseError} (error : C.Errors e e') : Outcomes C (.error e) (.error e')

/-- **Texts whose tokens are alike have outcomes that are alike**, in every dialect. -/
theorem parse_alike (C : Likeness rule rule') (d : Dialect) {a b : String}
    (h : List.Forall₂ C.token (Token.lex a) (Token.lex b)) :
    C.Outcomes (Statement.parse d rule a) (Statement.parse d rule' b) := by
  have hempty : C.Statements .empty .empty :=
    ⟨rfl, rfl, rfl, rfl, rfl, rfl, rfl, rfl, rfl, C.noEdits, C.noConditions⟩
  rw [← State.tokens_ofSource, ← State.tokens_ofSource] at h
  have hselect := agrees_select (C := C) d (.ofSource a) (.ofSource b) ⟨h, hempty, rfl⟩
  unfold Statement.parse
  generalize select d rule (.ofSource a) = r, select d rule' (.ofSource b) = r' at hselect
  cases hselect with
  | ok _ state => exact .ok state.statement
  | error error => exact .error error

end

end Grammar.Likeness

end SelectRouting
