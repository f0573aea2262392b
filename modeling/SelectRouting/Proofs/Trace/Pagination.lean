import SelectRouting.Grammar.Pagination
import SelectRouting.Proofs.Trace.Expression
/-!
# The leaves of a pagination

A row count or an offset is a single leaf when it is a parameter and none when it is a number (`traced_topClause`,
`fills_offsetFetch`).  The edit of a number is recorded only when all that belongs to it has been passed, so the
number, the tokens behind it and the edit are one event (`outcome_literal`).
-/
namespace SelectRouting.Grammar

section
variable {d : Dialect} {rule : Rule} {m : Mode} {s s' : State} {α β : Type}

/-! ## Numbers -/

theorem fail_bind (cause : ParseError.Cause) (span : Span) (f : α → Parser β) :
    fail cause span >>= f = fail cause span :=
  rfl

/-- A number with an edit, where the edit is recorded behind what only passes tokens. -/
theorem outcome_literal {n : Nat} {edit : Nat → Nat → Edit} {q : Parser β} {rest : β → Parser α}
    {T : β → List Event → State → Prop} {Q : α → List Event → State → Prop} (hs : Token.Complete s.cursor.tokens)
    (hk : s.cursor.kind = .integer n) (hedit : edit = .rowCount ∨ edit = .offset)
    (hq : Traced d rule .passing s.advanced q T)
    (hrest : ∀ b us s', (∃ es s'', T b es s'' ∧ s''.statement = s.statement) →
      s'.statement = s.statement.addEdit (edit s.cursor.span.start n) → Traced d rule .storing s' (rest b)
        fun a es s'' => Q a (.limit (edit s.cursor.span.start n) s.cursor.current us :: es) s'') :
    Outcome d rule .storing s
      ((q >>= fun b => recordLimit edit (.literal n) s.cursor.span >>= fun _ => rest b) s.advanced) Q := by
  have hpass : Run rule s [.pass s.cursor.current] s.advanced := .single (.pass hs (hk ▸ nofun))
  have hallowed : (Event.pass s.cursor.current).Allowed d .storing := by
    show s.cursor.kind ≠ .question
    rw [hk]
    exact nofun
  have hq := hq (hpass.complete hs)
  rw [bind_apply]
  cases hr : q s.advanced with
  | error e s' =>
    rw [hr] at hq
    obtain ⟨es, hrun, hall⟩ := hq
    refine ⟨_, hpass.append hrun, List.forall_mem_cons.2 ⟨hallowed, fun ev hev => ?_⟩⟩
    obtain ⟨t, rfl, ht⟩ := (hall ev hev).exists_pass
    exact ht
  | ok b s' =>
    rw [hr] at hq
    obtain ⟨es, hrun, hall, -, hT⟩ := hq
    have hstatement : s'.statement = s.statement := hrun.statement_eq fun ev hev => by
      obtain ⟨t, ht, -⟩ := (hall ev hev).exists_pass
      exact ⟨t, ht⟩
    -- The state behind the record, which is the one that the rest starts from.
    let s'' : State := { s' with statement := s'.statement.addEdit (edit s.cursor.span.start n) }
    have hstep : Step rule s (.limit (edit s.cursor.span.start n) s.cursor.current (Event.passed es)) s'' := by
      refine .of_edits ((hpass.append hrun).tokens_eq) ⟨n, hk, ?_⟩ rfl ?_
      · rcases hedit with rfl | rfl
        · exact .inl rfl
        · exact .inr rfl
      · show s'.statement.addEdit _ = s.statement.addEdit _
        rw [hstatement]
    have hus : ∀ u ∈ Event.passed es, u.kind ≠ .question := fun u hu => by
      obtain ⟨ev, hev, hu⟩ := List.mem_flatMap.1 hu
      obtain ⟨t, rfl, ht⟩ := (hall ev hev).exists_pass
      rw [List.mem_singleton.1 hu]
      exact ht
    have hrecorded : s''.statement = s.statement.addEdit (edit s.cursor.span.start n) :=
      congrArg (Statement.addEdit · _) hstatement
    show Outcome d rule .storing s (rest b s'') Q
    exact Traced.step hstep hus trivial (hrest b _ s'' ⟨es, s', hT, hstatement⟩ hrecorded) hs

/-- A number or a parameter with all that follows it. -/
theorem outcome_limitValue_bind {f : Limit.Value × Span → Parser α} {Q : α → List Event → State → Prop}
    (hs : Token.Complete s.cursor.tokens)
    (hliteral : ∀ n : Nat, s.cursor.kind = .integer n →
      Outcome d rule .storing s (f (.literal n, s.cursor.span) s.advanced) Q)
    (hparameter : ∀ s', s'.statement.clauses = s.statement.clauses →
      Traced d rule .storing s' (f (.parameter s.statement.parameters, s.cursor.span)) fun a es =>
        Q a (.parameter (.bound s.statement.parameters) s.cursor.current :: es)) :
    Outcome d rule .storing s ((limitValue >>= f) s) Q := by
  unfold limitValue
  rw [bind_assoc]
  revert hs
  refine Traced.look_bind ?_
  split
  · next n hk =>
    intro hs
    unfold literalLimit
    by_cases hn : n < 0
    · rw [if_pos hn, fail_bind]
      exact Traced.fail hs
    · obtain ⟨k, rfl⟩ := Int.eq_ofNat_of_zero_le (Int.not_lt.1 hn)
      rw [if_neg hn]
      exact hliteral k hk
  · next hk =>
    intro hs
    have hstep : Step rule s (.parameter (.bound s.statement.parameters) s.cursor.current) _ :=
      .parameter hs hk (.inr rfl)
    show Outcome d rule .storing s (f (.parameter s.statement.parameters, s.cursor.span)
      { s.advanced with statement := s.statement.claimParameter }) Q
    exact Traced.step hstep trivial trivial (hparameter _ rfl) hs
  · exact Traced.unexpected_bind

theorem traced_limitValue : Traced d rule .storing s limitValue fun _ _ _ => True := by
  have hbind : Traced d rule .storing s (limitValue >>= Pure.pure) fun _ _ _ => True := by
    refine fun hs => outcome_limitValue_bind hs (fun n hk => ?_) fun s' _ => .pure trivial
    refine .single (.pass hs (hk ▸ nofun)) ?_ trivial trivial
    show s.cursor.kind ≠ .question
    rw [hk]
    exact nofun
  rwa [bind_pure] at hbind

/-! ## TOP -/

/-- What has to be passed behind the value of `TOP` before its edit is recorded. -/
def behindTop : Parser Unit := do
  if ← checkKeyword .percent then unsupported "TOP ... PERCENT" else skipTies

theorem silent_behindTop : Silent d rule m behindTop := by
  refine .branch silent_look .unsupported (.branch silent_skipKeyword ?_ (.pure rfl))
  exact .silent_bind silent_expectKeyword fun _ => .pure rfl

theorem percent_bind (x : Parser Unit) : (checkKeyword .percent >>= fun b =>
    if b then unsupported "TOP ... PERCENT" else skipTies >>= fun _ => x) = behindTop >>= fun _ => x := by
  unfold behindTop
  rw [bind_assoc]
  refine bind_congr fun b => ?_
  cases b <;> rfl

/-- Puts a row count into the statement. -/
def storeTop (v : Limit.Value × Span) : Parser Unit := do
  recordLimit .rowCount v.1 v.2
  modifyStatement (storeRowCount v.1)

theorem stores_storeRowCount (v : Limit.Value) : Stores (storeRowCount v) :=
  ⟨fun _ => rfl, fun _ => rfl, fun _ => rfl⟩

/-- A value of `TOP` with its rest. -/
theorem traced_storeTop {q : Parser Unit} (hq : ∀ m, Silent d rule m q) :
    Traced d rule .storing s (limitValue >>= fun v => q >>= fun _ => storeTop v) fun _ es s' =>
      ∃ v : Limit.Value, Event.leaves es = v.leaves ∧ s'.statement.clauses = storeRowCount v s.statement.clauses := by
  refine fun hs => outcome_limitValue_bind hs (fun n hk => ?_) fun s' hc => ?_
  · refine outcome_literal hs hk (.inl rfl) (hq .passing _) fun _ us s' _ hst => ?_
    refine (Traced.modifyStatement (stores_storeRowCount (.literal n))).mono fun _ es s'' h => ⟨.literal n, h.1, ?_⟩
    rw [h.2, hst]
    rfl
  · refine (hq .reading s').storing.bind fun _ es s'' h => ?_
    refine (Traced.modifyStatement (stores_storeRowCount (.parameter s.statement.parameters))).mono
      fun _ es' _ h' => ⟨.parameter s.statement.parameters, ?_, ?_⟩
    · rw [Event.leaves_cons, Event.leaves_append, h'.1, List.append_nil]
      exact congrArg _ h.1
    · rw [h'.2, h.2, hc]

theorem traced_topClause : Traced d rule .storing s topClause fun _ es s' =>
    (s.cursor.kind ≠ .keyword .top ∧ Event.leaves es = [] ∧ s'.statement.clauses = s.statement.clauses) ∨
    (s.cursor.kind = .keyword .top ∧ ∃ v : Limit.Value, Event.leaves es = v.leaves ∧
      s'.statement.clauses = storeRowCount v s.statement.clauses) := by
  refine .skipKeyword_bind (fun hk => ?_) fun hk => .pure (.inl ⟨hk, rfl, rfl⟩)
  have hvalue : (topValue >>= fun v => checkKeyword .percent >>= fun b =>
      if b then unsupported "TOP ... PERCENT"
      else skipTies >>= fun _ => storeTop v) = skip .leftParen >>= fun b =>
        if b then limitValue >>= fun v => (expect .rightParen >>= fun _ => behindTop) >>= fun _ => storeTop v
        else limitValue >>= fun v => behindTop >>= fun _ => storeTop v := by
    simp only [percent_bind]
    unfold topValue
    rw [bind_assoc]
    refine bind_congr fun b => ?_
    cases b with
    | true => simp only [if_true, bind_assoc, pure_bind]
    | false => rfl
  refine Traced.mono (Q := fun _ es s' => ∃ v : Limit.Value, Event.leaves es = v.leaves ∧
    s'.statement.clauses = storeRowCount v s.statement.clauses) ?_ fun _ _ _ h => .inr ⟨hk, h⟩
  show Traced d rule .storing s.advanced (topValue >>= fun v => checkKeyword .percent >>= fun b =>
      if b then unsupported "TOP ... PERCENT" else skipTies >>= fun _ => storeTop v) _
  rw [hvalue]
  refine .skip_bind ⟨nofun, nofun⟩ (fun _ => ?_) (traced_storeTop fun _ => silent_behindTop)
  exact traced_storeTop fun _ => .silent_bind (silent_expect ⟨nofun, nofun⟩) fun _ => silent_behindTop

/-! ## OFFSET and FETCH -/

theorem silent_expectRows : Silent d rule m expectRows :=
  .branch silent_skipAny (.pure rfl) .unexpected

/-- What has to be passed behind the value of `FETCH` before its edit is recorded. -/
def behindFetch (span : Span) : Parser Unit := do
  expectRows
  let _ ← expectKeyword .only
  if ← inspect (·.statement.hasRowCount) then fail (.invalid "Row count specified by both TOP and FETCH") span

theorem recordFetch_eq (v : Limit.Value) (span : Span) : recordFetch v span =
    (inspect (·.statement.hasRowCount) >>= fun b =>
      if b then fail (.invalid "Row count specified by both TOP and FETCH") span else pure ()) >>= fun _ =>
        recordLimit .rowCount v span := by
  unfold recordFetch
  rw [bind_assoc]
  refine bind_congr fun b => ?_
  cases b <;> rfl

theorem traced_behindFetch {span : Span} : Traced d rule m s (behindFetch span) fun _ es s' =>
    Event.leaves es = [] ∧ s'.statement.hasRowCount = false := by
  refine Traced.bind (silent_expectRows s) fun _ es s' hes => .expectKeyword_bind fun _ => .inspect_bind ?_
  split
  · exact .fail
  · next hno => exact .pure ⟨by simpa [Event.leaf?] using hes, Bool.eq_false_iff.2 hno⟩

/-- The value of a `FETCH` with its rest. -/
def fetchValue (v : Limit.Value × Span) : Parser (Option Limit.Value) := do
  behindFetch v.2
  recordLimit .rowCount v.1 v.2
  return some v.1

theorem fetchClause_eq : fetchClause = skipKeyword .fetch >>= fun b =>
    if b then skipAny [.first, .next] >>= fun b =>
      if b then limitValue >>= fetchValue else unexpected "FIRST or NEXT"
    else pure none := by
  have hvalue : ∀ v : Limit.Value × Span, (expectRows >>= fun _ => expectKeyword .only >>= fun _ =>
      recordFetch v.1 v.2 >>= fun _ => pure (some v.1)) = fetchValue v := by
    intro v
    unfold fetchValue behindFetch
    simp only [recordFetch_eq, bind_assoc]
  unfold fetchClause
  simp only [hvalue]

theorem traced_fetchClause : Traced d rule .storing s fetchClause fun v es s' =>
    Event.leaves es = v.toList.flatMap Limit.Value.leaves ∧ s'.statement.clauses = s.statement.clauses ∧
      (v.isSome → s.statement.hasRowCount = false) := by
  rw [fetchClause_eq]
  refine .skipKeyword_bind (fun _ => .skipAny_bind (fun _ hs => ?_) fun _ => .unexpected) fun _ => ?_
  · refine outcome_limitValue_bind hs (fun n hk => ?_) fun s' hc => ?_
    · refine outcome_literal hs hk (.inl rfl) traced_behindFetch fun _ us s' ⟨es, s'', h, hst'⟩ hst => .pure ?_
      rw [hst'] at h
      exact ⟨rfl, by rw [hst]; rfl, fun _ => h.2⟩
    · refine (traced_behindFetch (s := s')).storing.bind fun _ es s'' h => .pure ⟨?_, h.2.trans hc, fun _ => ?_⟩
      · rw [List.append_nil]
        exact congrArg (_ :: ·) h.1.1
      · have hcount : s''.statement.clauses.hasRowCount = false := h.1.2
        rw [h.2, hc] at hcount
        exact hcount
  · exact .pure ⟨rfl, rfl, nofun⟩

theorem stores_mergeLimit (l : Limit) : Stores (·.mergeLimit true l) :=
  ⟨fun _ => rfl, fun _ => rfl, fun _ => rfl⟩

/-- What stands behind the rows of an offset. -/
def storeOffset (v : Limit.Value × Span) : Parser Unit := do
  let rowCount ← fetchClause
  modifyStatement (·.mergeLimit true ⟨some v.1, rowCount, true⟩)

theorem traced_storeOffset (v : Limit.Value × Span) : Traced d rule .storing s (storeOffset v) fun _ es s' =>
    ∃ w : Option Limit.Value, Event.leaves es = w.toList.flatMap Limit.Value.leaves ∧
      (w.isSome → s.statement.hasRowCount = false) ∧
      s'.statement.clauses = s.statement.clauses.mergeLimit true ⟨some v.1, w, true⟩ := by
  refine traced_fetchClause.bind fun w es s' ⟨hes, hc, hcount⟩ =>
    (Traced.modifyStatement (stores_mergeLimit ⟨some v.1, w, true⟩)).mono fun _ es' _ ⟨hes', hc'⟩ => ?_
  refine ⟨w, ?_, hcount, by rw [hc', hc]⟩
  rw [Event.leaves_append, hes, hes', List.append_nil]

/-- An offset with the row count behind it; there is none if `TOP` has set one. -/
theorem fills_offsetFetch : Fills d rule offsetFetch fun c c' ls => (c' = c ∧ ls = []) ∨
    ∃ (v : Limit.Value) (w : Option Limit.Value), ls = v.leaves ++ w.toList.flatMap Limit.Value.leaves ∧
      (w.isSome → c.hasRowCount = false) ∧ c' = c.mergeLimit true ⟨some v, w, true⟩ := by
  refine fun s => .skipKeyword_bind (fun _ hs => ?_) fun _ => .pure (.inl ⟨rfl, rfl⟩)
  show Outcome d rule .storing s.advanced ((limitValue >>= fun v => expectRows >>= fun _ =>
    recordLimit .offset v.1 v.2 >>= fun _ => storeOffset v) s.advanced) _
  refine outcome_limitValue_bind hs (fun n hk => ?_) fun s' hc => ?_
  · refine outcome_literal hs hk (.inr rfl) (silent_expectRows _) fun _ us s' _ hst => ?_
    refine (traced_storeOffset _).mono fun _ es s'' ⟨w, hes, hcount, hc⟩ => .inr ⟨.literal n, w, hes, ?_, ?_⟩
    · rw [hst] at hcount
      exact hcount
    · rw [hc, hst]
      rfl
  · refine (silent_expectRows s').storing.bind fun _ es s'' ⟨hes, hc'⟩ => ?_
    refine (traced_storeOffset _).mono fun _ es' s''' ⟨w, hes', hcount, hc''⟩ => ?_
    refine .inr ⟨.parameter s.advanced.statement.parameters, w, ?_, fun hw => ?_, by rw [hc'', hc', hc]; rfl⟩
    · rw [Event.leaves_cons, Event.leaves_cons, Event.leaves_append, hes']
      exact congrArg (_ :: · ++ _) hes
    · have hcount : s''.statement.clauses.hasRowCount = false := hcount hw
      rw [hc', hc] at hcount
      exact hcount

end

end SelectRouting.Grammar
