import SelectRouting.Grammar.Expression
import SelectRouting.Proofs.Trace.Reading
/-!
# The leaves that an expression reads

An expression reads its own leaves, in the order of its nodes (`reads_expression`).  The proofs follow the grammar:
one lemma for each form of operand and of operator over any parser of inner expressions, and an induction on the depth
for the knot.
-/
namespace SelectRouting.Grammar

section
variable {d : Dialect} {rule : Rule} {s s' : State} {α : Type}

/-! ## Steps that leave a mark -/

theorem foldl_addEdit (es : List Edit) (st : Statement) :
    (es.foldl Statement.addEdit st).parameters = st.parameters ∧ (es.foldl Statement.addEdit st).clauses = st.clauses ∧
      (es.foldl Statement.addEdit st).edits = es.foldl (fun xs e => e.insert xs) st.edits := by
  induction es generalizing st with
  | nil => exact ⟨rfl, rfl, rfl⟩
  | cons e es ih => exact ih (st.addEdit e)

/-- A step that only records edits. -/
theorem Step.of_edits {ev : Event} (ht : s.cursor.tokens = ev.tokens ++ s'.cursor.tokens) (hsound : ev.Sound)
    (hordinals : ev.ordinals = []) (hs : s'.statement = (ev.edits rule).foldl Statement.addEdit s.statement) :
    Step rule s ev s' := by
  obtain ⟨hp, hc, he⟩ := foldl_addEdit (ev.edits rule) s.statement
  rw [← hs] at hp hc he
  exact
    { tokens := ht
      sound := hsound
      ordinals := by rw [hordinals]; rfl
      parameters := by rw [hp, hordinals]; rfl
      edits := he
      clauses := .inr hc }

theorem Step.name {l : Leaf} {ts : List Token} (ht : s.cursor.tokens = ts ++ s'.cursor.tokens) (hl : l.SpelledBy ts)
    (hs : s'.statement = ((l.tableToken? ts).bind (Token.tableEdit? rule)).toList.foldl Statement.addEdit s.statement) :
    Step rule s (.name l ts) s' := by
  refine .of_edits ht hl ?_ hs
  exact congrArg Option.toList hl.ordinal?_eq_none

theorem Step.parameter {l : Leaf} (hs : Token.Complete s.cursor.tokens) (hk : s.cursor.kind = .question)
    (hl : l = .placeholder s.statement.parameters s.cursor.span ∨ l = .bound s.statement.parameters) :
    Step rule s (.parameter l s.cursor.current) { s.advanced with statement := s.statement.claimParameter } := by
  have hordinals : (Event.parameter l s.cursor.current).ordinals = [s.statement.parameters] := by
    rcases hl with rfl | rfl <;> rfl
  exact
    { tokens := Cursor.tokens_advance hs (hk ▸ nofun)
      sound := ⟨hk, _, hl⟩
      ordinals := by rw [hordinals]; rfl
      parameters := by rw [hordinals]; rfl
      edits := rfl
      clauses := .inr rfl }

/-! ## Names -/

/-- The state behind the record of a table's edit. -/
def State.recorded (rule : Rule) (t : Token) (s : State) : State :=
  { s with statement := (t.tableEdit? rule).toList.foldl Statement.addEdit s.statement }

theorem recordTable_bind_apply {t : Token} {name : String} (h : t.name? = some name) (f : Unit → Parser α) (s : State) :
    (recordTable rule name t >>= f) s = f () (s.recorded rule t) := by
  unfold recordTable State.recorded Token.tableEdit?
  rw [h]
  by_cases hc : rule.containsTable name = true
  · rw [if_pos hc, if_pos (by exact hc)]
    rfl
  · rw [if_neg hc, if_neg (by exact hc)]
    rfl

theorem skip_bind_apply (k : Token.Kind) (f : Bool → Parser α) (s : State) :
    (skip k >>= f) s = if s.cursor.kind.alike k then f true s.advanced else f false s := by
  unfold skip
  rw [skipWhen_bind]
  show (if s.cursor.kind.alike k then advance >>= fun _ => f true else f false : Parser α) s = _
  cases s.cursor.kind.alike k <;> rfl

/-- Behind an owner and its point there is a star, a column, or an error that leaves the owner's edit behind. -/
theorem outcome_qualified {o dot : Token} {owner : String} (ho : o.name? = some owner) (hdot : dot.kind = .dot)
    (hs : Token.Complete s'.cursor.tokens) (ht : s.cursor.tokens = o :: dot :: s'.cursor.tokens)
    (hst : s'.statement = s.statement) :
    Outcome d rule .reading s (qualified rule owner o s') fun e es _ => Event.leaves es = e.leaves := by
  have hrecorded : (s'.recorded rule o).statement =
      (o.tableEdit? rule).toList.foldl Statement.addEdit s.statement := by
    rw [State.recorded, hst]
  unfold qualified
  rw [recordTable_bind_apply ho, skip_bind_apply]
  by_cases hstar : (s'.recorded rule o).cursor.kind.alike .star = true
  · have hk : s'.cursor.kind = .star := Token.Kind.eq_of_alike hstar trivial
    have hstep : Step rule s (.name (.star (some owner)) [o, dot, s'.cursor.current]) (s'.recorded rule o).advanced :=
      .name (by rw [ht, Cursor.tokens_advance hs (hk ▸ nofun)]; rfl) ⟨ho, hdot, hk⟩ hrecorded
    rw [if_pos hstar]
    exact .single hstep trivial trivial (Expr.leaves_wildcard _).symm
  · rw [if_neg hstar]
    show Outcome d rule .reading s ((expectName >>= fun column =>
      pure (.column (some owner) column ⟨o.span.start, s'.cursor.span.stop⟩) : Parser Expr) (s'.recorded rule o)) _
    rw [bind_apply]
    cases hn : (s'.recorded rule o).cursor.name? with
    | none =>
      -- The edit is recorded before the name is demanded, and stays when there is none.
      have hstep : Step rule s (.owner o dot) (s'.recorded rule o) :=
        .of_edits ht ⟨by rw [ho]; rfl, hdot⟩ rfl hrecorded
      rw [expectName_of_none hn]
      exact ⟨_, .single hstep, List.forall_mem_singleton.2 trivial⟩
    | some column =>
      have hstep : Step rule s (.name (.column (some owner) column ⟨o.span.start, s'.cursor.span.stop⟩)
          [o, dot, s'.cursor.current]) (s'.recorded rule o).advanced :=
        .name (by rw [ht, Cursor.tokens_advance hs (Cursor.ordinary_of_name? hn).2]; rfl) ⟨ho, hdot, hn, rfl⟩ hrecorded
      rw [expectName_of_some hn]
      exact .single hstep trivial trivial (Expr.leaves_column ..).symm

/-- A parser of inner expressions reads their leaves. -/
def ReadsInner (d : Dialect) (rule : Rule) (inner : Inner) : Prop :=
  ∀ strength, Reads d rule .reading [] (inner strength) Expr.leaves

/-- A star is passed as a leaf. -/
theorem Traced.star {p : Parser α} {Q : α → List Event → State → Prop} (hk : s.cursor.kind = .star)
    (h : Traced d rule .reading s.advanced p fun a es => Q a (.name (.star none) [s.cursor.current] :: es))
    (hs : Token.Complete s.cursor.tokens) : Outcome d rule .reading s (p s.advanced) Q := by
  have hstep : Step rule s (.name (.star none) [s.cursor.current]) s.advanced :=
    .name (Cursor.tokens_advance hs (hk ▸ nofun)) hk rfl
  exact Traced.step hstep trivial trivial h hs

section
variable {inner : Inner} (hinner : ReadsInner d rule inner)
include hinner

/-! ## Operands -/

theorem reads_arguments : Reads d rule .reading [] (arguments inner) (·.flatMap Expr.leaves) := by
  refine .branch silent_look (.pure rfl) fun s hs => ?_
  rw [skip_bind_apply]
  by_cases hstar : s.cursor.kind.alike .star = true
  · rw [if_pos hstar]
    exact Traced.star (Token.Kind.eq_of_alike hstar trivial) (.pure (by simp [Event.leaf?])) hs
  · rw [if_neg hstar]
    exact (hinner 0).commaSeparated s hs

theorem reads_call (name : String) : Reads d rule .reading [] (call inner name) Expr.leaves := by
  refine .silent_bind (silent_expect ⟨nofun, nofun⟩) fun _ => .silent_bind silent_skipKeyword fun distinct => ?_
  refine (reads_arguments hinner).andThen fun args => .silent_bind (silent_expect ⟨nofun, nofun⟩) fun _ => .pure ?_
  simp

theorem reads_branches (rounds : Nat) : Reads d rule .reading [] (branches inner rounds)
    (·.flatMap fun b => b.1.leaves ++ b.2.leaves) := by
  induction rounds with
  | zero => exact .pure rfl
  | succ rounds ih =>
    refine .branch silent_skipKeyword ?_ (.pure rfl)
    refine (hinner 0).andThen fun condition => .silent_bind silent_expectKeyword fun _ => ?_
    refine (hinner 0).andThen fun value => ih.andThen fun bs => .pure ?_
    simp

theorem reads_optional (k : Keyword) :
    Reads d rule .reading [] (optional k inner) (·.toList.flatMap Expr.leaves) := by
  refine .branch silent_skipKeyword ((hinner 0).andThen fun e => .pure ?_) (.pure rfl)
  simp

theorem reads_caseOperand : Reads d rule .reading [] (caseOperand inner) (·.toList.flatMap Expr.leaves) := by
  refine .branch silent_look (.pure rfl) ((hinner 0).andThen fun e => .pure ?_)
  simp

theorem reads_case : Reads d rule .reading [] (caseExpression inner) Expr.leaves := by
  refine .silent_bind silent_expectKeyword fun _ => (reads_caseOperand hinner).andThen fun operand => ?_
  refine .look_bind fun n => (reads_branches hinner n).andThen fun whens => ?_
  by_cases hw : whens.isEmpty = true
  · rw [if_pos hw]
    exact .unexpected
  · rw [if_neg hw]
    refine (reads_optional hinner .else).andThen fun otherwise => .silent_bind silent_expectKeyword fun _ => .pure ?_
    simp

theorem reads_named : Reads d rule .reading [] (named rule inner) Expr.leaves := by
  intro s hs
  show Outcome d rule .reading s ((expectName >>= fun name => check .leftParen >>= fun b =>
    if b then call inner name
    else skip .dot >>= fun b =>
      if b then qualified rule name s.cursor.current else pure (.column none name s.cursor.span)) s) _
  rw [bind_apply]
  cases hn : s.cursor.name? with
  | none =>
    rw [expectName_of_none hn]
    exact Traced.unexpected (α := Expr) hs
  | some name =>
    have hk := Cursor.ordinary_of_name? hn
    have hadvance := Cursor.tokens_advance hs hk.2
    have hs' : Token.Complete s.advanced.cursor.tokens := Cursor.complete_advance hs
    rw [expectName_of_some hn]
    show Outcome d rule .reading s ((if s.advanced.cursor.kind.alike .leftParen then call inner name
      else skip .dot >>= fun b =>
        if b then qualified rule name s.cursor.current else pure (.column none name s.cursor.span)) s.advanced) _
    by_cases hcall : s.advanced.cursor.kind.alike .leftParen = true
    · rw [if_pos hcall]
      exact Traced.step (.pass hs hk.2) (Event.allowed_pass hk.1) trivial (reads_call hinner name s.advanced) hs
    · rw [if_neg hcall, skip_bind_apply]
      by_cases hdot : s.advanced.cursor.kind.alike .dot = true
      · have hdot' : s.advanced.cursor.kind = .dot := Token.Kind.eq_of_alike hdot trivial
        have hadvance' := Cursor.tokens_advance hs' (hdot' ▸ nofun)
        rw [if_pos hdot]
        exact outcome_qualified hn hdot' (Cursor.complete_advance hs') (hadvance.trans (congrArg _ hadvance')) rfl
      · have hstep : Step rule s (.name (.column none name s.cursor.span) [s.cursor.current]) s.advanced :=
          .name hadvance ⟨hn, rfl⟩ rfl
        rw [if_neg hdot]
        exact .single hstep trivial trivial (Expr.leaves_column ..).symm

end

theorem readsAt_parameter (hk : s.cursor.kind = .question) :
    ReadsAt d rule .reading s [] (parameter s.cursor.span) Expr.leaves := by
  intro hs
  exact .single (.parameter hs hk (.inl rfl)) trivial trivial (Expr.leaves_placeholder ..).symm

theorem readsAt_constant {value : Literal} (hk : s.cursor.kind.Ordinary) :
    ReadsAt d rule .reading s [] (constant value) Expr.leaves :=
  .advance_bind hk (.pure (Expr.leaves_literal value).symm)

theorem silent_skipPrior : Silent d rule .reading skipPrior := by
  refine fun s => .inspect_bind ?_
  split
  · exact silent_skipKeyword s
  · exact .pure rfl

theorem ordinary_of_prefixed? {k : Token.Kind} {op : UnaryOp} (h : prefixed? k = some op) : k.Ordinary := by
  unfold prefixed? at h
  split at h <;> cases h <;> exact ⟨nofun, nofun⟩

theorem ordinary_of_ofKind? {k : Token.Kind} {i : Infix} (h : Infix.ofKind? k = some i) : k.Ordinary := by
  unfold Infix.ofKind? at h
  split at h <;> cases h <;> exact ⟨nofun, nofun⟩

section
variable {inner : Inner} (hinner : ReadsInner d rule inner)
include hinner

theorem readsAt_parenthesized (hk : s.cursor.kind.Ordinary) :
    ReadsAt d rule .reading s [] (parenthesized inner) Expr.leaves := by
  refine .look_bind ?_
  split
  · exact .unsupported
  · refine ReadsAt.advance_bind hk ((hinner 0).andThen fun e => ?_)
    refine .silent_bind (silent_expect ⟨nofun, nofun⟩) fun _ => .pure ?_
    simp

theorem readsAt_aggregate {k : Keyword} (hk : s.cursor.kind.Ordinary) :
    ReadsAt d rule .reading s [] (aggregate inner k) Expr.leaves :=
  .advance_bind hk (reads_call hinner k.text)

theorem reads_primary : Reads d rule .reading [] (primary rule inner) Expr.leaves := by
  intro s
  refine .look_bind ?_
  split
  case h_1 hk | h_2 hk | h_3 hk | h_4 hk | h_5 hk | h_6 hk =>
    exact readsAt_constant (.of_eq hk ⟨nofun, nofun⟩)
  case h_7 hk => exact readsAt_parameter hk
  case h_8 hk => exact fun hs => Traced.star hk (.pure (Expr.leaves_wildcard none).symm) hs
  case h_9 hk => exact readsAt_parenthesized hinner (.of_eq hk ⟨nofun, nofun⟩)
  case h_10 => exact .unsupported
  case h_11 hk | h_12 hk | h_13 hk | h_14 hk | h_15 hk =>
    exact readsAt_aggregate hinner (.of_eq hk ⟨nofun, nofun⟩)
  case h_16 => exact reads_case hinner s
  case h_17 =>
    refine .look_bind ?_
    split
    · exact reads_named hinner s
    · exact .unexpected

theorem reads_operand : Reads d rule .reading [] (operand rule inner) Expr.leaves := by
  refine .branch silent_skipPrior (hinner _) fun s => .look_bind ?_
  split
  · next op hop =>
    refine ReadsAt.advance_bind (ordinary_of_prefixed? hop) ((hinner _).andThen fun e => .pure ?_)
    simp
  · exact reads_primary hinner s

/-! ## What follows an operand -/

theorem reads_membership (tested : Expr) (negated : Bool) :
    Reads d rule .reading tested.leaves (membership inner tested negated) Expr.leaves := by
  refine .silent_bind silent_expectKeyword fun _ => .branch silent_look .unsupported ?_
  refine .silent_bind (silent_expect ⟨nofun, nofun⟩) fun _ => (hinner 0).commaSeparated.andThen fun members => ?_
  refine .silent_bind (silent_expect ⟨nofun, nofun⟩) fun _ => .pure ?_
  simp

theorem reads_range (tested : Expr) (negated : Bool) :
    Reads d rule .reading tested.leaves (range inner tested negated) Expr.leaves := by
  refine .silent_bind silent_expectKeyword fun _ => (hinner _).andThen fun low => ?_
  refine .silent_bind silent_expectKeyword fun _ => (hinner _).andThen fun high => .pure ?_
  simp

omit hinner in
theorem readsAt_nullTest (tested : Expr) (hk : s.cursor.kind.Ordinary) :
    ReadsAt d rule .reading s tested.leaves (nullTest tested) Expr.leaves := by
  refine .advance_bind hk (.silent_bind silent_skipKeyword fun negated => ?_)
  refine .silent_bind silent_expectKeyword fun _ => .pure ?_
  simp

theorem readsAt_binary {op : BinaryOp} {left : Expr} (hk : s.cursor.kind.Ordinary) :
    ReadsAt d rule .reading s left.leaves (binary inner op left) Expr.leaves := by
  refine .advance_bind hk ((hinner _).andThen fun right => .pure ?_)
  simp

theorem readsAt_negatedTest (tested : Expr) (hk : s.cursor.kind.Ordinary) :
    ReadsAt d rule .reading s tested.leaves (negatedTest inner tested) Expr.leaves := by
  refine .advance_bind hk fun s' => .look_bind ?_
  split
  · exact reads_membership hinner tested true s'
  · exact reads_range hinner tested true s'
  · next hlike =>
    have hk' : s'.cursor.kind.Ordinary :=
      .of_eq (Cursor.kind_of_atKeyword (decide_eq_true hlike)) (Token.Kind.ordinary_keyword .like)
    refine Traced.bind (readsAt_binary hinner hk') fun e es _ hes => .pure ?_
    rw [List.append_nil, hes, Expr.leaves_unary]
  · exact .unexpected

theorem readsAt_extend {left : Expr} {i : Infix} (hk : s.cursor.kind.Ordinary) :
    ReadsAt d rule .reading s left.leaves (extend inner left i) Expr.leaves := by
  cases i with
  | operator op => exact readsAt_binary hinner hk
  | is => exact readsAt_nullTest left hk
  | within => exact reads_membership hinner left false s
  | between => exact reads_range hinner left false s
  | not => exact readsAt_negatedTest hinner left hk

theorem reads_operators (strength rounds : Nat) (left : Expr) :
    Reads d rule .reading left.leaves (operators inner strength rounds left) Expr.leaves := by
  induction rounds generalizing left with
  | zero => exact .pure rfl
  | succ rounds ih =>
    refine fun s => .look_bind ?_
    split
    · next i hi =>
      split
      · exact Reads.pure rfl s
      · refine Traced.bind (readsAt_extend hinner (ordinary_of_ofKind? hi)) fun e es s' hes => ?_
        refine (ih e s').mono fun e' es' _ hes' => ?_
        rw [Event.leaves_append, ← List.append_assoc, hes, hes']
    · exact Reads.pure rfl s

end

/-! ## The knot -/

theorem reads_expressionAt (depth : Nat) : ReadsInner d rule (expressionAt rule depth) := by
  induction depth with
  | zero => exact fun _ => .unexpected
  | succ depth ih =>
    intro strength
    refine (reads_operand ih).bind fun first => .look_bind fun rounds => ?_
    exact reads_operators ih strength rounds first

theorem reads_expression : Reads d rule .reading [] (expression rule) Expr.leaves :=
  .look_bind fun n => reads_expressionAt (n + 1) 0

end

end SelectRouting.Grammar
