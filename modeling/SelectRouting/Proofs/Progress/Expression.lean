import SelectRouting.Proofs.Progress.Pace
/-!
# The pace of expressions

An expression calls itself only behind a token that it has passed, and so do its loops: the operators behind an operand,
the branches of a `CASE`, and the items of a list.  Each of these recursions is grounded (`grounded_expression`,
`grounded_operators`, `grounded_branches`, `grounded_separated`), and an expression ends ahead of where it starts.
-/
namespace SelectRouting.Grammar

variable {rule : Rule} {α β : Type}

/-! ## Rounds -/

/-- An expression over whatever it calls. -/
def expressionOver (rule : Rule) (inner : Inner) : Inner := fun strength => do
  let first ← operand rule inner
  operators inner strength (← tokensLeft) first

/-- One operator, and what follows behind it. -/
def operatorsRound (inner : Inner) (strength : Nat) (again : Expr → Parser Expr) (left : Expr) : Parser Expr := do
  match Infix.ofKind? (← look (·.kind)) with
  | some i =>
    if i.level.leftStrength < strength then return left
    else again (← extend inner left i)
  | none => return left

/-- One `WHEN … THEN …`, and what follows behind it. -/
def branchesRound (inner : Inner) (again : Unit → Parser (List (Expr × Expr))) (_ : Unit) :
    Parser (List (Expr × Expr)) := do
  if ← skipKeyword .when then
    let condition ← inner 0
    let _ ← expectKeyword .then
    let value ← inner 0
    return (condition, value) :: (← again ())
  else return []

/-- One item, and what follows behind a comma. -/
def separatedRound (item : Parser α) (again : Unit → Parser (List α)) (_ : Unit) : Parser (List α) := do
  let first ← item
  if ← skip .comma then return first :: (← again ()) else return [first]

theorem expressionAt_eq_iterate (depth : Nat) :
    expressionAt rule depth = (expressionOver rule)^[depth] fun _ => unexpected "expression" := by
  induction depth with
  | zero => rfl
  | succ depth ih =>
    rw [Function.iterate_succ_apply', ← ih]
    rfl

theorem operators_eq_iterate (inner : Inner) (strength rounds : Nat) :
    operators inner strength rounds = (operatorsRound inner strength)^[rounds] fun left => return left := by
  induction rounds with
  | zero => rfl
  | succ rounds ih =>
    rw [Function.iterate_succ_apply', ← ih]
    rfl

theorem branches_eq_iterate (inner : Inner) (rounds : Nat) :
    (fun _ => branches inner rounds) = (branchesRound inner)^[rounds] fun _ => return [] := by
  induction rounds with
  | zero => rfl
  | succ rounds ih =>
    rw [Function.iterate_succ_apply', ← ih]
    rfl

theorem separated_eq_iterate (item : Parser α) (rounds : Nat) :
    (fun _ => separated item rounds) = (separatedRound item)^[rounds] fun _ => return [← item] := by
  induction rounds with
  | zero => rfl
  | succ rounds ih =>
    rw [Function.iterate_succ_apply', ← ih]
    rfl

/-! ## Steps -/

section
variable {s : State} {b : Bool}

theorem Paced.ite {c : Prop} [Decidable c] {p p' q q' : Parser α} (hp : Paced b s p p') (hq : Paced b s q q') :
    Paced b s (if c then p else q) (if c then p' else q') := by
  by_cases hc : c
  · rw [if_pos hc, if_pos hc]
    exact hp
  · rw [if_neg hc, if_neg hc]
    exact hq

theorem paced_skipWhen {test : Cursor → Bool} : Paced false s (skipWhen test) (skipWhen test) :=
  .of_runs (Runs.skipWhen : Runs ⟨[]⟩ _)

theorem paced_recordTable {name : String} {token : Token} :
    Paced false s (recordTable rule name token) (recordTable rule name token) :=
  Paced.modifyStatement.ite .pure

theorem paced_qualified {owner : String} {token : Token} :
    Paced false s (qualified rule owner token) (qualified rule owner token) := by
  apply paced_recordTable.andThen
  intro _ s₁ _
  refine .skip_bind ⟨nofun, nofun⟩ (fun _ _ => .pure) ?_
  apply Paced.look_bind
  apply Paced.weaken
  exact .expectName_bind fun _ _ _ => .pure

/-! ## Lists -/

theorem paced_separated {item item' : Parser α} (rounds : Nat) :
    ∀ {s : State}, (∀ s', s'.left ≤ s.left → Paced b s' item item') →
      Paced b s (separated item rounds) (separated item' rounds) := by
  induction rounds with
  | zero => exact fun hi => (hi _ (Nat.le_refl _)).bind fun _ _ _ => .pure
  | succ rounds ih =>
    intro s hi
    apply (hi s (Nat.le_refl _)).bind
    intro first s₁ h₁
    have hle : s₁.left ≤ s.left := Nat.le_trans (Nat.le_add_right _ _) h₁
    refine .skip_bind ⟨nofun, nofun⟩ (fun s₂ h₂ => ?_) .pure
    have hrest : Paced b s₂ (separated item rounds) (separated item' rounds) := ih fun s' hs' => hi s' (by omega)
    exact hrest.weaken.bind fun _ _ _ => .pure

theorem paced_commaSeparated {item item' : Parser α} (hi : ∀ s', s'.left ≤ s.left → Paced b s' item item') :
    Paced b s (commaSeparated item) (commaSeparated item') :=
  .look_bind (paced_separated _ hi)

end

/-! ## Operands -/

section
variable {n : Nat} {inner inner' : Inner} (hinner : PacedBelow n inner inner') {s : State}
include hinner

theorem paced_call (name : String) (hn : s.left ≤ n) : Paced true s (call inner name) (call inner' name) := by
  refine .expect_bind ⟨nofun, nofun⟩ fun _ s₁ h₁ => ?_
  apply paced_skipWhen.andThen
  intro distinct s₂ h₂
  have harguments : Paced false s₂ (arguments inner) (arguments inner') := by
    apply Paced.look_bind
    apply Paced.ite .pure
    refine .skip_bind ⟨nofun, nofun⟩ (fun _ _ => .pure) ?_
    exact paced_commaSeparated fun s' hs' => hinner 0 s' (by omega)
  apply harguments.andThen
  intro args s₃ h₃
  apply Paced.weaken
  exact .expect_bind ⟨nofun, nofun⟩ fun _ _ _ => .pure

theorem paced_branches (rounds : Nat) : ∀ {s : State}, s.left ≤ n →
    Paced false s (branches inner rounds) (branches inner' rounds) := by
  induction rounds with
  | zero => exact fun _ => .pure
  | succ rounds ih =>
    intro s hn
    apply Paced.skipKeyword_bind
    · intro s₁ h₁
      apply (hinner 0 s₁ (by omega)).andThen
      intro condition s₂ h₂
      apply Paced.weaken
      apply Paced.expectKeyword_bind
      intro _ s₃ h₃
      apply (hinner 0 s₃ (by omega)).andThen
      intro value s₄ h₄
      exact (ih (by omega)).bind fun _ _ _ => .pure
    · exact .pure

theorem paced_optional (k : Keyword) (hn : s.left ≤ n) : Paced false s (optional k inner) (optional k inner') := by
  apply Paced.skipKeyword_bind
  · exact fun s₁ h₁ => (hinner 0 s₁ (by omega)).bind fun _ _ _ => .pure
  · exact .pure

theorem paced_case (hn : s.left ≤ n) : Paced true s (caseExpression inner) (caseExpression inner') := by
  apply Paced.expectKeyword_bind
  intro _ s₁ h₁
  have hoperand : Paced false s₁ (caseOperand inner) (caseOperand inner') := by
    apply Paced.look_bind
    exact .ite .pure ((hinner 0 s₁ (by omega)).bind fun _ _ _ => .pure)
  apply hoperand.andThen
  intro tested s₂ h₂
  apply Paced.look_bind
  apply (paced_branches hinner _ (by omega)).andThen
  intro whens s₃ h₃
  apply Paced.ite .unexpected
  apply (paced_optional hinner .else (by omega)).andThen
  intro otherwise s₄ h₄
  apply Paced.weaken
  exact .expectKeyword_bind fun _ _ _ => .pure

theorem paced_named (hn : s.left ≤ n) : Paced true s (named rule inner) (named rule inner') := by
  apply Paced.look_bind
  apply Paced.expectName_bind
  intro name s₁ h₁
  apply Paced.look_bind
  apply Paced.ite
  · exact (paced_call hinner name (by omega)).weaken
  · exact .skip_bind ⟨nofun, nofun⟩ (fun _ _ => paced_qualified) .pure

theorem paced_parenthesized (hk : s.cursor.kind ≠ .eof) (hn : s.left ≤ n) :
    Paced true s (parenthesized inner) (parenthesized inner') := by
  apply Paced.look_bind
  apply Paced.ite .unsupported
  apply Paced.advance_bind hk
  intro s₁ h₁
  apply (hinner 0 s₁ (by omega)).andThen
  intro e s₂ h₂
  apply Paced.weaken
  exact .expect_bind ⟨nofun, nofun⟩ fun _ _ _ => .pure

theorem paced_aggregate {k : Keyword} (hk : s.cursor.kind ≠ .eof) (hn : s.left ≤ n) :
    Paced true s (aggregate inner k) (aggregate inner' k) :=
  .advance_bind hk fun s₁ h₁ => (paced_call hinner k.text (by omega)).weaken

theorem paced_primary (hn : s.left ≤ n) : Paced true s (primary rule inner) (primary rule inner') := by
  have hclaim : ∀ s : State, Paced false s claimParameter claimParameter := by
    refine fun s hs => ⟨rfl, fun _ s' hr => ?_⟩
    cases hr
    exact ⟨hs, Nat.le_refl _⟩
  have hne : ∀ {k : Token.Kind}, s.cursor.current.kind = k → k ≠ .eof → s.cursor.kind ≠ .eof :=
    fun hk h heof => h (hk.symm.trans heof)
  apply Paced.look_bind
  split
  case h_1 hk | h_2 hk | h_3 hk | h_4 hk | h_5 hk | h_6 hk | h_8 hk =>
    exact .advance_bind (hne hk nofun) fun _ _ => .pure
  case h_7 hk => exact .advance_bind (hne hk nofun) fun s₁ _ => (hclaim s₁).bind fun _ _ _ => .pure
  case h_9 hk => exact paced_parenthesized hinner (hne hk nofun) hn
  case h_10 => exact .unsupported
  case h_11 hk | h_12 hk | h_13 hk | h_14 hk | h_15 hk => exact paced_aggregate hinner (hne hk nofun) hn
  case h_16 => exact paced_case hinner hn
  case h_17 =>
    apply Paced.look_bind
    exact (paced_named hinner hn).ite .unexpected

omit hinner in
theorem Paced.skipPrior_bind {b : Bool} {f f' : Bool → Parser α}
    (htrue : ∀ s', s'.left < s.left → Paced false s' (f true) (f' true)) (hfalse : Paced b s (f false) (f' false)) :
    Paced b s (skipPrior >>= f) (skipPrior >>= f') := by
  unfold skipPrior
  rw [bind_assoc, bind_assoc]
  show Paced b s ((if s.priorAllowed then skipKeyword .prior else Pure.pure false) >>= f)
    ((if s.priorAllowed then skipKeyword .prior else Pure.pure false) >>= f')
  by_cases hp : s.priorAllowed = true
  · rw [if_pos hp]
    exact .skipKeyword_bind htrue hfalse
  · rw [if_neg hp, pure_bind, pure_bind]
    exact hfalse

theorem paced_operand (hn : s.left ≤ n) : Paced true s (operand rule inner) (operand rule inner') := by
  apply Paced.skipPrior_bind
  · exact fun s₁ h₁ => hinner _ s₁ (by omega)
  · apply Paced.look_bind
    split
    · next op hop =>
      apply Paced.advance_bind (ordinary_of_prefixed? hop).2
      exact fun s₁ h₁ => (hinner _ s₁ (by omega)).bind fun _ _ _ => .pure
    · exact paced_primary hinner hn

/-! ## What follows an operand -/

theorem paced_membership (tested : Expr) (negated : Bool) (hn : s.left ≤ n) :
    Paced true s (membership inner tested negated) (membership inner' tested negated) := by
  apply Paced.expectKeyword_bind
  intro _ s₁ h₁
  apply Paced.look_bind
  apply Paced.ite .unsupported
  apply Paced.weaken
  refine .expect_bind ⟨nofun, nofun⟩ fun _ s₂ h₂ => ?_
  have hmembers : Paced false s₂ (expressionList inner) (expressionList inner') :=
    paced_commaSeparated fun s' hs' => hinner 0 s' (by omega)
  apply hmembers.andThen
  intro members s₃ h₃
  apply Paced.weaken
  exact .expect_bind ⟨nofun, nofun⟩ fun _ _ _ => .pure

theorem paced_range (tested : Expr) (negated : Bool) (hn : s.left ≤ n) :
    Paced true s (range inner tested negated) (range inner' tested negated) := by
  apply Paced.expectKeyword_bind
  intro _ s₁ h₁
  apply (hinner _ s₁ (by omega)).andThen
  intro low s₂ h₂
  apply Paced.weaken
  apply Paced.expectKeyword_bind
  intro _ s₃ h₃
  exact (hinner _ s₃ (by omega)).bind fun _ _ _ => .pure

omit hinner in
theorem paced_nullTest (tested : Expr) (hk : s.cursor.kind ≠ .eof) :
    Paced true s (nullTest tested) (nullTest tested) := by
  apply Paced.advance_bind hk
  intro s₁ h₁
  apply paced_skipWhen.andThen
  intro negated s₂ h₂
  apply Paced.weaken
  exact .expectKeyword_bind fun _ _ _ => .pure

theorem paced_binary (op : BinaryOp) (left : Expr) (hk : s.cursor.kind ≠ .eof) (hn : s.left ≤ n) :
    Paced true s (binary inner op left) (binary inner' op left) :=
  .advance_bind hk fun s₁ h₁ => (hinner _ s₁ (by omega)).bind fun _ _ _ => .pure

theorem paced_negatedTest (tested : Expr) (hk : s.cursor.kind ≠ .eof) (hn : s.left ≤ n) :
    Paced true s (negatedTest inner tested) (negatedTest inner' tested) := by
  apply Paced.advance_bind hk
  intro s₁ h₁
  apply Paced.look_bind
  split
  · exact (paced_membership hinner tested true (by omega)).weaken
  · exact (paced_range hinner tested true (by omega)).weaken
  · next hlike =>
    have hk' : s₁.cursor.kind ≠ .eof := by
      rw [Cursor.kind_of_atKeyword (decide_eq_true hlike)]
      nofun
    exact (paced_binary hinner .like tested hk' (by omega)).weaken.bind fun _ _ _ => .pure
  · exact .unexpected

theorem paced_extend (left : Expr) (i : Infix) (hk : s.cursor.kind ≠ .eof) (hn : s.left ≤ n) :
    Paced true s (extend inner left i) (extend inner' left i) := by
  cases i with
  | operator op => exact paced_binary hinner op left hk hn
  | is => exact paced_nullTest left hk
  | within => exact paced_membership hinner left false hn
  | between => exact paced_range hinner left false hn
  | not => exact paced_negatedTest hinner left hk hn

/-- One operator, over two ways to go on behind it. -/
theorem paced_operatorsRound (strength : Nat) {again again' : Expr → Parser Expr}
    (hagain : ∀ e s', s'.left < s.left → Paced false s' (again e) (again' e)) (left : Expr) (hn : s.left ≤ n) :
    Paced false s (operatorsRound inner strength again left) (operatorsRound inner' strength again' left) := by
  apply Paced.look_bind
  split
  · next i hi =>
    apply Paced.ite .pure
    exact ((paced_extend hinner left i (ordinary_of_ofKind? hi).2 hn).bind hagain).weaken
  · exact .pure

theorem paced_operators (strength rounds : Nat) : ∀ {s : State} (left : Expr), s.left ≤ n →
    Paced false s (operators inner strength rounds left) (operators inner' strength rounds left) := by
  rw [operators_eq_iterate, operators_eq_iterate]
  induction rounds with
  | zero => exact fun _ _ => .pure
  | succ rounds ih =>
    intro s left hn
    rw [Function.iterate_succ_apply', Function.iterate_succ_apply']
    exact paced_operatorsRound hinner strength (fun e s' hs' => ih e (by omega)) left hn

/-! ## The recursion -/

theorem paced_expressionOver (strength : Nat) (hn : s.left ≤ n) :
    Paced true s (expressionOver rule inner strength) (expressionOver rule inner' strength) := by
  apply (paced_operand hinner hn).bind
  intro first s₁ h₁
  exact .look_bind (paced_operators hinner strength _ first (by omega))

end

theorem descends_expressionOver : Descends (expressionOver rule) :=
  fun _ _ _ hE strength _ hs => (paced_expressionOver hE strength (Nat.le_of_lt_succ hs)).weaken

/-- An expression that binds at least as strongly as asked for, nested as deeply as the tokens left allow. -/
def expressionFrom (rule : Rule) : Inner := fun strength => do
  expressionAt rule ((← tokensLeft) + 1) strength

theorem grounded_expression : Grounded (expressionOver rule) (expressionFrom rule) := by
  refine descends_expressionOver.grounded (fun _ => unexpected "expression") fun strength s _ => ?_
  rw [← expressionAt_eq_iterate]
  rfl

/-- An expression ends ahead of where it starts. -/
theorem paced_expressionAt (depth strength : Nat) (s : State) :
    Paced true s (expressionAt rule depth strength) (expressionAt rule depth strength) := by
  induction depth generalizing strength s with
  | zero => exact .unexpected
  | succ depth ih =>
    have hinner : PacedBelow s.left (expressionAt rule depth) (expressionAt rule depth) :=
      fun strength s' _ => (ih strength s').weaken
    exact paced_expressionOver hinner strength (Nat.le_refl _)

theorem paced_expressionFrom (strength : Nat) (s : State) :
    Paced true s (expressionFrom rule strength) (expressionFrom rule strength) :=
  .look_bind (paced_expressionAt _ strength s)

/-! ## Loops -/

section
variable {inner : Inner} (hinner : ∀ strength, Onward (inner strength))
include hinner

theorem grounded_operators (strength : Nat) :
    Grounded (operatorsRound inner strength) (fun left => do operators inner strength (← tokensLeft) left) := by
  have hdescends : Descends (operatorsRound inner strength) := fun n E E' hE left s hs =>
    paced_operatorsRound (n := s.left) (fun i s' _ => (hinner i).paced s') strength (fun e s' hs' => hE e s' (by omega)) left
      (Nat.le_refl _)
  refine hdescends.grounded_of_bottom (fun left => return left) (fun left s h₀ hs => ?_) fun left s _ => ?_
  · have hk := State.kind_of_left_eq_zero hs h₀
    have hround : operatorsRound inner strength (fun left => return left) left s = .ok left s := by
      unfold operatorsRound
      rw [look_bind_apply, hk]
      rfl
    exact Paced.of_ok rfl hround hs
  · rw [← operators_eq_iterate]
    rfl

theorem paced_branchesRound {again again' : Unit → Parser (List (Expr × Expr))} {s : State}
    (hagain : ∀ i s', s'.left < s.left → Paced false s' (again i) (again' i)) (i : Unit) :
    Paced false s (branchesRound inner again i) (branchesRound inner again' i) := by
  refine .skipKeyword_bind (fun s₁ h₁ => ?_) .pure
  apply ((hinner 0).paced s₁).andThen
  intro condition s₂ h₂
  apply Paced.weaken
  apply Paced.expectKeyword_bind
  intro _ s₃ h₃
  apply ((hinner 0).paced s₃).andThen
  intro value s₄ h₄
  exact (hagain () s₄ (by omega)).bind fun _ _ _ => .pure

theorem grounded_branches : Grounded (branchesRound inner) (fun _ => do branches inner (← tokensLeft)) := by
  have hdescends : Descends (branchesRound inner) := fun n E E' hE i s hs =>
    paced_branchesRound hinner (fun i s' hs' => hE i s' (by omega)) i
  refine hdescends.grounded_of_bottom (fun _ => return []) (fun i s h₀ hs => ?_) fun i s _ => ?_
  · have hk := State.kind_of_left_eq_zero hs h₀
    have hround : branchesRound inner (fun _ => return []) i s = .ok [] s := by
      unfold branchesRound
      rw [bind_apply, skipKeyword_of_eof hk]
      rfl
    exact Paced.of_ok rfl hround hs
  · rw [← branches_eq_iterate]
    rfl

end

theorem paced_separatedRound {item : Parser α} {s : State} (hitem : Paced false s item item)
    {again again' : Unit → Parser (List α)} (hagain : ∀ i s', s'.left < s.left → Paced false s' (again i) (again' i))
    (i : Unit) : Paced false s (separatedRound item again i) (separatedRound item again' i) := by
  apply hitem.andThen
  intro first s₁ h₁
  refine .skip_bind ⟨nofun, nofun⟩ (fun s₂ h₂ => ?_) .pure
  exact (hagain () s₂ (by omega)).bind fun _ _ _ => .pure

theorem grounded_separated {item : Parser α} (hitem : Onward item) :
    Grounded (separatedRound item) (fun _ => commaSeparated item) := by
  have hdescends : Descends (separatedRound item) := fun n E E' hE i s hs =>
    paced_separatedRound (hitem.paced s) (fun i s' hs' => hE i s' (by omega)) i
  refine hdescends.grounded_of_bottom (fun _ => return [← item]) (fun i s h₀ => ?_) fun i s _ => ?_
  · apply (hitem.paced s).andThen
    intro first s₁ h₁ hs
    -- Behind the item there is still no token left, and so no comma.
    have hk := State.kind_of_left_eq_zero hs (by omega)
    rw [skip_bind_apply, hk]
    exact Paced.pure hs
  · rw [← separated_eq_iterate]
    rfl

end SelectRouting.Grammar
