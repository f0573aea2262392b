import SelectRouting.Grammar.Expression
import SelectRouting.Proofs.Prefix.Step
/-!
# Expressions that settle their ends

What an expression is depends on the tokens it is made of and on the one behind it (`settles_expression`).  An inner
expression starts at least one token further on, so that with the nesting both bounds for the tokens left go down; and
there is one lemma for each form of operand and of operator.
-/
namespace SelectRouting.Grammar

section
variable {rule : Rule} {n n' : Nat} {s : State} {opened : Prop} {α β : Type} {inner inner' : Inner}

/-- Parsers of inner expressions that settle their ends, whatever strength is asked for. -/
def SettlesInner (n n' : Nat) (inner inner' : Inner) : Prop :=
  ∀ strength, Settles nowhere n n' (inner strength) (inner' strength)

theorem SettlesInner.fewer {m m' : Nat} (hm : m ≤ n) (hm' : m' ≤ n') (h : SettlesInner n n' inner inner') :
    SettlesInner m m' inner inner' :=
  fun strength => (h strength).fewer hm hm'

/-! ## Looking at a word -/

theorem atKeyword_of_alike {c c' : Cursor} (k : Keyword) (h : Cursor.Alike c c') : c'.atKeyword k = c.atKeyword k :=
  congrArg (fun t : Token => decide (t.kind.keyword? = some k)) h.current

theorem check_of_alike {c c' : Cursor} (k : Token.Kind) (h : Cursor.Alike c c') : c'.kind.alike k = c.kind.alike k :=
  congrArg (fun t : Token => t.kind.alike k) h.current

theorem kind_of_alike {c c' : Cursor} (h : Cursor.Alike c c') : c'.kind = c.kind :=
  congrArg Token.kind h.current

/-! ## Calls and CASE -/

/-- At the end of the input there are no branches, whatever the bound for them. -/
theorem branches_of_eof (inner : Inner) (rounds : Nat) (s : State) (hk : s.cursor.kind = .eof) :
    branches inner rounds s = .ok [] s := by
  cases rounds with
  | zero => rfl
  | succ rounds =>
    refine bind_of_ok (skipKeyword_of_false (Bool.eq_false_iff.2 fun h => ?_)) _
    rw [Cursor.kind_of_atKeyword h] at hk
    cases hk

section
variable (hinner : SettlesInner n n' inner inner')
include hinner

theorem settles_expressionList : Settles nowhere n n' (expressionList inner) (expressionList inner') :=
  .commaSeparated (hinner 0)

theorem settles_arguments : Settles nowhere n n' (arguments inner) (arguments inner') := by
  refine .look_bind (fun _ _ => check_of_alike .rightParen) fun b => ?_
  cases b with
  | true => exact .pure
  | false => exact .branch nofun .pure (settles_expressionList hinner)

theorem settles_optional {k : Keyword} : Settles nowhere n n' (optional k inner) (optional k inner') :=
  .branchKeyword ((Settles.bind (hinner 0) fun _ => .pure).fewer (by omega) (by omega)).behind .pure

theorem settles_caseOperand : Settles nowhere n n' (caseOperand inner) (caseOperand inner') := by
  refine .look_bind (fun _ _ => atKeyword_of_alike .when) fun b => ?_
  cases b with
  | true => exact .pure
  | false => exact .bind (hinner 0) fun _ => .pure

theorem settles_branches : Settles nowhere n n' (tokensLeft >>= branches inner) (tokensLeft >>= branches inner') := by
  refine .tokensLeft_bind fun r r' => .rounds (fun _ : Unit => []) (fun r _ => branches_of_eof inner r)
    (fun r _ => branches_of_eof inner' r) (fun r r' ih _ => ?_) r r' ()
  refine .branchKeyword (Settles.behind ?_) .pure
  refine .bind ((hinner 0).fewer (by omega) (by omega)) fun condition => .andThen settles_expectKeyword fun _ => ?_
  refine .bind ((hinner 0).fewer (by omega) (by omega)) fun value => .bind ?_ fun _ => .pure
  exact (ih ()).fewer (by omega) (by omega)

end

section
variable (hinner : SettlesInner (n - 1) (n' - 1) inner inner')
include hinner

theorem settles_call (name : String) : Settles nowhere n n' (call inner name) (call inner' name) := by
  refine fun s => .expect_bind nofun (.bind .skipKeyword fun distinct => .bind (settles_arguments hinner) fun args => ?_)
  exact .andThen (settles_expect nofun) fun _ => .pure

theorem settles_case : Settles nowhere n n' (caseExpression inner) (caseExpression inner') := by
  intro s
  refine .expectKeyword_bind fun _ => Settles.behind (.bind (settles_caseOperand hinner) fun operand => ?_)
  have hbranches := settles_branches hinner
  simp only [← bind_assoc]
  refine .bind hbranches fun whens => ?_
  split
  · exact .unexpected
  · exact .bind (settles_optional hinner) fun _ => .andThen settles_expectKeyword fun _ => .pure

/-! ## Names -/

omit hinner in
theorem settles_qualified (owner : String) (token : Token) :
    Settles nowhere n n' (qualified rule owner token) (qualified rule owner token) := by
  refine .andThen .recordTable fun _ => .branch nofun .pure ?_
  exact .look_bind (fun _ _ h => congrArg Token.span h.current) fun span => .andThen settles_expectName fun _ => .pure

theorem settles_named : Settles nowhere n n' (named rule inner) (named rule inner') := by
  refine .look_bind (fun _ _ h => h.current) fun token s => .expectName_bind fun name => ?_
  refine .look_bind (fun _ _ => check_of_alike .leftParen) fun b => ?_
  cases b with
  | true => exact settles_call (hinner.fewer (Nat.sub_le _ 1) (Nat.sub_le _ 1)) name
  | false => exact .branch nofun (settles_qualified name token) .pure

/-! ## Operands -/

omit hinner in
theorem settlesAt_constant (value : Literal) (hk : s.cursor.kind ≠ .eof) :
    SettlesAt nowhere opened n n' s (constant value) (constant value) :=
  .advance_bind hk .pure

omit hinner in
theorem settlesAt_parameter (span : Span) (hk : s.cursor.kind ≠ .eof) :
    SettlesAt nowhere opened n n' s (parameter span) (parameter span) :=
  .advance_bind hk (.andThen .claimParameter fun _ => .pure)

theorem settlesAt_parenthesized (hk : s.cursor.kind = .leftParen) :
    SettlesAt nowhere opened n n' s (parenthesized inner) (parenthesized inner') := by
  have hinside : Settles nowhere (n - 1) (n' - 1)
      (inner 0 >>= fun e => expect .rightParen >>= fun _ => pure (Expr.paren e))
      (inner' 0 >>= fun e => expect .rightParen >>= fun _ => pure (Expr.paren e)) :=
    .bind (hinner 0) fun e => .andThen (settles_expect nofun) fun _ => .pure
  exact .rejectSubquery (fun _ h => h.elim) (fun _ _ => rfl) (fun _ _ => rfl) (hinside s.advanced)
    (.advance_bind (hk ▸ nofun) hinside)

theorem settlesAt_aggregate (k : Keyword) (hk : s.cursor.kind ≠ .eof) :
    SettlesAt nowhere opened n n' s (aggregate inner k) (aggregate inner' k) :=
  .advance_bind hk (settles_call (hinner.fewer (Nat.sub_le _ 1) (Nat.sub_le _ 1)) k.text)

theorem settles_primary : Settles nowhere n n' (primary rule inner) (primary rule inner') := by
  intro s
  have hother : Settles nowhere n n'
      (look (·.name?) >>= fun name? => if name?.isSome then named rule inner else unexpected "expression")
      (look (·.name?) >>= fun name? => if name?.isSome then named rule inner' else unexpected "expression") := by
    refine .look_bind (fun _ _ h => congrArg Token.name? h.current) fun name? => ?_
    cases name?.isSome with
    | true => exact settles_named hinner
    | false => exact .unexpected
  refine .look_bind (fun _ _ h => h.current) ?_
  have hne : ∀ {k : Token.Kind}, s.cursor.kind = k → k ≠ .eof → s.cursor.kind ≠ .eof := fun hk h => hk ▸ h
  cases hk : s.cursor.current.kind with
  | integer n => exact settlesAt_constant _ (hne hk nofun)
  | float x => exact settlesAt_constant _ (hne hk nofun)
  | string text => exact settlesAt_constant _ (hne hk nofun)
  | question => exact settlesAt_parameter _ (hne hk nofun)
  | star => exact .advance_bind (hne hk nofun) .pure
  | leftParen => exact settlesAt_parenthesized hinner hk
  | keyword k =>
    cases k with
    | trueLiteral | falseLiteral | null => exact settlesAt_constant _ (hne hk nofun)
    | «exists» => exact .unsupported fun h => absurd (hk.symm.trans h) nofun
    | count | sum | avg | min | max => exact settlesAt_aggregate hinner _ (hne hk nofun)
    | case => exact settles_case hinner s
    | _ => exact hother s
  | _ => exact hother s

omit hinner in
/-- Behind `PRIOR`, where it may stand, or without it. -/
theorem settles_skipPrior {p p' q q' : Parser Expr} (hp : Settles nowhere (n - 1) (n' - 1) p p')
    (hq : Settles nowhere n n' q q') : Settles nowhere n n' (skipPrior >>= fun b => if b then p else q)
      (skipPrior >>= fun b => if b then p' else q') := by
  intro s
  unfold skipPrior
  rw [bind_assoc, bind_assoc]
  refine .inspect_bind (fun _ => rfl) ?_
  cases s.priorAllowed with
  | true => exact Settles.branchKeyword hp.behind hq s
  | false => exact hq s

theorem settles_operand : Settles nowhere n n' (operand rule inner) (operand rule inner') := by
  refine settles_skipPrior (hinner _) fun s => .look_bind (fun _ _ => kind_of_alike) ?_
  cases hop : prefixed? s.cursor.kind with
  | none => exact settles_primary hinner s
  | some op =>
    have hk : s.cursor.kind ≠ .eof := fun h => by rw [h] at hop; cases hop
    exact .advance_bind hk (.bind (hinner _) fun _ => .pure)

/-! ## What follows an operand -/

/-- The members behind `IN`. -/
def members (inner : Inner) (tested : Expr) (negated : Bool) : Parser Expr := do
  if ← look (·.atSubquery) then unsupported "subquery"
  else
    let _ ← expect .leftParen
    let members ← expressionList inner
    let _ ← expect .rightParen
    return .within tested members negated

theorem settles_members (tested : Expr) (negated : Bool) :
    Settles nowhere n n' (members inner tested negated) (members inner' tested negated) := by
  have hinside : Settles nowhere (n - 1) (n' - 1)
      (expressionList inner >>= fun members => expect .rightParen >>= fun _ => pure (Expr.within tested members negated))
      (expressionList inner' >>= fun members =>
        expect .rightParen >>= fun _ => pure (Expr.within tested members negated)) :=
    .bind (settles_expressionList hinner) fun members => .andThen (settles_expect nofun) fun _ => .pure
  exact fun s => .rejectSubquery (fun _ h => h.elim) (fun s hk => bind_of_ok (expect_of_kind hk rfl) _)
    (fun s hk => bind_of_ok (expect_of_kind hk rfl) _) (hinside s.advanced) (.expect_bind nofun hinside)

/-- The bounds behind `BETWEEN`. -/
def bounds (inner : Inner) (tested : Expr) (negated : Bool) : Parser Expr := do
  let low ← inner Level.comparison.rightStrength
  let _ ← expectKeyword .and
  let high ← inner Level.comparison.rightStrength
  return .between tested low high negated

theorem settles_bounds (tested : Expr) (negated : Bool) :
    Settles nowhere (n - 1) (n' - 1) (bounds inner tested negated) (bounds inner' tested negated) :=
  .bind (hinner _) fun _ => .andThen settles_expectKeyword fun _ => .bind (hinner _) fun _ => .pure

theorem settles_membership (tested : Expr) (negated : Bool) :
    Settles nowhere n n' (membership inner tested negated) (membership inner' tested negated) := by
  have hmembers := settles_members (hinner.fewer (Nat.sub_le _ 1) (Nat.sub_le _ 1)) tested negated
  exact fun _ => .expectKeyword_bind fun _ => hmembers.behind

theorem settles_range (tested : Expr) (negated : Bool) :
    Settles nowhere n n' (range inner tested negated) (range inner' tested negated) :=
  fun _ => .expectKeyword_bind fun _ => (settles_bounds hinner tested negated).behind

theorem settlesAt_binary (op : BinaryOp) (left : Expr) (hk : s.cursor.kind ≠ .eof) :
    SettlesAt nowhere opened n n' s (binary inner op left) (binary inner' op left) :=
  .advance_bind hk (.bind (hinner _) fun _ => .pure)

/-- A test behind `NOT`, once that is passed. -/
def testBehindNot (inner : Inner) (tested : Expr) : Parser Expr := do
  match ← look (·.keyword?) with
  | some .in => membership inner tested true
  | some .between => range inner tested true
  | some .like => return .unary .not (← binary inner .like tested)
  | _ => unexpected "IN, BETWEEN or LIKE"

theorem settles_testBehindNot (tested : Expr) :
    Settles nowhere n n' (testBehindNot inner tested) (testBehindNot inner' tested) := by
  intro s
  refine .look_bind (fun _ _ h => congrArg Token.Kind.keyword? (kind_of_alike h)) ?_
  split
  · exact settles_membership hinner tested true s
  · exact settles_range hinner tested true s
  · next hlike =>
    have hk : s.cursor.kind = .keyword .like := Cursor.kind_of_atKeyword (decide_eq_true hlike)
    exact .bind (settlesAt_binary hinner .like tested (hk ▸ nofun)) fun _ => .pure
  · exact .unexpected

/-- An operator with its right side passes at least one token, whatever comes behind. -/
theorem settlesAt_extend_bind {k k' : Expr → Parser β} (left : Expr) (i : Infix) (hk : s.cursor.kind ≠ .eof)
    (h : ∀ e, Settles nowhere (n - 1) (n' - 1) (k e) (k' e)) :
    SettlesAt nowhere opened n n' s (extend inner left i >>= k) (extend inner' left i >>= k') := by
  have hbehind := hinner.fewer (Nat.sub_le _ 1) (Nat.sub_le _ 1)
  cases i with
  | operator op =>
    refine .reassoc (.advance_bind hk ?_)
    exact .bind (.bind (hinner _) fun _ => .pure) h
  | is =>
    refine .reassoc (.advance_bind hk ?_)
    exact .bind (.bind .skipKeyword fun _ => .andThen settles_expectKeyword fun _ => .pure) h
  | within =>
    refine .reassoc (.expectKeyword_bind fun _ => Settles.behind ?_)
    exact .bind (settles_members hbehind left false) h
  | between =>
    refine .reassoc (.expectKeyword_bind fun _ => Settles.behind ?_)
    exact .bind (settles_bounds hinner left false) h
  | not =>
    refine .reassoc (.advance_bind hk ?_)
    exact .bind (settles_testBehindNot hbehind left) h

end

theorem operators_of_eof {strength rounds : Nat} {left : Expr} (hk : s.cursor.kind = .eof) :
    operators inner strength rounds left s = .ok left s := by
  cases rounds with
  | zero => rfl
  | succ rounds =>
    unfold operators
    rw [look_bind_apply, hk]
    rfl

theorem settles_operators (hinner : SettlesInner (n - 1) (n' - 1) inner inner') (strength : Nat) (left : Expr) :
    Settles nowhere n n' (tokensLeft >>= fun rounds => operators inner strength rounds left)
      (tokensLeft >>= fun rounds => operators inner' strength rounds left) := by
  have hround : ∀ r r', (∀ left, Settles nowhere (min n (r + 1)) (min n' (r' + 1))
      (operators inner strength r left) (operators inner' strength r' left)) →
      ∀ left, Settles nowhere (min n (r + 2)) (min n' (r' + 2)) (operators inner strength (r + 1) left)
        (operators inner' strength (r' + 1) left) := by
    intro r r' ih left s
    refine .look_bind (fun _ _ => kind_of_alike) ?_
    cases hi : Infix.ofKind? s.cursor.kind with
    | none => exact .pure
    | some i =>
      have hk : s.cursor.kind ≠ .eof := fun h => by rw [h] at hi; cases hi
      dsimp only
      split
      · exact .pure
      · refine settlesAt_extend_bind (hinner.fewer (by omega) (by omega)) left i hk fun e => ?_
        exact (ih e).fewer (by omega) (by omega)
  exact .tokensLeft_bind fun r r' => .rounds id (fun _ _ _ => operators_of_eof) (fun _ _ _ => operators_of_eof) hround
    r r' left

/-! ## The knot -/

theorem settles_expressionAt (depth depth' : Nat) :
    SettlesInner depth depth' (expressionAt rule depth) (expressionAt rule depth') := by
  induction depth generalizing depth' with
  | zero => exact fun _ _ _ hlt => absurd hlt (Nat.not_lt_zero _)
  | succ depth ih =>
    have hsucc : ∀ depth', SettlesInner (depth + 1) (depth' + 1) (expressionAt rule (depth + 1))
        (expressionAt rule (depth' + 1)) := by
      intro depth' strength
      have hinner : SettlesInner (depth + 1 - 1) (depth' + 1 - 1) (expressionAt rule depth) (expressionAt rule depth') :=
        ih depth'
      exact .bind (settles_operand hinner) fun first => settles_operators hinner strength first
    cases depth' with
    | succ depth' => exact hsucc depth'
    | zero => exact fun strength => (hsucc 0 strength).vacuous

theorem settles_expression : Settles nowhere n n' (expression rule) (expression rule) :=
  .tokensLeft_bind fun r r' => (settles_expressionAt (r + 1) (r' + 1) 0).fewer (by omega) (by omega)

theorem allowingPrior_apply (p : Parser α) (s : State) : allowingPrior p s =
    match p { s with priorAllowed := true } with
    | .ok a t => .ok a { t with priorAllowed := false }
    | .error e t => .error e { t with priorAllowed := false } := by
  unfold allowingPrior
  cases p { s with priorAllowed := true } <;> rfl

/-- That `PRIOR` is allowed makes no difference. -/
theorem Settles.allowingPrior {p p' : Parser α} (hp : Settles nowhere n n' p p') :
    Settles nowhere n n' (allowingPrior p) (allowingPrior p') := by
  intro s hs hlt
  have h := hp { s with priorAllowed := true } hs hlt
  rw [allowingPrior_apply]
  cases hr : p { s with priorAllowed := true } with
  | ok a t =>
    rw [hr] at h
    obtain ⟨ts, hts, hall⟩ := h
    refine ⟨ts, hts, fun b b' hb hlt' hbts hmeets => ?_⟩
    have hsecond : p' { s.moved b with priorAllowed := true } = .ok a (t.moved b') := hall b b' hb hlt' hbts hmeets
    rw [allowingPrior_apply, hsecond]
    rfl
  | error e t =>
    rw [hr] at h
    obtain ⟨ts, hts, hlocated, hall⟩ := h
    refine ⟨ts, hts, hlocated, fun b b' hb hlt' hbts hrests => ?_⟩
    obtain ⟨t', ht'⟩ := hall b b' hb hlt' hbts hrests
    have hsecond : p' { s.moved b with priorAllowed := true } = .error e t' := ht'
    exact ⟨{ t' with priorAllowed := false }, by rw [allowingPrior_apply, hsecond]⟩

theorem settles_hierarchicalCondition :
    Settles nowhere n n' (hierarchicalCondition rule) (hierarchicalCondition rule) :=
  settles_expression.allowingPrior

end

end SelectRouting.Grammar
