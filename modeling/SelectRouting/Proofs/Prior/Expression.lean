import SelectRouting.Proofs.Precedence.Soundness
import SelectRouting.Proofs.Prior.Unmarking
/-!
# Expressions without their marks

An expression whose operands may be marked is read without the marks as the same expression (`unmarks_expressionAt`).  A mark
is passed in front of an operand, and what is asked for behind it binds so strongly that no operator is taken there: so the
marked operand is the operand itself (`operators_negation`).  There is one lemma for each form of operand and of operator.
-/
namespace SelectRouting.Grammar

open Settles (furtherItems furtherItems_of_eof separated_eq)

section
variable {rule : Rule} {n n' : Nat} {s : State} {β : Type} {inner inner' : Inner}

/-- Parsers of inner expressions that read the same without the marks. -/
def UnmarksInner (n n' : Nat) (inner inner' : Inner) : Prop :=
  ∀ strength s, Unmarks .opened n n' s (inner strength) (inner' strength)

theorem UnmarksInner.fewer {m m' : Nat} (hm : m ≤ n) (hm' : m' ≤ n') (h : UnmarksInner n n' inner inner') :
    UnmarksInner m m' inner inner' :=
  fun strength s => (h strength s).fewer hm hm'

/-! ## Looking at a token -/

theorem atKeyword_of_current {c c' : Cursor} (k : Keyword) (h : c'.current = c.current) :
    c'.atKeyword k = c.atKeyword k :=
  congrArg (fun t : Token => decide (t.kind.keyword? = some k)) h

theorem check_of_current {c c' : Cursor} (k : Token.Kind) (h : c'.current = c.current) :
    c'.kind.alike k = c.kind.alike k :=
  congrArg (fun t : Token => t.kind.alike k) h

theorem atKeyword_of_kind {c : Cursor} {k w : Keyword} (hk : c.kind = .keyword w) (hw : w ≠ k) :
    c.atKeyword k = false :=
  Bool.eq_false_iff.2 fun hat => hw (Token.Kind.keyword.inj (hk.symm.trans (Cursor.kind_of_atKeyword hat)))

/-- A keyword that is looked for where an operand may stand is not where one begins. -/
theorem atKeyword_of_not_awaited {c : Cursor} {k : Keyword} (hc : c.kind.awaited = false)
    (hk : Token.Kind.awaited (.keyword k) = true) : c.atKeyword k = false := by
  refine Bool.eq_false_iff.2 fun hat => ?_
  rw [Cursor.kind_of_atKeyword hat, hk] at hc
  cases hc

/-! ## Lists -/

section
variable (hinner : UnmarksInner n n' inner inner')
include hinner

theorem unmarks_separated (r r' : Nat) (s : State) : Unmarks .opened (min n (r + 1)) (min n' (r' + 1)) s
    (separated (inner 0) r) (separated (inner' 0) r') := by
  have hfurther : ∀ r r' first t, Unmarks .closed (min n (r + 1)) (min n' (r' + 1)) t (furtherItems (inner 0) r first)
      (furtherItems (inner' 0) r' first) := by
    refine Unmarks.rounds (fun first => [first]) (fun _ _ _ => furtherItems_of_eof) (fun _ _ _ => furtherItems_of_eof)
      fun r r' ih first t => ?_
    refine .skip_bind (F := .opened) trivial nofun nofun (.bind ?_ fun _ _ => .pure) .pure
    rw [separated_eq, separated_eq]
    exact (Unmarks.bind ((hinner 0 _).fewer (by omega) (by omega)) fun first' t' => ih first' t').fewer (by omega)
      (by omega)
  rw [separated_eq, separated_eq]
  exact .bind ((hinner 0 s).fewer (by omega) (by omega)) fun first t => hfurther r r' first t

theorem unmarks_expressionList (s : State) : Unmarks .opened n n' s (expressionList inner) (expressionList inner') :=
  .tokensLeft_bind fun r r' => unmarks_separated hinner r r' s

/-! ## Arguments -/

theorem unmarks_arguments_atMark (hk : s.cursor.kind = .keyword .prior) :
    Unmarks .opened n n' s (arguments inner) (arguments inner') := by
  have hlist : ∀ (inner : Inner) (t : State), t.cursor.kind ≠ .rightParen → t.cursor.kind ≠ .star →
      arguments inner t = expressionList inner t := by
    intro inner t hclose hstar
    have hclose : t.cursor.kind.alike .rightParen = false :=
      Bool.eq_false_iff.2 fun h => hclose (Token.Kind.eq_of_alike h trivial)
    have hstar : t.cursor.kind.alike .star = false :=
      Bool.eq_false_iff.2 fun h => hstar (Token.Kind.eq_of_alike h trivial)
    unfold arguments
    rw [check, look_bind_apply, hclose]
    exact bind_of_ok (skipWhen_of_false hstar) _
  refine .atMark hk (unmarks_expressionList hinner s) (hlist inner s (hk ▸ nofun) (hk ▸ nofun)) fun b hawaited hstar => ?_
  refine hlist inner' (s.plain b) (fun hclose => ?_) hstar
  rw [show b.kind = .rightParen from hclose] at hawaited
  cases hawaited

theorem unmarks_arguments (s : State) : Unmarks .any n n' s (arguments inner) (arguments inner') := by
  by_cases hk : s.cursor.kind = .keyword .prior
  · exact (unmarks_arguments_atMark hinner hk).any
  · refine (Unmarks.look_bind (fun _ _ => check_of_current .rightParen) ?_).any
    split
    · exact .pure
    · exact .skip_bind trivial nofun nofun Unmarks.pure ((unmarks_expressionList hinner s).closed hk)

/-- The arguments of a call behind the opening parenthesis. -/
theorem unmarks_behindOpening (name : String) (s : State) : Unmarks .any n n' s
    (skipKeyword .distinct >>= fun distinct => arguments inner >>= fun args => expect .rightParen >>= fun _ =>
      pure (Expr.call name distinct args))
    (skipKeyword .distinct >>= fun distinct => arguments inner' >>= fun args => expect .rightParen >>= fun _ =>
      pure (Expr.call name distinct args)) := by
  have hclosing : ∀ distinct args t, Unmarks .closed n n' t
      (expect .rightParen >>= fun _ => pure (Expr.call name distinct args))
      (expect .rightParen >>= fun _ => pure (Expr.call name distinct args)) := fun distinct args t =>
    .expect_bind trivial nofun nofun fun _ _ => Unmarks.pure
  by_cases hk : s.cursor.kind = .keyword .prior
  · have hopened := (unmarks_arguments_atMark hinner hk).bind (hclosing false)
    refine (Unmarks.atMark hk hopened ?_ fun b hawaited _ => ?_).any
    · exact bind_of_ok (skipKeyword_of_false (atKeyword_of_kind hk (by decide))) _
    · exact bind_of_ok (skipKeyword_of_false (atKeyword_of_not_awaited hawaited rfl)) _
  · refine (Unmarks.skipKeyword_bind (F := .any) (by decide) (fun _ => ?_) ?_).any
    · exact ((unmarks_arguments hinner _).bind (hclosing true)).fewer (by omega) (by omega)
    · exact ((unmarks_arguments hinner s).bind (hclosing false)).closed hk

/-! ## CASE -/

theorem unmarks_optional {k : Keyword} (hk : k ≠ .prior) (s : State) :
    Unmarks .closed n n' s (optional k inner) (optional k inner') :=
  .skipKeyword_bind hk (fun _ => (Unmarks.bind (hinner 0 _) fun _ _ => .pure).fewer (by omega) (by omega)) .pure

theorem unmarks_caseOperand (s : State) : Unmarks .any n n' s (caseOperand inner) (caseOperand inner') := by
  have hpresent : Unmarks .opened n n' s (inner 0 >>= fun e => pure (some e)) (inner' 0 >>= fun e => pure (some e)) :=
    .bind (hinner 0 s) fun _ _ => .pure
  have hrun : ∀ (inner : Inner) (t : State), t.cursor.atKeyword .when = false →
      caseOperand inner t = (inner 0 >>= fun e => pure (some e)) t := by
    intro inner t ht
    unfold caseOperand
    rw [checkKeyword, look_bind_apply, ht]
    rfl
  by_cases hk : s.cursor.kind = .keyword .prior
  · refine (Unmarks.atMark hk hpresent (hrun inner s (atKeyword_of_kind hk nofun)) fun b hawaited _ => ?_).any
    exact hrun inner' (s.plain b) (atKeyword_of_not_awaited hawaited rfl)
  · refine (Unmarks.look_bind (fun _ _ => atKeyword_of_current .when) ?_).any
    split
    · exact .pure
    · exact hpresent.closed hk

theorem unmarks_branches (s : State) :
    Unmarks .closed n n' s (tokensLeft >>= branches inner) (tokensLeft >>= branches inner') := by
  refine .tokensLeft_bind fun r r' => .rounds (fun _ : Unit => []) (fun r _ => branches_of_eof inner r)
    (fun r _ => branches_of_eof inner' r) (fun r r' ih _ t => ?_) r r' () s
  have hrest : ∀ condition t, Unmarks .closed (min n (r + 1)) (min n' (r' + 1)) t
      (expectKeyword .then >>= fun _ => inner 0 >>= fun value => branches inner r >>= fun bs =>
        pure ((condition, value) :: bs))
      (expectKeyword .then >>= fun _ => inner' 0 >>= fun value => branches inner' r' >>= fun bs =>
        pure ((condition, value) :: bs)) := by
    intro condition t
    refine .expectKeyword_bind nofun fun _ t => .bind ((hinner 0 t).fewer (by omega) (by omega)) fun value t => ?_
    exact .bind ((ih () t).fewer (by omega) (by omega)) fun _ _ => .pure
  refine .skipKeyword_bind nofun (fun _ => .bind ((hinner 0 _).fewer (by omega) (by omega)) fun condition t => ?_) .pure
  exact (hrest condition t).fewer (by omega) (by omega)

end

section
variable (hinner : UnmarksInner (n - 1) (n' - 1) inner inner')
include hinner

theorem unmarks_call (name : String) (s : State) : Unmarks .closed n n' s (call inner name) (call inner' name) :=
  .expect_bind trivial nofun nofun fun _ t => unmarks_behindOpening hinner name t

theorem unmarks_case (s : State) : Unmarks .closed n n' s (caseExpression inner) (caseExpression inner') := by
  refine .expectKeyword_bind nofun fun _ t => .bind (unmarks_caseOperand hinner t) fun operand t => ?_
  have hbranches := unmarks_branches hinner t
  simp only [← bind_assoc]
  refine .bind hbranches fun whens t => ?_
  split
  · exact .unexpected
  · exact .bind (unmarks_optional hinner (by decide) t) fun _ t => .expectKeyword_bind nofun fun _ _ => Unmarks.pure

/-! ## Names -/

omit hinner in
theorem unmarks_qualified (owner : String) (token : Token) (s : State) :
    Unmarks .closed n n' s (qualified rule owner token) (qualified rule owner token) := by
  refine .recordTable_bind fun t => .skip_bind trivial nofun nofun Unmarks.pure ?_
  exact .look_bind (fun _ _ h => congrArg Token.span h) (.expectName_bind fun _ _ => Unmarks.pure)

theorem unmarks_named (s : State) : Unmarks .closed n n' s (named rule inner) (named rule inner') := by
  refine .look_bind (fun _ _ h => h) (.expectName_bind (F := .closed) fun name t => ?_)
  have hbehind := hinner.fewer (Nat.sub_le _ 1) (Nat.sub_le _ 1)
  refine Unmarks.look_bind (fun _ _ => check_of_current .leftParen) ?_
  split
  · exact unmarks_call hbehind name t
  · exact .skip_bind trivial nofun nofun (unmarks_qualified name _ _) .pure

/-! ## Operands -/

omit hinner in
theorem unmarks_constant (value : Literal) (hk : s.cursor.kind ≠ .keyword .prior) (heof : s.cursor.kind ≠ .eof) :
    Unmarks .closed n n' s (constant value) (constant value) :=
  .advance_bind hk heof Unmarks.pure

omit hinner in
theorem unmarks_parameter (span : Span) (hk : s.cursor.kind = .question) :
    Unmarks .closed n n' s (parameter span) (parameter span) :=
  .advance_bind (hk ▸ nofun) (hk ▸ nofun) (.claimParameter_bind fun _ _ => .pure)

theorem unmarks_parenthesized (hk : s.cursor.kind = .leftParen) :
    Unmarks .closed n n' s (parenthesized inner) (parenthesized inner') := by
  refine .rejectSubquery (absurd hk) (fun _ _ => rfl) (fun _ _ => rfl) (.bind (hinner 0 _) fun e t => ?_)
  exact .expect_bind trivial nofun nofun fun _ _ => Unmarks.pure

theorem unmarks_aggregate (k : Keyword) (hk : s.cursor.kind ≠ .keyword .prior) (heof : s.cursor.kind ≠ .eof) :
    Unmarks .closed n n' s (aggregate inner k) (aggregate inner' k) :=
  .advance_bind hk heof (unmarks_call (hinner.fewer (Nat.sub_le _ 1) (Nat.sub_le _ 1)) k.text s.advanced)

theorem unmarks_primary (s : State) : Unmarks .closed n n' s (primary rule inner) (primary rule inner') := by
  have hother : Unmarks .closed n n' s
      (look (·.name?) >>= fun name? => if name?.isSome then named rule inner else unexpected "expression")
      (look (·.name?) >>= fun name? => if name?.isSome then named rule inner' else unexpected "expression") := by
    refine .look_bind (fun _ _ h => congrArg Token.name? h) ?_
    split
    · exact unmarks_named hinner s
    · exact .unexpected
  refine .look_bind (fun _ _ h => h) ?_
  have hne : ∀ {k k' : Token.Kind}, s.cursor.kind = k → k ≠ k' → s.cursor.kind ≠ k' := fun hk h => hk ▸ h
  cases hk : s.cursor.current.kind with
  | integer i => exact unmarks_constant _ (hne hk nofun) (hne hk nofun)
  | float x => exact unmarks_constant _ (hne hk nofun) (hne hk nofun)
  | string text => exact unmarks_constant _ (hne hk nofun) (hne hk nofun)
  | question => exact unmarks_parameter _ hk
  | star => exact .advance_bind (hne hk nofun) (hne hk nofun) Unmarks.pure
  | leftParen => exact unmarks_parenthesized hinner hk
  | keyword k =>
    cases k with
    | trueLiteral | falseLiteral | null => exact unmarks_constant _ (hne hk nofun) (hne hk nofun)
    | «exists» => exact .unsupported
    | count | sum | avg | min | max => exact unmarks_aggregate hinner _ (hne hk nofun) (hne hk nofun)
    | case => exact unmarks_case hinner s
    | _ => exact hother
  | _ => exact hother

/-- An operand without a mark. -/
def plainOperand (rule : Rule) (inner : Inner) : Parser Expr := do
  match prefixed? (← look (·.kind)) with
  | some op =>
    advance
    return .unary op (← inner op.level.rightStrength)
  | none => primary rule inner

omit hinner in
theorem operand_of_unmarked (hk : s.cursor.kind ≠ .keyword .prior) : operand rule inner s = plainOperand rule inner s := by
  have hprior : skipPrior s = .ok false s := by
    show (if s.priorAllowed then skipKeyword .prior else return false : Parser Bool) s = _
    cases s.priorAllowed with
    | false => rfl
    | true => exact skipKeyword_of_false (Bool.eq_false_iff.2 fun hat => hk (Cursor.kind_of_atKeyword hat))
  exact bind_of_ok hprior _

omit hinner in
theorem operand_plain (s : State) (b : Cursor) : operand rule inner (s.plain b) = plainOperand rule inner (s.plain b) :=
  rfl

theorem unmarks_operand (hk : s.cursor.kind ≠ .keyword .prior) :
    Unmarks .closed n n' s (operand rule inner) (operand rule inner') := by
  refine .congr ?_ (fun _ => operand_of_unmarked hk) (operand_plain s)
  refine .look_bind (fun _ _ h => congrArg Token.kind h) ?_
  cases hop : prefixed? s.cursor.kind with
  | none => exact unmarks_primary hinner s
  | some op =>
    have heof : s.cursor.kind ≠ .eof := fun h => by rw [h] at hop; cases hop
    exact .advance_bind hk heof (.bind (hinner _ _) fun _ _ => .pure)

/-! ## What follows an operand -/

theorem unmarks_members (tested : Expr) (negated : Bool) (s : State) :
    Unmarks .closed n n' s (members inner tested negated) (members inner' tested negated) := by
  refine .rejectSubquery (fun hk a t hr => ?_) (fun s hk => bind_of_ok (expect_of_kind hk rfl) _)
    (fun s hk => bind_of_ok (expect_of_kind hk rfl) _) (.bind (unmarks_expressionList hinner _) fun es t => ?_)
  · obtain ⟨span, t', hopening, -⟩ := ok_of_bind hr
    obtain ⟨hplace, -⟩ := (demands_expect .leftParen).of_ok hopening
    exact hk (Token.Kind.eq_of_alike (test_of_placeIf hplace) trivial)
  · exact .expect_bind trivial nofun nofun fun _ _ => Unmarks.pure

theorem unmarks_bounds (tested : Expr) (negated : Bool) (s : State) :
    Unmarks .opened (n - 1) (n' - 1) s (bounds inner tested negated) (bounds inner' tested negated) := by
  refine .bind (hinner _ s) fun low t => .expectKeyword_bind (F := .opened) nofun fun _ t => ?_
  exact (Unmarks.bind (hinner _ t) fun _ _ => .pure).fewer (by omega) (by omega)

theorem unmarks_membership (tested : Expr) (negated : Bool) (s : State) :
    Unmarks .closed n n' s (membership inner tested negated) (membership inner' tested negated) :=
  .expectKeyword_bind nofun fun _ t =>
    unmarks_members (hinner.fewer (Nat.sub_le _ 1) (Nat.sub_le _ 1)) tested negated t

theorem unmarks_range (tested : Expr) (negated : Bool) (s : State) :
    Unmarks .closed n n' s (range inner tested negated) (range inner' tested negated) :=
  .expectKeyword_bind nofun fun _ t => unmarks_bounds hinner tested negated t

theorem unmarks_binary (op : BinaryOp) (left : Expr) (hk : s.cursor.kind ≠ .keyword .prior) (heof : s.cursor.kind ≠ .eof) :
    Unmarks .closed n n' s (binary inner op left) (binary inner' op left) :=
  .advance_bind hk heof (.bind (hinner _ _) fun _ _ => .pure)

theorem unmarks_testBehindNot (tested : Expr) (s : State) :
    Unmarks .closed n n' s (testBehindNot inner tested) (testBehindNot inner' tested) := by
  refine .look_bind (fun _ _ h => congrArg (fun t : Token => t.kind.keyword?) h) ?_
  split
  · exact unmarks_membership hinner tested true s
  · exact unmarks_range hinner tested true s
  · next hlike =>
    have hk : s.cursor.kind = .keyword .like := Cursor.kind_of_atKeyword (decide_eq_true hlike)
    exact .bind (unmarks_binary hinner .like tested (hk ▸ nofun) (hk ▸ nofun)) fun _ _ => .pure
  · exact .unexpected

/-- An operator with its right side passes at least one token, whatever comes behind. -/
theorem unmarks_extend_bind {k k' : Expr → Parser β} (left : Expr) (i : Infix) (hk : s.cursor.kind ≠ .keyword .prior)
    (heof : s.cursor.kind ≠ .eof) (h : ∀ e t, Unmarks .closed (n - 1) (n' - 1) t (k e) (k' e)) :
    Unmarks .closed n n' s (extend inner left i >>= k) (extend inner' left i >>= k') := by
  have hbehind := hinner.fewer (Nat.sub_le _ 1) (Nat.sub_le _ 1)
  cases i with
  | operator op =>
    refine .reassoc (.advance_bind (F := .opened) hk heof ?_)
    exact .bind (.bind (hinner _ _) fun _ _ => .pure) h
  | is =>
    have hnull : ∀ negated t, Unmarks .closed (n - 1) (n' - 1) t
        (expectKeyword .null >>= fun _ => pure (Expr.isNull left negated))
        (expectKeyword .null >>= fun _ => pure (Expr.isNull left negated)) := fun negated t =>
      .expectKeyword_bind nofun fun _ _ => Unmarks.pure
    refine .reassoc (.advance_bind hk heof (.bind (.skipKeyword_bind (F := .closed) (by decide) (fun _ => ?_) ?_) h))
    · exact (hnull true _).fewer (by omega) (by omega)
    · exact hnull false _
  | within =>
    refine .reassoc (.expectKeyword_bind (F := .closed) nofun fun _ t => ?_)
    exact .bind (unmarks_members hbehind left false t) h
  | between =>
    refine .reassoc (.expectKeyword_bind (F := .opened) nofun fun _ t => ?_)
    exact .bind (unmarks_bounds hinner left false t) h
  | not =>
    refine .reassoc (.advance_bind (F := .closed) hk heof ?_)
    exact .bind (unmarks_testBehindNot hbehind left _) h

end

theorem unmarks_operators (hinner : UnmarksInner (n - 1) (n' - 1) inner inner') (strength : Nat) (left : Expr) (s : State) :
    Unmarks .closed n n' s (tokensLeft >>= fun rounds => operators inner strength rounds left)
      (tokensLeft >>= fun rounds => operators inner' strength rounds left) := by
  have hround : ∀ r r', (∀ left s, Unmarks .closed (min n (r + 1)) (min n' (r' + 1)) s
      (operators inner strength r left) (operators inner' strength r' left)) →
      ∀ left s, Unmarks .closed (min n (r + 2)) (min n' (r' + 2)) s (operators inner strength (r + 1) left)
        (operators inner' strength (r' + 1) left) := by
    intro r r' ih left s
    refine .look_bind (fun _ _ h => congrArg Token.kind h) ?_
    cases hi : Infix.ofKind? s.cursor.kind with
    | none => exact .pure
    | some i =>
      have hne : ∀ k, Infix.ofKind? k = none → s.cursor.kind ≠ k := fun k hk h => by rw [h, hk] at hi; cases hi
      dsimp only
      split
      · exact .pure
      · refine unmarks_extend_bind (hinner.fewer (by omega) (by omega)) left i (hne _ rfl) (hne _ rfl) fun e t => ?_
        exact (ih e t).fewer (by omega) (by omega)
  exact .tokensLeft_bind fun r r' => .rounds id (fun _ _ _ => operators_of_eof) (fun _ _ _ => operators_of_eof) hround
    r r' left s

/-! ## The knot -/

/-- No operator binds so strongly that it follows what is marked. -/
theorem operators_negation (rounds : Nat) (left : Expr) (s : State) :
    operators inner Level.negation.rightStrength rounds left s = .ok left s := by
  cases rounds with
  | zero => rfl
  | succ rounds =>
    rw [operators, look_bind_apply]
    cases hi : Infix.ofKind? s.cursor.kind with
    | none => rfl
    | some i =>
      have hlt : i.level.leftStrength < Level.negation.rightStrength := by
        cases i with
        | operator op => cases op <;> decide
        | _ => decide
      dsimp only
      rw [if_pos hlt]
      rfl

theorem operand_of_mark (hk : s.cursor.kind = .keyword .prior) (hallowed : s.priorAllowed = true) :
    operand rule inner s = inner Level.negation.rightStrength s.advanced := by
  have hprior : skipPrior s = .ok true s.advanced := by
    show (if s.priorAllowed then skipKeyword .prior else return false : Parser Bool) s = _
    rw [hallowed]
    exact skipKeyword_of_true hk
  exact bind_of_ok hprior _

/-- What stands behind a mark is the operand. -/
theorem expressionAt_negation (depth : Nat) (s : State) :
    expressionAt rule (depth + 1) Level.negation.rightStrength s = operand rule (expressionAt rule depth) s := by
  show (operand rule (expressionAt rule depth) >>= fun first => tokensLeft >>= fun rounds =>
    operators (expressionAt rule depth) Level.negation.rightStrength rounds first) s = _
  rw [bind_apply]
  cases operand rule (expressionAt rule depth) s with
  | error e t => rfl
  | ok first t => exact operators_negation t.cursor.rest.length first t

/-- An expression opens with an operand. -/
theorem Unmarks.opened {F : Front} {depth strength : Nat} {p' : Parser Expr}
    (h : Unmarks F n n' s (expressionAt rule depth strength) p') :
    Unmarks .opened n n' s (expressionAt rule depth strength) p' := by
  intro hs hlt hallowed e t hr
  obtain ⟨ht, ts, hts, -, hall⟩ := h hs hlt hallowed e t hr
  refine ⟨ht, ts, hts, ?_, hall⟩
  obtain ⟨us, hus, hbuilt⟩ := passes_inner (parses_expressionAt depth) hallowed hs e t hr
  obtain rfl := List.append_cancel_right (hts.tokens.symm.trans hus)
  exact hbuilt.written.opens

theorem unmarks_expressionAt (depth : Nat) : ∀ depth',
    UnmarksInner depth depth' (expressionAt rule depth) (expressionAt rule depth') ∧
      ∀ s, Unmarks .any (depth + 1) (depth' + 1) s (operand rule (expressionAt rule depth))
        (operand rule (expressionAt rule depth')) := by
  induction depth with
  | zero =>
    intro depth'
    have hinner : UnmarksInner 0 depth' (expressionAt rule 0) (expressionAt rule depth') := fun _ _ => .unexpected
    refine ⟨hinner, fun s => ?_⟩
    by_cases hk : s.cursor.kind = .keyword .prior
    · have hfails : Unmarks .opened (0 + 1 - 1) (depth' + 1) s.advanced
          (expressionAt rule 0 Level.negation.rightStrength) (operand rule (expressionAt rule depth')) := .unexpected
      exact .passingMark hk hfails fun hallowed => operand_of_mark hk hallowed
    · exact (unmarks_operand hinner hk).any
  | succ depth ih =>
    intro depth'
    have hinner : UnmarksInner (depth + 1) depth' (expressionAt rule (depth + 1)) (expressionAt rule depth') := by
      have hsucc : ∀ depth' strength s, Unmarks .opened (depth + 1) (depth' + 1) s (expressionAt rule (depth + 1) strength)
          (expressionAt rule (depth' + 1) strength) := by
        intro depth' strength s
        have hinner : UnmarksInner (depth + 1 - 1) (depth' + 1 - 1) (expressionAt rule depth) (expressionAt rule depth') :=
          (ih depth').1
        exact (Unmarks.bind ((ih depth').2 s) fun first t => unmarks_operators hinner strength first t).opened
      cases depth' with
      | succ depth' => exact hsucc depth'
      | zero => exact fun strength s => (hsucc 0 strength s).vacuous
    refine ⟨hinner, fun s => ?_⟩
    by_cases hk : s.cursor.kind = .keyword .prior
    · exact .passingMark hk ((ih depth').2 s.advanced) fun hallowed =>
        (operand_of_mark hk hallowed).trans (expressionAt_negation depth s.advanced)
    · exact (unmarks_operand hinner hk).any

theorem unmarks_expression (s : State) : Unmarks .opened n n' s (expression rule) (expression rule) :=
  .tokensLeft_bind fun r r' => ((unmarks_expressionAt (r + 1) (r' + 1)).1 0 s).fewer (by omega) (by omega)

end

end SelectRouting.Grammar
