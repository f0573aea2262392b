import SelectRouting.Grammar.Expression
import SelectRouting.Proofs.Nesting.Passing
/-!
# The parentheses of an expression

An expression ends at the depth where it starts (`steady_expression`).  As for its leaves, there is one lemma for each
form of operand and of operator over any parser of inner expressions, and an induction on the depth for the knot.
-/
namespace SelectRouting.Grammar

section
variable {d : Dialect} {rule : Rule} {s : State} {n : Nat} {α : Type}

/-- A parser of inner expressions that ends where it starts. -/
def SteadyInner (d : Dialect) (inner : Inner) : Prop :=
  ∀ strength, Steady d (inner strength)

section
variable {inner : Inner} (hinner : SteadyInner d inner)
include hinner

/-! ## Operands -/

theorem steady_arguments : Steady d (arguments inner) :=
  fun n => .branch .look .pure (.branch (.skip trivial rfl) .pure (.commaSeparated (hinner 0 n)))

theorem steady_call (name : String) : Steady d (call inner name) := by
  refine fun n => .bind .opening fun _ => .bind (.skipKeyword rfl) fun _ => ?_
  exact .bind (steady_arguments hinner (n + 1)) fun _ => .bind .closing fun _ => .pure

theorem steady_branches (rounds : Nat) : Steady d (branches inner rounds) := by
  intro n
  induction rounds with
  | zero => exact .pure
  | succ rounds ih =>
    refine .branch (.skipKeyword rfl) (.bind (hinner 0 n) fun _ => ?_) .pure
    exact .bind (.expectKeyword rfl) fun _ => .bind (hinner 0 n) fun _ => .bind ih fun _ => .pure

theorem steady_optional {k : Keyword} (hk : (Token.Kind.keyword k).common = true) : Steady d (optional k inner) :=
  fun n => .branch (.skipKeyword hk) (.bind (hinner 0 n) fun _ => .pure) .pure

theorem steady_caseOperand : Steady d (caseOperand inner) :=
  fun n => .branch .look .pure (.bind (hinner 0 n) fun _ => .pure)

theorem steady_case : Steady d (caseExpression inner) := by
  refine fun n => .bind (.expectKeyword rfl) fun _ => .bind (steady_caseOperand hinner n) fun _ => ?_
  refine .look_bind fun rounds => .bind (steady_branches hinner rounds n) fun whens => ?_
  split
  · exact .unexpected
  · exact .bind (steady_optional hinner rfl n) fun _ => .bind (.expectKeyword rfl) fun _ => .pure

omit hinner in
theorem steady_qualified (owner : String) (token : Token) : Steady d (qualified rule owner token) := by
  refine fun n => .bind .recordTable fun _ => .branch (.skip trivial rfl) .pure ?_
  exact .look_bind fun _ => .bind .expectName fun _ => .pure

theorem steady_named : Steady d (named rule inner) := by
  refine fun n => .look_bind fun token => .bind .expectName fun name => ?_
  exact .branch .look (steady_call hinner name n) (.branch (.skip trivial rfl) (steady_qualified name token n) .pure)

end

theorem walksAt_constant {value : Literal} (hk : s.cursor.kind.common = true) : WalksAt d s n (constant value) n :=
  .advance_bind hk .pure

theorem walksAt_parameter {span : Span} (hk : s.cursor.kind.common = true) : WalksAt d s n (parameter span) n :=
  .advance_bind hk (.bind .claimParameter fun _ => .pure)

theorem steady_skipPrior : Steady d skipPrior := by
  refine fun n => .inspect_bind fun b => ?_
  split
  · exact .skipKeyword rfl
  · exact .pure

theorem common_of_prefixed? {k : Token.Kind} {op : UnaryOp} (h : prefixed? k = some op) : k.common = true := by
  unfold prefixed? at h
  split at h <;> cases h <;> rfl

theorem common_of_ofKind? {k : Token.Kind} {i : Infix} (h : Infix.ofKind? k = some i) : k.common = true := by
  unfold Infix.ofKind? at h
  split at h <;> cases h <;> rfl

section
variable {inner : Inner} (hinner : SteadyInner d inner)
include hinner

theorem walksAt_parenthesized (hk : s.cursor.kind = .leftParen) : WalksAt d s n (parenthesized inner) n := by
  refine .look_bind ?_
  split
  · exact .unsupported
  · exact WalksAt.opening_bind hk (.bind (hinner 0 _) fun _ => .bind .closing fun _ => .pure)

theorem walksAt_aggregate {k : Keyword} (hk : s.cursor.kind.common = true) : WalksAt d s n (aggregate inner k) n :=
  .advance_bind hk (steady_call hinner k.text n)

theorem steady_primary : Steady d (primary rule inner) := by
  refine fun n s => .look_bind ?_
  split
  case h_1 hk | h_2 hk | h_3 hk | h_4 hk | h_5 hk | h_6 hk =>
    exact walksAt_constant (congrArg Token.Kind.common hk)
  case h_7 hk => exact walksAt_parameter (congrArg Token.Kind.common hk)
  case h_8 hk => exact WalksAt.advance_bind (congrArg Token.Kind.common hk) .pure
  case h_9 hk => exact walksAt_parenthesized hinner hk
  case h_10 => exact .unsupported
  case h_11 hk | h_12 hk | h_13 hk | h_14 hk | h_15 hk =>
    exact walksAt_aggregate hinner (congrArg Token.Kind.common hk)
  case h_16 => exact steady_case hinner n s
  case h_17 =>
    refine .look_bind ?_
    split
    · exact steady_named hinner n s
    · exact .unexpected

theorem steady_operand : Steady d (operand rule inner) := by
  refine fun n => .branch (steady_skipPrior n) (hinner _ n) fun s => .look_bind ?_
  split
  · next op hop => exact WalksAt.advance_bind (common_of_prefixed? hop) (.bind (hinner _ n) fun _ => .pure)
  · exact steady_primary hinner n s

/-! ## What follows an operand -/

theorem steady_membership (tested : Expr) (negated : Bool) : Steady d (membership inner tested negated) := by
  refine fun n => .bind (.expectKeyword rfl) fun _ => .branch .look .unsupported ?_
  exact .bind .opening fun _ => .bind (.commaSeparated (hinner 0 _)) fun _ => .bind .closing fun _ => .pure

theorem steady_range (tested : Expr) (negated : Bool) : Steady d (range inner tested negated) := by
  refine fun n => .bind (.expectKeyword rfl) fun _ => .bind (hinner _ n) fun _ => ?_
  exact .bind (.expectKeyword rfl) fun _ => .bind (hinner _ n) fun _ => .pure

omit hinner in
theorem walksAt_nullTest (tested : Expr) (hk : s.cursor.kind.common = true) : WalksAt d s n (nullTest tested) n :=
  .advance_bind hk (.bind (.skipKeyword rfl) fun _ => .bind (.expectKeyword rfl) fun _ => .pure)

theorem walksAt_binary {op : BinaryOp} {left : Expr} (hk : s.cursor.kind.common = true) :
    WalksAt d s n (binary inner op left) n :=
  .advance_bind hk (.bind (hinner _ n) fun _ => .pure)

theorem walksAt_negatedTest (tested : Expr) (hk : s.cursor.kind.common = true) :
    WalksAt d s n (negatedTest inner tested) n := by
  refine .advance_bind hk fun s' => .look_bind ?_
  split
  · exact steady_membership hinner tested true n s'
  · exact steady_range hinner tested true n s'
  · next hlike =>
    have hk' : s'.cursor.kind = .keyword .like := Cursor.kind_of_atKeyword (decide_eq_true hlike)
    exact WalksAt.bind (walksAt_binary hinner (congrArg Token.Kind.common hk')) fun _ => .pure
  · exact .unexpected

theorem walksAt_extend (left : Expr) (i : Infix) (hk : s.cursor.kind.common = true) :
    WalksAt d s n (extend inner left i) n := by
  cases i with
  | operator op => exact walksAt_binary hinner hk
  | is => exact walksAt_nullTest left hk
  | within => exact steady_membership hinner left false n s
  | between => exact steady_range hinner left false n s
  | not => exact walksAt_negatedTest hinner left hk

theorem steady_operators (strength rounds : Nat) (left : Expr) : Steady d (operators inner strength rounds left) := by
  intro n
  induction rounds generalizing left with
  | zero => exact .pure
  | succ rounds ih =>
    refine fun s => .look_bind ?_
    split
    · next i hi =>
      split
      · exact .pure ⟨.nil, rfl⟩
      · exact WalksAt.bind (walksAt_extend hinner left i (common_of_ofKind? hi)) ih
    · exact .pure ⟨.nil, rfl⟩

end

/-! ## The knot -/

theorem steady_expressionAt (depth : Nat) : SteadyInner d (expressionAt rule depth) := by
  induction depth with
  | zero => exact fun _ _ => .unexpected
  | succ depth ih =>
    intro strength n
    exact .bind (steady_operand ih n) fun first => .look_bind fun rounds => steady_operators ih strength rounds first n

theorem steady_expression : Steady d (expression rule) :=
  fun n => .look_bind fun tokens => steady_expressionAt (tokens + 1) 0 n

/-- That `PRIOR` is allowed makes no difference. -/
theorem steady_allowingPrior {p : Parser α} (hp : Steady d p) : Steady d (allowingPrior p) := by
  intro n s hs a s' hr
  unfold allowingPrior at hr
  cases hp' : p { s with priorAllowed := true } with
  | error e s'' =>
    rw [hp'] at hr
    cases hr
  | ok b s'' =>
    rw [hp'] at hr
    cases hr
    exact hp n { s with priorAllowed := true } hs a s'' hp'

theorem steady_hierarchicalCondition : Steady d (hierarchicalCondition rule) :=
  steady_allowingPrior steady_expression

end

end SelectRouting.Grammar
