import SelectRouting.Proofs.Likeness.Step
/-!
# Expressions side by side

Tokens that are alike are read to expressions that look the same (`agrees_expression`).
-/
namespace SelectRouting.Grammar.Likeness

section
variable {rule rule' : Rule} {C : Likeness rule rule'} {inner inner' : Inner}

/-- Parsers of inner expressions that agree. -/
abbrev Inners (C : Likeness rule rule') (inner inner' : Inner) : Prop :=
  ∀ strength, C.Agrees (Same (Expr.map C.view)) (inner strength) (inner' strength)

/-! ## Calls and CASE -/

section
variable (hinner : C.Inners inner inner')
include hinner

theorem agrees_arguments :
    C.Agrees (Same (List.map (Expr.map C.view))) (arguments inner) (arguments inner') :=
  .branch .check (.pure rfl) (.branch .skip (.pure rfl) (hinner 0).commaSeparated)

theorem agrees_call {name name' : String} (hname : C.view.name name = C.view.name name') :
    C.Agrees (Same (Expr.map C.view)) (call inner name) (call inner' name') := by
  refine Agrees.expect.andThen fun _ _ => Agrees.skipKeyword.bind_eq fun distinct => ?_
  refine (agrees_arguments hinner).bind fun args args' hargs => Agrees.expect.andThen fun _ _ => .pure ?_
  simp only [Same, Expr.map_call] at hargs ⊢
  rw [hname, hargs]

theorem agrees_branches (rounds : Nat) :
    C.Agrees (Same (List.map fun b : Expr × Expr => (b.1.map C.view, b.2.map C.view))) (branches inner rounds)
      (branches inner' rounds) := by
  induction rounds with
  | zero => exact .pure rfl
  | succ rounds ih =>
    refine .branch .skipKeyword ((hinner 0).bind fun condition condition' hcondition => ?_) (.pure rfl)
    refine Agrees.expectKeyword.andThen fun _ _ => (hinner 0).bind fun value value' hvalue => ?_
    exact ih.bind fun whens whens' hwhens => .pure (congrArg₂ List.cons (Prod.ext hcondition hvalue) hwhens)

theorem agrees_optional {k : Keyword} :
    C.Agrees (Same (Option.map (Expr.map C.view))) (optional k inner) (optional k inner') :=
  .branch .skipKeyword ((hinner 0).bind fun _ _ h => .pure (congrArg some h)) (.pure rfl)

theorem agrees_caseOperand :
    C.Agrees (Same (Option.map (Expr.map C.view))) (caseOperand inner) (caseOperand inner') :=
  .branch .checkKeyword (.pure rfl) ((hinner 0).bind fun _ _ h => .pure (congrArg some h))

theorem agrees_caseExpression :
    C.Agrees (Same (Expr.map C.view)) (caseExpression inner) (caseExpression inner') := by
  refine Agrees.expectKeyword.andThen fun _ _ => (agrees_caseOperand hinner).bind fun operand operand' hoperand => ?_
  refine Agrees.tokensLeft.bind_eq fun rounds => (agrees_branches hinner rounds).bind fun whens whens' hwhens => ?_
  have hempty : whens.isEmpty = whens'.isEmpty := by
    have hlength := congrArg List.isEmpty hwhens
    rwa [List.isEmpty_map, List.isEmpty_map] at hlength
  rw [hempty]
  cases whens'.isEmpty with
  | true => exact .unexpected
  | false =>
    refine (agrees_optional hinner).bind fun otherwise otherwise' hotherwise => ?_
    refine Agrees.expectKeyword.andThen fun _ _ => .pure ?_
    simp only [Same, Expr.map_case] at hoperand hwhens hotherwise ⊢
    rw [hoperand, hwhens, hotherwise]

end

/-! ## Names -/

theorem agrees_qualified {owner owner' : String} {t u : Token} (howner : C.view.name owner = C.view.name owner')
    (htu : C.token t u) : C.Agrees (Same (Expr.map C.view)) (qualified rule owner t) (qualified rule' owner' u) := by
  have howners : (some owner).map C.view.name = (some owner').map C.view.name := congrArg some howner
  refine (Agrees.recordTable howner htu).andThen fun _ _ => .branch .skip (.pure ?_) ?_
  · rw [Same, Expr.map_wildcard, Expr.map_wildcard, howners]
  · refine Agrees.span.bind fun span span' hspans => Agrees.expectName.bind fun column column' h => .pure ?_
    obtain ⟨t', u', htu', hspan, hspan'⟩ := hspans
    rw [Same, Expr.map_column, Expr.map_column, howners, h, hspan, hspan', C.wideSpan htu htu']

theorem agrees_named (hinner : C.Inners inner inner') :
    C.Agrees (Same (Expr.map C.view)) (named rule inner) (named rule' inner') := by
  refine Agrees.current.bind fun t u htu => Agrees.expectName.bind fun name name' hname => ?_
  refine .branch .check (agrees_call hinner hname) (.branch .skip (agrees_qualified hname htu) (.pure ?_))
  rw [Same, Expr.map_column, Expr.map_column, hname, C.span htu]

/-! ## Operands -/

theorem agrees_constant (value : Literal) : C.Agrees (Same (Expr.map C.view)) (constant value) (constant value) :=
  Agrees.advance.andThen fun _ _ => .pure rfl

theorem agrees_parameter {span span' : Span} (hspan : C.Places span span') :
    C.Agrees (Same (Expr.map C.view)) (parameter span) (parameter span') := by
  obtain ⟨t, u, htu, rfl, rfl⟩ := hspan
  refine Agrees.advance.andThen fun _ _ => Agrees.claimParameter.bind_eq fun ordinal => .pure ?_
  rw [Same, Expr.map_placeholder, Expr.map_placeholder, C.span htu]

theorem agrees_star : C.Agrees (Same (Expr.map C.view)) (advance >>= fun _ => pure (Expr.wildcard none))
    (advance >>= fun _ => pure (Expr.wildcard none)) :=
  Agrees.advance.andThen fun _ _ => .pure rfl

section
variable (hinner : C.Inners inner inner')
include hinner

theorem agrees_parenthesized :
    C.Agrees (Same (Expr.map C.view)) (parenthesized inner) (parenthesized inner') := by
  refine .branch .atSubquery .unsupported (Agrees.advance.andThen fun _ _ => (hinner 0).bind fun e e' h => ?_)
  refine Agrees.expect.andThen fun _ _ => .pure ?_
  rw [Same, Expr.map_paren, Expr.map_paren, h]

theorem agrees_aggregate (k : Keyword) : C.Agrees (Same (Expr.map C.view)) (aggregate inner k) (aggregate inner' k) :=
  Agrees.advance.andThen fun _ _ => agrees_call hinner rfl

theorem agrees_primary : C.Agrees (Same (Expr.map C.view)) (primary rule inner) (primary rule' inner') := by
  have hother : C.Agrees (Same (Expr.map C.view))
      (look (·.name?) >>= fun name? => if name?.isSome then named rule inner else unexpected "expression")
      (look (·.name?) >>= fun name? => if name?.isSome then named rule' inner' else unexpected "expression") := by
    have hname : C.Agrees (Same (Option.map C.view.name)) (look (·.name?)) (look (·.name?)) :=
      .look fun _ _ hc => hc.name?_same
    refine hname.bind fun name? name?' h => ?_
    have hsome : name?.isSome = name?'.isSome := by
      have := congrArg Option.isSome h
      rwa [Option.isSome_map, Option.isSome_map] at this
    rw [hsome]
    cases name?'.isSome with
    | true => exact agrees_named hinner
    | false => exact .unexpected
  refine Agrees.current.bind fun t u htu => ?_
  have hplace : C.Places t.span u.span := ⟨t, u, htu, rfl, rfl⟩
  rcases eq_or_names htu with hkind | ⟨name, name', ht, hu, -⟩
  · rw [hkind]
    cases u.kind with
    | integer n => exact agrees_constant _
    | float x => exact agrees_constant _
    | string s => exact agrees_constant _
    | question => exact agrees_parameter hplace
    | star => exact agrees_star
    | leftParen => exact agrees_parenthesized hinner
    | keyword k =>
      cases k with
      | trueLiteral | falseLiteral | null => exact agrees_constant _
      | «exists» => exact .unsupported
      | count | sum | avg | min | max => exact agrees_aggregate hinner _
      | case => exact agrees_caseExpression hinner
      | _ => exact hother
    | _ => exact hother
  · rw [ht, hu]
    exact hother

theorem agrees_operand : C.Agrees (Same (Expr.map C.view)) (operand rule inner) (operand rule' inner') := by
  have hprior : C.Agrees Eq skipPrior skipPrior :=
    .branch (.inspect fun _ _ hs => hs.priorAllowed) .skipKeyword (.pure rfl)
  have hsign : C.Agrees (Same prefixed?) (look (·.kind)) (look (·.kind)) :=
    .look fun _ _ hc => kind_congr hc.current prefixed? fun _ _ => rfl
  refine .branch hprior (hinner _) (hsign.bind fun k k' h => ?_)
  rw [Same] at h
  rw [h]
  cases prefixed? k' with
  | none => exact agrees_primary hinner
  | some op =>
    refine Agrees.advance.andThen fun _ _ => (hinner _).bind fun e e' h => .pure ?_
    rw [Same, Expr.map_unary, Expr.map_unary, h]

/-! ## What follows an operand -/

section
variable {tested tested' : Expr} (htested : tested.map C.view = tested'.map C.view)
include htested

theorem agrees_membership (negated : Bool) :
    C.Agrees (Same (Expr.map C.view)) (membership inner tested negated) (membership inner' tested' negated) := by
  refine Agrees.expectKeyword.andThen fun _ _ => .branch .atSubquery .unsupported ?_
  refine Agrees.expect.andThen fun _ _ => (hinner 0).commaSeparated.bind fun members members' hmembers => ?_
  refine Agrees.expect.andThen fun _ _ => .pure ?_
  rw [Same, Expr.map_within, Expr.map_within, htested, hmembers]

theorem agrees_range (negated : Bool) :
    C.Agrees (Same (Expr.map C.view)) (range inner tested negated) (range inner' tested' negated) := by
  refine Agrees.expectKeyword.andThen fun _ _ => (hinner _).bind fun low low' hlow => ?_
  refine Agrees.expectKeyword.andThen fun _ _ => (hinner _).bind fun high high' hhigh => .pure ?_
  rw [Same, Expr.map_between, Expr.map_between, htested, hlow, hhigh]

omit hinner in
theorem agrees_nullTest : C.Agrees (Same (Expr.map C.view)) (nullTest tested) (nullTest tested') := by
  refine Agrees.advance.andThen fun _ _ => Agrees.skipKeyword.bind_eq fun negated => ?_
  refine Agrees.expectKeyword.andThen fun _ _ => .pure ?_
  rw [Same, Expr.map_isNull, Expr.map_isNull, htested]

theorem agrees_binary (op : BinaryOp) :
    C.Agrees (Same (Expr.map C.view)) (binary inner op tested) (binary inner' op tested') := by
  refine Agrees.advance.andThen fun _ _ => (hinner _).bind fun right right' h => .pure ?_
  rw [Same, Expr.map_binary, Expr.map_binary, htested, h]

theorem agrees_negatedTest :
    C.Agrees (Same (Expr.map C.view)) (negatedTest inner tested) (negatedTest inner' tested') := by
  refine Agrees.advance.andThen fun _ _ => Agrees.keyword?.bind_eq fun k? => ?_
  split
  · exact agrees_membership hinner htested true
  · exact agrees_range hinner htested true
  · refine (agrees_binary hinner htested .like).bind fun e e' h => .pure ?_
    rw [Same, Expr.map_unary, Expr.map_unary, h]
  · exact .unexpected

theorem agrees_extend (i : Infix) :
    C.Agrees (Same (Expr.map C.view)) (extend inner tested i) (extend inner' tested' i) := by
  cases i with
  | operator op => exact agrees_binary hinner htested op
  | is => exact agrees_nullTest htested
  | within => exact agrees_membership hinner htested false
  | between => exact agrees_range hinner htested false
  | not => exact agrees_negatedTest hinner htested

end

theorem agrees_operators (strength rounds : Nat) {left left' : Expr} (hleft : left.map C.view = left'.map C.view) :
    C.Agrees (Same (Expr.map C.view)) (operators inner strength rounds left)
      (operators inner' strength rounds left') := by
  induction rounds generalizing left left' with
  | zero => exact .pure hleft
  | succ rounds ih =>
    have hinfix : C.Agrees (Same Infix.ofKind?) (look (·.kind)) (look (·.kind)) :=
      .look fun _ _ hc => kind_congr hc.current Infix.ofKind? fun _ _ => rfl
    refine hinfix.bind fun k k' h => ?_
    rw [Same] at h
    rw [h]
    cases Infix.ofKind? k' with
    | none => exact .pure hleft
    | some i =>
      show C.Agrees _ (if i.level.leftStrength < strength then pure left
        else extend inner left i >>= operators inner strength rounds)
        (if i.level.leftStrength < strength then pure left'
        else extend inner' left' i >>= operators inner' strength rounds)
      split
      · exact .pure hleft
      · exact (agrees_extend hinner hleft i).bind fun e e' h => ih h

end

/-! ## The knot -/

theorem agrees_expressionAt (depth : Nat) : C.Inners (expressionAt rule depth) (expressionAt rule' depth) := by
  induction depth with
  | zero => exact fun _ => .unexpected
  | succ depth ih =>
    refine fun strength => (agrees_operand ih).bind fun first first' h => Agrees.tokensLeft.bind_eq fun rounds => ?_
    exact agrees_operators ih strength rounds h

theorem agrees_expression : C.Agrees (Same (Expr.map C.view)) (expression rule) (expression rule') :=
  Agrees.tokensLeft.bind_eq fun n => agrees_expressionAt (n + 1) 0

theorem agrees_hierarchicalCondition :
    C.Agrees (Same (Expr.map C.view)) (hierarchicalCondition rule) (hierarchicalCondition rule') := by
  intro s s' hs
  have hallowed := agrees_expression (C := C) { s with priorAllowed := true } { s' with priorAllowed := true }
    { hs with priorAllowed := rfl }
  unfold hierarchicalCondition allowingPrior
  generalize expression rule { s with priorAllowed := true } = r,
    expression rule' { s' with priorAllowed := true } = r' at hallowed
  cases hallowed with
  | ok value state => exact .ok value { state with priorAllowed := rfl }
  | error error => exact .error error

end

end SelectRouting.Grammar.Likeness
