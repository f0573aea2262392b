import SelectRouting.Proofs.Precedence.Parts
import SelectRouting.Proofs.Trace.Select
/-!
# Reading back what was printed

An expression is read up to the operators that follow it (`Resumes`): in front of its tokens the parser comes to where it
looks for the next operator, with the expression on the left.  So a left operand leads on to its operator, and any other
part ends in front of what is too loose for it.  Main statement: the text of an expression is read as that expression
(`Grammar.expression_text`).
-/
namespace SelectRouting

open Token (Kind)

namespace Expr

/-! ## Strengths -/

/-- The level of an operator that stands behind its first operand. -/
def topmost? : Expr → Option Level
  | .binary op _ _ => some op.level
  | .isNull .. | .within .. | .between .. => some .comparison
  | _ => none

/-- The topmost operator binds as strongly as asked for. -/
def Withstands (σ : Nat) (e : Expr) : Prop :=
  ∀ l, e.topmost? = some l → σ ≤ l.leftStrength

variable {e : Expr} {l : Level} {p σ : Nat}

theorem printRank_of_topmost? (h : e.topmost? = some l) : e.printRank = l.rank := by
  cases e <;> cases h <;> rfl

theorem ne_prefix_of_topmost? (h : e.topmost? = some l) (op : UnaryOp) : l ≠ op.level := by
  cases e with
  | binary op' left right =>
    cases h
    cases op <;> cases op' <;> exact nofun
  | isNull | within | between =>
    cases h
    cases op <;> exact nofun
  | _ => cases h

theorem withstands_zero : e.Withstands 0 :=
  fun _ _ => Nat.zero_le _

theorem withstands_of_lt (hσ : σ < 2 * p) (h : p ≤ e.printRank) : e.Withstands σ := by
  intro l hl
  rw [printRank_of_topmost? hl] at h
  unfold Level.leftStrength
  omega

/-- No operator behind an operand is of the level of one in front. -/
theorem withstands_prefix (op : UnaryOp) (h : op.level.rank ≤ e.printRank) : e.Withstands op.level.rightStrength := by
  intro l hl
  have hne := ne_prefix_of_topmost? hl op
  rw [printRank_of_topmost? hl] at h
  cases op <;> cases l <;> first | exact absurd rfl hne | revert h; decide

end Expr

namespace Grammar

open SelectRouting.Expr (enclosed)

variable {rule : Rule} {inner : Inner} {e left : Expr} {s : State} {k : Kind} {ks after : List Kind} {n m d c p σ : Nat}

/-! ## Operands -/

theorem skipPrior_of_faces (hs : s.Faces ks n c) : skipPrior s = .ok false s := by
  show (if s.priorAllowed then skipKeyword .prior else return false : Parser Bool) s = _
  rw [hs.unmarked]
  rfl

theorem ends_operand {Q : Expr → Prop} (hs : s.Faces (k :: ks) n c) (hk : prefixed? k = none)
    (h : Ends (primary rule inner) s after m d Q) : Ends (operand rule inner) s after m d Q := by
  refine .behind (skipPrior_of_faces hs) (.look_bind ?_)
  rw [hs.kind, leading, List.headD_cons, hk]
  exact h

theorem ends_prefixed {op : UnaryOp} (hpart : Part inner d e op.level.rank op.level.rightStrength)
    (hs : s.Faces (op.kind :: (enclosed op.level.rank e.printRank e.print ++ after)) n (d + 1))
    (hcounts : Leaf.Counts n e.leaves m) (hafter : Below op.level.rank after) :
    Ends (operand rule inner) s after m d fun e' => e'.bare = (Expr.unary op e).bare := by
  have hop : prefixed? op.kind = some op := by cases op <;> rfl
  refine .behind (skipPrior_of_faces hs) (.look_bind ?_)
  rw [hs.kind, leading, List.headD_cons, hop]
  refine .advance_bind hs fun s₁ hs₁ => .bind (hpart hs₁ hcounts hafter.halts) fun e' s₂ hs₂ h => .pure hs₂ ?_
  rw [Expr.bare_unary, Expr.bare_unary, h]

theorem ends_literal {v : Literal} (hs : s.Faces (v.kind :: after) n (d + 1)) :
    Ends (primary rule inner) s after n d fun e' => e'.bare = (Expr.literal v).bare := by
  refine .look_bind ?_
  rw [show s.cursor.current.kind = v.kind from hs.kind]
  cases v with
  | boolean b => cases b <;> exact .advance_bind hs fun s₁ hs₁ => .pure hs₁ rfl
  | integer _ | float _ | string _ | null => exact .advance_bind hs fun s₁ hs₁ => .pure hs₁ rfl

theorem ends_placeholder {i : Nat} {span : Span} (hs : s.Faces (.question :: after) n (d + 1))
    (hcounts : Leaf.Counts n (Expr.placeholder i span).leaves m) :
    Ends (primary rule inner) s after m d fun e' => e'.bare = (Expr.placeholder i span).bare := by
  rw [Expr.leaves_placeholder] at hcounts
  obtain ⟨rfl, rfl⟩ := hcounts.of_placeholder
  refine .look_bind ?_
  rw [show s.cursor.current.kind = .question from hs.kind]
  refine .advance_bind hs fun s₁ hs₁ => .bind (.claimParameter hs₁) fun i s₂ hs₂ h => .pure hs₂ ?_
  rw [Expr.bare, Expr.bare, h]

/-- A name goes on as a call, behind a point, or not at all. -/
theorem ends_named {name : String} {Q : Expr → Prop} (hs : s.Faces (.identifier name :: ks) n c)
    (h : Ends (named rule inner) s after m d Q) : Ends (primary rule inner) s after m d Q := by
  have hname : s.cursor.name?.isSome = true := by
    rw [Cursor.name?, hs.kind]
    rfl
  refine .look_bind ?_
  rw [show s.cursor.current.kind = .identifier name from hs.kind]
  refine .look_bind ?_
  rw [hname]
  exact h

theorem ends_column {owner : Option String} {name : String} {span : Span} (hafter : Apart after)
    (hs : s.Faces ((Expr.column owner name span).print ++ after) n (d + 1)) :
    Ends (primary rule inner) s after n d fun e' => e'.bare = (Expr.column owner name span).bare := by
  have hnot : ∀ j, leading after ≠ j → j.Bare → (leading after).alike j = false := fun j hne hbare =>
    Bool.eq_false_iff.2 fun halike => hne (Kind.eq_of_alike halike hbare)
  cases owner with
  | none =>
    rw [Expr.print, List.singleton_append] at hs
    refine ends_named hs (.look_bind (.expectName_bind hs fun s₁ hs₁ => .check_bind hs₁ ?_))
    rw [hnot .leftParen hafter.1 trivial]
    exact .skip_bind_of_not hs₁ (hnot .dot hafter.2 trivial) (.pure hs₁ rfl)
  | some owner =>
    rw [Expr.print] at hs
    refine ends_named hs (.look_bind (.expectName_bind hs fun s₁ hs₁ => .check_bind hs₁ ?_))
    refine .skip_bind hs₁.weaken rfl fun s₂ hs₂ => .recordTable_bind hs₂ fun s₃ hs₃ => ?_
    refine .skip_bind_of_not hs₃ rfl (.look_bind (.expectName_bind hs₃.weaken fun s₄ hs₄ => .pure hs₄ ?_))
    rw [Expr.bare, Expr.bare]

theorem ends_parenthesized (hplain : e.Plain) (hpart : Part inner d e 0 0)
    (hs : s.Faces (.leftParen :: (e.print ++ .rightParen :: after)) n (d + 1)) (hcounts : Leaf.Counts n e.leaves m) :
    Ends (primary rule inner) s after m d fun e' => e'.bare = e.bare := by
  refine .look_bind ?_
  rw [show s.cursor.current.kind = .leftParen from hs.kind]
  refine .look_bind ?_
  rw [hs.not_atSubquery (ne_of_begins (begins_print hplain _) rfl)]
  refine .advance_bind hs fun s₁ hs₁ => .bind (hpart.whole hs₁ hcounts rfl) fun e' s₂ hs₂ h => ?_
  exact .expect_bind hs₂.weaken rfl fun _ s₃ hs₃ => .pure hs₃ h

/-! ## Operators -/

/-- The parser of an expression has come to where it looks for the next operator, with an expression on the left. -/
def Resumed (rule : Rule) (d σ : Nat) (s : State) (after : List Kind) (m : Nat) (e : Expr) : Prop :=
  ∃ e' s' rounds, expressionAt rule (d + 1) σ s = operators (expressionAt rule d) σ rounds e' s' ∧
    s'.Faces after m (d + 1) ∧ after.length ≤ rounds ∧ e'.bare = e.bare

namespace Resumed

theorem of_operand (h : Ends (operand rule (expressionAt rule d)) s after m d fun e' => e'.bare = e.bare) :
    Resumed rule d σ s after m e := by
  obtain ⟨e', s', hrun, hs', he⟩ := h
  refine ⟨e', s', after.length, ?_, hs'.weaken, Nat.le_refl _, he⟩
  rw [← hs'.rest]
  exact bind_of_ok hrun _

/-- One more operator, with what stands behind it. -/
theorem extend {i : Infix} (h : Resumed rule d σ s (k :: ks) n left) (hi : Infix.ofKind? k = some i)
    (hσ : σ ≤ i.level.leftStrength) (hlength : after.length ≤ ks.length)
    (hextend : ∀ left' s', s'.Faces (k :: ks) n (d + 1) → left'.bare = left.bare →
      Ends (Grammar.extend (expressionAt rule d) left' i) s' after m d fun e' => e'.bare = e.bare) :
    Resumed rule d σ s after m e := by
  obtain ⟨left', s', rounds, hrun, hs', hrounds, hleft⟩ := h
  -- There are as many rounds as tokens, and the operator is one of them.
  obtain ⟨rounds, rfl⟩ := Nat.exists_eq_succ_of_ne_zero (n := rounds) (by rintro rfl; cases hrounds)
  obtain ⟨e', s'', hok, hs'', he⟩ := hextend left' s' hs' hleft
  refine ⟨e', s'', rounds, ?_, hs''.weaken, Nat.le_trans hlength (Nat.le_of_succ_le_succ hrounds), he⟩
  rw [hrun, operators, look_bind_apply, hs'.kind, leading, List.headD_cons, hi]
  dsimp only
  rw [if_neg (Nat.not_lt.2 hσ), bind_of_ok hok]

theorem ends (h : Resumed rule d σ s after m e) (hafter : Halts σ after) :
    Ends (expressionAt rule (d + 1) σ) s after m (d + 1) fun e' => e'.bare = e.bare := by
  obtain ⟨e', s', rounds, hrun, hs', -, he⟩ := h
  refine ⟨e', s', hrun.trans ?_, hs', he⟩
  cases rounds with
  | zero => rfl
  | succ rounds =>
    rw [operators, look_bind_apply, hs'.kind]
    cases hi : Infix.ofKind? (leading after) with
    | none => rfl
    | some i =>
      dsimp only
      rw [if_pos (hafter.weaker i hi)]
      rfl

end Resumed

/-! ## Expressions -/

/-- An expression is read up to the operators that follow it.  What is asked for bounds only an operator behind its first
operand, since the parser compares no others; and what follows must not be taken by the last operand. -/
def Resumes (rule : Rule) (e : Expr) : Prop :=
  ∀ ⦃d σ s after n m⦄, State.Faces s (e.print ++ after) n (d + 1) → Leaf.Counts n e.leaves m → e.Withstands σ →
    Below e.printRank after → Resumed rule d σ s after m e

namespace Resumes

theorem whole (h : Resumes rule e) (d : Nat) : Part (expressionAt rule d) d e 0 0 := by
  intro s after n m hs hcounts hafter
  rw [Expr.enclosed_zero] at hs
  cases d with
  | zero => exact absurd hs.fits (Nat.not_lt_zero _)
  | succ d => exact (h hs hcounts Expr.withstands_zero (hafter.below (Nat.zero_le _))).ends hafter

theorem enclosed (h : Resumes rule e) (hplain : e.Plain) (hσ : p ≤ e.printRank → e.Withstands σ)
    (hs : s.Faces (enclosed p e.printRank e.print ++ after) n (d + 1)) (hcounts : Leaf.Counts n e.leaves m)
    (hafter : Below p after) : Resumed rule d σ s after m e := by
  by_cases hp : e.printRank < p
  · -- Between parentheses nothing is asked of the expression, whatever its place asks for.
    rw [Expr.enclosed, if_pos hp, List.cons_append, List.append_assoc] at hs
    exact .of_operand (ends_operand hs rfl (ends_parenthesized hplain (h.whole d) hs hcounts))
  · rw [Expr.enclosed, if_neg hp] at hs
    have hp := Nat.not_lt.1 hp
    exact h hs hcounts (hσ hp) (hafter.mono hp)

theorem part (h : Resumes rule e) (hplain : e.Plain) (hσ : p ≤ e.printRank → e.Withstands σ) (hp : σ ≤ 2 * p) (d : Nat) :
    Part (expressionAt rule d) d e p σ := by
  intro s after n m hs hcounts hafter
  cases d with
  | zero => exact absurd hs.fits (Nat.not_lt_zero _)
  | succ d => exact (h.enclosed hplain hσ hs hcounts (hafter.below hp)).ends hafter

end Resumes

/-! ## One node -/

theorem resumes_column {owner : Option String} {name : String} {span : Span} : Resumes rule (.column owner name span) := by
  intro d σ s after n m hs hcounts _ hafter
  rw [Expr.leaves_column] at hcounts
  obtain rfl := hcounts.eq_of_none rfl
  cases owner with
  | none => exact .of_operand (ends_operand hs rfl (ends_column hafter.apart hs))
  | some owner => exact .of_operand (ends_operand hs rfl (ends_column hafter.apart hs))

theorem resumes_literal {v : Literal} : Resumes rule (.literal v) := by
  intro d σ s after n m hs hcounts _ _
  rw [Expr.leaves_literal] at hcounts
  obtain rfl := hcounts.eq_of_none rfl
  refine .of_operand (ends_operand hs ?_ (ends_literal hs))
  cases v with
  | boolean b => cases b <;> rfl
  | integer _ | float _ | string _ | null => rfl

theorem resumes_call {name : String} {distinct : Bool} {args : List Expr} (hplain : ∀ e ∈ args, e.Plain)
    (hargs : ∀ e ∈ args, Resumes rule e) : Resumes rule (.call name distinct args) := by
  intro d σ s after n m hs hcounts _ _
  rw [Expr.leaves_call] at hcounts
  simp only [Expr.print, Expr.printList_eq, List.cons_append, List.append_assoc, List.nil_append] at hs
  refine .of_operand (ends_operand hs rfl (ends_named hs (.look_bind (.expectName_bind hs fun s₁ hs₁ => ?_))))
  exact .check_bind hs₁ (ends_call hplain (fun e he => (hargs e he).whole d) hs₁.weaken hcounts)

theorem resumes_case {operand otherwise : Option Expr} {branches : List (Expr × Expr)} (hne : branches ≠ [])
    (hplain : ∀ e ∈ operand, e.Plain) (hoperand : ∀ e ∈ operand, Resumes rule e)
    (hbranches : ∀ b ∈ branches, Resumes rule b.1 ∧ Resumes rule b.2) (hotherwise : ∀ e ∈ otherwise, Resumes rule e) :
    Resumes rule (.case operand branches otherwise) := by
  intro d σ s after n m hs hcounts _ _
  simp only [Expr.print, Expr.printBranches_eq, List.cons_append, List.append_assoc, List.nil_append] at hs
  refine .of_operand (ends_operand hs rfl (.look_bind ?_))
  rw [show s.cursor.current.kind = .keyword .case from hs.kind]
  exact ends_caseExpression hne hplain (fun e he => (hoperand e he).whole d)
    (fun b hb => ⟨(hbranches b hb).1.whole d, (hbranches b hb).2.whole d⟩) (fun e he => (hotherwise e he).whole d) hs hcounts

theorem resumes_unary {op : UnaryOp} (hplain : e.Plain) (he : Resumes rule e) : Resumes rule (.unary op e) := by
  intro d σ s after n m hs hcounts _ hafter
  rw [Expr.leaves_unary] at hcounts
  exact .of_operand (ends_prefixed (he.part hplain (Expr.withstands_prefix op) (Nat.le_refl _) d) hs hcounts hafter)

theorem lt_of_le_leftStrength {l : Level} (h : σ ≤ l.leftStrength) : σ < 2 * l.rank := by
  have := l.rank_pos
  unfold Level.leftStrength at h
  omega

theorem resumes_binary {op : BinaryOp} {right : Expr} (hplain : left.Plain) (hleft : Resumes rule left)
    (hplain' : right.Plain) (hright : Resumes rule right) : Resumes rule (.binary op left right) := by
  intro d σ s after n m hs hcounts hσ hafter
  have hop : Infix.ofKind? op.kind = some (.operator op) := by cases op <;> rfl
  have hσ : σ ≤ op.level.leftStrength := hσ op.level rfl
  have hlt : op.level.rightStrength < 2 * (op.level.rank + 1) := by
    unfold Level.rightStrength
    omega
  rw [Expr.print, List.append_assoc, List.cons_append] at hs
  rw [Expr.leaves_binary] at hcounts
  obtain ⟨k, hfirst, hsecond⟩ := hcounts.split
  have hfront := hleft.enclosed hplain (Expr.withstands_of_lt (lt_of_le_leftStrength hσ)) hs hfirst
    (below_of_operator hop (Nat.le_refl _))
  refine hfront.extend hop hσ (List.length_append ▸ Nat.le_add_left _ _) fun left' s' hs' h => ?_
  exact ends_binary (hright.part hplain' (Expr.withstands_of_lt hlt) (Nat.le_of_lt hlt) d) hs' hsecond hafter h

theorem resumes_isNull {tested : Expr} {negated : Bool} (hplain : tested.Plain) (htested : Resumes rule tested) :
    Resumes rule (.isNull tested negated) := by
  intro d σ s after n m hs hcounts hσ hafter
  have hσ : σ ≤ Level.comparison.leftStrength := hσ .comparison rfl
  simp only [Expr.print, List.cons_append, List.append_assoc, List.nil_append] at hs
  rw [Expr.leaves_isNull] at hcounts
  have hfront := htested.enclosed hplain (Expr.withstands_of_lt (lt_of_le_leftStrength hσ)) hs hcounts
    (below_of_operator (i := .is) rfl (Nat.le_refl _))
  refine hfront.extend (i := .is) rfl hσ ?_ fun tested' s' hs' h => ends_nullTest hs' h
  simp only [List.length_append, List.length_cons]
  omega

/-- A test that may be negated, behind its operand. -/
theorem Resumed.of_test {w : Keyword} {i : Infix} {tested : Expr} {negated : Bool} (hplain : tested.Plain)
    (htested : Resumes rule tested) (hw : Infix.ofKind? (.keyword w) = some i) (hi : i.level = .comparison)
    (hσ : σ ≤ Level.comparison.leftStrength)
    (hs : s.Faces (enclosed Level.comparison.rank tested.printRank tested.print ++
      (Expr.marking .not negated ++ .keyword w :: ks)) n (d + 1))
    (hcounts : Leaf.Counts n tested.leaves c) (hlength : after.length ≤ ks.length) (p : Bool → Expr → Parser Expr)
    (hbare : ∀ t, Grammar.extend (expressionAt rule d) t i = p false t)
    (hnot : ∀ t s, s.advanced.cursor.keyword? = some w → negatedTest (expressionAt rule d) t s = p true t s.advanced)
    (hends : ∀ t s', s'.Faces (.keyword w :: ks) c (d + 1) → t.bare = tested.bare →
      Ends (p negated t) s' after m d fun e' => e'.bare = e.bare) : Resumed rule d σ s after m e := by
  have hwithstands := Expr.withstands_of_lt (e := tested) (lt_of_le_leftStrength hσ)
  cases negated with
  | false =>
    have hrank : i.level.rank ≤ Level.comparison.rank := Nat.le_of_eq (congrArg Level.rank hi)
    have hfront := htested.enclosed hplain hwithstands hs hcounts (below_of_operator hw hrank)
    refine hfront.extend hw (by rwa [hi]) hlength fun t s' hs' h => ?_
    rw [hbare]
    exact hends t s' hs' h
  | true =>
    have hfront := htested.enclosed hplain hwithstands hs hcounts (below_of_operator (i := .not) rfl (Nat.le_refl _))
    refine hfront.extend (i := .not) rfl hσ (Nat.le_succ_of_le hlength) fun t s' hs' h => ?_
    obtain ⟨e', s'', hrun, hend⟩ := hends t _ hs'.advanced.weaken h
    exact ⟨e', s'', (hnot t s' (Cursor.keyword?_of_kind hs'.advanced.kind)).trans hrun, hend⟩

theorem resumes_within {tested : Expr} {members : List Expr} {negated : Bool} (hne : members ≠ [])
    (hplain : tested.Plain) (htested : Resumes rule tested) (hplains : ∀ e ∈ members, e.Plain)
    (hmembers : ∀ e ∈ members, Resumes rule e) : Resumes rule (.within tested members negated) := by
  intro d σ s after n m hs hcounts hσ hafter
  simp only [Expr.print, Expr.printList_eq, List.cons_append, List.append_assoc, List.nil_append] at hs
  rw [Expr.leaves_within] at hcounts
  obtain ⟨k, hfirst, hsecond⟩ := hcounts.split
  refine .of_test hplain htested (i := .within) rfl rfl (hσ .comparison rfl) hs hfirst ?_
    (fun negated t => membership (expressionAt rule d) t negated) (fun _ => rfl) ?_ fun t s' hs' h => ?_
  · simp only [List.length_append, List.length_cons]
    omega
  · intro t s hw
    rw [negatedTest, advance, moveCursor_bind_apply, look_bind_apply]
    rw [show s.cursor.advance.keyword? = some .in from hw]
    rfl
  · exact ends_membership hne hplains (fun e he => (hmembers e he).whole d) hs' hsecond h

theorem resumes_between {tested low high : Expr} {negated : Bool} (hplain : tested.Plain) (htested : Resumes rule tested)
    (hlow : low.Plain ∧ Resumes rule low) (hhigh : high.Plain ∧ Resumes rule high) :
    Resumes rule (.between tested low high negated) := by
  intro d σ s after n m hs hcounts hσ hafter
  have hbound : ∀ e : Expr, e.Plain → Resumes rule e →
      Part (expressionAt rule d) d e Level.additive.rank Level.comparison.rightStrength := fun e hplain he =>
    he.part hplain (Expr.withstands_of_lt (by decide)) (by decide) d
  simp only [Expr.print, List.cons_append, List.append_assoc] at hs
  rw [Expr.leaves_between] at hcounts
  obtain ⟨k, hfirst, hsecond⟩ := hcounts.split
  refine .of_test hplain htested (i := .between) rfl rfl (hσ .comparison rfl) hs hfirst ?_
    (fun negated t => range (expressionAt rule d) t negated) (fun _ => rfl) ?_ fun t s' hs' h => ?_
  · simp only [List.length_append, List.length_cons]
    omega
  · intro t s hw
    rw [negatedTest, advance, moveCursor_bind_apply, look_bind_apply]
    rw [show s.cursor.advance.keyword? = some .between from hw]
    rfl
  · exact ends_range (hbound low hlow.1 hlow.2) (hbound high hhigh.1 hhigh.2) hs' hsecond hafter h

/-- **What is printed is read back**, up to the operators that follow it. -/
theorem resumes (rule : Rule) {e : Expr} : e.Plain → Resumes rule e := by
  induction e using Expr.induction_children with
  | step e ih =>
  intro h
  have hprintable := h.printable
  have hplain : ∀ c ∈ e.children, c.Plain := fun c hc => h.child hc
  have hread : ∀ c ∈ e.children, Resumes rule c := fun c hc => ih c hc (hplain c hc)
  cases e with
  | literal v => exact resumes_literal
  | column owner name span => exact resumes_column
  | placeholder i span =>
    exact fun d σ s after n m hs hcounts _ _ => .of_operand (ends_operand hs rfl (ends_placeholder hs hcounts))
  | wildcard owner | paren inner => exact hprintable.elim
  | unary op operand => exact resumes_unary (hplain _ List.mem_cons_self) (hread _ List.mem_cons_self)
  | binary op left right =>
    simp only [Expr.children, List.forall_mem_cons] at hplain hread
    exact resumes_binary hplain.1 hread.1 hplain.2.1 hread.2.1
  | isNull tested negated => exact resumes_isNull (hplain _ List.mem_cons_self) (hread _ List.mem_cons_self)
  | within tested members negated =>
    obtain ⟨htested, hmembers⟩ := List.forall_mem_cons.1 hplain
    obtain ⟨htested', hmembers'⟩ := List.forall_mem_cons.1 hread
    exact resumes_within hprintable htested htested' hmembers hmembers'
  | between tested low high negated =>
    simp only [Expr.children, List.forall_mem_cons] at hplain hread
    exact resumes_between hplain.1 hread.1 ⟨hplain.2.1, hread.2.1⟩ ⟨hplain.2.2.1, hread.2.2.1⟩
  | call name distinct args => exact resumes_call hplain hread
  | case operand branches otherwise =>
    refine resumes_case hprintable (fun e he => hplain e ?_) (fun e he => hread e ?_) (fun b hb => ⟨hread _ ?_, hread _ ?_⟩)
      fun e he => hread e ?_
    all_goals simp only [Expr.children, List.mem_append, List.mem_flatMap, Option.mem_toList]
    · exact .inl (.inl he)
    · exact .inl (.inl he)
    · exact .inl (.inr ⟨b, hb, by simp⟩)
    · exact .inl (.inr ⟨b, hb, by simp⟩)
    · exact .inr he

/-! ## Texts -/

theorem State.faces_ofSource {source : String} (hkinds : (Token.lex source).map (·.kind) = ks ++ [.eof]) :
    (State.ofSource source).Faces ks 0 (ks.length + 1) := by
  refine ⟨?_, State.complete_ofSource source, rfl, rfl, Nat.lt_succ_self _⟩
  rw [State.tokens_ofSource, hkinds]

/-- **What is printed is read back.**  The text of an expression whose parameters are numbered in the order in which they are
written is read to its end, as that expression but for parentheses and places. -/
theorem expression_text (rule : Rule) {q : Token.Quote} (hq : q ≠ .single) {e : Expr} (hplain : e.Plain)
    (hordinals : ∃ m, e.leaves.filterMap Leaf.ordinal? = List.range m) :
    ∃ e' s', expression rule (State.ofSource (e.text q)) = .ok e' s' ∧ s'.cursor.kind = .eof ∧ e'.bare = e.bare := by
  obtain ⟨m, hordinals⟩ := hordinals
  have hcounts : Leaf.Counts 0 e.leaves m := ⟨Nat.zero_le m, by rw [hordinals, List.range_eq_range', Nat.sub_zero]⟩
  have hs := State.faces_ofSource (hplain.kinds_text hq)
  have hrun : Ends (expression rule) (State.ofSource (e.text q)) [] m (e.print.length + 1) fun e' => e'.bare = e.bare := by
    have hend : Halts 0 [] := halts_of_closes rfl
    have hfront : (State.ofSource (e.text q)).Faces (e.print ++ []) 0 (e.print.length + 1) := by rwa [List.append_nil]
    refine .look_bind ?_
    rw [hs.rest]
    exact (resumes rule hplain hfront hcounts Expr.withstands_zero (hend.below (Nat.zero_le _))).ends hend
  obtain ⟨e', s', hok, hs', he⟩ := hrun
  exact ⟨e', s', hok, hs'.kind, he⟩

/-- A tree with a negated test of a difference, and parentheses around what is too loose for its place. -/
def printedTree : Expr :=
  .binary .or
    (.unary .not (.within
      (.binary .sub (.column none "a]" ⟨0, 0⟩) (.binary .sub (.literal (.integer 5)) (.placeholder 0 ⟨0, 0⟩)))
      [.unary .neg (.column (some "t") "b" ⟨0, 0⟩), .call "f" true [.literal (.string "it's")]] true))
    (.between (.isNull (.column none "c" ⟨0, 0⟩) false) (.placeholder 1 ⟨0, 0⟩)
      (.case none [(.unary .not (.literal (.boolean true)), .literal .null)] none) false)

theorem expression_text_printedTree : printedTree.text .bracket =
      "NOT [a]]] - ( 5 - ? ) NOT IN ( - [t] . [b] , [f] ( DISTINCT 'it''s' ) ) OR [c] IS NULL BETWEEN ? AND " ++
        "CASE WHEN NOT TRUE THEN NULL END" ∧
    ∃ e' s', expression .empty (State.ofSource (printedTree.text .bracket)) = .ok e' s' ∧ s'.cursor.kind = .eof ∧
      e'.bare = printedTree.bare := by
  have hplain : printedTree.Plain := by
    simp [printedTree, Expr.Plain, Expr.nodes_eq, Expr.children, Expr.Printable, twoPow]
  have hleaves : printedTree.leaves = [.column none "a]" ⟨0, 0⟩, .placeholder 0 ⟨0, 0⟩, .column (some "t") "b" ⟨0, 0⟩,
      .column none "c" ⟨0, 0⟩, .placeholder 1 ⟨0, 0⟩] := by
    simp [printedTree]
  exact ⟨by decide +kernel, expression_text .empty (by decide) hplain ⟨2, by rw [hleaves]; rfl⟩⟩

end Grammar

end SelectRouting
