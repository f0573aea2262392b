import SelectRouting.Proofs.Nesting.Passing
import SelectRouting.Proofs.Precedence.Written
import SelectRouting.Proofs.Trace.Expression
import SelectRouting.Proofs.Trace.Select
/-!
# What is passed is what the tree is written with

An expression that is read from any place of a text is written with the tokens passed, none of them lost, and its operands
fit their operators (`written_of_expression`).  The loop over operators keeps this: what has been read so far may stand on
the left of whatever operator comes next, and the right side of an operator ends in front of one that does not bind tighter.
-/
namespace SelectRouting.Grammar

open SelectRouting.Expr (Written WrittenList WrittenOptional WrittenBranches WrittenElse)
open Token (Marking)

section
variable {rule : Rule} {prior : Bool} {strength : Nat} {s s' : State} {e : Expr} {ts : List Token}

/-! ## Guarantees -/

/-- What is known of an expression and the tokens passed for it. -/
structure Built (prior : Bool) (e : Expr) (ts : List Token) (s' : State) : Prop where
  written : Written prior e ts
  grouped : e.Grouped
  allowed : s'.priorAllowed = prior

/-- An expression may stand on the left of the operator that comes next. -/
def Precedes (e : Expr) (k : Token.Kind) : Prop :=
  ∀ i, Infix.ofKind? k = some i → e.FitsLeft i.level

/-- An operand, or what has been made of it: next to its strength it can be the right side of an operator. -/
structure Parsed (prior : Bool) (strength : Nat) (e : Expr) (ts : List Token) (s' : State) : Prop
    extends Built prior e ts s' where
  precedes : Precedes e s'.cursor.kind
  tight : min strength 13 < 2 * e.rank ∨ e.Negation

/-- What an operator of a level has made of its left side. -/
structure Extended (prior : Bool) (l : Level) (e : Expr) (ts : List Token) (s' : State) : Prop
    extends Built prior e ts s' where
  precedes : Precedes e s'.cursor.kind
  bound : l.rank ≤ e.rank

/-- The next operator is not strong enough. -/
def Stops (strength : Nat) (k : Token.Kind) : Prop :=
  ∀ i, Infix.ofKind? k = some i → i.level.leftStrength < strength

/-- A parser of inner expressions reads what it passes. -/
def ParsesInner (prior : Bool) (inner : Inner) : Prop :=
  ∀ strength s, s.priorAllowed = prior →
    Passes s (inner strength) fun e ts s' => Parsed prior strength e ts s' ∧ Stops strength s'.cursor.kind

theorem Parsed.fitsRight {l : Level} (h : Parsed prior l.rightStrength e ts s') (hl : l ≠ .negation) : e.FitsRight l := by
  refine h.tight.imp_left fun h => ?_
  cases l with
  | negation => exact absurd rfl hl
  | _ =>
    simp only [Level.rightStrength, Level.rank] at h ⊢
    omega

/-- What ends with the right side of an operator may stand on the left of whatever stops that. -/
theorem Stops.precedes {l : Level} {k : Token.Kind} (h : Stops l.rightStrength k) (he : l.rank ≤ e.rank) :
    Precedes e k := by
  refine fun i hi => .inl (Nat.le_trans ?_ he)
  have h := h i hi
  unfold Level.leftStrength Level.rightStrength at h
  omega

theorem precedes_of_rank {k : Token.Kind} (he : Level.multiplicative.rank ≤ e.rank) : Precedes e k := by
  intro i _
  refine .inl (Nat.le_trans ?_ he)
  cases i with
  | operator op => cases op <;> decide
  | _ => decide

/-- An operand without an operator. -/
theorem Parsed.of_atom (hb : Built prior e ts s') (he : e.rank = Level.negation.rank + 1) :
    Parsed prior strength e ts s' := by
  refine { hb with precedes := precedes_of_rank (he ▸ by decide), tight := .inl ?_ }
  rw [he]
  exact Nat.lt_of_le_of_lt (Nat.min_le_right _ _) (by decide)

/-- To pass a token does not change whether `PRIOR` is allowed. -/
theorem allowed_advanced (hs : s.priorAllowed = prior) : s.advanced.priorAllowed = prior :=
  hs

theorem built_of_leaf (hw : Written prior e ts) (hfit : e.OperandsFit) (hchildren : e.children = [])
    (hs : s'.priorAllowed = prior) : Built prior e ts s' :=
  ⟨hw, Expr.grouped_of_children hfit (hchildren ▸ List.forall_mem_nil _), hs⟩

section
variable {inner : Inner} (hinner : ParsesInner prior inner)
include hinner

theorem passes_inner (hs : s.priorAllowed = prior) : Passes s (inner strength) (Built prior) :=
  (hinner strength s hs).mono fun _ _ _ h => h.1.toBuilt

/-! ## Lists and branches -/

theorem passes_separated (rounds : Nat) (hs : s.priorAllowed = prior) :
    Passes s (separated (inner 0) rounds) fun es ts s' =>
      WrittenList prior es ts ∧ es ≠ [] ∧ (∀ e ∈ es, e.Grouped) ∧ s'.priorAllowed = prior := by
  induction rounds generalizing s with
  | zero =>
    refine (passes_inner hinner hs).bind fun e ts s' h => .pure ?_
    rw [List.append_nil]
    exact ⟨.single h.written, List.cons_ne_nil _ _, List.forall_mem_singleton.2 h.grouped, h.allowed⟩
  | succ rounds ih =>
    refine (passes_inner hinner hs).bind fun e ts s' h => .skip_bind trivial nofun (fun hcomma => ?_) (.pure ?_)
    · refine (ih (allowed_advanced h.allowed)).bind fun es us s'' ⟨hes, hne, hgrouped, hs''⟩ => .pure ?_
      rw [List.append_nil]
      exact ⟨.cons h.written hcomma hne hes, List.cons_ne_nil _ _, List.forall_mem_cons.2 ⟨h.grouped, hgrouped⟩, hs''⟩
    · rw [List.append_nil]
      exact ⟨.single h.written, List.cons_ne_nil _ _, List.forall_mem_singleton.2 h.grouped, h.allowed⟩

theorem passes_expressionList (hs : s.priorAllowed = prior) : Passes s (expressionList inner) fun es ts s' =>
    WrittenList prior es ts ∧ es ≠ [] ∧ (∀ e ∈ es, e.Grouped) ∧ s'.priorAllowed = prior :=
  .look_bind (passes_separated hinner _ hs)

theorem passes_branches (rounds : Nat) (hs : s.priorAllowed = prior) :
    Passes s (branches inner rounds) fun bs ts s' =>
      WrittenBranches prior bs ts ∧ (∀ b ∈ bs, b.1.Grouped ∧ b.2.Grouped) ∧ s'.priorAllowed = prior := by
  induction rounds generalizing s with
  | zero => exact .pure ⟨.nil, List.forall_mem_nil _, hs⟩
  | succ rounds ih =>
    refine .skipKeyword_bind (fun hwhen => ?_) fun _ => .pure ⟨.nil, List.forall_mem_nil _, hs⟩
    refine (passes_inner hinner (allowed_advanced hs)).bind fun condition ts s₁ hcondition => ?_
    refine .expectKeyword_bind fun hthen => ?_
    refine (passes_inner hinner (allowed_advanced hcondition.allowed)).bind fun value us s₂ hvalue => ?_
    refine (ih hvalue.allowed).bind fun bs vs s₃ ⟨hbs, hgrouped, hs₃⟩ => .pure ?_
    rw [List.append_nil]
    exact ⟨.cons hwhen hcondition.written hthen hvalue.written hbs,
      List.forall_mem_cons.2 ⟨⟨hcondition.grouped, hvalue.grouped⟩, hgrouped⟩, hs₃⟩

theorem passes_caseOperand (hs : s.priorAllowed = prior) : Passes s (caseOperand inner) fun e? ts s' =>
    WrittenOptional prior e? ts ∧ (∀ e ∈ e?, e.Grouped) ∧ s'.priorAllowed = prior := by
  refine .look_bind ?_
  split
  · exact .pure ⟨.absent, nofun, hs⟩
  · refine (passes_inner hinner hs).bind fun e ts s' h => .pure ?_
    rw [List.append_nil]
    refine ⟨.present h.written, ?_, h.allowed⟩
    rintro _ ⟨⟩
    exact h.grouped

theorem passes_else (hs : s.priorAllowed = prior) : Passes s (optional .else inner) fun e? ts s' =>
    WrittenElse prior e? ts ∧ (∀ e ∈ e?, e.Grouped) ∧ s'.priorAllowed = prior := by
  refine .skipKeyword_bind (fun helse => ?_) fun _ => .pure ⟨.absent, nofun, hs⟩
  refine (passes_inner hinner (allowed_advanced hs)).bind fun e ts s' h => .pure ?_
  rw [List.append_nil]
  refine ⟨.present helse h.written, ?_, h.allowed⟩
  rintro _ ⟨⟩
  exact h.grouped

/-! ## Operands -/

theorem passes_case (hs : s.priorAllowed = prior) : Passes s (caseExpression inner) (Parsed prior strength) := by
  refine .expectKeyword_bind fun hcase => ?_
  refine (passes_caseOperand hinner (allowed_advanced hs)).bind fun operand ts s₁ hoperand => ?_
  refine .look_bind ((passes_branches hinner _ hoperand.2.2).bind fun whens us s₂ hwhens => ?_)
  split
  · exact .unexpected
  · refine (passes_else hinner hwhens.2.2).bind fun otherwise vs s₃ hotherwise => ?_
    refine .expectKeyword_bind fun hend => .pure (.of_atom ⟨?_, ?_, hotherwise.2.2⟩ rfl)
    · exact .case hcase hoperand.1 hwhens.1 hotherwise.1 hend
    · refine Expr.grouped_of_children trivial fun c hc => ?_
      simp only [Expr.children, List.mem_append, Option.mem_toList, List.mem_flatMap, List.mem_cons, List.not_mem_nil,
        or_false] at hc
      rcases hc with (hc | ⟨b, hb, rfl | rfl⟩) | hc
      · exact hoperand.2.1 c hc
      · exact (hwhens.2.1 b hb).1
      · exact (hwhens.2.1 b hb).2
      · exact hotherwise.2.1 c hc

theorem passes_arguments (hs : s.priorAllowed = prior) : Passes s (arguments inner) fun es ts s' =>
    WrittenList prior es ts ∧ (∀ e ∈ es, e.Grouped) ∧ s'.priorAllowed = prior := by
  refine .look_bind ?_
  split
  · exact .pure ⟨.nil, List.forall_mem_nil _, hs⟩
  · refine .skip_bind trivial nofun (fun hstar => .pure ⟨.single (.star hstar), ?_, hs⟩) ?_
    · exact List.forall_mem_singleton.2 (Expr.grouped_of_children trivial (List.forall_mem_nil _))
    · exact (passes_expressionList hinner hs).mono fun _ _ _ ⟨hes, _, hgrouped, hs'⟩ => ⟨hes, hgrouped, hs'⟩

/-- A call behind the token that names it. -/
theorem passes_call {name : String} {f : Token} (hf : f.functionName? = some name) (hs : s.priorAllowed = prior) :
    Passes s (call inner name) fun e ts => Parsed prior strength e (f :: ts) := by
  refine .expect_bind trivial nofun fun hopening => ?_
  have hbehind : ∀ {s₁ : State} {distinct : Bool} {ds : List Token}, Marking .distinct distinct ds →
      s₁.priorAllowed = prior → Passes s₁ (arguments inner >>= fun args => expect .rightParen >>= fun _ =>
        pure (.call name distinct args)) fun e ts => Parsed prior strength e (f :: s.cursor.current :: (ds ++ ts)) := by
    intro s₁ distinct ds hds hs₁
    refine (passes_arguments hinner hs₁).bind fun args ts s₂ ⟨hargs, hgrouped, hs₂⟩ => ?_
    refine .expect_bind trivial nofun fun hclosing => .pure (.of_atom ⟨?_, ?_, hs₂⟩ rfl)
    · exact .call hf hopening hds hargs hclosing
    · exact Expr.grouped_of_children trivial hgrouped
  exact .skipKeyword_bind (fun hword => hbehind (.present hword) hs) fun _ => hbehind .absent hs

end

/-! ### Names -/

theorem passes_recordTable {name : String} {t : Token} : Passes s (recordTable rule name t) fun _ ts s' =>
    ts = [] ∧ s'.priorAllowed = s.priorAllowed := by
  unfold recordTable
  split
  · exact .modify ⟨rfl, rfl⟩
  · exact .pure ⟨rfl, rfl⟩

/-- Behind an owner and its point. -/
theorem passes_qualified {owner : String} {o dot : Token} (ho : o.name? = some owner) (hdot : dot.kind = .dot)
    (hs : s.priorAllowed = prior) :
    Passes s (qualified rule owner o) fun e ts => Parsed prior strength e (o :: dot :: ts) := by
  refine passes_recordTable.bind fun _ ts s₁ => ?_
  rintro ⟨rfl, hs₁⟩
  refine .skip_bind trivial nofun (fun hstar => .pure ?_) (.look_bind (.expectName_bind fun name hname => .pure ?_))
  · exact .of_atom (built_of_leaf (.qualifiedStar ho hdot hstar) trivial rfl (hs₁.trans hs)) rfl
  · exact .of_atom (built_of_leaf (.qualified ho hdot hname) trivial rfl (hs₁.trans hs)) rfl

theorem functionName?_eq {t : Token} (h : ∀ k, t.kind = .keyword k → k.isAggregate = false) :
    t.functionName? = t.name? := by
  unfold Token.functionName?
  split
  · next k hk => rw [h k hk, if_neg Bool.false_ne_true]
  · rfl

section
variable {inner : Inner} (hinner : ParsesInner prior inner)
include hinner

theorem passes_named (hs : s.priorAllowed = prior) (hf : s.cursor.current.functionName? = s.cursor.current.name?) :
    Passes s (named rule inner) (Parsed prior strength) := by
  refine .look_bind (.expectName_bind fun name hname => .look_bind ?_)
  have hname : s.cursor.current.name? = some name := hname
  split
  · exact passes_call hinner (hf.trans hname) (allowed_advanced hs)
  · refine .skip_bind trivial nofun (fun hdot => passes_qualified hname hdot (allowed_advanced hs)) (.pure ?_)
    exact .of_atom (built_of_leaf (.column hname) trivial rfl hs) rfl

omit hinner in
theorem passes_constant {value : Literal} (hk : s.cursor.kind = value.kind) (hs : s.priorAllowed = prior) :
    Passes s (constant value) (Parsed prior strength) := by
  have hne : s.cursor.kind ≠ .eof := by
    rw [hk]
    cases value with
    | boolean b => cases b <;> nofun
    | _ => nofun
  exact .advance_bind hne (.pure (.of_atom (built_of_leaf (.literal hk) trivial rfl hs) rfl))

omit hinner in
theorem passes_parameter {span : Span} (hk : s.cursor.kind = .question) (hs : s.priorAllowed = prior) :
    Passes s (parameter span) (Parsed prior strength) := by
  have hclaim : Passes s.advanced claimParameter fun _ ts s' => ts = [] ∧ s'.priorAllowed = prior := by
    intro _ ordinal s' hr
    cases hr
    exact ⟨[], rfl, rfl, hs⟩
  refine .advance_bind (hk ▸ nofun) (hclaim.bind fun ordinal ts s' => ?_)
  rintro ⟨rfl, hs'⟩
  exact .pure (.of_atom (built_of_leaf (.placeholder hk) trivial rfl hs') rfl)

theorem passes_parenthesized (hk : s.cursor.kind = .leftParen) (hs : s.priorAllowed = prior) :
    Passes s (parenthesized inner) (Parsed prior strength) := by
  refine .look_bind ?_
  split
  · exact .unsupported
  · refine .advance_bind (hk ▸ nofun) ((passes_inner hinner (allowed_advanced hs)).bind fun e ts s' h => ?_)
    refine .expect_bind trivial nofun fun hclosing => .pure (.of_atom ⟨.paren hk h.written hclosing, ?_, h.allowed⟩ rfl)
    exact Expr.grouped_of_children trivial (List.forall_mem_singleton.2 h.grouped)

theorem passes_aggregate {k : Keyword} (hk : s.cursor.kind = .keyword k) (haggregate : k.isAggregate = true)
    (hs : s.priorAllowed = prior) : Passes s (aggregate inner k) (Parsed prior strength) := by
  have hf : s.cursor.current.functionName? = some k.text := by
    have hk : s.cursor.current.kind = .keyword k := hk
    unfold Token.functionName?
    rw [hk]
    exact if_pos haggregate
  exact .advance_bind (hk ▸ nofun) (passes_call hinner hf (allowed_advanced hs))

theorem passes_primary (hs : s.priorAllowed = prior) : Passes s (primary rule inner) (Parsed prior strength) := by
  refine .look_bind ?_
  split
  case h_1 hk | h_2 hk | h_3 hk | h_4 hk | h_5 hk | h_6 hk => exact passes_constant hk hs
  case h_7 hk => exact passes_parameter hk hs
  case h_8 hk =>
    have hne : s.cursor.kind ≠ .eof := fun h => nomatch hk.symm.trans h
    exact .advance_bind hne (.pure (.of_atom (built_of_leaf (.star hk) trivial rfl hs) rfl))
  case h_9 hk => exact passes_parenthesized hinner hk hs
  case h_10 => exact .unsupported
  case h_11 hk | h_12 hk | h_13 hk | h_14 hk | h_15 hk => exact passes_aggregate hinner hk rfl hs
  case h_16 => exact passes_case hinner hs
  case h_17 =>
    refine .look_bind ?_
    split
    · refine passes_named hinner hs (functionName?_eq fun k hk => ?_)
      cases k <;> first | rfl | simp_all
    · exact .unexpected

omit hinner in
theorem kind_of_prefixed? {k : Token.Kind} {op : UnaryOp} (h : prefixed? k = some op) : k = op.kind := by
  unfold prefixed? at h
  split at h <;> cases h <;> rfl

omit hinner in
theorem passes_skipPrior (hs : s.priorAllowed = prior) : Passes s skipPrior fun b ts s' =>
    s'.priorAllowed = prior ∧ ((b = false ∧ ts = []) ∨
      (b = true ∧ prior = true ∧ ∃ t : Token, t.kind = .keyword .prior ∧ ts = [t])) := by
  refine .inspect_bind ?_
  split
  · next hallowed =>
    rw [← bind_pure (skipKeyword .prior)]
    refine .skipKeyword_bind (fun hk => .pure ⟨hs, .inr ⟨rfl, hs.symm.trans hallowed, ?_⟩⟩) fun _ => ?_
    · exact ⟨s.cursor.current, hk, rfl⟩
    · exact .pure ⟨hs, .inl ⟨rfl, rfl⟩⟩
  · exact .pure ⟨hs, .inl ⟨rfl, rfl⟩⟩

theorem passes_prefixed {op : UnaryOp} (hk : s.cursor.kind = op.kind) (hs : s.priorAllowed = prior) :
    Passes s (advance >>= fun _ => inner op.level.rightStrength >>= fun e => pure (.unary op e))
      (Parsed prior strength) := by
  have hne : s.cursor.kind ≠ .eof := by
    rw [hk]
    cases op <;> nofun
  refine .advance_bind hne ((hinner _ _ (allowed_advanced hs)).bind fun e ts s' ⟨h, hstops⟩ => .pure ?_)
  rw [List.append_nil]
  refine ⟨⟨.unary hk h.written, ?_, h.allowed⟩, hstops.precedes (Expr.level_le_rank_unary op e), ?_⟩
  · exact Expr.grouped_of_children trivial (List.forall_mem_singleton.2 h.grouped)
  · cases op with
    | neg => exact .inl (Nat.lt_of_le_of_lt (Nat.min_le_right _ _) (Nat.lt_succ_self 13))
    | not => exact .inr trivial

theorem passes_operand (hs : s.priorAllowed = prior) : Passes s (operand rule inner) (Parsed prior strength) := by
  refine (passes_skipPrior hs).bind fun b ts s₁ => ?_
  rintro ⟨hs₁, ⟨rfl, rfl⟩ | ⟨rfl, hprior, t, ht, rfl⟩⟩
  · refine .look_bind ?_
    split
    · next op hop => exact passes_prefixed hinner (kind_of_prefixed? hop) hs₁
    · exact passes_primary hinner hs₁
  · -- What is marked binds as tightly as what has a minus in front, so it may be an operand of anything.
    refine (hinner _ _ hs₁).mono fun e ts s' ⟨h, _⟩ => ?_
    have htight : 13 < 2 * e.rank ∨ e.Negation := h.tight
    exact ⟨⟨.marked hprior ht h.written, h.grouped, h.allowed⟩, h.precedes,
      htight.imp_left (Nat.lt_of_le_of_lt (Nat.min_le_right _ _))⟩

/-! ## Operators -/

omit hinner in
theorem kind_of_ofKind? {k : Token.Kind} {i : Infix} (h : Infix.ofKind? k = some i) :
    k = match i with
      | .operator op => op.kind
      | .is => .keyword .is
      | .within => .keyword .in
      | .between => .keyword .between
      | .not => .keyword .not := by
  unfold Infix.ofKind? at h
  split at h <;> cases h <;> rfl

omit hinner in
theorem level_ne_negation (op : BinaryOp) : op.level ≠ .negation := by
  cases op <;> nofun

/-- An operator and its right side. -/
theorem passes_binary {op : BinaryOp} {left : Expr} (hk : s.cursor.kind = op.kind) (hs : s.priorAllowed = prior) :
    Passes s (binary inner op left) fun e ts s' => ∃ right us, e = .binary op left right ∧
      ts = s.cursor.current :: us ∧ Built prior right us s' ∧ right.FitsRight op.level ∧
        Stops op.level.rightStrength s'.cursor.kind := by
  have hne : s.cursor.kind ≠ .eof := by
    rw [hk]
    cases op <;> nofun
  refine .advance_bind hne ((hinner _ _ (allowed_advanced hs)).bind fun right us s' ⟨h, hstops⟩ => .pure ?_)
  rw [List.append_nil]
  exact ⟨right, us, rfl, rfl, h.toBuilt, h.fitsRight (level_ne_negation op), hstops⟩

section
variable {left : Expr} {ls : List Token} (hleft : Written prior left ls) (hgrouped : left.Grouped)
  (hfit : left.FitsLeft .comparison)
include hleft hgrouped hfit

theorem passes_membership {negated : Bool} {ns : List Token} (hns : Marking .not negated ns)
    (hs : s.priorAllowed = prior) : Passes s (membership inner left negated) fun e ts s' =>
      Extended prior .comparison e (ls ++ (ns ++ ts)) s' ∧ ts ≠ [] := by
  refine .expectKeyword_bind fun hin => .look_bind ?_
  split
  · exact .unsupported
  · refine .expect_bind trivial nofun fun hopening => ?_
    have hs₂ : s.advanced.advanced.priorAllowed = prior := hs
    refine (passes_expressionList hinner hs₂).bind fun members us s' ⟨hmembers, _, hall, hs'⟩ => ?_
    refine .expect_bind trivial nofun fun hclosing =>
      .pure ⟨⟨⟨?_, ?_, hs'⟩, fun _ _ => .inr trivial, Nat.le_refl _⟩, List.cons_ne_nil _ _⟩
    · exact .within hleft hns hin hopening hmembers hclosing
    · exact Expr.grouped_of_children hfit (List.forall_mem_cons.2 ⟨hgrouped, hall⟩)

theorem passes_range {negated : Bool} {ns : List Token} (hns : Marking .not negated ns)
    (hs : s.priorAllowed = prior) : Passes s (range inner left negated) fun e ts s' =>
      Extended prior .comparison e (ls ++ (ns ++ ts)) s' ∧ ts ≠ [] := by
  refine .expectKeyword_bind fun hbetween => ?_
  refine (hinner _ _ (allowed_advanced hs)).bind fun low us s₁ ⟨hlow, _⟩ => .expectKeyword_bind fun hand => ?_
  refine (hinner _ _ (allowed_advanced hlow.allowed)).bind fun high vs s₂ ⟨hhigh, hstops⟩ => .pure ?_
  rw [List.append_nil]
  refine ⟨⟨⟨?_, ?_, hhigh.allowed⟩, hstops.precedes (Nat.le_refl _), Nat.le_refl _⟩, List.cons_ne_nil _ _⟩
  · exact .between hleft hns hbetween hlow.written hand hhigh.written
  · refine Expr.grouped_of_children ⟨hfit, hlow.fitsRight nofun, hhigh.fitsRight nofun⟩ ?_
    exact List.forall_mem_cons.2 ⟨hgrouped, List.forall_mem_cons.2 ⟨hlow.grouped,
      List.forall_mem_singleton.2 hhigh.grouped⟩⟩

omit hinner in
theorem passes_nullTest (hk : s.cursor.kind = .keyword .is) (hs : s.priorAllowed = prior) :
    Passes s (nullTest left) fun e ts s' =>
      Extended prior .comparison e (ls ++ ts) s' ∧ ts ≠ [] := by
  have hbehind : ∀ {s₁ : State} {negated : Bool} {ns : List Token}, Marking .not negated ns →
      s₁.priorAllowed = prior → Passes s₁ (expectKeyword .null >>= fun _ => pure (.isNull left negated))
        fun e ts s' => Extended prior .comparison e (ls ++ s.cursor.current :: (ns ++ ts)) s' ∧
          s.cursor.current :: (ns ++ ts) ≠ [] := by
    intro s₁ negated ns hns hs₁
    refine .expectKeyword_bind fun hnull =>
      .pure ⟨⟨⟨?_, ?_, hs₁⟩, fun _ _ => .inr trivial, Nat.le_refl _⟩, List.cons_ne_nil _ _⟩
    · exact .isNull hleft hk hns hnull
    · exact Expr.grouped_of_children hfit (List.forall_mem_singleton.2 hgrouped)
  refine .advance_bind (hk ▸ nofun) (.skipKeyword_bind (fun hnot => ?_) fun _ => ?_)
  · exact hbehind (.present hnot) hs
  · exact hbehind .absent hs

theorem passes_negatedTest (hk : s.cursor.kind = .keyword .not) (hs : s.priorAllowed = prior) :
    Passes s (negatedTest inner left) fun e ts s' =>
      Extended prior .comparison e (ls ++ ts) s' ∧ ts ≠ [] := by
  have hfirst : ∀ e ts (s' : State), Extended prior .comparison e (ls ++ ([s.cursor.current] ++ ts)) s' ∧ ts ≠ [] →
      Extended prior .comparison e (ls ++ s.cursor.current :: ts) s' ∧ s.cursor.current :: ts ≠ [] :=
    fun _ _ _ h => ⟨h.1, List.cons_ne_nil _ _⟩
  refine .advance_bind (hk ▸ nofun) (.look_bind ?_)
  split
  · exact (passes_membership hinner hleft hgrouped hfit (.present hk) (allowed_advanced hs)).mono hfirst
  · exact (passes_range hinner hleft hgrouped hfit (.present hk) (allowed_advanced hs)).mono hfirst
  · next hlike =>
    have hlike : s.advanced.cursor.kind = BinaryOp.like.kind := Cursor.kind_of_atKeyword (decide_eq_true hlike)
    refine (passes_binary hinner hlike (allowed_advanced hs)).bind fun e ts s' => ?_
    rintro ⟨right, us, rfl, rfl, h, hright, hstops⟩
    refine .pure ⟨⟨⟨?_, ?_, h.allowed⟩, hstops.precedes (Nat.le_refl _), Nat.le_refl _⟩, List.cons_ne_nil _ _⟩
    · rw [List.append_nil]
      exact .notLike hleft hk hlike h.written
    · refine Expr.grouped_of_children trivial (List.forall_mem_singleton.2 ?_)
      refine Expr.grouped_of_children ⟨hfit, hright⟩ ?_
      exact List.forall_mem_cons.2 ⟨hgrouped, List.forall_mem_singleton.2 h.grouped⟩
  · exact .unexpected

omit hfit in
/-- What any operator makes of a left side that fits it. -/
theorem passes_extend {i : Infix} (hk : Infix.ofKind? s.cursor.kind = some i) (hfit : left.FitsLeft i.level)
    (hs : s.priorAllowed = prior) : Passes s (extend inner left i) fun e ts s' =>
      Extended prior i.level e (ls ++ ts) s' ∧ ts ≠ [] := by
  have hk := kind_of_ofKind? hk
  cases i with
  | operator op =>
    refine (passes_binary hinner hk hs).mono fun e ts s' => ?_
    rintro ⟨right, us, rfl, rfl, h, hright, hstops⟩
    refine ⟨⟨⟨.binary hleft hk h.written, ?_, h.allowed⟩, hstops.precedes (Nat.le_refl _), Nat.le_refl _⟩,
      List.cons_ne_nil _ _⟩
    refine Expr.grouped_of_children ⟨hfit, hright⟩ ?_
    exact List.forall_mem_cons.2 ⟨hgrouped, List.forall_mem_singleton.2 h.grouped⟩
  | is => exact passes_nullTest hleft hgrouped hfit hk hs
  | within => exact passes_membership hinner hleft hgrouped hfit .absent hs
  | between => exact passes_range hinner hleft hgrouped hfit .absent hs
  | not => exact passes_negatedTest hinner hleft hgrouped hfit hk hs

end

theorem passes_operators (rounds : Nat) {left : Expr} {ls : List Token} (hleft : Parsed prior strength left ls s)
    (hrounds : s.cursor.rest.length ≤ rounds) : Passes s (operators inner strength rounds left) fun e ts s' =>
      Parsed prior strength e (ls ++ ts) s' ∧ Stops strength s'.cursor.kind := by
  have hstop : Stops strength s.cursor.kind → Passes s (pure left) fun e ts s' =>
      Parsed prior strength e (ls ++ ts) s' ∧ Stops strength s'.cursor.kind := fun h =>
    .pure ⟨(List.append_nil ls).symm ▸ hleft, h⟩
  induction rounds generalizing s left ls with
  | zero =>
    -- Without rounds there are no tokens behind the current one, which is the end of the input.
    intro hs
    refine hstop (fun i hi => ?_) hs
    have hnil : s.cursor.rest = [] := List.eq_nil_of_length_eq_zero (Nat.le_zero.1 hrounds)
    rcases hs with ⟨heof, -⟩ | ⟨-, hs⟩
    · rw [show s.cursor.kind = .eof from heof] at hi
      cases hi
    · rw [hnil] at hs
      exact hs.elim
  | succ rounds ih =>
    refine .look_bind ?_
    split
    · next i hi =>
      split
      · next hweak =>
        refine hstop fun j hj => ?_
        obtain rfl := Option.some.inj (hi.symm.trans hj)
        exact hweak
      · next hstrong =>
        have hextend := passes_extend hinner hleft.written hleft.grouped hi (hleft.precedes i hi) hleft.allowed
        refine hextend.withTokens.bind fun e ts s' hpassed => ?_
        obtain ⟨⟨h, hne⟩, hts⟩ := hpassed
        have htight : min strength 13 < 2 * e.rank := by
          have hbound := h.bound
          have hpos := i.level.rank_pos
          unfold Level.leftStrength at hstrong
          omega
        have hrest : s'.cursor.rest.length ≤ rounds := by
          have hlength := congrArg List.length hts
          have hpos := List.length_pos_iff.2 hne
          simp only [Cursor.tokens, List.length_cons, List.length_append] at hlength
          omega
        have hparsed : Parsed prior strength e (ls ++ ts) s' := ⟨h.toBuilt, h.precedes, .inl htight⟩
        refine (ih hparsed hrest fun hstop => .pure ⟨(List.append_nil _).symm ▸ hparsed, hstop⟩).mono ?_
        intro e' us s'' h'
        rwa [List.append_assoc] at h'
    · next hno =>
      refine hstop fun j hj => ?_
      rw [hno] at hj
      cases hj

end

/-! ## The knot -/

theorem parses_expressionAt (depth : Nat) : ParsesInner prior (expressionAt rule depth) := by
  induction depth with
  | zero => exact fun _ _ _ => .unexpected
  | succ depth ih =>
    intro strength s hs
    have hoperand : Passes s (operand rule (expressionAt rule depth)) (Parsed prior strength) := passes_operand ih hs
    refine hoperand.bind fun first ts s' hfirst => .look_bind ?_
    exact passes_operators ih _ hfirst (Nat.le_refl _)

theorem passes_expression (hs : s.priorAllowed = prior) : Passes s (expression rule) (Built prior) :=
  .look_bind (passes_inner (parses_expressionAt _) hs)

end

/-- From any place of a text, an expression is written with the tokens that are passed for it, none of them lost, and its
operands fit their operators. -/
theorem written_of_expression {rule : Rule} {source : String} {s s' : State} {e : Expr}
    (hs : s.cursor.tokens <:+ Token.lex source) (h : expression rule s = .ok e s') :
    ∃ ts, s.cursor.tokens = ts ++ s'.cursor.tokens ∧ e.Written s.priorAllowed ts ∧ e.Grouped := by
  have hcomplete : Token.Complete s.cursor.tokens := by
    obtain ⟨before, hbefore⟩ := hs
    exact .of_append (List.cons_ne_nil _ _) (hbefore ▸ Token.complete_lex source)
  obtain ⟨ts, hts, hbuilt⟩ := passes_expression rfl hcomplete e s' h
  exact ⟨ts, hts, hbuilt.written, hbuilt.grouped⟩

/-- A text with tests that operators follow, and with a `NOT` on either side of a `LIKE`. -/
def testedText : String :=
  "a IS NULL + b NOT LIKE 'x' = NOT c LIKE 'y' AND count(DISTINCT d) IN (1, t.e) * 2"

theorem written_of_expression_testedText : ∃ e s' ts, expression .empty (.ofSource testedText) = .ok e s' ∧
    s'.cursor.kind = .eof ∧ Token.lex testedText = ts ++ s'.cursor.tokens ∧ e.Written false ts ∧ e.Grouped := by
  have hends : (match expression .empty (.ofSource testedText) with
      | .ok _ s' => decide (s'.cursor.kind = .eof)
      | .error _ _ => false) = true := by
    rw [State.ofSource_of_chars testedText rfl]
    decide +kernel
  have htokens : (State.ofSource testedText).cursor.tokens = Token.lex testedText := State.tokens_ofSource testedText
  cases hr : expression .empty (.ofSource testedText) with
  | error e s' =>
    rw [hr] at hends
    cases hends
  | ok e s' =>
    rw [hr] at hends
    obtain ⟨ts, hts, hwritten, hgrouped⟩ := written_of_expression ⟨[], htokens⟩ hr
    exact ⟨e, s', ts, rfl, of_decide_eq_true hends, htokens.symm.trans hts, hwritten, hgrouped⟩

end SelectRouting.Grammar
