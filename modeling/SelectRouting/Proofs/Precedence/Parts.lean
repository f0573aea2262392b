import SelectRouting.Proofs.Leaf
import SelectRouting.Proofs.Precedence.Reading
/-!
# Parsers of the parts of an expression

Each parser of the grammar in front of the tokens that its construct is printed as: it reads the construct, when the parser
of inner expressions reads the expressions inside (`Part`).
-/
namespace SelectRouting

open Token (Kind)

/-! ## Ordinals -/

namespace Leaf

/-- The parameters among some leaves are numbered from one ordinal up to another. -/
def Counts (n : Nat) (ls : List Leaf) (m : Nat) : Prop :=
  n ≤ m ∧ ls.filterMap ordinal? = List.range' n (m - n)

variable {n m : Nat} {ls us : List Leaf}

theorem Counts.eq_of_none (h : Counts n ls m) (hnone : ls.filterMap ordinal? = []) : n = m := by
  obtain ⟨hle, h⟩ := h
  have hlength := congrArg List.length (hnone.symm.trans h)
  rw [List.length_nil, List.length_range'] at hlength
  omega

theorem Counts.split (h : Counts n (ls ++ us) m) : ∃ k, Counts n ls k ∧ Counts k us m := by
  obtain ⟨hle, h⟩ := h
  rw [List.filterMap_append] at h
  obtain ⟨k, hk, hls, hus⟩ := List.range'_eq_append_iff.1 h.symm
  refine ⟨n + k, ⟨by omega, ?_⟩, by omega, ?_⟩
  · rw [hls, Nat.add_sub_cancel_left]
  · rw [hus]
    congr 1
    · omega
    · omega

theorem Counts.of_placeholder {i : Nat} {span : Span} (h : Counts n [.placeholder i span] m) : i = n ∧ m = n + 1 := by
  obtain ⟨hle, h⟩ := h
  have hlength := congrArg List.length h
  have hone : m - n = 1 := by simpa [ordinal?] using hlength.symm
  rw [hone] at h
  exact ⟨(List.cons.inj h).1, by omega⟩

end Leaf

namespace Expr

@[simp] theorem enclosed_zero (r : Nat) (ks : List Kind) : enclosed 0 r ks = ks :=
  if_neg (Nat.not_lt_zero r)

@[simp] theorem bareList_eq (es : List Expr) : bareList es = es.map bare := by
  induction es with
  | nil => rfl
  | cons e es ih => rw [bareList, ih, List.map_cons]

@[simp] theorem bareOption_eq (e : Option Expr) : bareOption e = e.map bare := by
  cases e <;> rfl

@[simp] theorem bareBranches_eq (bs : List (Expr × Expr)) : bareBranches bs = bs.map bareBranch := by
  induction bs with
  | nil => rfl
  | cons b bs ih => rw [bareBranches, ih, List.map_cons]

theorem bare_binary (op : BinaryOp) (left right : Expr) : (binary op left right).bare = .binary op left.bare right.bare :=
  rfl

theorem bare_unary (op : UnaryOp) (e : Expr) : (unary op e).bare = .unary op e.bare :=
  rfl

theorem bare_call (name : String) (distinct : Bool) (args : List Expr) :
    (call name distinct args).bare = .call name distinct (args.map bare) :=
  congrArg (call name distinct) (bareList_eq args)

theorem bare_isNull (tested : Expr) (negated : Bool) : (isNull tested negated).bare = .isNull tested.bare negated :=
  rfl

theorem bare_within (tested : Expr) (members : List Expr) (negated : Bool) :
    (within tested members negated).bare = .within tested.bare (members.map bare) negated :=
  congrArg (within tested.bare · negated) (bareList_eq members)

theorem bare_between (tested low high : Expr) (negated : Bool) :
    (between tested low high negated).bare = .between tested.bare low.bare high.bare negated :=
  rfl

theorem bare_case (operand : Option Expr) (branches : List (Expr × Expr)) (otherwise : Option Expr) :
    (case operand branches otherwise).bare =
      .case (operand.map bare) (branches.map bareBranch) (otherwise.map bare) := by
  rw [← bareOption_eq, ← bareOption_eq, ← bareBranches_eq]
  rfl

end Expr

namespace Grammar

open SelectRouting.Expr (enclosed commas marking begins)

/-! ## What follows -/

/-- A kind that closes what stands in front of it. -/
def closes : Kind → Bool
  | .rightParen | .comma | .eof | .keyword .then | .keyword .when | .keyword .else | .keyword .end => true
  | _ => false

/-- What follows does not go on a name. -/
def Apart (after : List Kind) : Prop :=
  leading after ≠ .leftParen ∧ leading after ≠ .dot

/-- What follows does not go on an expression at a strength. -/
structure Halts (σ : Nat) (after : List Kind) : Prop where
  apart : Apart after
  weaker : ∀ i, Infix.ofKind? (leading after) = some i → i.level.leftStrength < σ

/-- What follows does not go on an operand, and binds no tighter than a rank. -/
structure Below (r : Nat) (after : List Kind) : Prop where
  apart : Apart after
  looser : ∀ i, Infix.ofKind? (leading after) = some i → i.level.rank ≤ r

section
variable {i : Infix} {l : Level} {r σ : Nat} {k : Kind} {ks after : List Kind}

theorem apart_of_operator (h : Infix.ofKind? k = some i) : Apart (k :: ks) := by
  refine ⟨?_, ?_⟩
  · rintro rfl
    cases h
  · rintro rfl
    cases h

theorem halts_of_closes (h : closes (leading after) = true) : Halts σ after := by
  have hclosing : Apart after ∧ Infix.ofKind? (leading after) = none := by
    unfold Apart
    generalize leading after = k at h
    unfold closes at h
    split at h
    case h_8 => cases h
    all_goals exact ⟨⟨nofun, nofun⟩, rfl⟩
  refine ⟨hclosing.1, fun i hi => ?_⟩
  rw [hclosing.2] at hi
  cases hi

theorem halts_of_operator (h : Infix.ofKind? k = some i) (hi : i.level.leftStrength < σ) : Halts σ (k :: ks) := by
  refine ⟨apart_of_operator h, fun j hj => ?_⟩
  obtain rfl : i = j := Option.some.inj (h.symm.trans hj)
  exact hi

theorem below_of_operator (h : Infix.ofKind? k = some i) (hi : i.level.rank ≤ r) : Below r (k :: ks) := by
  refine ⟨apart_of_operator h, fun j hj => ?_⟩
  obtain rfl : i = j := Option.some.inj (h.symm.trans hj)
  exact hi

theorem Below.mono {r' : Nat} (h : Below r after) (hr : r ≤ r') : Below r' after :=
  ⟨h.apart, fun i hi => Nat.le_trans (h.looser i hi) hr⟩

theorem Below.halts (h : Below l.rank after) : Halts l.rightStrength after := by
  refine ⟨h.apart, fun i hi => ?_⟩
  have hle := h.looser i hi
  have := i.level.rank_pos
  unfold Level.leftStrength Level.rightStrength
  omega

theorem Halts.below (h : Halts σ after) (hσ : σ ≤ 2 * r) : Below r after := by
  refine ⟨h.apart, fun i hi => ?_⟩
  have hlt := h.weaker i hi
  have := i.level.rank_pos
  unfold Level.leftStrength at hlt
  omega

end

/-! ## Parts -/

variable {inner : Inner} {s : State} {after : List Kind} {n m k d : Nat}

/-- An expression, in parentheses where its place asks for them, is read by a parser of inner expressions. -/
def Part (inner : Inner) (d : Nat) (e : Expr) (p σ : Nat) : Prop :=
  ∀ ⦃s after n m⦄, State.Faces s (enclosed p e.printRank e.print ++ after) n d → Leaf.Counts n e.leaves m →
    Halts σ after → Ends (inner σ) s after m d fun e' => e'.bare = e.bare

theorem Part.whole {e : Expr} (h : Part inner d e 0 0) (hs : s.Faces (e.print ++ after) n d)
    (hcounts : Leaf.Counts n e.leaves m) (hafter : closes (leading after) = true) :
    Ends (inner 0) s after m d fun e' => e'.bare = e.bare := by
  rw [← Expr.enclosed_zero e.printRank e.print] at hs
  exact h hs hcounts (halts_of_closes hafter)

theorem begins_print {e : Expr} (h : e.Plain) (after : List Kind) : begins (leading (e.print ++ after)) = true := by
  obtain ⟨k, ks, hprint, hk⟩ := h.exists_begins
  rw [hprint]
  exact hk

theorem ne_of_begins {k j : Kind} (h : begins k = true) (hj : begins j = false) : k ≠ j := by
  rintro rfl
  rw [h] at hj
  cases hj

theorem not_alike_of_begins {k j : Kind} (h : begins k = true) (hj : begins j = false) (hbare : j.Bare) :
    k.alike j = false :=
  Bool.eq_false_iff.2 fun halike => ne_of_begins h hj (Kind.eq_of_alike halike hbare)

/-! ## Operators -/

theorem ends_binary {op : BinaryOp} {left left' right : Expr}
    (hright : Part inner d right (op.level.rank + 1) op.level.rightStrength)
    (hs : s.Faces (op.kind :: (enclosed (op.level.rank + 1) right.printRank right.print ++ after)) n (d + 1))
    (hcounts : Leaf.Counts n right.leaves m) (hafter : Below op.level.rank after) (hleft : left'.bare = left.bare) :
    Ends (binary inner op left') s after m d fun e => e.bare = (Expr.binary op left right).bare := by
  refine .advance_bind hs fun s₁ hs₁ => .bind (hright hs₁ hcounts hafter.halts) fun right' s₂ hs₂ h => .pure hs₂ ?_
  rw [Expr.bare_binary, Expr.bare_binary, hleft, h]

theorem ends_nullTest {tested tested' : Expr} {negated : Bool}
    (hs : s.Faces (.keyword .is :: (marking .not negated ++ .keyword .null :: after)) n (d + 1))
    (htested : tested'.bare = tested.bare) :
    Ends (nullTest tested') s after n d fun e => e.bare = (Expr.isNull tested negated).bare := by
  refine .advance_bind hs fun s₁ hs₁ => .marking_bind hs₁ nofun fun s₂ hs₂ => ?_
  refine .expectKeyword_bind hs₂.weaken fun _ s₃ hs₃ => .pure hs₃ ?_
  rw [Expr.bare_isNull, Expr.bare_isNull, htested]

theorem ends_range {tested tested' low high : Expr} {negated : Bool}
    (hlow : Part inner d low Level.additive.rank Level.comparison.rightStrength)
    (hhigh : Part inner d high Level.additive.rank Level.comparison.rightStrength)
    (hs : s.Faces (.keyword .between :: (enclosed Level.additive.rank low.printRank low.print ++
      .keyword .and :: (enclosed Level.additive.rank high.printRank high.print ++ after))) n (d + 1))
    (hcounts : Leaf.Counts n (low.leaves ++ high.leaves) m) (hafter : Below Level.comparison.rank after)
    (htested : tested'.bare = tested.bare) :
    Ends (range inner tested' negated) s after m d fun e => e.bare = (Expr.between tested low high negated).bare := by
  obtain ⟨k, hfirst, hsecond⟩ := hcounts.split
  have hand : ∀ ks, Halts Level.comparison.rightStrength (.keyword .and :: ks) := fun ks =>
    halts_of_operator (i := .operator .and) rfl (by decide)
  -- The lower bound ends in front of `AND`, which binds looser than a bound.
  refine .expectKeyword_bind hs fun _ s₁ hs₁ => .bind (hlow hs₁ hfirst (hand _)) fun low' s₂ hs₂ h => ?_
  refine .expectKeyword_bind hs₂.weaken fun _ s₃ hs₃ => .bind (hhigh hs₃ hsecond hafter.halts) fun high' s₄ hs₄ h' => ?_
  refine .pure hs₄ ?_
  rw [Expr.bare_between, Expr.bare_between, htested, h, h']

/-! ## Lists -/

theorem commas_cons_cons (ks ks' : List Kind) (kss : List (List Kind)) :
    commas (ks :: ks' :: kss) = ks ++ .comma :: commas (ks' :: kss) := by
  rw [commas, List.intercalate_cons_cons, List.append_assoc]
  rfl

theorem length_le_commas : ∀ kss : List (List Kind), kss.length ≤ (commas kss).length + 1
  | [] => Nat.zero_le _
  | [_] => Nat.le_add_left 1 _
  | ks :: ks' :: kss => by
    have ih := length_le_commas (ks' :: kss)
    rw [commas_cons_cons]
    simp only [List.length_cons, List.length_append] at ih ⊢
    omega

theorem ends_separated {es : List Expr} (hne : es ≠ []) (hparts : ∀ e ∈ es, Part inner d e 0 0) :
    ∀ {rounds s n}, es.length ≤ rounds → State.Faces s (commas (es.map Expr.print) ++ .rightParen :: after) n d →
      Leaf.Counts n (es.flatMap Expr.leaves) m →
        Ends (separated (inner 0) rounds) s (.rightParen :: after) m d fun es' => es'.map Expr.bare = es.map Expr.bare := by
  induction es with
  | nil => exact absurd rfl hne
  | cons e es ih =>
    obtain ⟨he, hparts⟩ := List.forall_mem_cons.1 hparts
    intro rounds s n hrounds hs hcounts
    -- Each member takes a round, so there is one left for the first.
    obtain ⟨rounds, rfl⟩ := Nat.exists_eq_succ_of_ne_zero (n := rounds) (by rintro rfl; cases hrounds)
    rw [List.flatMap_cons] at hcounts
    obtain ⟨k, hfirst, hrest⟩ := hcounts.split
    cases es with
    | nil =>
      obtain rfl := hrest.eq_of_none rfl
      rw [List.map_singleton, commas, List.intercalate_singleton] at hs
      refine .bind (he.whole hs hfirst rfl) fun e' s₁ hs₁ h => .skip_bind_of_not hs₁ rfl (.pure hs₁ ?_)
      rw [List.map_singleton, List.map_singleton, h]
    | cons e₁ es =>
      rw [List.map_cons, List.map_cons, commas_cons_cons, List.append_assoc, List.cons_append] at hs
      refine .bind (he.whole hs hfirst rfl) fun e' s₁ hs₁ h => .skip_bind hs₁.weaken rfl fun s₂ hs₂ => ?_
      refine .bind (ih (List.cons_ne_nil e₁ es) hparts (Nat.le_of_succ_le_succ hrounds) hs₂ hrest) fun es' s₃ hs₃ h' => ?_
      refine .pure hs₃ ?_
      rw [List.map_cons, h, h', ← List.map_cons]

theorem ends_expressionList {es : List Expr} (hne : es ≠ []) (hparts : ∀ e ∈ es, Part inner d e 0 0)
    (hs : s.Faces (commas (es.map Expr.print) ++ .rightParen :: after) n d)
    (hcounts : Leaf.Counts n (es.flatMap Expr.leaves) m) :
    Ends (expressionList inner) s (.rightParen :: after) m d fun es' => es'.map Expr.bare = es.map Expr.bare := by
  refine .look_bind (ends_separated hne hparts ?_ hs hcounts)
  have hlength := length_le_commas (es.map Expr.print)
  rw [List.length_map] at hlength
  rw [hs.rest, List.length_append, List.length_cons]
  omega

theorem begins_commas {e : Expr} (h : e.Plain) (es : List Expr) (after : List Kind) :
    begins (leading (commas ((e :: es).map Expr.print) ++ after)) = true := by
  cases es with
  | nil =>
    rw [List.map_singleton, commas, List.intercalate_singleton]
    exact begins_print h after
  | cons e' es =>
    rw [List.map_cons, List.map_cons, commas_cons_cons, List.append_assoc]
    exact begins_print h _

theorem ends_membership {tested tested' : Expr} {members : List Expr} {negated : Bool} (hne : members ≠ [])
    (hplain : ∀ e ∈ members, e.Plain) (hparts : ∀ e ∈ members, Part inner d e 0 0)
    (hs : s.Faces (.keyword .in :: .leftParen :: (commas (members.map Expr.print) ++ .rightParen :: after)) n (d + 1))
    (hcounts : Leaf.Counts n (members.flatMap Expr.leaves) m) (htested : tested'.bare = tested.bare) :
    Ends (membership inner tested' negated) s after m d fun e => e.bare = (Expr.within tested members negated).bare := by
  refine .expectKeyword_bind hs fun _ s₁ hs₁ => .look_bind ?_
  have hquery : s₁.cursor.atSubquery = false := by
    cases members with
    | nil => exact absurd rfl hne
    | cons e es => exact hs₁.not_atSubquery (ne_of_begins (begins_commas (hplain e List.mem_cons_self) es _) rfl)
  rw [hquery]
  refine .expect_bind hs₁.weaken rfl fun _ s₂ hs₂ => .bind (ends_expressionList hne hparts hs₂ hcounts) ?_
  refine fun members' s₃ hs₃ h => .expect_bind hs₃.weaken rfl fun _ s₄ hs₄ => .pure hs₄ ?_
  rw [Expr.bare_within, Expr.bare_within, htested, h]

/-! ## Calls -/

theorem ends_arguments {args : List Expr} (hplain : ∀ e ∈ args, e.Plain) (hparts : ∀ e ∈ args, Part inner d e 0 0)
    (hs : s.Faces (commas (args.map Expr.print) ++ .rightParen :: after) n d)
    (hcounts : Leaf.Counts n (args.flatMap Expr.leaves) m) :
    Ends (arguments inner) s (.rightParen :: after) m d fun args' => args'.map Expr.bare = args.map Expr.bare := by
  refine .check_bind hs ?_
  cases args with
  | nil =>
    obtain rfl := hcounts.eq_of_none rfl
    exact .pure hs rfl
  | cons e es =>
    have hbegins := begins_commas (hplain e List.mem_cons_self) es (.rightParen :: after)
    have hstar := not_alike_of_begins (j := .star) hbegins rfl trivial
    rw [not_alike_of_begins (j := .rightParen) hbegins rfl trivial]
    exact .skip_bind_of_not hs hstar (ends_expressionList nofun hparts hs hcounts)

/-- A call behind the name of the function. -/
theorem ends_call {name : String} {distinct : Bool} {args : List Expr} (hplain : ∀ e ∈ args, e.Plain)
    (hparts : ∀ e ∈ args, Part inner d e 0 0)
    (hs : s.Faces (.leftParen :: (marking .distinct distinct ++
      (commas (args.map Expr.print) ++ .rightParen :: after))) n (d + 1))
    (hcounts : Leaf.Counts n (args.flatMap Expr.leaves) m) :
    Ends (call inner name) s after m d fun e => e.bare = (Expr.call name distinct args).bare := by
  have hdistinct : leading (commas (args.map Expr.print) ++ .rightParen :: after) ≠ .keyword .distinct := by
    cases args with
    | nil => exact nofun
    | cons e es => exact ne_of_begins (begins_commas (hplain e List.mem_cons_self) es _) rfl
  refine .expect_bind hs rfl fun _ s₁ hs₁ => .marking_bind hs₁ hdistinct fun s₂ hs₂ => ?_
  refine .bind (ends_arguments hplain hparts hs₂ hcounts) fun args' s₃ hs₃ h => ?_
  refine .expect_bind hs₃.weaken rfl fun _ s₄ hs₄ => .pure hs₄ ?_
  rw [Expr.bare_call, Expr.bare_call, h]

/-! ## Cases -/

theorem ends_caseOperand {operand : Option Expr} (hplain : ∀ e ∈ operand, e.Plain)
    (hparts : ∀ e ∈ operand, Part inner d e 0 0) (hafter : leading after = .keyword .when)
    (hs : s.Faces (Expr.printOperand operand ++ after) n d)
    (hcounts : Leaf.Counts n (operand.toList.flatMap Expr.leaves) m) :
    Ends (caseOperand inner) s after m d fun e => e.map Expr.bare = operand.map Expr.bare := by
  cases operand with
  | none =>
    obtain rfl := hcounts.eq_of_none rfl
    refine .look_bind ?_
    have hat : s.cursor.atKeyword .when = true := Cursor.atKeyword_iff.2 (hs.kind.trans hafter)
    rw [hat]
    exact .pure hs rfl
  | some e =>
    rw [Option.toList_some, List.flatMap_singleton] at hcounts
    refine .look_bind ?_
    have hat : s.cursor.atKeyword .when = false := Bool.eq_false_iff.2 fun hat =>
      ne_of_begins (begins_print (hplain e rfl) after) rfl (hs.kind.symm.trans (Cursor.atKeyword_iff.1 hat))
    rw [hat]
    refine .bind ((hparts e rfl).whole hs hcounts (by rw [hafter]; rfl)) fun e' s₁ hs₁ h => .pure hs₁ ?_
    rw [Option.map_some, h, Option.map_some]

/-- What stands behind the branches of a `CASE`. -/
def Finishes (k : Kind) : Prop :=
  k = .keyword .else ∨ k = .keyword .end

theorem leading_printBranches (b : Expr × Expr) (bs : List (Expr × Expr)) (after : List Kind) :
    leading ((b :: bs).flatMap Expr.printBranch ++ after) = .keyword .when := by
  obtain ⟨condition, value⟩ := b
  rfl

theorem ends_branches {bs : List (Expr × Expr)}
    (hparts : ∀ b ∈ bs, Part inner d b.1 0 0 ∧ Part inner d b.2 0 0) (hafter : Finishes (leading after)) :
    ∀ {rounds s n}, bs.length ≤ rounds → State.Faces s (bs.flatMap Expr.printBranch ++ after) n d →
      Leaf.Counts n (bs.flatMap fun b => b.1.leaves ++ b.2.leaves) m →
        Ends (branches inner rounds) s after m d fun bs' => bs'.map Expr.bareBranch = bs.map Expr.bareBranch := by
  have hcloses : closes (leading after) = true := by rcases hafter with h | h <;> rw [h] <;> rfl
  have hnot : leading after ≠ .keyword .when := by rcases hafter with h | h <;> rw [h] <;> exact nofun
  induction bs with
  | nil =>
    intro rounds s n hrounds hs hcounts
    obtain rfl := hcounts.eq_of_none rfl
    cases rounds with
    | zero => exact .pure hs rfl
    | succ rounds => exact .skipKeyword_bind_of_not hs hnot (.pure hs rfl)
  | cons b bs ih =>
    obtain ⟨condition, value⟩ := b
    obtain ⟨⟨hcondition, hvalue⟩, hparts⟩ := List.forall_mem_cons.1 hparts
    intro rounds s n hrounds hs hcounts
    obtain ⟨rounds, rfl⟩ := Nat.exists_eq_succ_of_ne_zero (n := rounds) (by rintro rfl; cases hrounds)
    rw [List.flatMap_cons, List.append_assoc] at hcounts
    obtain ⟨k, hfirst, hrest⟩ := hcounts.split
    obtain ⟨k', hsecond, hrest⟩ := hrest.split
    have hbehind : closes (leading (bs.flatMap Expr.printBranch ++ after)) = true := by
      cases bs with
      | nil => exact hcloses
      | cons b bs => rw [leading_printBranches]; rfl
    rw [List.flatMap_cons, Expr.printBranch, List.append_assoc, List.cons_append, List.append_assoc, List.cons_append] at hs
    refine .skipKeyword_bind hs.weaken fun s₁ hs₁ => .bind (hcondition.whole hs₁ hfirst rfl) fun condition' s₂ hs₂ h => ?_
    refine .expectKeyword_bind hs₂.weaken fun _ s₃ hs₃ => .bind (hvalue.whole hs₃ hsecond hbehind) fun value' s₄ hs₄ h' => ?_
    refine .bind (ih hparts (Nat.le_of_succ_le_succ hrounds) hs₄ hrest) fun bs' s₅ hs₅ h'' => .pure hs₅ ?_
    rw [List.map_cons, List.map_cons, h'', Expr.bareBranch, Expr.bareBranch, h, h']

theorem ends_otherwise {otherwise : Option Expr} (hparts : ∀ e ∈ otherwise, Part inner d e 0 0)
    (hs : s.Faces (Expr.printElse otherwise ++ .keyword .end :: after) n d)
    (hcounts : Leaf.Counts n (otherwise.toList.flatMap Expr.leaves) m) :
    Ends (optional .else inner) s (.keyword .end :: after) m d fun e => e.map Expr.bare = otherwise.map Expr.bare := by
  cases otherwise with
  | none =>
    obtain rfl := hcounts.eq_of_none rfl
    exact .skipKeyword_bind_of_not hs nofun (.pure hs rfl)
  | some e =>
    rw [Option.toList_some, List.flatMap_singleton] at hcounts
    refine .skipKeyword_bind hs.weaken fun s₁ hs₁ => ?_
    refine .bind ((hparts e rfl).whole hs₁ hcounts rfl) fun e' s₂ hs₂ h => .pure hs₂ ?_
    rw [Option.map_some, h, Option.map_some]

theorem length_le_printBranches (bs : List (Expr × Expr)) : bs.length ≤ (bs.flatMap Expr.printBranch).length := by
  induction bs with
  | nil => exact Nat.le_refl _
  | cons b bs ih =>
    rw [List.flatMap_cons, List.length_append, List.length_cons, Expr.printBranch, List.length_cons]
    omega

theorem ends_caseExpression {operand otherwise : Option Expr} {bs : List (Expr × Expr)} (hne : bs ≠ [])
    (hplain : ∀ e ∈ operand, e.Plain) (hoperand : ∀ e ∈ operand, Part inner d e 0 0)
    (hparts : ∀ b ∈ bs, Part inner d b.1 0 0 ∧ Part inner d b.2 0 0) (hotherwise : ∀ e ∈ otherwise, Part inner d e 0 0)
    (hs : s.Faces (.keyword .case :: (Expr.printOperand operand ++ (bs.flatMap Expr.printBranch ++
      (Expr.printElse otherwise ++ .keyword .end :: after)))) n (d + 1))
    (hcounts : Leaf.Counts n (Expr.case operand bs otherwise).leaves m) :
    Ends (caseExpression inner) s after m d fun e => e.bare = (Expr.case operand bs otherwise).bare := by
  rw [Expr.leaves_case] at hcounts
  obtain ⟨k, hfirst, hrest⟩ := hcounts.split
  obtain ⟨k', hsecond, hthird⟩ := hrest.split
  have hwhen : leading (bs.flatMap Expr.printBranch ++ (Expr.printElse otherwise ++ .keyword .end :: after)) =
      .keyword .when := by
    cases bs with
    | nil => exact absurd rfl hne
    | cons b bs => exact leading_printBranches b bs _
  have hfinishes : Finishes (leading (Expr.printElse otherwise ++ .keyword .end :: after)) := by
    cases otherwise with
    | none => exact .inr rfl
    | some e => exact .inl rfl
  refine .expectKeyword_bind hs fun _ s₁ hs₁ => ?_
  refine .bind (ends_caseOperand hplain hoperand hwhen hs₁ hfirst) fun operand' s₂ hs₂ h => .look_bind ?_
  have hrounds : bs.length ≤ s₂.cursor.rest.length := by
    rw [hs₂.rest, List.length_append]
    have := length_le_printBranches bs
    omega
  refine .bind (ends_branches hparts hfinishes hrounds hs₂ hsecond) fun bs' s₃ hs₃ h' => ?_
  have hfilled : bs'.isEmpty = false := by
    cases bs' with
    | nil => exact absurd (List.map_eq_nil_iff.1 h'.symm) hne
    | cons b bs' => rfl
  rw [hfilled]
  refine .bind (ends_otherwise hotherwise hs₃ hthird) fun otherwise' s₄ hs₄ h'' => ?_
  refine .expectKeyword_bind hs₄.weaken fun _ s₅ hs₅ => .pure hs₅ ?_
  rw [Expr.bare_case, Expr.bare_case, h, h', h'']

end Grammar

end SelectRouting
