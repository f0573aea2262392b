import SelectRouting.Grammar.Select
import SelectRouting.Proofs.Condition
import SelectRouting.Proofs.Trace.Outcome
/-!
# The shape of what is read

The grammar gives more than the types of the trees say: lists that stand in a text have members (`Expr.Shaped`), a join is
by a condition or by columns as its kind wants (`TableRef.Shaped`), and only SQL Server numbers rows
(`SelectItem.Shaped`).  A judgement says what a parser gives when it ends with a value (`Gives`), with one rule for each way
to put parsers together; then there is one lemma for each parser of the grammar.
-/
namespace SelectRouting

/-! ## Shapes -/

namespace Expr

/-- The list of an `IN` and the branches of a `CASE` are not empty. -/
def Filled : Expr → Prop
  | .within _ members _ => members ≠ []
  | .case _ branches _ => branches ≠ []
  | _ => True

/-- Every node is filled. -/
def Shaped (e : Expr) : Prop :=
  ∀ n ∈ e.nodes, n.Filled

theorem shaped_of_children {e : Expr} (he : e.Filled) (hchildren : ∀ c ∈ e.children, c.Shaped) : e.Shaped :=
  forall_mem_nodes he hchildren

end Expr

namespace TableRef

/-- A cross join is by nothing, and any other join is either by a condition or by columns. -/
def JoinedAs (kind : JoinKind) (condition : Option Expr) (columns : List String) : Prop :=
  if kind = .cross then condition = none ∧ columns = []
  else (condition.isSome ∧ columns = []) ∨ (condition = none ∧ columns ≠ [])

/-- Every join is joined as its kind wants, and its condition has its shape. -/
def Shaped : TableRef → Prop
  | .table .. => True
  | .join kind left right condition columns =>
    left.Shaped ∧ right.Shaped ∧ JoinedAs kind condition columns ∧ ∀ e ∈ condition, e.Shaped

end TableRef

def OrderItem.Shaped (o : OrderItem) : Prop :=
  o.expr.Shaped

/-- Only SQL Server numbers rows. -/
def SelectItem.Shaped (d : Dialect) : SelectItem → Prop
  | .star _ => True
  | .expression e _ => e.Shaped
  | .rowNumber order _ => d = .sqlServer ∧ ∀ o ∈ order, o.Shaped

/-! ## What a parser gives -/

namespace Grammar

section
variable {α β : Type} {P : α → Prop} {Q : β → Prop}

/-- A parser that ends with a value has a value with a property. -/
def Gives (p : Parser α) (P : α → Prop) : Prop :=
  ∀ s a s', p s = .ok a s' → P a

namespace Gives

theorem pure {a : α} (h : P a) : Gives (Pure.pure a) P := by
  intro s b s' hrun
  cases hrun
  exact h

theorem bind {p : Parser α} {f : α → Parser β} (hp : Gives p P) (hf : ∀ a, P a → Gives (f a) Q) :
    Gives (p >>= f) Q := by
  intro s b s'' hrun
  rw [bind_apply] at hrun
  cases hr : p s with
  | error e s' =>
    rw [hr] at hrun
    cases hrun
  | ok a s' =>
    rw [hr] at hrun
    exact hf a (hp s a s' hr) s' b s'' hrun

/-- Behind a parser whose value does not matter. -/
theorem behind {p : Parser α} {f : α → Parser β} (hf : ∀ a, Gives (f a) Q) : Gives (p >>= f) Q :=
  bind (P := fun _ => True) (fun _ _ _ _ => trivial) fun a _ => hf a

theorem mono {P' : α → Prop} {p : Parser α} (hp : Gives p P) (h : ∀ a, P a → P' a) : Gives p P' :=
  fun s a s' hrun => h a (hp s a s' hrun)

theorem unexpected {expected : String} : Gives (Grammar.unexpected expected : Parser α) P :=
  fun _ _ _ => nofun

theorem unsupported {construct : String} : Gives (Grammar.unsupported construct : Parser α) P :=
  fun _ _ _ => nofun

/-- Either way of a test. -/
theorem branch {test : Parser Bool} {x y : Parser α} (hx : Gives x P) (hy : Gives y P) :
    Gives (test >>= fun b => if b then x else y) P := by
  refine behind fun b => ?_
  cases b with
  | true => exact hx
  | false => exact hy

theorem separated {item : Parser α} (hi : Gives item P) (rounds : Nat) :
    Gives (Grammar.separated item rounds) fun as => as ≠ [] ∧ ∀ a ∈ as, P a := by
  induction rounds with
  | zero => exact hi.bind fun a ha => .pure ⟨List.cons_ne_nil _ _, List.forall_mem_singleton.2 ha⟩
  | succ rounds ih =>
    refine hi.bind fun a ha => .branch (ih.bind fun as has => .pure ?_) (.pure ?_)
    · exact ⟨List.cons_ne_nil _ _, List.forall_mem_cons.2 ⟨ha, has.2⟩⟩
    · exact ⟨List.cons_ne_nil _ _, List.forall_mem_singleton.2 ha⟩

theorem commaSeparated {item : Parser α} (hi : Gives item P) :
    Gives (Grammar.commaSeparated item) fun as => as ≠ [] ∧ ∀ a ∈ as, P a :=
  behind hi.separated

end Gives

end

/-! ## Expressions -/

section
variable {rule : Rule} {inner : Inner} (hinner : ∀ strength, Gives (inner strength) Expr.Shaped)
include hinner

theorem gives_expressionList : Gives (expressionList inner) fun es => es ≠ [] ∧ ∀ e ∈ es, e.Shaped :=
  (hinner 0).commaSeparated

omit hinner in
theorem shaped_of_leaf {e : Expr} (hfilled : e.Filled) (h : e.children = []) : e.Shaped :=
  Expr.shaped_of_children hfilled (h ▸ List.forall_mem_nil _)

theorem gives_arguments : Gives (arguments inner) fun es => ∀ e ∈ es, e.Shaped := by
  refine .branch (.pure (List.forall_mem_nil _)) (.branch (.pure ?_) ((gives_expressionList hinner).mono fun _ h => h.2))
  exact List.forall_mem_singleton.2 (shaped_of_leaf trivial rfl)

theorem gives_call (name : String) : Gives (call inner name) Expr.Shaped := by
  refine .behind fun _ => .behind fun distinct => (gives_arguments hinner).bind fun args hargs => ?_
  exact .behind fun _ => .pure (Expr.shaped_of_children trivial hargs)

theorem gives_branches (rounds : Nat) :
    Gives (branches inner rounds) fun bs => ∀ b ∈ bs, b.1.Shaped ∧ b.2.Shaped := by
  induction rounds with
  | zero => exact .pure (List.forall_mem_nil _)
  | succ rounds ih =>
    refine .branch ?_ (.pure (List.forall_mem_nil _))
    refine (hinner 0).bind fun condition hcondition => .behind fun _ => (hinner 0).bind fun value hvalue => ?_
    exact ih.bind fun bs hbs => .pure (List.forall_mem_cons.2 ⟨⟨hcondition, hvalue⟩, hbs⟩)

theorem gives_optional (k : Keyword) : Gives (optional k inner) fun e? => ∀ e ∈ e?, e.Shaped := by
  refine .branch ((hinner 0).bind fun e he => .pure ?_) (.pure nofun)
  rintro _ ⟨⟩
  exact he

theorem gives_caseOperand : Gives (caseOperand inner) fun e? => ∀ e ∈ e?, e.Shaped := by
  refine .branch (.pure nofun) ((hinner 0).bind fun e he => .pure ?_)
  rintro _ ⟨⟩
  exact he

theorem gives_case : Gives (caseExpression inner) Expr.Shaped := by
  refine .behind fun _ => (gives_caseOperand hinner).bind fun operand hoperand => .behind fun n => ?_
  refine (gives_branches hinner n).bind fun whens hwhens => ?_
  split
  · exact .unexpected
  · next hne =>
    refine (gives_optional hinner .else).bind fun otherwise hotherwise => .behind fun _ => .pure ?_
    refine Expr.shaped_of_children (by simpa [Expr.Filled] using hne) fun c hc => ?_
    simp only [Expr.children, List.mem_append, Option.mem_toList, List.mem_flatMap, List.mem_cons, List.not_mem_nil,
      or_false] at hc
    rcases hc with (hc | ⟨b, hb, rfl | rfl⟩) | hc
    · exact hoperand c hc
    · exact (hwhens b hb).1
    · exact (hwhens b hb).2
    · exact hotherwise c hc

omit hinner in
theorem gives_qualified (owner : String) (token : Token) : Gives (qualified rule owner token) Expr.Shaped := by
  refine .behind fun _ => .branch (.pure (shaped_of_leaf trivial rfl)) ?_
  exact .behind fun _ => .behind fun _ => .pure (shaped_of_leaf trivial rfl)

theorem gives_named : Gives (named rule inner) Expr.Shaped := by
  refine .behind fun token => .behind fun name => .branch (gives_call hinner name) ?_
  exact .branch (gives_qualified name token) (.pure (shaped_of_leaf trivial rfl))

theorem gives_parenthesized : Gives (parenthesized inner) Expr.Shaped := by
  refine .branch .unsupported (.behind fun _ => (hinner 0).bind fun e he => .behind fun _ => .pure ?_)
  exact Expr.shaped_of_children trivial (List.forall_mem_singleton.2 he)

theorem gives_primary : Gives (primary rule inner) Expr.Shaped := by
  have hconstant : ∀ value, Gives (constant value) Expr.Shaped := fun _ =>
    .behind fun _ => .pure (shaped_of_leaf trivial rfl)
  refine .behind fun token => ?_
  split
  case h_1 | h_2 | h_3 | h_4 | h_5 | h_6 => exact hconstant _
  case h_7 => exact .behind fun _ => .behind fun _ => .pure (shaped_of_leaf trivial rfl)
  case h_8 => exact .behind fun _ => .pure (shaped_of_leaf trivial rfl)
  case h_9 => exact gives_parenthesized hinner
  case h_10 => exact .unsupported
  case h_11 | h_12 | h_13 | h_14 | h_15 => exact .behind fun _ => gives_call hinner _
  case h_16 => exact gives_case hinner
  case h_17 =>
    refine .behind fun name? => ?_
    split
    · exact gives_named hinner
    · exact .unexpected

theorem gives_operand : Gives (operand rule inner) Expr.Shaped := by
  refine .branch (hinner _) (.behind fun k => ?_)
  split
  · exact .behind fun _ => (hinner _).bind fun e he =>
      .pure (Expr.shaped_of_children trivial (List.forall_mem_singleton.2 he))
  · exact gives_primary hinner

section
variable {left : Expr} (hleft : left.Shaped)
include hleft

theorem gives_membership (negated : Bool) : Gives (membership inner left negated) Expr.Shaped := by
  refine .behind fun _ => .branch .unsupported (.behind fun _ => ?_)
  refine (gives_expressionList hinner).bind fun members hmembers => .behind fun _ => .pure ?_
  exact Expr.shaped_of_children hmembers.1 (List.forall_mem_cons.2 ⟨hleft, hmembers.2⟩)

theorem gives_range (negated : Bool) : Gives (range inner left negated) Expr.Shaped := by
  refine .behind fun _ => (hinner _).bind fun low hlow => .behind fun _ => (hinner _).bind fun high hhigh => .pure ?_
  refine Expr.shaped_of_children trivial (List.forall_mem_cons.2 ⟨hleft, ?_⟩)
  exact List.forall_mem_cons.2 ⟨hlow, List.forall_mem_singleton.2 hhigh⟩

theorem gives_binary (op : BinaryOp) : Gives (binary inner op left) Expr.Shaped := by
  refine .behind fun _ => (hinner _).bind fun right hright => .pure ?_
  exact Expr.shaped_of_children trivial (List.forall_mem_cons.2 ⟨hleft, List.forall_mem_singleton.2 hright⟩)

theorem gives_negatedTest : Gives (negatedTest inner left) Expr.Shaped := by
  refine .behind fun _ => .behind fun k => ?_
  split
  · exact gives_membership hinner hleft true
  · exact gives_range hinner hleft true
  · exact (gives_binary hinner hleft .like).bind fun e he =>
      .pure (Expr.shaped_of_children trivial (List.forall_mem_singleton.2 he))
  · exact .unexpected

theorem gives_extend (i : Infix) : Gives (extend inner left i) Expr.Shaped := by
  cases i with
  | operator op => exact gives_binary hinner hleft op
  | is =>
    exact .behind fun _ => .behind fun _ => .behind fun _ =>
      .pure (Expr.shaped_of_children trivial (List.forall_mem_singleton.2 hleft))
  | within => exact gives_membership hinner hleft false
  | between => exact gives_range hinner hleft false
  | not => exact gives_negatedTest hinner hleft

omit hleft in
theorem gives_operators (strength rounds : Nat) {left : Expr} (hleft : left.Shaped) :
    Gives (operators inner strength rounds left) Expr.Shaped := by
  induction rounds generalizing left with
  | zero => exact .pure hleft
  | succ rounds ih =>
    refine .behind fun k => ?_
    split
    · next i _ =>
      split
      · exact .pure hleft
      · exact (gives_extend hinner hleft i).bind fun e he => ih he
    · exact .pure hleft

end

omit hinner in
theorem gives_expressionAt (depth : Nat) : ∀ strength, Gives (expressionAt rule depth strength) Expr.Shaped := by
  induction depth with
  | zero => exact fun _ => .unexpected
  | succ depth ih =>
    exact fun strength => (gives_operand ih).bind fun first hfirst => .behind fun rounds =>
      gives_operators ih strength rounds hfirst

omit hinner in
theorem gives_expression : Gives (expression rule) Expr.Shaped :=
  .behind fun n => gives_expressionAt (n + 1) 0

end

/-! ## Select items -/

section
variable {d : Dialect} {rule : Rule}

theorem gives_orderItem : Gives (orderItem d rule) OrderItem.Shaped :=
  gives_expression.bind fun _ he => .behind fun _ => .behind fun _ => .pure he

theorem gives_orderItems : Gives (orderItems d rule) fun os => ∀ o ∈ os, o.Shaped :=
  gives_orderItem.commaSeparated.mono fun _ h => h.2

theorem gives_windowOrder : Gives (windowOrder d rule) fun os => ∀ o ∈ os, o.Shaped :=
  .branch (.behind fun _ => gives_orderItems) (.pure (List.forall_mem_nil _))

theorem gives_rowNumberItem : Gives (rowNumberItem d rule) (SelectItem.Shaped d) := by
  cases d with
  | generic | oracle => exact .unexpected
  | sqlServer =>
    refine .behind fun _ => .behind fun _ => .behind fun _ => .behind fun _ => .branch .unsupported ?_
    exact gives_windowOrder.bind fun order horder => .behind fun _ => .behind fun _ => .pure ⟨rfl, horder⟩

theorem gives_expressionItem : Gives (expressionItem rule) (SelectItem.Shaped d) := by
  refine gives_expression.bind fun e he => ?_
  split
  · exact .pure trivial
  · exact .behind fun _ => .pure he

theorem gives_selectItem : Gives (selectItem d rule) (SelectItem.Shaped d) :=
  .behind fun _ => .branch gives_rowNumberItem gives_expressionItem

/-! ## Tables -/

theorem gives_tableName : Gives (tableName rule) TableRef.Shaped := by
  have hnamed : ∀ schema name token, Gives (tableNamed rule schema name token) TableRef.Shaped := fun _ _ _ =>
    .behind fun _ => .behind fun _ => .pure trivial
  exact .behind fun _ => .behind fun _ => .branch (.behind fun _ => .behind fun _ => hnamed _ _ _) (hnamed _ _ _)

section
variable {entry : Parser TableRef} (hentry : Gives entry TableRef.Shaped)
include hentry

theorem gives_plainFactor : Gives (plainFactor rule entry) TableRef.Shaped :=
  .branch .unsupported (.branch (hentry.bind fun _ hr => .behind fun _ => .pure hr) gives_tableName)

theorem gives_oracleFactor : Gives (oracleFactor rule entry) TableRef.Shaped := by
  have hsuffixed : Gives (suffixedFactor rule entry) TableRef.Shaped :=
    (gives_plainFactor hentry).bind fun _ hr => .behind fun _ => .behind fun _ => .behind fun _ => .pure hr
  have honly : Gives (onlyFactor rule entry) TableRef.Shaped :=
    .branch (hsuffixed.bind fun _ hr => .behind fun _ => .pure hr) hsuffixed
  have hpivoted : Gives (pivotedFactor rule entry) TableRef.Shaped :=
    hsuffixed.bind fun _ hr => .behind fun _ => .pure hr
  refine .behind fun b => ?_
  cases b with
  | true => exact honly.bind fun _ hr => .behind fun _ => .pure hr
  | false => exact hpivoted.bind fun _ hr => .behind fun _ => .pure hr

theorem gives_factorOver : Gives (factorOver d rule entry) TableRef.Shaped := by
  cases d with
  | generic | sqlServer => exact gives_plainFactor hentry
  | oracle => exact gives_oracleFactor hentry

end

theorem gives_joinedBy (kind : JoinKind) :
    Gives (joinedBy rule kind) fun joined => TableRef.JoinedAs kind joined.1 joined.2 ∧ ∀ e ∈ joined.1, e.Shaped := by
  have hby : ∀ kind, kind ≠ .cross → Gives (joinedBy rule .inner) fun joined =>
      TableRef.JoinedAs kind joined.1 joined.2 ∧ ∀ e ∈ joined.1, e.Shaped := by
    intro kind hkind
    refine .branch (gives_expression.bind fun e he => .pure ⟨?_, ?_⟩) (.branch (.behind fun _ => ?_) .unexpected)
    · rw [TableRef.JoinedAs, if_neg hkind]
      exact .inl ⟨rfl, rfl⟩
    · rintro _ ⟨⟩
      exact he
    · have hname : Gives expectName fun _ => True := fun _ _ _ _ => trivial
      refine hname.commaSeparated.bind fun columns hcolumns => .behind fun _ => .pure ⟨?_, nofun⟩
      rw [TableRef.JoinedAs, if_neg hkind]
      exact .inr ⟨rfl, hcolumns.1⟩
  cases kind with
  | cross =>
    refine .pure ⟨?_, nofun⟩
    rw [TableRef.JoinedAs, if_pos rfl]
    exact ⟨rfl, rfl⟩
  | inner => exact hby .inner nofun
  | left => exact hby .left nofun
  | right => exact hby .right nofun
  | full => exact hby .full nofun

section
variable {factor : Parser TableRef} (hfactor : Gives factor TableRef.Shaped)
include hfactor

theorem gives_nextJoin {left : TableRef} (hleft : left.Shaped) :
    Gives (nextJoin rule factor left) fun joined? => ∀ r ∈ joined?, r.Shaped := by
  refine .behind fun kind? => ?_
  cases kind? with
  | none => exact .pure nofun
  | some kind =>
    refine hfactor.bind fun right hright => (gives_joinedBy kind).bind fun _ hby => .pure ?_
    rintro _ ⟨⟩
    exact ⟨hleft, hright, hby⟩

theorem gives_joinsOver (rounds : Nat) {left : TableRef} (hleft : left.Shaped) :
    Gives (joinsOver d rule factor rounds left) TableRef.Shaped := by
  induction rounds generalizing left with
  | zero => exact .pure hleft
  | succ rounds ih =>
    refine .behind fun _ => (gives_nextJoin hfactor hleft).bind fun joined? hjoined => ?_
    cases joined? with
    | none => exact .pure hleft
    | some joined => exact ih (hjoined joined rfl)

end

theorem gives_tableReferenceAt (depth : Nat) : Gives (tableReferenceAt d rule depth) TableRef.Shaped := by
  induction depth with
  | zero => exact .unexpected
  | succ depth ih =>
    exact (gives_factorOver ih).bind fun left hleft => .behind fun rounds =>
      gives_joinsOver (gives_factorOver ih) rounds hleft

theorem gives_tableReference : Gives (tableReference d rule) TableRef.Shaped :=
  .behind fun n => gives_tableReferenceAt (n + 1)

end

end Grammar

end SelectRouting
