import SelectRouting.Condition.Extract
/-!
# Where conditions come from

A condition is made of a conjunct of its predicate that compares a column with constants and parameters
(`exists_comparison`).  What holds of a predicate and goes on to what stands in its parentheses and to both sides of its
conjunctions holds of all conjuncts (`forall_mem_conjuncts`); to be a node of the predicate is of this kind
(`mem_nodes_of_mem_conjuncts`).
-/
namespace SelectRouting

namespace Expr

/-! ## Nodes -/

theorem mem_nodes_self (e : Expr) : e ∈ e.nodes := by
  rw [nodes_eq]
  exact List.mem_cons_self

theorem mem_nodes_of_mem_children {e c n : Expr} (hc : c ∈ e.children) (hn : n ∈ c.nodes) : n ∈ e.nodes := by
  rw [nodes_eq]
  exact List.mem_cons_of_mem _ (List.mem_flatMap.2 ⟨c, hc, hn⟩)

theorem mem_nodes_trans {e n k : Expr} (hn : n ∈ e.nodes) (hk : k ∈ n.nodes) : k ∈ e.nodes := by
  induction e using induction_children with
  | step e ih =>
    rw [nodes_eq, List.mem_cons, List.mem_flatMap] at hn
    rcases hn with rfl | ⟨c, hc, hn⟩
    · exact hk
    · exact mem_nodes_of_mem_children hc (ih c hc hn)

/-- What holds of a tree and of the nodes of its children holds of all its nodes. -/
theorem forall_mem_nodes {P : Expr → Prop} {e : Expr} (he : P e) (hchildren : ∀ c ∈ e.children, ∀ n ∈ c.nodes, P n) :
    ∀ n ∈ e.nodes, P n := by
  intro n hn
  rw [nodes_eq, List.mem_cons, List.mem_flatMap] at hn
  rcases hn with rfl | ⟨c, hc, hn⟩
  · exact he
  · exact hchildren c hc n hn

/-! ## Parentheses and conjuncts -/

section
variable {P : Expr → Prop} (hparen : ∀ e, P (.paren e) → P e)
include hparen

theorem unparenthesized_of_paren : ∀ e : Expr, P e → P e.unparenthesized
  | .paren inner, h => by
    rw [unparenthesized]
    exact unparenthesized_of_paren inner (hparen inner h)
  | .literal _, h | .column .., h | .binary .., h | .unary .., h | .call .., h | .isNull .., h | .within .., h
  | .between .., h | .case .., h | .placeholder .., h | .wildcard _, h => h

theorem forall_mem_splitConjunctions (hand : ∀ left right, P (.binary .and left right) → P left ∧ P right)
    (stack : List Expr) (h : ∀ e ∈ stack, P e) : ∀ c ∈ splitConjunctions stack, P c := by
  -- The stack is what is still to be split; the first one is a conjunction or is finished.
  induction stack using splitConjunctions.induct with
  | case1 =>
    rw [splitConjunctions]
    exact h
  | case2 e stack left right he ih =>
    obtain ⟨hleft, hright⟩ := hand left right (he ▸ unparenthesized_of_paren hparen e (h e List.mem_cons_self))
    rw [splitConjunctions]
    split
    · next left' right' he' =>
      obtain ⟨-, rfl, rfl⟩ := Expr.binary.inj (he.symm.trans he')
      exact ih (List.forall_mem_cons.2 ⟨hleft, List.forall_mem_cons.2 ⟨hright, (List.forall_mem_cons.1 h).2⟩⟩)
    · next hno => exact absurd he (hno left right)
  | case3 e stack hno ih =>
    have he := unparenthesized_of_paren hparen e (h e List.mem_cons_self)
    rw [splitConjunctions]
    split
    · next left right he' => exact absurd he' (hno left right)
    · exact List.forall_mem_cons.2 ⟨he, ih (List.forall_mem_cons.1 h).2⟩

/-- What goes on to the inside of parentheses and to both sides of a conjunction goes on to all conjuncts. -/
theorem forall_mem_conjuncts (hand : ∀ left right, P (.binary .and left right) → P left ∧ P right) {e : Expr}
    (h : P e) : ∀ c ∈ e.conjuncts, P c :=
  forall_mem_splitConjunctions hparen hand [e] (List.forall_mem_singleton.2 h)

end

theorem unparenthesized_mem_nodes (e : Expr) : e.unparenthesized ∈ e.nodes :=
  unparenthesized_of_paren (P := (· ∈ e.nodes)) (fun inner h =>
    mem_nodes_trans h (mem_nodes_of_mem_children List.mem_cons_self (mem_nodes_self inner))) e (mem_nodes_self e)

theorem mem_nodes_of_mem_conjuncts {e c : Expr} (h : c ∈ e.conjuncts) : c ∈ e.nodes := by
  refine forall_mem_conjuncts (P := (· ∈ e.nodes)) (fun inner h => ?_) (fun left right h => ⟨?_, ?_⟩)
    (mem_nodes_self e) c h
  · exact mem_nodes_trans h (mem_nodes_of_mem_children List.mem_cons_self (mem_nodes_self _))
  · exact mem_nodes_trans h (mem_nodes_of_mem_children List.mem_cons_self (mem_nodes_self _))
  · exact mem_nodes_trans h (mem_nodes_of_mem_children (List.mem_cons_of_mem _ List.mem_cons_self) (mem_nodes_self _))

end Expr

namespace Condition

variable {rule : Rule} {tables : List (String × Option String)}

/-! ## Comparisons -/

/-- What a conjunct compares it also contains. -/
theorem mem_children_of_comparison? {e tested : Expr} {relation : Relation} {operands : List Expr}
    (h : comparison? e = some (tested, relation, operands)) : tested ∈ e.children ∧ ∀ o ∈ operands, o ∈ e.children := by
  unfold comparison? at h
  split at h
  · split at h <;> cases h <;> simp [Expr.children]
  · cases h
    exact ⟨List.mem_cons_self, fun o ho => List.mem_cons_of_mem _ ho⟩
  · cases h
    exact ⟨List.mem_cons_self, fun o ho => List.mem_cons_of_mem _ ho⟩
  · cases h

theorem exists_column_of_column? {e : Expr} {c : Column} (h : column? rule tables e = some c) :
    ∃ owner span, e.unparenthesized = .column owner c.name span := by
  unfold column? at h
  split at h
  · next owner name span he =>
    obtain ⟨t, -, hc⟩ := Option.bind_eq_some_iff.1 h
    split at hc <;> cases hc
    exact ⟨owner, span, he⟩
  · cases h

/-- Behind a condition there is a conjunct that compares its column with its values. -/
theorem exists_comparison {predicate : Expr} {c : Condition} (h : c ∈ ofPredicate rule tables predicate) :
    ∃ e ∈ predicate.conjuncts, ∃ tested operands, comparison? e = some (tested, c.relation, operands) ∧
      (∃ owner span, tested.unparenthesized = .column owner c.column.name span) ∧
      operands.mapM Expr.shardingValue? = some c.values := by
  obtain ⟨e, he, hc⟩ := List.mem_filterMap.1 h
  unfold ofConjunct? at hc
  obtain ⟨⟨tested, relation, operands⟩, hcomparison, hc⟩ := Option.bind_eq_some_iff.1 hc
  obtain ⟨column, hcolumn, hc⟩ := Option.bind_eq_some_iff.1 hc
  obtain ⟨values, hvalues, hc⟩ := Option.bind_eq_some_iff.1 hc
  cases hc
  exact ⟨e, he, tested, operands, hcomparison, exists_column_of_column? hcolumn, hvalues⟩

/-! ## Values -/

/-- The constant or the parameter that a value stands for, in some parentheses. -/
theorem unparenthesized_of_shardingValue? {e : Expr} {v : Value} (h : e.shardingValue? = some v) :
    (∃ l, e.unparenthesized = .literal l ∧ v = .literal l) ∨
      ∃ i span, e.unparenthesized = .placeholder i span ∧ v = .parameter i := by
  unfold Expr.shardingValue? at h
  split at h
  · next l he => exact .inl ⟨l, he, (Option.some.inj h).symm⟩
  · next i span he => exact .inr ⟨i, span, he, (Option.some.inj h).symm⟩
  · cases h

theorem exists_operand_of_mapM {operands : List Expr} {values : List Value}
    (h : operands.mapM Expr.shardingValue? = some values) {v : Value} (hv : v ∈ values) :
    ∃ o ∈ operands, o.shardingValue? = some v := by
  induction operands generalizing values with
  | nil =>
    cases h
    cases hv
  | cons o operands ih =>
    rw [List.mapM_cons] at h
    obtain ⟨w, hw, h⟩ := Option.bind_eq_some_iff.1 h
    obtain ⟨ws, hws, h⟩ := Option.bind_eq_some_iff.1 h
    cases h
    rcases List.mem_cons.1 hv with rfl | hv
    · exact ⟨o, List.mem_cons_self, hw⟩
    · obtain ⟨o', ho', hv⟩ := ih hws hv
      exact ⟨o', List.mem_cons_of_mem _ ho', hv⟩

/-- A parameter among the values of a condition is a node of the predicate. -/
theorem exists_placeholder_mem_nodes {predicate : Expr} {c : Condition} (h : c ∈ ofPredicate rule tables predicate)
    {i : Nat} (hi : Value.parameter i ∈ c.values) : ∃ span, .placeholder i span ∈ predicate.nodes := by
  obtain ⟨e, he, tested, operands, hcomparison, -, hvalues⟩ := exists_comparison h
  obtain ⟨o, ho, hov⟩ := exists_operand_of_mapM hvalues hi
  rcases unparenthesized_of_shardingValue? hov with ⟨l, -, hl⟩ | ⟨j, span, hj, hij⟩
  · cases hl
  · cases hij
    have hmem := Expr.unparenthesized_mem_nodes o
    rw [hj] at hmem
    have hchild := (mem_children_of_comparison? hcomparison).2 o ho
    exact ⟨span, Expr.mem_nodes_trans (Expr.mem_nodes_of_mem_conjuncts he) (Expr.mem_nodes_of_mem_children hchild hmem)⟩

end Condition

end SelectRouting
