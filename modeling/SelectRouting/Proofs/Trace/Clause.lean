import SelectRouting.Grammar.Select
import SelectRouting.Proofs.Trace.From
import SelectRouting.Proofs.Trace.Pagination
/-!
# The leaves of a clause

How each clause changes the others, and the leaves that it reads.  The clauses of Oracle that are read and then
dropped leave all clauses as they are, whatever they read, and those that are skipped read nothing.
-/
namespace SelectRouting.Grammar

section
variable {d : Dialect} {rule : Rule} {m : Mode} {s s' : State} {α β : Type}

/-! ## From the select list to the order -/

theorem fills_selectList : Fills d rule (selectList d rule) fun c c' ls =>
    ∃ items, ls = items.flatMap SelectItem.leaves ∧ c' = { c with items := c.items ++ items } := by
  refine .eachSeparated (fun items c => { c with items := c.items ++ items }) ?_ ?_
  · intro as bs c
    simp [List.append_assoc]
  · exact .store reads_selectItem fun item => ⟨fun _ => rfl, fun _ => rfl, fun _ => rfl⟩

theorem fills_fromClause : Fills d rule (fromClause d rule) fun c c' ls =>
    ∃ entries, ls = entries.flatMap TableRef.leaves ∧ c' = { c with sources := c.sources ++ entries } := by
  let put (entries : List TableRef) (c : Statement) : Statement := { c with sources := c.sources ++ entries }
  refine .listWhenKeyword put (fun c => ?_) (.eachSeparated put (fun as bs c => ?_) ?_)
  · simp [put]
  · simp [put, List.append_assoc]
  · exact .store reads_tableReference fun _ => ⟨fun _ => rfl, fun _ => rfl, fun _ => rfl⟩

theorem fills_whereClause : Fills d rule (whereClause rule) fun c c' ls =>
    ∃ p : Option Expr, ls = p.toList.flatMap Expr.leaves ∧ c' = p.elim c (storePredicate rule · c) := by
  have hput : ∀ p, Stores (storePredicate rule p) := fun _ => ⟨fun _ => rfl, fun _ => rfl, fun _ => rfl⟩
  exact .storeWhenKeyword (.store reads_expression hput)

theorem fills_grouping : Fills d rule (grouping d rule) fun c c' ls =>
    ∃ e : Expr, ls = e.leaves ∧ c' = { c with groups := c.groups ++ [e] } := by
  have hput : ∀ e : Expr, Stores fun c => { c with groups := c.groups ++ [e] } :=
    fun _ => ⟨fun _ => rfl, fun _ => rfl, fun _ => rfl⟩
  refine fun s => .look_bind ?_
  split
  · exact .unsupported
  · exact Fills.store reads_expression hput s

theorem fills_groupBy : Fills d rule (groupBy d rule) fun c c' ls =>
    ∃ groups, ls = groups.flatMap Expr.leaves ∧ c' = { c with groups := c.groups ++ groups } := by
  let put (groups : List Expr) (c : Statement) : Statement := { c with groups := c.groups ++ groups }
  refine .listWhenKeyword put (fun c => ?_) (.expectKeyword_bind ?_)
  · simp [put]
  · refine .eachSeparated put (fun as bs c => ?_) fills_grouping
    simp [put, List.append_assoc]

theorem fills_havingClause : Fills d rule (havingClause rule) fun c c' ls =>
    ∃ p : Option Expr, ls = p.toList.flatMap Expr.leaves ∧ c' = p.elim c fun p => { c with having := some p } := by
  have hput : ∀ p : Expr, Stores fun c => { c with having := some p } :=
    fun _ => ⟨fun _ => rfl, fun _ => rfl, fun _ => rfl⟩
  exact .storeWhenKeyword (.store reads_expression hput)

theorem fills_orderBy : Fills d rule (orderBy d rule) fun c c' ls =>
    ∃ items : Option (List OrderItem), ls = (items.getD []).flatMap OrderItem.leaves ∧
      c' = items.elim c fun items => { c with order := items } := by
  have hput : ∀ items : List OrderItem, Stores fun c => { c with order := items } :=
    fun _ => ⟨fun _ => rfl, fun _ => rfl, fun _ => rfl⟩
  refine (Fills.storeWhenKeyword (.expectKeyword_bind (.store reads_orderItems hput))).mono ?_
  rintro c c' ls ⟨items, hls, hc⟩
  refine ⟨items, ?_, hc⟩
  rw [hls]
  cases items with
  | none => rfl
  | some items => exact List.append_nil _

/-! ## Clauses that are read and dropped -/

/-- A parser whose leaves do not matter. -/
def Drops (d : Dialect) (rule : Rule) (p : Parser α) : Prop :=
  ∀ s, Traced d rule .reading s p fun _ _ _ => True

theorem Reads.drops {p : Parser α} {f : α → List Leaf} {before : List Leaf} (hp : Reads d rule .reading before p f) :
    Drops d rule p :=
  fun s => (hp s).mono fun _ _ _ _ => trivial

theorem Drops.bind {p : Parser α} {f : α → Parser β} (hp : Drops d rule p) (hf : ∀ a, Drops d rule (f a)) :
    Drops d rule (p >>= f) :=
  fun s => (hp s).bind fun a _ s' _ => hf a s'

theorem Drops.pure {a : α} : Drops d rule (Pure.pure a) :=
  fun _ => .pure trivial

/-- A clause behind its keyword, which may be missing. -/
theorem Drops.whenKeyword {k : Keyword} {p : Parser Unit} (hp : Drops d rule p) :
    Drops d rule (skipKeyword k >>= fun b => if b then p else Pure.pure ()) :=
  fun _ => .skipKeyword_bind (fun _ => hp _) fun _ => .pure trivial

theorem Drops.allowingPrior {p : Parser α} (hp : Drops d rule p) : Drops d rule (Grammar.allowingPrior p) := by
  intro s hs
  have hout := hp { s with priorAllowed := true } hs
  have hstart : Run rule s [] { s with priorAllowed := true } := .refl rfl rfl
  unfold Grammar.allowingPrior
  cases hr : p { s with priorAllowed := true } with
  | ok a s' =>
    rw [hr] at hout
    obtain ⟨es, hrun, hall, hwhole, -⟩ := hout
    refine ⟨es ++ [], (hstart.append hrun).append (.refl rfl rfl), ?_, ?_, trivial⟩
    · rwa [List.append_nil]
    · rwa [List.append_nil]
  | error e s' =>
    rw [hr] at hout
    obtain ⟨es, hrun, hall⟩ := hout
    refine ⟨es ++ [], (hstart.append hrun).append (.refl rfl rfl), ?_⟩
    rwa [List.append_nil]

theorem drops_skipConnectBy : Drops d rule (skipConnectBy rule) := by
  refine .whenKeyword (.bind silent_expectKeyword.drops fun _ => .bind silent_skipKeyword.drops fun _ => ?_)
  exact .bind (.allowingPrior reads_expression.drops) fun _ => .pure

theorem drops_skipStartWith : Drops d rule (skipStartWith rule) :=
  .whenKeyword (.bind silent_expectKeyword.drops fun _ => .bind reads_expression.drops fun _ => .pure)

theorem drops_skipHierarchy : Drops d rule (skipHierarchy rule) :=
  .bind drops_skipConnectBy fun _ => .bind drops_skipStartWith fun _ => drops_skipConnectBy

theorem silent_skipWaiting : Silent d rule .reading skipWaiting := by
  refine .branch silent_skipKeyword ?_ (.branch silent_skipKeyword ?_ ?_)
  · exact .silent_bind (silent_expect ⟨nofun, nofun⟩) fun _ => .pure rfl
  · exact .silent_bind silent_expectKeyword fun _ => .pure rfl
  · exact .silent_bind silent_skipKeyword fun _ => .pure rfl

theorem drops_skipForUpdate : Drops d rule (skipForUpdate rule) := by
  refine .whenKeyword (.bind silent_expectKeyword.drops fun _ => .bind ?_ fun _ => silent_skipWaiting.drops)
  exact .whenKeyword (.bind reads_expression.commaSeparated.drops fun _ => .pure)

/-! ## Clauses that are skipped -/

theorem skims_skipCellOptions : Skims d rule skipCellOptions := by
  have hmissing : Skims d rule skipMissing := .branchAny (.expectKeyword_bind fun _ => .pure) .pure
  have huniqueness : Skims d rule skipUniqueness :=
    .branch (.branch (.expectKeyword_bind fun _ => .pure) (.expectKeyword_bind fun _ => .pure)) .pure
  exact hmissing.bind fun _ => huniqueness

theorem skims_skipReturn : Skims d rule skipReturn :=
  .branch (.branchAny (.expectKeyword_bind fun _ => .pure) .unexpected) .pure

theorem skims_rejectReference : Skims d rule rejectReference := by
  refine .branch ?_ .pure
  exact .expectName_bind fun _ => .expectKeyword_bind fun _ => .region_bind fun _ => .unsupported

theorem skims_skipMainName : Skims d rule skipMainName :=
  .branch (.expectName_bind fun _ => .pure) .pure

theorem skims_skipModelPartition : Skims d rule skipModelPartition := by
  refine .branch (.expectKeyword_bind fun _ => .check_bind fun b => ?_) .pure
  cases b with
  | true => exact .region_bind fun _ => .pure
  | false => exact .unsupported

theorem skims_skipColumns : Skims d rule skipColumns := by
  refine .expectKeyword_bind fun _ => .expectKeyword_bind fun _ => .region_bind fun _ => ?_
  exact .expectKeyword_bind fun _ => .region_bind fun _ => .pure

theorem skims_skipRuleOptions : Skims d rule skipRuleOptions := by
  have hkind : Skims d rule skipRuleKind :=
    .branch (.skipKeyword_bind fun _ => .pure) (.skipKeyword_bind fun _ => .pure)
  have horder : Skims d rule skipRuleOrder := .branchAny (.expectKeyword_bind fun _ => .pure) .pure
  exact .branch (hkind.bind fun _ => horder) .pure

theorem skims_skipIteration : Skims d rule skipIteration := by
  refine .branch (.region_bind fun _ => ?_) .pure
  exact .branch (.region_bind fun _ => .pure) .pure

theorem skims_skipRules : Skims d rule skipRules :=
  skims_skipRuleOptions.bind fun _ => skims_skipIteration.bind fun _ => .region_bind fun _ => .pure

theorem skims_skipMainModel : Skims d rule skipMainModel := by
  refine skims_skipMainName.bind fun _ => skims_skipModelPartition.bind fun _ => skims_skipColumns.bind fun _ => ?_
  exact skims_skipCellOptions.bind fun _ => skims_skipRules

theorem silent_skipModel (hd : .model ∈ d.skippedClauses) : Silent d rule .reading skipModel := by
  refine silent_skipClause hd ?_ (.pure rfl)
  refine skims_skipCellOptions.bind fun _ => skims_skipReturn.bind fun _ => ?_
  exact skims_rejectReference.bind fun _ => skims_skipMainModel

end

end SelectRouting.Grammar
