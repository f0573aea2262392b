import SelectRouting.Proofs.Trace.Select
/-!
# Sessions

A session calls the steps of a cursor and of a parser on one state, in any order and as often as it likes; it goes on
after an error from where the parser stopped.  Main statement: whatever is called, the session is a run
(`Call.exists_run`, `exists_run_session`).
-/
namespace SelectRouting.Grammar

/-- The state that a parser ends in, with a value or with an error. -/
def State.after {α : Type} (p : Parser α) (s : State) : State :=
  match p s with
  | .ok _ s' | .error _ s' => s'

/-! ## Calls -/

/-- A step that can be called from outside. -/
inductive Call where
  -- Of the cursor
  /-- Any of the steps that only look. -/
  | look (f : Cursor → Bool)
  | advance
  | skip (k : Token.Kind)
  | skipKeyword (k : Keyword)
  | skipAny (ks : List Keyword)
  | unexpected (expected : String)
  | expect (k : Token.Kind)
  | expectKeyword (k : Keyword)
  | expectName
  | skipRegion
  -- Of the parser
  | distinct
  | selectList
  | fromClause
  | whereClause
  | groupBy
  | havingClause
  | orderBy
  | clauses
  | select
  | tableReference
  | tableFactor
  | commonTableFactor
  | joins (left : TableRef)
  | commonJoins (left : TableRef)
  | aliasClause
  | orderItems
  | nullsFirstLast
  | nullOrder
  | limitValue
  | expression
  | hierarchicalCondition
  | atRowNumberItem
  | rowNumberItem
  /-- The caller puts something into the clauses, or takes it out of them. -/
  | rearrange (put : Statement → Statement) (stores : Stores put)

namespace Call

/-- What a call does to the state; its value is not needed here. -/
def after (d : Dialect) (rule : Rule) (s : State) : Call → State
  | look f => s.after (Grammar.look f)
  | advance => s.after Grammar.advance
  | skip k => s.after (Grammar.skip k)
  | skipKeyword k => s.after (Grammar.skipKeyword k)
  | skipAny ks => s.after (Grammar.skipAny ks)
  | unexpected expected => s.after (Grammar.unexpected expected : Parser Unit)
  | expect k => s.after (Grammar.expect k)
  | expectKeyword k => s.after (Grammar.expectKeyword k)
  | expectName => s.after Grammar.expectName
  | skipRegion => s.after Grammar.skipRegion
  | distinct => s.after (Grammar.distinct d)
  | selectList => s.after (Grammar.selectList d rule)
  | fromClause => s.after (Grammar.fromClause d rule)
  | whereClause => s.after (Grammar.whereClause rule)
  | groupBy => s.after (Grammar.groupBy d rule)
  | havingClause => s.after (Grammar.havingClause rule)
  | orderBy => s.after (Grammar.orderBy d rule)
  | clauses => s.after (Grammar.clauses d rule)
  | select => s.after (Grammar.select d rule)
  | tableReference => s.after (Grammar.tableReference d rule)
  | tableFactor => s.after (Grammar.tableFactor d rule)
  | commonTableFactor => s.after (Grammar.commonTableFactor d rule)
  | joins left => s.after (Grammar.joins d rule left)
  | commonJoins left => s.after (Grammar.commonJoins d rule left)
  | aliasClause => s.after Grammar.aliasClause
  | orderItems => s.after (Grammar.orderItems d rule)
  | nullsFirstLast => s.after Grammar.nullsFirstLast
  | nullOrder => s.after (Grammar.nullOrder d)
  | limitValue => s.after Grammar.limitValue
  | expression => s.after (Grammar.expression rule)
  | hierarchicalCondition => s.after (Grammar.hierarchicalCondition rule)
  | atRowNumberItem => s.after (Grammar.atRowNumberItem d)
  | rowNumberItem => s.after (Grammar.rowNumberItem d rule)
  | rearrange put _ => s.after (modifyStatement put)

end Call

/-- The state behind some calls on the first token of a text, with nothing in the statement yet. -/
def session (d : Dialect) (rule : Rule) (source : String) (calls : List Call) : State :=
  calls.foldl (fun s c => c.after d rule s) (.ofSource source)

/-! ## Runs of parsers -/

section
variable {d : Dialect} {rule : Rule} {m : Mode} {α β : Type}

/-- Whatever a parser ends with, it has done a run. -/
def Runs (rule : Rule) (p : Parser α) : Prop :=
  ∀ s, Token.Complete s.cursor.tokens → ∃ es, Run rule s es (s.after p)

theorem Outcome.exists_run {s : State} {p : Parser α} {Q : α → List Event → State → Prop}
    (h : Outcome d rule m s (p s) Q) : ∃ es, Run rule s es (s.after p) := by
  unfold State.after
  cases hr : p s with
  | ok a s' =>
    rw [hr] at h
    obtain ⟨es, hrun, -⟩ := h
    exact ⟨es, hrun⟩
  | error e s' =>
    rw [hr] at h
    obtain ⟨es, hrun, -⟩ := h
    exact ⟨es, hrun⟩

theorem Runs.of_traced {p : Parser α} {Q : State → α → List Event → State → Prop}
    (h : ∀ s, Traced d rule m s p (Q s)) : Runs rule p :=
  fun s hs => (h s hs).exists_run

theorem Reads.runs {p : Parser α} {before : List Leaf} {f : α → List Leaf} (h : Reads d rule m before p f) :
    Runs rule p :=
  .of_traced h

theorem Fills.runs {p : Parser Unit} {U : Statement → Statement → List Leaf → Prop} (h : Fills d rule p U) :
    Runs rule p :=
  .of_traced h

theorem Runs.bind {p : Parser α} {f : α → Parser β} (hp : Runs rule p) (hf : ∀ a, Runs rule (f a)) :
    Runs rule (p >>= f) := by
  intro s hs
  obtain ⟨es, hrun⟩ := hp s hs
  unfold State.after at hrun ⊢
  rw [bind_apply]
  cases hr : p s with
  | error e s' =>
    rw [hr] at hrun
    exact ⟨es, hrun⟩
  | ok a s' =>
    rw [hr] at hrun
    obtain ⟨es', hrun'⟩ := hf a s' (hrun.complete hs)
    exact ⟨es ++ es', hrun.append hrun'⟩

theorem Runs.pure {a : α} : Runs rule (Pure.pure a) :=
  fun _ _ => ⟨[], .refl rfl rfl⟩

theorem Runs.look {f : Cursor → α} : Runs rule (Grammar.look f) :=
  fun _ _ => ⟨[], .refl rfl rfl⟩

theorem Runs.unexpected {expected : String} : Runs rule (Grammar.unexpected expected : Parser α) :=
  fun _ _ => ⟨[], .refl rfl rfl⟩

/-- Called from outside, the cursor may pass any token, a parameter too. -/
theorem Runs.advance : Runs rule Grammar.advance := by
  intro s hs
  by_cases hk : s.cursor.kind = .eof
  · refine ⟨[], .refl ?_ rfl⟩
    show s.cursor.advance.tokens = s.cursor.tokens
    rw [Cursor.advance_of_eof hk]
  · exact ⟨_, .single (.pass hs hk)⟩

theorem Runs.skipWhen {test : Cursor → Bool} : Runs rule (Grammar.skipWhen test) := by
  refine .bind .look fun b => ?_
  cases b with
  | true => exact .bind .advance fun _ => .pure
  | false => exact .pure

theorem Runs.expect {k : Token.Kind} : Runs rule (Grammar.expect k) := by
  refine .bind .look fun span => .bind .skipWhen fun b => ?_
  cases b with
  | true => exact .pure
  | false => exact .unexpected

theorem Runs.limitValue : Runs rule Grammar.limitValue :=
  .of_traced fun _ => traced_limitValue (d := .generic)

theorem Runs.distinct : Runs rule (Grammar.distinct d) :=
  .of_traced fun s => traced_distinct s.cursor.current

theorem Runs.clauses (d : Dialect) : Runs rule (Grammar.clauses d rule) := by
  have hwhere : Runs rule (Grammar.whereClause rule) := (fills_whereClause (d := d)).runs
  have hhaving : Runs rule (Grammar.havingClause rule) := (fills_havingClause (d := d)).runs
  cases d with
  | generic =>
    refine Runs.distinct.bind fun _ => fills_selectList.runs.bind fun _ => fills_fromClause.runs.bind fun _ => ?_
    exact hwhere.bind fun _ => fills_groupBy.runs.bind fun _ => hhaving.bind fun _ => fills_orderBy.runs
  | oracle =>
    have hhierarchy : Runs rule (skipHierarchy rule) := .of_traced (drops_skipHierarchy (d := .oracle))
    have hmodel : Runs rule skipModel := (silent_skipModel (d := .oracle) (by decide)).runs
    have hlocked : Runs rule (skipForUpdate rule) := .of_traced (drops_skipForUpdate (d := .oracle))
    refine Runs.distinct.bind fun _ => fills_selectList.runs.bind fun _ => fills_fromClause.runs.bind fun _ => ?_
    refine hwhere.bind fun _ => hhierarchy.bind fun _ => fills_groupBy.runs.bind fun _ => hhaving.bind fun _ => ?_
    exact hmodel.bind fun _ => fills_orderBy.runs.bind fun _ => hlocked
  | sqlServer =>
    have htop : Runs rule topClause := .of_traced fun _ => traced_topClause (d := .sqlServer)
    have hoffset : Runs rule offsetFetch := (fills_offsetFetch (d := .sqlServer)).runs
    have houtput : Runs rule skipForOutput := (silent_skipForOutput (d := .sqlServer) (by decide)).runs
    refine Runs.distinct.bind fun _ => htop.bind fun _ => fills_selectList.runs.bind fun _ => ?_
    refine fills_fromClause.runs.bind fun _ => hwhere.bind fun _ => fills_groupBy.runs.bind fun _ => ?_
    exact hhaving.bind fun _ => fills_orderBy.runs.bind fun _ => hoffset.bind fun _ => houtput

theorem Runs.select (d : Dialect) : Runs rule (Grammar.select d rule) := by
  have hend : Runs rule endOfStatement := .of_traced fun _ => traced_endOfStatement (d := d)
  exact (silent_expectKeyword (d := d) (m := .reading)).runs.bind fun _ => (Runs.clauses d).bind fun _ => hend

end

theorem Call.exists_run {d : Dialect} {rule : Rule} {s : State} (hs : Token.Complete s.cursor.tokens) (c : Call) :
    ∃ es, Run rule s es (c.after d rule s) := by
  cases c with
  | look f => exact Runs.look (f := f) s hs
  | advance => exact Runs.advance s hs
  | skip k => exact Runs.skipWhen s hs
  | skipKeyword k => exact Runs.skipWhen s hs
  | skipAny ks => exact Runs.skipWhen s hs
  | unexpected expected => exact ⟨[], .refl rfl rfl⟩
  | expect k => exact Runs.expect s hs
  | expectKeyword k => exact (silent_expectKeyword (d := d) (m := .reading)).runs s hs
  | expectName => exact (silent_expectName (d := d) (m := .reading)).runs s hs
  | skipRegion => exact Runs.of_traced (skims_region (d := d)) s hs
  | distinct => exact Runs.distinct s hs
  | selectList => exact fills_selectList.runs s hs
  | fromClause => exact fills_fromClause.runs s hs
  | whereClause => exact (fills_whereClause (d := d)).runs s hs
  | groupBy => exact fills_groupBy.runs s hs
  | havingClause => exact (fills_havingClause (d := d)).runs s hs
  | orderBy => exact fills_orderBy.runs s hs
  | clauses => exact Runs.clauses d s hs
  | select => exact Runs.select d s hs
  | tableReference => exact reads_tableReference.runs s hs
  | tableFactor => exact reads_tableFactor.runs s hs
  | commonTableFactor => exact reads_commonTableFactor.runs s hs
  | joins left => exact (reads_joins left).runs s hs
  | commonJoins left => exact (reads_commonJoins left).runs s hs
  | aliasClause => exact (silent_aliasClause (d := d)).runs s hs
  | orderItems => exact reads_orderItems.runs s hs
  | nullsFirstLast => exact (silent_nullsFirstLast (d := d)).runs s hs
  | nullOrder => exact silent_nullOrder.runs s hs
  | limitValue => exact Runs.limitValue s hs
  | expression => exact (reads_expression (d := d)).runs s hs
  | hierarchicalCondition => exact Runs.of_traced (Drops.allowingPrior (d := d) reads_expression.drops) s hs
  | atRowNumberItem => exact silent_atRowNumberItem.runs s hs
  | rowNumberItem => exact reads_rowNumberItem.runs s hs
  | rearrange put stores => exact Runs.of_traced (fun _ => Traced.modifyStatement (d := d) stores) s hs

theorem exists_run_foldl {d : Dialect} {rule : Rule} (calls : List Call) {s : State}
    (hs : Token.Complete s.cursor.tokens) : ∃ es, Run rule s es (calls.foldl (fun s c => c.after d rule s) s) := by
  induction calls generalizing s with
  | nil => exact ⟨[], .refl rfl rfl⟩
  | cons c calls ih =>
    obtain ⟨es, hrun⟩ := c.exists_run (d := d) hs
    obtain ⟨es', hrun'⟩ := ih (hrun.complete hs)
    exact ⟨es ++ es', hrun.append hrun'⟩

theorem exists_run_session (d : Dialect) (rule : Rule) (source : String) (calls : List Call) :
    ∃ es, Run rule (.ofSource source) es (session d rule source calls) := by
  refine exists_run_foldl calls ?_
  rw [State.tokens_ofSource]
  exact Token.complete_lex source

end SelectRouting.Grammar
