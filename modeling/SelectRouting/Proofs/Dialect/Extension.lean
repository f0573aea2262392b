import SelectRouting.Proofs.Dialect.NullOrder
/-!
# Dialects beside the generic one

What the generic dialect accepts, the others accept with the same statement, but for where nulls sort in SQL Server; only
Oracle rejects some groupings, and SQL Server the word `NULLS` (`Statement.extends_generic`).  A text without the words
that a dialect has of its own has the same outcome as in the generic dialect, errors included
(`Statement.parse_eq_of_no_own_word`).
-/
namespace SelectRouting

namespace Grammar

section
variable {d : Dialect} {rule : Rule} {s s' : State}

/-! ## The two halves of a statement -/

/-- A statement up to its groupings. -/
def front (d : Dialect) (rule : Rule) : Parser Unit :=
  expectKeyword .select >>= fun _ => opening d rule

/-- What stands behind the groupings. -/
def closing (d : Dialect) (rule : Rule) : Parser Unit := do
  havingClause rule >>= fun _ => behindHaving d
  orderBy d rule
  behindOrder rule d
  endOfStatement

theorem select_eq (d : Dialect) (rule : Rule) :
    select d rule = front d rule >>= fun _ => groupBy d rule >>= fun _ => closing d rule := by
  rw [select, clauses_eq]
  simp only [front, closing, bind_assoc]

theorem follows_front : Follows d rule tailWords (front .generic rule) (front d rule) :=
  .before (silent_expectKeyword (d := .generic) (m := .reading)).runs fun _ => follows_opening

theorem fails_closing : Fails tailWords (closing .generic rule) :=
  .bind (.bind leads_havingClause fun _ => .stay) fun _ => .bind leads_orderBy fun _ =>
    .bind .stay fun _ => fails_endOfStatement

theorem fails_behindFront : Fails tailWords (groupBy .generic rule >>= fun _ => closing .generic rule) :=
  .bind leads_groupBy fun _ => fails_closing

/-! ## What the generic clauses store -/

/-- The generic dialect numbers no rows. -/
theorem order_eq_nil_of_selectItem {item : SelectItem} (h : selectItem .generic rule s = .ok item s') :
    item.order = [] := by
  rw [selectItem_of_not_atAny s.cursor.atAny_nil] at h
  obtain ⟨e, s₁, he, hrest⟩ := ok_of_bind h
  split at hrest
  · cases hrest
    rfl
  · obtain ⟨a, s₂, ha, hrest⟩ := ok_of_bind hrest
    cases hrest
    rfl

/-- What is known of a value holds beside what has been read. -/
theorem Traced.and_of_ok {α : Type} {m : Mode} {p : Parser α} {P : α → Prop} {Q : α → List Event → State → Prop}
    (h : Traced d rule m s p Q) (hP : ∀ a s', p s = .ok a s' → P a) :
    Traced d rule m s p fun a es s' => P a ∧ Q a es s' := by
  intro hs
  have hout := h hs
  cases hr : p s with
  | error e s' =>
    rw [hr] at hout
    exact hout
  | ok a s' =>
    rw [hr] at hout
    obtain ⟨es, hrun, hall, hwhole, hq⟩ := hout
    exact ⟨es, hrun, hall, hwhole, hP a s' hr, hq⟩

theorem fills_selectList_generic : Fills .generic rule (selectList .generic rule) fun c c' _ =>
    ∃ items : List SelectItem, (∀ item ∈ items, item.order = []) ∧ c' = { c with items := c.items ++ items } := by
  let put (items : List { item : SelectItem // item.order = [] }) (c : Statement) : Statement :=
    { c with items := c.items ++ items.map (·.1) }
  have hitem : Fills .generic rule (selectItem .generic rule >>= fun item =>
      modifyStatement fun s => { s with items := s.items ++ [item] }) fun c c' ls =>
        ∃ item, ls = SelectItem.leaves item.1 ∧ c' = put [item] c := by
    intro s
    have hread : Traced .generic rule .reading s (selectItem .generic rule) _ := reads_selectItem s
    refine (hread.and_of_ok fun _ _ => order_eq_nil_of_selectItem).storing.bind fun item es s' ⟨⟨hplain, hes⟩, hc⟩ => ?_
    have hput : Stores fun c => { c with items := c.items ++ [item] } := ⟨fun _ => rfl, fun _ => rfl, fun _ => rfl⟩
    refine (Traced.modifyStatement hput).mono fun _ es' s'' ⟨hes', hc'⟩ => ?_
    refine ⟨⟨item, hplain⟩, ?_, by rw [hc', hc]; rfl⟩
    rw [Event.leaves_append, hes', List.append_nil]
    exact hes
  refine (Fills.eachSeparated put (fun as bs c => ?_) hitem).mono ?_
  · simp [put, List.append_assoc]
  · rintro c c' ls ⟨items, -, rfl⟩
    exact ⟨items.map (·.1), List.forall_mem_map.2 fun item _ => item.2, rfl⟩

/-- Behind the opening clauses nothing is grouped and nothing ordered. -/
theorem fills_opening_generic : Fills .generic rule (opening .generic rule) fun c c' _ =>
    c'.groups = c.groups ∧ c'.order = c.order ∧
      ∃ items : List SelectItem, (∀ item ∈ items, item.order = []) ∧ c'.items = c.items ++ items := by
  have hdistinct : Fills .generic rule (distinct .generic) fun c c' _ => ∃ b, c' = { c with distinct := b } :=
    fun s => (traced_distinct s.cursor.current).mono fun _ _ _ h => h.2.1
  have hnothing : Fills .generic rule (pure ()) fun c c' ls => c' = c ∧ ls = [] := .of_silent (.pure rfl)
  have hfrom := fills_fromClause.bind (fills_whereClause.bind hnothing)
  have hitems := hnothing.bind (fills_selectList_generic.bind hfrom)
  refine (hdistinct.bind hitems).mono fun c c' ls h => ?_
  obtain ⟨_, _, _, ⟨b, rfl⟩, ⟨_, _, _, ⟨rfl, -⟩, ⟨_, _, _, ⟨items, hplain, rfl⟩, ⟨_, _, _, ⟨sources, -, rfl⟩,
    ⟨_, _, _, ⟨p, -, rfl⟩, ⟨rfl, -⟩, -⟩, -⟩, -⟩, -⟩, -⟩ := h
  cases p with
  | none => exact ⟨rfl, rfl, items, hplain, rfl⟩
  | some p => exact ⟨rfl, rfl, items, hplain, rfl⟩

theorem of_front_generic (hs : Token.Complete s.cursor.tokens) (hempty : s.statement = .empty) {u : Unit}
    (h : front .generic rule s = .ok u s') :
    s'.statement.groups = [] ∧ s'.statement.order = [] ∧ ∀ item ∈ s'.statement.items, item.order = [] := by
  have hfills : Fills .generic rule (front .generic rule) _ := fills_opening_generic.expectKeyword_bind
  obtain ⟨es, -, hgroups, horder, items, hplain, hitems⟩ := Traced.of_ok (hfills s) hs h
  rw [hempty] at hgroups horder hitems
  refine ⟨hgroups, horder, fun item hitem => hplain item ?_⟩
  have hsame : s'.statement.items = items := hitems
  rwa [hsame] at hitem

/-- What stands behind the groupings leaves them as they are. -/
theorem groups_of_closing_generic (hs : Token.Complete s.cursor.tokens) {u : Unit}
    (h : closing .generic rule s = .ok u s') : s'.statement.groups = s.statement.groups := by
  have hnothing : Fills .generic rule (pure ()) fun c c' ls => c' = c ∧ ls = [] := .of_silent (.pure rfl)
  have hend : Fills .generic rule endOfStatement fun c c' _ => c' = c :=
    fun s => traced_endOfStatement.mono fun _ _ _ h => h.2.1
  have hfills : Fills .generic rule (closing .generic rule) _ :=
    (fills_havingClause.bind hnothing).bind (fills_orderBy.bind (hnothing.bind hend))
  obtain ⟨es, -, _, _, _, ⟨_, _, _, ⟨having?, -, rfl⟩, ⟨rfl, -⟩, -⟩, ⟨_, _, _, ⟨order?, -, rfl⟩,
    ⟨_, _, _, ⟨rfl, -⟩, hclauses, -⟩, -⟩, -⟩ := Traced.of_ok (hfills s) hs h
  have hgroups : s'.statement.clauses.groups = s.statement.clauses.groups := by
    rw [hclauses]
    cases order? <;> cases having? <;> rfl
  exact hgroups

/-- A dialect fails as the generic one does in front of the groupings, or comes to them as the generic one does, unless
it departs where the generic one does not accept. -/
theorem select_cases (d : Dialect) (hs : Token.Complete s.cursor.tokens) (hempty : s.statement = .empty) :
    (∃ e s', select .generic rule s = .error e s' ∧ select d rule s = .error e s') ∨
    (s.Ahead d.ownWords ∧ ∀ u s', select .generic rule s ≠ .ok u s') ∨
    ∃ es s₁, Run rule s es s₁ ∧ s₁.statement.groups = [] ∧ s₁.statement.order = [] ∧
      (∀ item ∈ s₁.statement.items, item.order = []) ∧
      select .generic rule s = (groupBy .generic rule >>= fun _ => closing .generic rule) s₁ ∧
      select d rule s = (groupBy d rule >>= fun _ => closing d rule) s₁ := by
  have hfollows : Follows d rule tailWords (front .generic rule) (front d rule) := follows_front
  rw [select_eq, select_eq]
  rcases hfollows.same_or s hs with hfront | ⟨hahead, hstop⟩
  · cases hf : front .generic rule s with
    | error e s₁ => exact .inl ⟨e, s₁, bind_of_error hf _, bind_of_error (hfront.trans hf) _⟩
    | ok u s₁ =>
      obtain ⟨es, hrun⟩ := hfollows.runs.exists_run hs hf
      obtain ⟨hgroups, horder, hitems⟩ := of_front_generic hs hempty hf
      exact .inr (.inr ⟨es, s₁, hrun, hgroups, horder, hitems, bind_of_ok hf _, bind_of_ok (hfront.trans hf) _⟩)
  · refine .inr (.inl ⟨hahead, fun u s' h => ?_⟩)
    obtain ⟨u', s₁, hf, hrest⟩ := ok_of_bind h
    have hat := fails_behindFront s₁ u s' (hstop u' s₁ hf) hrest
    rw [Cursor.atAny_nil] at hat
    cases hat

/-! ## Oracle -/

theorem follows_closing_oracle : Follows .oracle rule [] (closing .generic rule) (closing .oracle rule) := by
  have hend : Runs rule endOfStatement := .of_traced fun _ => traced_endOfStatement (d := .generic)
  refine .bind follows_having (fun _ => .before fills_orderBy.runs fun _ => ?_) fun _ => ?_
  · exact .bind follows_behindOrder (fun _ => .refl hend) fun _ => fails_endOfStatement
  · exact .bind leads_orderBy fun _ => .bind .stay fun _ => fails_endOfStatement

/-- Oracle does what the generic dialect does, or it rejects a grouping that the generic one has read. -/
theorem select_oracle (rule : Rule) (hs : Token.Complete s.cursor.tokens) (hempty : s.statement = .empty) :
    select .oracle rule s = select .generic rule s ∨ s.Ahead Dialect.oracle.ownWords ∧
      ∀ u s', select .generic rule s = .ok u s' → ∃ es s₁ error s'', Run rule s es s₁ ∧
        s₁.cursor.kind = .keyword .group ∧ s₁.advanced.cursor.kind = .keyword .by ∧
        select .oracle rule s = .error error s'' ∧
        Rejects .oracle rule s₁.advanced.advanced s'.statement.groups error := by
  rcases select_cases .oracle hs hempty with ⟨e, s', hp, hq⟩ | ⟨hahead, hnever⟩ | ⟨es, s₁, hrun, hnone, -, -, hp, hq⟩
  · exact .inl (hq.trans hp.symm)
  · exact .inr ⟨hahead, fun u s' h => absurd h (hnever u s')⟩
  · have hs₁ := hrun.complete hs
    rw [hp, hq]
    rcases groupBy_eq_or_rejects (d := .oracle) hs₁ with hgroup | ⟨hahead, hrejects⟩
    · cases hg : groupBy .generic rule s₁ with
      | error e s₂ => exact .inl ((bind_of_error (hgroup.trans hg) _).trans (bind_of_error hg _).symm)
      | ok u s₂ =>
        obtain ⟨es', hrun'⟩ := (fills_groupBy (d := .generic)).runs.exists_run hs₁ hg
        rw [bind_of_ok hg, bind_of_ok (hgroup.trans hg)]
        refine (follows_closing_oracle.same_or s₂ (hrun'.complete hs₁)).imp_right fun ⟨hahead, hnever⟩ => ?_
        refine ⟨(hahead.of_run hrun').of_run hrun, fun u' s' h => ?_⟩
        have hat := hnever u' s' h
        rw [Cursor.atAny_nil] at hat
        cases hat
    · refine .inr ⟨(hahead.mono (by decide)).of_run hrun, fun u' s' h => ?_⟩
      obtain ⟨u, s₂, hg, hclosing⟩ := ok_of_bind h
      obtain ⟨es', hrun'⟩ := (fills_groupBy (d := .generic)).runs.exists_run hs₁ hg
      obtain ⟨hkind, hby, error, s'', gs, herror, hgroups, hgs⟩ := hrejects u s₂ hg
      refine ⟨es, s₁, error, s'', hrun, hkind, hby, bind_of_error herror _, ?_⟩
      rw [hnone, List.nil_append] at hgroups
      rwa [groups_of_closing_generic (hrun'.complete hs₁) hclosing, hgroups]

/-! ## SQL Server -/

/-- The results of the generic dialect and of SQL Server from one state: the same error, the same statement but for its
nulls, or, where a word of SQL Server is ahead, no statement of the generic dialect or an error at `NULLS`. -/
inductive Beside (s : State) : EStateM.Result ParseError State Unit → EStateM.Result ParseError State Unit → Prop where
  | error {e : ParseError} {s' s'' : State} : Beside s (.error e s') (.error e s'')
  | ok {u u' : Unit} {s' s'' : State} (hlast : s''.statement = s'.statement.nullsLast)
      (hfirst : ∀ i ∈ s'.statement.orderItems, i.nulls = .ascending) : Beside s (.ok u s') (.ok u' s'')
  | departed {r r' : EStateM.Result ParseError State Unit} (hahead : s.Ahead Dialect.sqlServer.ownWords)
      (hstop : ∀ u s', r = .ok u s' → ∃ t ∈ s.cursor.tokens, t.kind = .keyword .nulls ∧
        ∃ s'', r' = .error ⟨.unexpected "end of statement" t.kind, t.span⟩ s'') : Beside s r r'

theorem Beside.of_run {r r' : EStateM.Result ParseError State Unit} {es : List Event} (h : Beside s' r r')
    (hrun : Run rule s es s') : Beside s r r' := by
  cases h with
  | error => exact .error
  | ok hlast hfirst => exact .ok hlast hfirst
  | departed hahead hstop =>
    refine .departed (hahead.of_run hrun) fun u s₁ h => ?_
    obtain ⟨t, ht, hstop⟩ := hstop u s₁ h
    exact ⟨t, hrun.tokens_eq ▸ List.mem_append_right _ ht, hstop⟩

/-- A state behind a semicolon, if there is one. -/
def State.pastSemicolon (s : State) : State :=
  if s.cursor.kind.alike .semicolon then s.advanced else s

theorem State.pastSemicolon_nullsLast (s : State) : s.nullsLast.pastSemicolon = s.pastSemicolon.nullsLast := by
  show (if s.cursor.kind.alike .semicolon then s.nullsLast.advanced else s.nullsLast) = _
  unfold pastSemicolon
  split <;> rfl

theorem endOfStatement_eq (s : State) : endOfStatement s = match setOperator? s.cursor with
    | some k => .error ⟨.unsupported k.text, s.cursor.span⟩ s
    | none => if s.pastSemicolon.cursor.kind.alike .eof then .ok () s.pastSemicolon
      else .error ⟨.unexpected "end of statement" s.pastSemicolon.cursor.kind, s.pastSemicolon.cursor.span⟩
        s.pastSemicolon := by
  unfold endOfStatement
  rw [look_bind_apply]
  cases setOperator? s.cursor with
  | some k => rfl
  | none =>
    have hend : ∀ s₁ : State, (check .eof >>= fun b => if b then pure () else unexpected "end of statement") s₁ =
        if s₁.cursor.kind.alike .eof then .ok () s₁
        else .error ⟨.unexpected "end of statement" s₁.cursor.kind, s₁.cursor.span⟩ s₁ := by
      intro s₁
      show (if s₁.cursor.kind.alike .eof then pure () else unexpected "end of statement" : Parser Unit) s₁ = _
      split <;> rfl
    unfold State.pastSemicolon
    cases hsemicolon : s.cursor.kind.alike .semicolon with
    | true => exact (bind_of_ok (skipWhen_of_true hsemicolon) _).trans (hend s.advanced)
    | false => exact (bind_of_ok (skipWhen_of_false hsemicolon) _).trans (hend s)

/-- The end of a statement is the same, whatever the statement has been so far. -/
theorem beside_endOfStatement (hfirst : ∀ i ∈ s.statement.orderItems, i.nulls = .ascending) :
    Beside s (endOfStatement s) (endOfStatement s.nullsLast) := by
  have hstatement : s.pastSemicolon.statement = s.statement := by
    unfold State.pastSemicolon
    split <;> rfl
  rw [endOfStatement_eq, endOfStatement_eq, State.pastSemicolon_nullsLast]
  show Beside s _ (match setOperator? s.cursor with
    | some k => _
    | none => if s.pastSemicolon.cursor.kind.alike .eof then _ else _)
  cases setOperator? s.cursor with
  | some k => exact .error
  | none =>
    cases s.pastSemicolon.cursor.kind.alike .eof with
    | true => exact .ok rfl (hstatement ▸ hfirst)
    | false => exact .error

/-- In front of `NULLS` a statement cannot end. -/
theorem endOfStatement_of_nulls (hs : s.cursor.kind = .keyword .nulls) :
    endOfStatement s = .error ⟨.unexpected "end of statement" s.cursor.kind, s.cursor.span⟩ s := by
  have hnone : setOperator? s.cursor = none := by
    rw [setOperator?, Cursor.keyword?_of_kind hs]
    rfl
  have hpast : s.pastSemicolon = s := by
    rw [State.pastSemicolon, hs]
    rfl
  rw [endOfStatement_eq, hnone, hpast, hs]
  rfl

/-- Behind an order with its nulls last. -/
theorem beside_behindOrder (hs : Token.Complete s.cursor.tokens)
    (hfirst : ∀ i ∈ s.statement.orderItems, i.nulls = .ascending) :
    Beside s ((behindOrder rule .generic >>= fun _ => endOfStatement) s)
      ((behindOrder rule .sqlServer >>= fun _ => endOfStatement) s.nullsLast) := by
  have hnothing : ∀ s, behindOrder rule .generic s = .ok () s := fun _ => rfl
  have hfollows : Follows .sqlServer rule tailWords _ _ := follows_behindOrder
  rw [bind_of_ok (hnothing s)]
  rcases hfollows.same_or s.nullsLast hs with hsame | ⟨hahead, hstop⟩
  · rw [bind_of_ok (hsame.trans (hnothing _))]
    exact beside_endOfStatement hfirst
  · refine .departed hahead fun u s' h => ?_
    have hat := fails_endOfStatement s u s' (hstop () s.nullsLast rfl) h
    rw [Cursor.atAny_nil] at hat
    cases hat

/-- SQL Server stops in front of `NULLS`, whatever the generic dialect does. -/
theorem behindOrder_of_nulls (hs : Token.Complete s.cursor.tokens) (hnulls : s.cursor.kind = .keyword .nulls) :
    (behindOrder rule .sqlServer >>= fun _ => endOfStatement) s =
      .error ⟨.unexpected "end of statement" s.cursor.kind, s.cursor.span⟩ s := by
  have hfollows : Follows .sqlServer rule tailWords (behindOrder rule .generic) (behindOrder rule .sqlServer) :=
    follows_behindOrder
  rcases hfollows.same_or s hs with hsame | ⟨-, hstop⟩
  · exact (bind_of_ok hsame _).trans (endOfStatement_of_nulls hnulls)
  · have hat := hstop () s rfl
    rw [Cursor.atAny_of_kind hnulls] at hat
    cases hat

theorem beside_closing (hs : Token.Complete s.cursor.tokens) (horder : s.statement.order = [])
    (hitems : ∀ item ∈ s.statement.items, item.order = []) :
    Beside s (closing .generic rule s) (closing .sqlServer rule s) := by
  unfold closing
  cases hh : (havingClause rule >>= fun _ => behindHaving .generic) s with
  | error e s₁ =>
    rw [bind_of_error hh, bind_of_error (show (havingClause rule >>= fun _ => behindHaving .sqlServer) s = _ from hh)]
    exact .error
  | ok u s₁ =>
    rw [bind_of_ok hh, bind_of_ok (show (havingClause rule >>= fun _ => behindHaving .sqlServer) s = _ from hh)]
    have hfills : Fills .generic rule (havingClause rule >>= fun _ => behindHaving .generic) _ :=
      fills_havingClause.bind (.of_silent (.pure rfl))
    obtain ⟨es, hrun, _, _, _, ⟨having?, -, rfl⟩, ⟨hclauses, -⟩, -⟩ := Traced.of_ok (hfills s) hs hh
    have horder' : s₁.statement.clauses.order = [] := by
      rw [hclauses]
      cases having? <;> exact horder
    have hitems' : s₁.statement.clauses.items = s.statement.items := by
      rw [hclauses]
      cases having? <;> rfl
    have hs₁ := hrun.complete hs
    refine Beside.of_run ?_ hrun
    rcases orderBy_sqlServer hs₁ (hitems' ▸ hitems) horder' with
      ⟨e, s₂, hp, hq⟩ | ⟨s₂, hp, hq, hfirst⟩ | ⟨s₂, hq, hnulls⟩
    · rw [bind_of_error hp, bind_of_error hq]
      exact .error
    · obtain ⟨es', hrun'⟩ := (fills_orderBy (d := .generic)).runs.exists_run hs₁ hp
      rw [bind_of_ok hp, bind_of_ok hq]
      exact (beside_behindOrder (hrun'.complete hs₁) hfirst).of_run hrun'
    · obtain ⟨es', hrun'⟩ := (fills_orderBy (d := .sqlServer)).runs.exists_run hs₁ hq
      have hmem : s₂.cursor.current ∈ s₁.cursor.tokens :=
        hrun'.tokens_eq ▸ List.mem_append_right _ List.mem_cons_self
      rw [bind_of_ok hq, behindOrder_of_nulls (hrun'.complete hs₁) hnulls]
      refine .departed ⟨_, hmem, .nulls, by decide, hnulls⟩ fun _ _ _ => ⟨_, hmem, hnulls, s₂, rfl⟩

/-- SQL Server does what the generic dialect does and puts its nulls last, or it stops in front of `NULLS`. -/
theorem beside_select (rule : Rule) (hs : Token.Complete s.cursor.tokens) (hempty : s.statement = .empty) :
    Beside s (select .generic rule s) (select .sqlServer rule s) := by
  rcases select_cases .sqlServer hs hempty with
    ⟨e, s', hp, hq⟩ | ⟨hahead, hnever⟩ | ⟨es, s₁, hrun, -, horder, hitems, hp, hq⟩
  · rw [hp, hq]
    exact .error
  · exact .departed hahead fun u s' h => absurd h (hnever u s')
  · have hs₁ := hrun.complete hs
    have hgroup : groupBy .sqlServer rule = groupBy .generic rule := rfl
    rw [hp, hq, hgroup]
    refine Beside.of_run ?_ hrun
    cases hg : groupBy .generic rule s₁ with
    | error e s₂ =>
      rw [bind_of_error hg, bind_of_error hg]
      exact .error
    | ok u s₂ =>
      obtain ⟨es', hrun', groups, -, hclauses⟩ := Traced.of_ok (fills_groupBy (d := .generic) s₁) hs₁ hg
      rw [bind_of_ok hg, bind_of_ok hg]
      have horder' : s₂.statement.clauses.order = s₁.statement.order := by rw [hclauses]; rfl
      have hitems' : s₂.statement.clauses.items = s₁.statement.items := by rw [hclauses]; rfl
      exact (beside_closing (hrun'.complete hs₁) (horder'.trans horder) (hitems' ▸ hitems)).of_run hrun'

end

end Grammar

/-! ## Whole texts -/

section
open Grammar

/-- A token of an accepted text starts a grouping: behind `GROUP BY` and some groupings with commas, the next grouping of
the statement is read from it. -/
def Token.StartsGrouping (rule : Rule) (source : String) (s : Statement) (t : Token) : Prop :=
  ∃ before g b s₁ es s₂ e s₃, lex source = before ++ g :: b :: s₁.cursor.tokens ∧ g.kind = .keyword .group ∧
    b.kind = .keyword .by ∧ Groupings rule s₁ es s₂ ∧ s₂.cursor.current = t ∧ expression rule s₂ = .ok e s₃ ∧
    es ++ [e] <+: s.groups

variable {rule : Rule} {source : String}

/-- A word that is ahead of the first token is a word of the text. -/
theorem Grammar.State.ahead_ofSource {ws : List Keyword} (h : (ofSource source).Ahead ws) :
    ∃ t ∈ Token.lex source, ∃ k ∈ ws, t.kind = .keyword k := by
  obtain ⟨t, ht, hk⟩ := h
  rw [tokens_ofSource] at ht
  exact ⟨t, ht, hk⟩

/-- The groupings in front of a token are passed on the way to it. -/
theorem Grammar.Groupings.exists_run {s s' : State} {es : List Expr} (h : Groupings rule s es s')
    (hs : Token.Complete s.cursor.tokens) : ∃ evs, Run rule s evs s' := by
  induction h with
  | nil => exact ⟨[], .refl rfl rfl⟩
  | @cons s₁ s₂ s₃ e es head comma tail ih =>
    have hput : Stores fun c => { c with groups := c.groups ++ [e] } := ⟨fun _ => rfl, fun _ => rfl, fun _ => rfl⟩
    obtain ⟨read, hrun⟩ := (reads_expression (d := .generic)).runs.exists_run hs head
    have hread := hrun.complete hs
    obtain ⟨stored, hstore⟩ : ∃ evs, Run rule s₂ evs (s₂.grouped e) := Runs.store hput s₂ hread
    obtain ⟨passed, hpass⟩ : ∃ evs, Run rule (s₂.grouped e) evs (s₂.grouped e).advanced := Runs.advance _ hread
    obtain ⟨rest, htail⟩ := ih (hpass.complete hread)
    exact ⟨_, hrun.append (hstore.append (hpass.append htail))⟩

/-- A grouping is rejected at the token that starts it. -/
theorem Grammar.Rejects.exists_token {s : Statement} {s₁ : State} {error : ParseError} {es : List Event}
    (hrun : Run rule (.ofSource source) es s₁) (hgroup : s₁.cursor.kind = .keyword .group)
    (hby : s₁.advanced.cursor.kind = .keyword .by) (h : Rejects .oracle rule s₁.advanced.advanced s.groups error) :
    ∃ t ∈ Token.lex source, ∃ k ∈ Dialect.oracle.unsupportedGrouping, t.kind = .keyword k ∧
      error = ⟨.unsupported k.text, t.span⟩ ∧ Token.StartsGrouping rule source s t := by
  have hs₁ := hrun.complete (State.complete_ofSource source)
  have hs₂ : Token.Complete s₁.advanced.cursor.tokens := Cursor.complete_advance hs₁
  have hs₃ : Token.Complete s₁.advanced.advanced.cursor.tokens := Cursor.complete_advance hs₂
  have hlex : Token.lex source = Event.passed es ++
      s₁.cursor.current :: s₁.advanced.cursor.current :: s₁.advanced.advanced.cursor.tokens := by
    have htokens : s₁.advanced.cursor.tokens = s₁.advanced.cursor.current :: s₁.advanced.advanced.cursor.tokens :=
      Cursor.tokens_advance hs₂ (hby ▸ nofun)
    rw [← State.tokens_ofSource, hrun.tokens_eq, Cursor.tokens_advance hs₁ (hgroup ▸ nofun), ← htokens]
    rfl
  obtain ⟨gs, s₂, k, e, s₃, hgroupings, hkind, hk, he, hgs, rfl⟩ := h
  obtain ⟨evs, hbehind⟩ := hgroupings.exists_run hs₃
  refine ⟨s₂.cursor.current, ?_, k, hk, hkind, rfl, ?_⟩
  · rw [hlex, hbehind.tokens_eq]
    simp [Cursor.tokens]
  · exact ⟨_, _, _, _, gs, s₂, e, s₃, hlex, hgroup, hby, hgroupings, rfl, he, hgs⟩

namespace Statement

/-- Oracle has the generic outcome, or a word of its own is in the text and it rejects a grouping that the generic
dialect accepts. -/
theorem parse_oracle_cases (rule : Rule) (source : String) : parse .oracle rule source = parse .generic rule source ∨
    (∃ t ∈ Token.lex source, ∃ k ∈ Dialect.oracle.ownWords, t.kind = .keyword k) ∧
      ∀ s, parse .generic rule source = .ok s →
        ∃ t ∈ Token.lex source, ∃ k ∈ Dialect.oracle.unsupportedGrouping, t.kind = .keyword k ∧
          parse .oracle rule source = .error ⟨.unsupported k.text, t.span⟩ ∧
          Token.StartsGrouping rule source s t := by
  have hs := State.complete_ofSource source
  rcases select_oracle rule hs rfl with hsame | ⟨hahead, hrejects⟩
  · left
    rw [parse, parse, hsame]
  · refine .inr ⟨State.ahead_ofSource hahead, fun s h => ?_⟩
    obtain ⟨s', hselect, rfl⟩ := exists_select_of_parse h
    obtain ⟨es, s₁, error, s'', hrun, hgroup, hby, herror, hrejects⟩ := hrejects () s' hselect
    obtain ⟨t, ht, k, hk, hkind, rfl, hstarts⟩ := hrejects.exists_token hrun hgroup hby
    refine ⟨t, ht, k, hk, hkind, ?_, hstarts⟩
    rw [parse, herror]

/-- SQL Server has the generic outcome but for where nulls sort, or a word of its own is in the text and it stops in
front of `NULLS` where the generic dialect accepts. -/
theorem parse_sqlServer_cases (rule : Rule) (source : String) :
    (parse .sqlServer rule source = (parse .generic rule source).map nullsLast ∧
      ∀ s, parse .generic rule source = .ok s → ∀ i ∈ s.orderItems, i.nulls = .ascending) ∨
    (∃ t ∈ Token.lex source, ∃ k ∈ Dialect.sqlServer.ownWords, t.kind = .keyword k) ∧
      ∀ s, parse .generic rule source = .ok s → ∃ t ∈ Token.lex source, t.kind = .keyword .nulls ∧
        parse .sqlServer rule source = .error ⟨.unexpected "end of statement" t.kind, t.span⟩ := by
  have hbeside := beside_select rule (State.complete_ofSource source) rfl
  unfold parse
  generalize select .generic rule (.ofSource source) = r, select .sqlServer rule (.ofSource source) = r' at hbeside
  cases hbeside with
  | error => exact .inl ⟨rfl, nofun⟩
  | ok hlast hfirst =>
    refine .inl ⟨congrArg Except.ok hlast, fun s h => ?_⟩
    cases h
    exact hfirst
  | departed hahead hstop =>
    refine .inr ⟨State.ahead_ofSource hahead, fun s h => ?_⟩
    cases r with
    | error e s' => cases h
    | ok u s' =>
      obtain ⟨t, ht, hkind, s'', rfl⟩ := hstop u s' rfl
      rw [State.tokens_ofSource] at ht
      exact ⟨t, ht, hkind, rfl⟩

/-- **The other dialects extend the generic one.**  A text that the generic dialect accepts has the same statement in
Oracle, unless a grouping starts with a word that Oracle rejects; and it has the same statement but for where nulls sort in
SQL Server, unless that stops in front of `NULLS`. -/
theorem extends_generic {s : Statement} (h : parse .generic rule source = .ok s) :
    (parse .oracle rule source = .ok s ∨
      ∃ t ∈ Token.lex source, ∃ k ∈ [Keyword.rollup, .cube, .grouping], t.kind = .keyword k ∧
        parse .oracle rule source = .error ⟨.unsupported k.text, t.span⟩ ∧ Token.StartsGrouping rule source s t) ∧
    (parse .sqlServer rule source = .ok s.nullsLast ∨
      ∃ t ∈ Token.lex source, t.kind = .keyword .nulls ∧
        parse .sqlServer rule source = .error ⟨.unexpected "end of statement" t.kind, t.span⟩) := by
  refine ⟨?_, ?_⟩
  · rcases parse_oracle_cases rule source with hsame | ⟨-, hrejects⟩
    · exact .inl (hsame.trans h)
    · exact .inr (hrejects s h)
  · rcases parse_sqlServer_cases rule source with ⟨hsame, -⟩ | ⟨-, hstop⟩
    · exact .inl (hsame.trans (congrArg _ h))
    · exact .inr (hstop s h)

/-- A text that the generic dialect accepts and the others do not. -/
def extendedText : String :=
  "SELECT a FROM t GROUP BY a, ROLLUP (b) ORDER BY a NULLS LAST"

theorem extends_generic_extendedText : ∃ s, parse .generic .empty extendedText = .ok s ∧
    (∃ t ∈ Token.lex extendedText, Token.StartsGrouping .empty extendedText s t) ∧
    ∃ t ∈ Token.lex extendedText, t.kind = .keyword .nulls ∧
      parse .sqlServer .empty extendedText = .error ⟨.unexpected "end of statement" t.kind, t.span⟩ := by
  have horacle : (parse .oracle .empty extendedText).toOption.isNone = true := by
    rw [parse_of_chars extendedText rfl]
    decide +kernel
  have hsqlServer : (parse .sqlServer .empty extendedText).toOption.isNone = true := by
    rw [parse_of_chars extendedText rfl]
    decide +kernel
  refine exists_of_parse (·.groups.length) 2 rfl (by decide +kernel) fun s hs _ => ?_
  have hextends := extends_generic hs
  refine ⟨?_, hextends.2.resolve_left fun h => ?_⟩
  · obtain ⟨t, ht, -, -, -, -, hstarts⟩ := hextends.1.resolve_left fun h => by
      rw [h] at horacle
      cases horacle
    exact ⟨t, ht, hstarts⟩
  · rw [h] at hsqlServer
    cases hsqlServer

/-- **The other dialects do what the generic one does where none of their words is written**, errors included; only nulls
sort last in SQL Server. -/
theorem parse_eq_of_no_own_word (rule : Rule) (source : String) :
    ((∀ t ∈ Token.lex source, ∀ k ∈ Dialect.oracle.ownWords, t.kind ≠ .keyword k) →
      parse .oracle rule source = parse .generic rule source) ∧
    ((∀ t ∈ Token.lex source, ∀ k ∈ Dialect.sqlServer.ownWords, t.kind ≠ .keyword k) →
      parse .sqlServer rule source = (parse .generic rule source).map nullsLast ∧
        ∀ s, parse .generic rule source = .ok s → ∀ i ∈ s.orderItems, i.nulls = .ascending) := by
  refine ⟨fun hnone => ?_, fun hnone => ?_⟩
  · rcases parse_oracle_cases rule source with hsame | ⟨⟨t, ht, k, hk, hkind⟩, -⟩
    · exact hsame
    · exact absurd hkind (hnone t ht k hk)
  · rcases parse_sqlServer_cases rule source with hsame | ⟨⟨t, ht, k, hk, hkind⟩, -⟩
    · exact hsame
    · exact absurd hkind (hnone t ht k hk)

/-- A text without a word of Oracle or SQL Server. -/
def commonText : String :=
  "SELECT a FROM t GROUP BY a ORDER BY a, b DESC"

theorem parse_eq_of_no_own_word_commonText : ∃ s, parse .generic .empty commonText = .ok s ∧
    parse .oracle .empty commonText = .ok s ∧ parse .sqlServer .empty commonText = .ok s.nullsLast := by
  have hinert := parse_eq_of_no_own_word .empty commonText
  rw [Token.lex_of_chars commonText rfl] at hinert
  refine exists_of_parse (·.order.length) 2 rfl (by decide +kernel) fun s hs _ => ⟨?_, ?_⟩
  · exact (hinert.1 (by decide +kernel)).trans hs
  · exact (hinert.2 (by decide +kernel)).1.trans (congrArg (Except.map nullsLast) hs)

end Statement

end

end SelectRouting
