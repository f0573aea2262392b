import SelectRouting.Proofs.Dialect.Departure
/-!
# Clauses with and without a dialect

At every place where a dialect may go on in its own way the generic parser comes to nothing: in front of a select item
(`frontWords`) it fails, and behind a table or a clause (`tailWords`) no parser passes the word.  So the clauses of a
dialect follow the generic ones up to `GROUP BY` (`follows_opening`), and between that and `ORDER BY`
(`follows_having`); these two, where a dialect may reject or leave alone what the generic one reads, are treated apart.
-/
namespace SelectRouting

/-- The words of a dialect in front of a select item. -/
def Dialect.itemWords : Dialect → List Keyword
  | generic => []
  | oracle => [.connectByRoot]
  | sqlServer => [.rowNumber]

namespace Grammar

/-- The words that a dialect reads in front of an item, and at which no expression starts. -/
def frontWords : List Keyword :=
  [.unique, .connectByRoot, .top, .rowNumber]

/-- The words that a dialect reads behind a table or a clause, and that the generic one never passes there. -/
def tailWords : List Keyword :=
  [.sample, .partition, .subpartition, .pivot, .unpivot, .versions, .as, .with, .start, .connect, .model, .offset, .for]

section
variable {d : Dialect} {rule : Rule} {ks : List Keyword} {s : State} {α : Type}

/-! ## The select list -/

/-- Each of the words in front of an item is reserved, and starts no operand. -/
theorem primary_of_mem_frontWords {k : Keyword} (hk : k ∈ frontWords) (hkind : s.cursor.kind = .keyword k)
    (inner : Inner) : primary rule inner s = unexpected "expression" s := by
  have hcurrent : s.cursor.current.kind = .keyword k := hkind
  simp only [frontWords, List.mem_cons, List.not_mem_nil, or_false] at hk
  unfold primary
  rw [look_bind_apply]
  rcases hk with rfl | rfl | rfl | rfl
  all_goals
    simp only [hcurrent]
    rw [look_bind_apply]
    simp only [Cursor.name?, hkind]
    rfl

theorem fails_operand (inner : Inner) : Fails frontWords (operand rule inner) := by
  intro s a s' hs h
  obtain ⟨k, hk, hkind⟩ := Cursor.exists_kind_of_atAny hs
  have hprior : skipPrior s = .ok false s := by
    show (if s.priorAllowed = true then skipKeyword .prior else pure false) s = .ok false s
    split
    · exact skipWhen_of_false (Cursor.atKeyword_of_atAny hs (by decide))
    · rfl
  have hprefixed : prefixed? s.cursor.kind = none := by
    simp only [frontWords, List.mem_cons, List.not_mem_nil, or_false] at hk
    rw [hkind]
    rcases hk with rfl | rfl | rfl | rfl <;> rfl
  have hprimary : operand rule inner s = primary rule inner s := by
    unfold operand
    rw [bind_of_ok hprior, if_neg Bool.false_ne_true, look_bind_apply, hprefixed]
  rw [hprimary, primary_of_mem_frontWords hk hkind] at h
  cases h

theorem fails_expression : Fails frontWords (expression rule) :=
  .look_bind fun _ => .fails_bind (fails_operand _)

theorem fails_selectItem_generic : Fails frontWords (selectItem .generic rule) := by
  have hno : ∀ c : Cursor, c.atAny frontWords = true → c.atAny [] = false := fun c _ => c.atAny_nil
  exact .skipWhen_bind hno (show Fails frontWords (expressionItem rule) from .fails_bind fails_expression)

/-- Where no word of a dialect stands, an item is an expression. -/
theorem selectItem_of_not_atAny (hs : s.cursor.atAny d.itemWords = false) :
    selectItem d rule s = expressionItem rule s := by
  have hskip : skipAny d.skippedBeforeItem s = .ok false s := by
    refine skipWhen_of_false ?_
    cases d with
    | generic | oracle => exact hs
    | sqlServer => exact s.cursor.atAny_nil
  have hnumber : atRowNumberItem d s = .ok false s := by
    cases d with
    | generic | oracle => rfl
    | sqlServer =>
      show EStateM.Result.ok (s.cursor.atKeyword .rowNumber) s = .ok false s
      rw [Cursor.atKeyword_of_atAny_eq_false hs List.mem_cons_self]
  unfold selectItem
  rw [bind_of_ok hskip, bind_of_ok hnumber, if_neg Bool.false_ne_true]

theorem follows_selectItem : Follows d rule [] (selectItem .generic rule) (selectItem d rule) := by
  have hitems : ∀ k ∈ d.itemWords, k ∈ d.ownWords ∧ k ∈ frontWords := by
    cases d <;> decide
  refine .of_words _ reads_selectItem.runs (fun s hs => ?_) (fun k hk => (hitems k hk).1) fun s a s' hs h => ?_
  · rw [selectItem_of_not_atAny hs, selectItem_of_not_atAny s.cursor.atAny_nil]
  · exact fails_selectItem_generic s a s' (Cursor.atAny_mono (fun k hk => (hitems k hk).2) hs) h

theorem follows_selectList : Follows d rule [] (selectList .generic rule) (selectList d rule) := by
  refine .eachSeparated (.bind follows_selectItem (fun item => .refl (.store ?_)) fun _ => .nowhere)
  exact ⟨fun _ => rfl, fun _ => rfl, fun _ => rfl⟩

theorem fails_selectList_generic : Fails frontWords (selectList .generic rule) := by
  have hseparated : ∀ rounds, Fails frontWords (separated (selectItem .generic rule >>= fun item =>
      modifyStatement fun s => { s with items := s.items ++ [item] }) rounds) := by
    intro rounds
    cases rounds with
    | zero => exact .fails_bind (.fails_bind fails_selectItem_generic)
    | succ rounds => exact .fails_bind (.fails_bind fails_selectItem_generic)
  exact .fails_bind (.look_bind hseparated)

/-! ## Table factors -/

/-- No table starts with `ONLY`. -/
theorem fails_plainFactor (entry : Parser TableRef) : Fails [.only] (plainFactor rule entry) := by
  refine .look_bind fun b => ?_
  cases b with
  | true => exact .unsupported
  | false => exact .skip_bind trivial (.look_bind fun _ => .fails_bind (.expectName (by decide)))

theorem follows_plainFactor {entry entry' : Parser TableRef} (hentry : Follows d rule tailWords entry entry') :
    Follows d rule tailWords (plainFactor rule entry) (plainFactor rule entry') := by
  refine .branch .look (.refl .unsupported) (.branch .skipWhen ?_ (.refl (reads_tableName (d := .generic)).runs))
  exact .bind hentry (fun _ => .refl (.bind .expect fun _ => .pure)) fun _ => .fails_bind (.expect trivial)

theorem follows_suffixedFactor {entry entry' : Parser TableRef} (hentry : Follows .oracle rule tailWords entry entry') :
    Follows .oracle rule tailWords (plainFactor rule entry) (suffixedFactor rule entry') := by
  refine (follows_plainFactor hentry).andThen fun table => ?_
  refine .skipping tailWords (.whenKeyword (by decide) (by decide)) ?_ .stay
  refine .skipping tailWords (.whenKeyword (by decide) (by decide)) ?_ .stay
  exact .skipping tailWords (.whenKeyword (by decide) (by decide)) (.refl .pure) .stay

theorem follows_skipPivot : Follows .oracle rule tailWords (pure ()) skipPivot := by
  refine .clause [.pivot, .unpivot] (fun s hs => ?_) (by decide) (by decide)
  have hpivot := Cursor.atKeyword_of_atAny_eq_false hs (k := .pivot) (by decide)
  have hunpivot := Cursor.atKeyword_of_atAny_eq_false hs (k := .unpivot) (by decide)
  unfold skipPivot
  rw [bind_of_ok (skipKeyword_of_false hpivot), if_neg Bool.false_ne_true,
    bind_of_ok (skipKeyword_of_false hunpivot)]
  rfl

/-- Reading an earlier state of a table starts with words that nothing passes behind a table. -/
theorem follows_rejectFlashback : Follows .oracle rule tailWords (pure ()) rejectFlashback := by
  refine ⟨.pure, fun s _ => ?_⟩
  by_cases hversions : (s.cursor.atKeyword .versions && s.cursor.nextIsKeyword .between) = true
  · have hkind := Cursor.kind_of_atKeyword (Bool.and_eq_true_iff.1 hversions).1
    refine .inr ⟨State.ahead_of_atAny (Cursor.atAny_iff.2 ⟨_, by decide, hkind⟩), ?_⟩
    rintro _ _ ⟨⟩
    exact Cursor.atAny_iff.2 ⟨_, by decide, hkind⟩
  · by_cases hasOf : (s.cursor.atKeyword .as && s.cursor.nextIsKeyword .of) = true
    · have hkind := Cursor.kind_of_atKeyword (Bool.and_eq_true_iff.1 hasOf).1
      refine .inr ⟨State.ahead_of_next (Bool.and_eq_true_iff.1 hasOf).2 (by decide), ?_⟩
      rintro _ _ ⟨⟩
      exact Cursor.atAny_iff.2 ⟨_, by decide, hkind⟩
    · left
      unfold rejectFlashback
      rw [look_bind_apply, if_neg hversions, look_bind_apply, if_neg hasOf]

theorem follows_oracleFactor {entry entry' : Parser TableRef} (hentry : Follows .oracle rule tailWords entry entry') :
    Follows .oracle rule tailWords (plainFactor rule entry) (oracleFactor rule entry') := by
  have hpivoted : Follows .oracle rule tailWords (plainFactor rule entry)
      (pivotedFactor rule entry' >>= fun table => rejectFlashback >>= fun _ => pure table) := by
    refine Follows.andThen ((follows_suffixedFactor hentry).andThen fun table => ?_) fun table => ?_
    · exact .skipping _ follows_skipPivot (.refl .pure) .stay
    · exact .skipping _ follows_rejectFlashback (.refl .pure) .stay
  refine ⟨hpivoted.runs, fun s hs => ?_⟩
  cases honly : s.cursor.atKeyword .only with
  | true =>
    have hat : s.cursor.atAny [.only] = true := Cursor.atAny_iff.2 ⟨_, List.mem_cons_self, Cursor.kind_of_atKeyword honly⟩
    refine .inr ⟨State.ahead_of_atAny (Cursor.atAny_mono (by decide) hat), fun a s' h => ?_⟩
    exact Cursor.atAny_mono (List.forall_mem_nil _) (fails_plainFactor entry s a s' hat h)
  | false =>
    unfold oracleFactor
    rw [bind_of_ok (skipKeyword_of_false honly), if_neg Bool.false_ne_true]
    exact hpivoted.same_or s hs

theorem follows_factorOver {entry entry' : Parser TableRef} (hentry : Follows d rule tailWords entry entry') :
    Follows d rule tailWords (factorOver .generic rule entry) (factorOver d rule entry') := by
  cases d with
  | generic | sqlServer => exact follows_plainFactor hentry
  | oracle => exact follows_oracleFactor hentry

/-! ## Joins -/

theorem joinKind_of_atAny (hs : s.cursor.atAny tailWords = true) : joinKind s = .ok none s := by
  obtain ⟨k, hk, hkind⟩ := Cursor.exists_kind_of_atAny hs
  simp only [tailWords, List.mem_cons, List.not_mem_nil, or_false] at hk
  unfold joinKind
  rw [look_bind_apply, Cursor.keyword?_of_kind hkind]
  rcases hk with rfl | rfl | rfl | rfl | rfl | rfl | rfl | rfl | rfl | rfl | rfl | rfl | rfl <;> rfl

theorem nextJoin_of_atAny (hs : s.cursor.atAny tailWords = true) (factor : Parser TableRef) (left : TableRef) :
    nextJoin rule factor left s = .ok none s := by
  unfold nextJoin
  rw [bind_of_ok (joinKind_of_atAny hs)]
  rfl

theorem leads_joinsOver_generic (factor : Parser TableRef) (rounds : Nat) (left : TableRef) :
    Leads tailWords tailWords (joinsOver .generic rule factor rounds left) := by
  intro s a s' hs h
  cases rounds with
  | zero =>
    cases h
    exact hs
  | succ rounds =>
    have hjoin : joinsOver .generic rule factor (rounds + 1) left s = .ok left s :=
      bind_of_ok (nextJoin_of_atAny hs factor left) _
    rw [hjoin] at h
    cases h
    exact hs

theorem leads_joinedBy (kind : JoinKind) : Leads tailWords tailWords (joinedBy rule kind) := by
  have hby : Leads tailWords tailWords (joinedBy rule .inner) :=
    .skipKeyword_bind (by decide) (.skipKeyword_bind (by decide) .unexpected)
  cases kind with
  | cross => exact .stay
  | inner | left | right | full => exact hby

theorem follows_hintBehind (left : TableRef) :
    Follows d rule tailWords (hintBehind .generic left) (hintBehind d left) := by
  cases d with
  | generic | oracle => exact .refl .pure
  | sqlServer =>
    show Follows .sqlServer rule tailWords (pure ()) (if endsWithFactor left then skipHint else pure ())
    cases endsWithFactor left with
    | true => exact .whenKeyword (by decide) (by decide)
    | false => exact .refl .pure

section
variable {factor factor' : Parser TableRef} (hfactor : Follows d rule tailWords factor factor')
include hfactor

theorem follows_nextJoin (left : TableRef) :
    Follows d rule tailWords (nextJoin rule factor left) (nextJoin rule factor' left) := by
  refine .before (silent_joinKind (d := .generic)).runs fun kind? => ?_
  cases kind? with
  | none => exact .refl .pure
  | some kind =>
    refine .bind hfactor (fun right => .refl ?_) fun right => .bind (leads_joinedBy kind) fun _ => .stay
    exact .bind (reads_joinedBy (d := .generic) kind).runs fun _ => .pure

theorem follows_joinsOver (rounds : Nat) (left : TableRef) :
    Follows d rule tailWords (joinsOver .generic rule factor rounds left) (joinsOver d rule factor' rounds left) := by
  induction rounds generalizing left with
  | zero => exact .refl .pure
  | succ rounds ih =>
    refine .bind (follows_hintBehind left) (fun _ => .bind (follows_nextJoin hfactor left) (fun joined? => ?_) ?_) ?_
    · cases joined? with
      | none => exact .refl .pure
      | some joined => exact ih joined
    · intro joined?
      cases joined? with
      | none => exact .stay
      | some joined => exact leads_joinsOver_generic factor rounds joined
    · intro _ s a s' hs h
      rw [bind_of_ok (nextJoin_of_atAny hs factor left)] at h
      cases h
      exact hs

end

/-! ## FROM -/

theorem follows_tableReferenceAt (depth : Nat) :
    Follows d rule tailWords (tableReferenceAt .generic rule depth) (tableReferenceAt d rule depth) := by
  induction depth with
  | zero => exact .refl .unexpected
  | succ depth ih =>
    refine .bind (follows_factorOver ih) (fun left => .before .look fun rounds => ?_)
      fun left => .look_bind fun rounds => ?_
    · exact follows_joinsOver (follows_factorOver ih) rounds left
    · exact leads_joinsOver_generic _ rounds left

theorem follows_tableReference : Follows d rule tailWords (tableReference .generic rule) (tableReference d rule) :=
  .before .look fun n => follows_tableReferenceAt (n + 1)

theorem follows_fromClause : Follows d rule tailWords (fromClause .generic rule) (fromClause d rule) := by
  refine .branch .skipWhen (.eachSeparated (.bind follows_tableReference (fun entry => .refl (.store ?_)) ?_)) (.refl .pure)
  · exact ⟨fun _ => rfl, fun _ => rfl, fun _ => rfl⟩
  · exact fun _ => .modifyStatement

/-! ## What stands between the clauses -/

/-- What a dialect reads between `DISTINCT` and the select list. -/
def behindDistinct : Dialect → Parser Unit
  | .sqlServer => topClause
  | .generic | .oracle => pure ()

/-- What a dialect reads between `WHERE` and `GROUP BY`. -/
def behindWhere (rule : Rule) : Dialect → Parser Unit
  | .oracle => skipHierarchy rule
  | .generic | .sqlServer => pure ()

/-- What a dialect reads between `HAVING` and `ORDER BY`. -/
def behindHaving : Dialect → Parser Unit
  | .oracle => skipModel
  | .generic | .sqlServer => pure ()

/-- What a dialect reads behind `ORDER BY`. -/
def behindOrder (rule : Rule) : Dialect → Parser Unit
  | .generic => pure ()
  | .oracle => skipForUpdate rule
  | .sqlServer => do
    offsetFetch
    skipForOutput

/-- The clauses in front of `GROUP BY`. -/
def opening (d : Dialect) (rule : Rule) : Parser Unit := do
  distinct d
  behindDistinct d
  selectList d rule
  fromClause d rule
  whereClause rule
  behindWhere rule d

/-- The clauses of every dialect have one order. -/
theorem clauses_eq (d : Dialect) (rule : Rule) : clauses d rule = (do
    opening d rule
    groupBy d rule
    havingClause rule
    behindHaving d
    orderBy d rule
    behindOrder rule d) := by
  cases d <;>
    simp only [clauses, opening, behindDistinct, behindWhere, behindHaving, behindOrder, bind_assoc, pure_bind,
      bind_pure_unit]

theorem follows_distinct : Follows d rule frontWords (distinct .generic) (distinct d) := by
  refine .of_words d.distinctSynonyms Runs.distinct (fun s hs => ?_) (by cases d <;> decide) ?_
  · have hskip : skipAny (.distinct :: d.distinctSynonyms) s =
        skipAny (.distinct :: Dialect.generic.distinctSynonyms) s := by
      have hsame : s.cursor.atAny (.distinct :: d.distinctSynonyms) = s.cursor.atAny [.distinct] := by
        rw [Cursor.atAny_cons, Cursor.atAny_cons, hs, Cursor.atAny_nil]
      unfold skipAny skipWhen
      rw [look_bind_apply, look_bind_apply, hsame]
      rfl
    unfold distinct
    rw [bind_apply, bind_apply, hskip]
  · refine .skipWhen_bind (fun c hc => ?_) (.skipKeyword_bind (by cases d <;> decide) (.pure (by cases d <;> decide)))
    have hdistinct : c.atKeyword .distinct = false := Cursor.atKeyword_of_atAny hc (by cases d <;> decide)
    show c.atAny [.distinct] = false
    rw [Cursor.atAny_cons, hdistinct, Cursor.atAny_nil]
    rfl

theorem follows_behindDistinct : Follows d rule frontWords (behindDistinct .generic) (behindDistinct d) := by
  cases d with
  | generic | oracle => exact .refl .pure
  | sqlServer => exact .whenKeyword (by decide) (by decide)

theorem follows_behindWhere : Follows d rule tailWords (behindWhere rule .generic) (behindWhere rule d) := by
  cases d with
  | generic | sqlServer => exact .refl .pure
  | oracle =>
    have hconnect : Follows .oracle rule tailWords (pure ()) (skipConnectBy rule) :=
      .whenKeyword (by decide) (by decide)
    have hstart : Follows .oracle rule tailWords (pure ()) (skipStartWith rule) := .whenKeyword (by decide) (by decide)
    exact .skipping _ hconnect (.skipping _ hstart hconnect .stay) .stay

theorem follows_behindHaving : Follows d rule tailWords (behindHaving .generic) (behindHaving d) := by
  cases d with
  | generic | sqlServer => exact .refl .pure
  | oracle => exact .whenKeyword (by decide) (by decide)

theorem follows_behindOrder : Follows d rule tailWords (behindOrder rule .generic) (behindOrder rule d) := by
  cases d with
  | generic => exact .refl .pure
  | oracle => exact .whenKeyword (by decide) (by decide)
  | sqlServer =>
    have hoffset : Follows .sqlServer rule tailWords (pure ()) offsetFetch := .whenKeyword (by decide) (by decide)
    exact .skipping _ hoffset (.whenKeyword (by decide) (by decide)) .stay

/-! ## Up to the grouping, and behind it -/

theorem follows_opening : Follows d rule tailWords (opening .generic rule) (opening d rule) := by
  have hwhere : Leads tailWords tailWords (whereClause rule) := .whenKeyword (by decide)
  have hrest : Follows d rule tailWords (whereClause rule >>= fun _ => behindWhere rule .generic)
      (whereClause rule >>= fun _ => behindWhere rule d) :=
    .before (fills_whereClause (d := .generic)).runs fun _ => follows_behindWhere
  refine .bind follows_distinct (fun _ => ?_) fun _ => .bind .stay fun _ => .fails_bind fails_selectList_generic
  refine .bind follows_behindDistinct (fun _ => ?_) fun _ => .fails_bind fails_selectList_generic
  refine .bind follows_selectList (fun _ => ?_) fun _ => .nowhere
  exact .bind follows_fromClause (fun _ => hrest) fun _ => .bind hwhere fun _ => .stay

theorem follows_having : Follows d rule tailWords (havingClause rule >>= fun _ => behindHaving .generic)
    (havingClause rule >>= fun _ => behindHaving d) :=
  .before (fills_havingClause (d := .generic)).runs fun _ => follows_behindHaving

theorem leads_groupBy : Leads tailWords tailWords (groupBy d rule) :=
  .whenKeyword (by decide)

theorem leads_havingClause : Leads tailWords tailWords (havingClause rule) :=
  .whenKeyword (by decide)

theorem leads_orderBy : Leads tailWords tailWords (orderBy d rule) :=
  .whenKeyword (by decide)

/-- A statement does not end in front of such a word, whatever its clauses are. -/
theorem fails_endOfStatement : Fails tailWords endOfStatement := by
  intro s a s' hs h
  have hnone : setOperator? s.cursor = none := by
    obtain ⟨k, hk, hkind⟩ := Cursor.exists_kind_of_atAny hs
    simp only [tailWords, List.mem_cons, List.not_mem_nil, or_false] at hk
    rw [setOperator?, Cursor.keyword?_of_kind hkind]
    rcases hk with rfl | rfl | rfl | rfl | rfl | rfl | rfl | rfl | rfl | rfl | rfl | rfl | rfl <;> rfl
  have hend : Fails tailWords (skip .semicolon >>= fun _ => check .eof >>= fun b =>
      if b then pure () else unexpected "end of statement") := by
    refine .skip_bind trivial fun s a s' hs h => ?_
    have heof : s.cursor.kind.alike .eof = false := by
      obtain ⟨k, -, hkind⟩ := Cursor.exists_kind_of_atAny hs
      rw [hkind]
      rfl
    unfold check at h
    rw [look_bind_apply, heof] at h
    cases h
  refine hend s a s' hs ?_
  unfold endOfStatement at h
  rwa [look_bind_apply, hnone] at h

end

end Grammar

end SelectRouting
