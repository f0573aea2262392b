import SelectRouting.Proofs.Progress.Expression
/-!
# The pace of table references

An entry of `FROM` calls itself only behind a parenthesis, and each join behind the keyword that it starts with.  Both
recursions are grounded (`grounded_entry`, `grounded_joins`), and an entry and a factor end ahead of where they start.
-/
namespace SelectRouting.Grammar

variable {d : Dialect} {rule : Rule} {α : Type}

/-! ## Rounds -/

/-- An entry of `FROM` over the entries that it calls. -/
def entryOver (d : Dialect) (rule : Rule) (entry : Unit → Parser TableRef) (_ : Unit) : Parser TableRef := do
  let factor := factorOver d rule (entry ())
  let left ← factor
  joinsOver d rule factor (← tokensLeft) left

/-- One join, and what follows behind it. -/
def joinsRound (d : Dialect) (rule : Rule) (factor : Parser TableRef) (again : TableRef → Parser TableRef)
    (left : TableRef) : Parser TableRef := do
  hintBehind d left
  match ← nextJoin rule factor left with
  | some joined => again joined
  | none => return left

theorem tableReferenceAt_eq_iterate (depth : Nat) :
    (fun _ => tableReferenceAt d rule depth) = (entryOver d rule)^[depth] fun _ => unexpected "identifier" := by
  induction depth with
  | zero => rfl
  | succ depth ih =>
    rw [Function.iterate_succ_apply', ← ih]
    rfl

theorem joinsOver_eq_iterate (factor : Parser TableRef) (rounds : Nat) :
    joinsOver d rule factor rounds = (joinsRound d rule factor)^[rounds] fun left => return left := by
  induction rounds with
  | zero => rfl
  | succ rounds ih =>
    rw [Function.iterate_succ_apply', ← ih]
    rfl

/-! ## Factors -/

section
variable {n : Nat} {entry entry' : Parser TableRef} (hentry : ∀ s : State, s.left < n → Paced false s entry entry')
  {s : State}

theorem paced_tableNamed {schema : Option String} {name : String} {token : Token} :
    Paced false s (tableNamed rule schema name token) (tableNamed rule schema name token) := by
  have halias : Runs rule aliasClause := (silent_aliasClause : Silent .generic rule .reading aliasClause).runs
  apply paced_recordTable.andThen
  exact fun _ s₁ _ => (Paced.of_runs halias).bind fun _ _ _ => .pure

theorem paced_tableName : Paced true s (tableName rule) (tableName rule) := by
  apply Paced.look_bind
  apply Paced.expectName_bind
  intro name s₁ h₁
  refine .skip_bind ⟨nofun, nofun⟩ (fun s₂ h₂ => ?_) paced_tableNamed
  apply Paced.look_bind
  apply Paced.weaken
  exact .expectName_bind fun _ _ _ => paced_tableNamed

include hentry

theorem paced_plainFactor (hn : s.left ≤ n) : Paced true s (plainFactor rule entry) (plainFactor rule entry') := by
  apply Paced.look_bind
  apply Paced.ite .unsupported
  refine .skip_bind ⟨nofun, nofun⟩ (fun s₁ h₁ => ?_) paced_tableName
  apply (hentry s₁ (by omega)).andThen
  intro inner s₂ h₂
  apply Paced.weaken
  exact .expect_bind ⟨nofun, nofun⟩ fun _ _ _ => .pure

theorem paced_suffixedFactor (hn : s.left ≤ n) :
    Paced true s (suffixedFactor rule entry) (suffixedFactor rule entry') := by
  have hsample : Runs rule skipSample := (silent_skipSample (by decide) : Silent .oracle rule .reading _).runs
  have hpartition : Runs rule (skipPartition .partition) :=
    (silent_skipPartition (by decide) : Silent .oracle rule .reading _).runs
  have hsubpartition : Runs rule (skipPartition .subpartition) :=
    (silent_skipPartition (by decide) : Silent .oracle rule .reading _).runs
  apply (paced_plainFactor hentry hn).bind
  intro table s₁ _
  apply (Paced.of_runs hsample).andThen
  intro _ s₂ _
  apply (Paced.of_runs hpartition).andThen
  intro _ s₃ _
  exact (Paced.of_runs hsubpartition).bind fun _ _ _ => .pure

theorem paced_onlyFactor (hn : s.left ≤ n) : Paced true s (onlyFactor rule entry) (onlyFactor rule entry') := by
  refine .skip_bind ⟨nofun, nofun⟩ (fun s₁ h₁ => ?_) (paced_suffixedFactor hentry hn)
  apply (paced_suffixedFactor hentry (by omega)).weaken.andThen
  intro table s₂ h₂
  apply Paced.weaken
  exact .expect_bind ⟨nofun, nofun⟩ fun _ _ _ => .pure

theorem paced_pivotedFactor (hn : s.left ≤ n) : Paced true s (pivotedFactor rule entry) (pivotedFactor rule entry') := by
  have hpivot : Runs rule skipPivot := (silent_skipPivot (by decide) (by decide) : Silent .oracle rule .reading _).runs
  apply (paced_suffixedFactor hentry hn).bind
  exact fun _ _ _ => (Paced.of_runs hpivot).bind fun _ _ _ => .pure

theorem paced_oracleFactor (hn : s.left ≤ n) : Paced true s (oracleFactor rule entry) (oracleFactor rule entry') := by
  have hflashback : Runs rule rejectFlashback := (silent_rejectFlashback : Silent .oracle rule .reading _).runs
  have hreject : ∀ (table : TableRef) (s : State), Paced false s (rejectFlashback >>= fun _ => pure table)
      (rejectFlashback >>= fun _ => pure table) := fun _ _ => (Paced.of_runs hflashback).bind fun _ _ _ => .pure
  apply Paced.skipKeyword_bind
  · exact fun s₁ h₁ => ((paced_onlyFactor hentry (by omega)).bind fun table s₂ _ => hreject table s₂).weaken
  · exact (paced_pivotedFactor hentry hn).bind fun table s₁ _ => hreject table s₁

theorem paced_factorOver (hn : s.left ≤ n) : Paced true s (factorOver d rule entry) (factorOver d rule entry') := by
  cases d with
  | generic | sqlServer => exact paced_plainFactor hentry hn
  | oracle => exact paced_oracleFactor hentry hn

end

/-! ## Joins -/

section
variable {s : State}

/-- Behind the name of a join there is at least one token less. -/
theorem Paced.joinKind_bind {f f' : Option JoinKind → Parser α} (hnone : Paced false s (f none) (f' none))
    (hsome : ∀ kind s', s'.left < s.left → Paced false s' (f (some kind)) (f' (some kind))) :
    Paced false s (joinKind >>= f) (joinKind >>= f') := by
  have hne : ∀ {k : Keyword}, s.cursor.keyword? = some k → s.cursor.kind ≠ .eof := fun h => by
    rw [Cursor.kind_of_atKeyword (decide_eq_true h)]
    nofun
  have hjoinOf : ∀ {k : Keyword} kind, s.cursor.keyword? = some k →
      Paced false s (joinOf kind >>= f) (joinOf kind >>= f') := by
    intro k kind hk
    have houter : Runs ⟨[]⟩ (skipOuter kind) := (silent_skipOuter kind : Silent .generic ⟨[]⟩ .reading _).runs
    unfold joinOf
    simp only [bind_assoc, pure_bind]
    apply Paced.weaken
    apply Paced.advance_bind (hne hk)
    intro s₁ h₁
    apply (Paced.of_runs houter).andThen
    intro _ s₂ h₂
    apply Paced.weaken
    apply Paced.expectKeyword_bind
    exact fun _ s₃ h₃ => hsome kind s₃ (by omega)
  unfold joinKind
  rw [bind_assoc, bind_assoc]
  apply Paced.look_bind
  split
  case h_1 hk =>
    rw [bind_assoc, bind_assoc]
    apply Paced.weaken
    apply Paced.advance_bind (hne hk)
    intro s₁ h₁
    rw [pure_bind, pure_bind]
    exact hsome _ s₁ h₁
  case h_2 hk | h_3 hk | h_4 hk | h_5 hk | h_6 hk => exact hjoinOf _ hk
  case h_7 =>
    rw [pure_bind, pure_bind]
    exact hnone

theorem hintBehind_of_eof (hk : s.cursor.kind = .eof) (left : TableRef) : hintBehind d left s = .ok () s := by
  cases d with
  | generic | oracle => rfl
  | sqlServer =>
    show (if endsWithFactor left then skipHint else pure ()) s = _
    by_cases h : endsWithFactor left = true
    · rw [if_pos h]
      unfold skipHint
      rw [bind_apply, skipKeyword_of_eof hk]
      rfl
    · rw [if_neg h]
      rfl

theorem paced_joinedBy (kind : JoinKind) : Paced false s (joinedBy rule kind) (joinedBy rule kind) :=
  .of_runs (reads_joinedBy kind : Reads .generic rule .reading [] _ _).runs

variable {factor factor' : Parser TableRef} (hfactor : ∀ s' : State, s'.left < s.left → Paced false s' factor factor')
include hfactor

/-- One join, over two ways to go on behind it. -/
theorem paced_joinsRound {again again' : TableRef → Parser TableRef}
    (hagain : ∀ joined s', s'.left < s.left → Paced false s' (again joined) (again' joined)) (left : TableRef) :
    Paced false s (joinsRound d rule factor again left) (joinsRound d rule factor' again' left) := by
  have hhint : Runs rule (hintBehind d left) := (silent_hintBehind left : Silent d rule .reading _).runs
  apply (Paced.of_runs hhint).andThen
  intro _ s₁ h₁
  unfold nextJoin
  rw [bind_assoc, bind_assoc]
  apply Paced.joinKind_bind
  · exact .pure
  · intro kind s₂ h₂
    show Paced false s₂ ((factor >>= _) >>= _) ((factor' >>= _) >>= _)
    rw [bind_assoc, bind_assoc]
    apply (hfactor s₂ (by omega)).andThen
    intro right s₃ h₃
    rw [bind_assoc, bind_assoc]
    apply (paced_joinedBy kind).andThen
    intro joined s₄ h₄
    exact hagain _ s₄ (by omega)

end

section
variable {n : Nat} {s : State}

theorem paced_joinsOver {factor factor' : Parser TableRef}
    (hfactor : ∀ s : State, s.left < n → Paced false s factor factor') (rounds : Nat) :
    ∀ {s : State} (left : TableRef), s.left ≤ n →
      Paced false s (joinsOver d rule factor rounds left) (joinsOver d rule factor' rounds left) := by
  rw [joinsOver_eq_iterate, joinsOver_eq_iterate]
  induction rounds with
  | zero => exact fun _ _ => .pure
  | succ rounds ih =>
    intro s left hn
    rw [Function.iterate_succ_apply', Function.iterate_succ_apply']
    exact paced_joinsRound (fun s' hs' => hfactor s' (by omega)) (fun joined s' hs' => ih joined (by omega)) left

/-! ## The recursion -/

theorem paced_entryOver {entry entry' : Unit → Parser TableRef} (hentry : PacedBelow n entry entry') (i : Unit)
    (hn : s.left ≤ n) : Paced true s (entryOver d rule entry i) (entryOver d rule entry' i) := by
  have hfactor : ∀ {s : State}, s.left ≤ n →
      Paced true s (factorOver d rule (entry ())) (factorOver d rule (entry' ())) := fun hn =>
    paced_factorOver (hentry ()) hn
  apply (hfactor hn).bind
  intro left s₁ h₁
  apply Paced.look_bind
  exact paced_joinsOver (fun s' hs' => (hfactor (Nat.le_of_lt hs')).weaken) _ left (by omega)

end

theorem descends_entryOver : Descends (entryOver d rule) :=
  fun _ _ _ hE i _ hs => (paced_entryOver hE i (Nat.le_of_lt_succ hs)).weaken

theorem grounded_entry : Grounded (entryOver d rule) (fun _ => tableReference d rule) := by
  refine descends_entryOver.grounded (fun _ => unexpected "identifier") fun i s _ => ?_
  rw [← tableReferenceAt_eq_iterate]
  rfl

theorem paced_tableReferenceAt (depth : Nat) (s : State) :
    Paced true s (tableReferenceAt d rule depth) (tableReferenceAt d rule depth) := by
  induction depth generalizing s with
  | zero => exact .unexpected
  | succ depth ih =>
    have hentry : PacedBelow s.left (fun _ : Unit => tableReferenceAt d rule depth) fun _ =>
        tableReferenceAt d rule depth := fun _ s' _ => (ih s').weaken
    exact paced_entryOver hentry () (Nat.le_refl _)

/-- An entry ends ahead of where it starts. -/
theorem paced_tableReference (s : State) : Paced true s (tableReference d rule) (tableReference d rule) :=
  .look_bind (paced_tableReferenceAt _ s)

/-- So does a factor. -/
theorem paced_tableFactor (s : State) : Paced true s (tableFactor d rule) (tableFactor d rule) :=
  .look_bind (paced_factorOver (fun s' _ => (paced_tableReferenceAt s.left s').weaken) (Nat.le_refl _))

/-- A factor is written over entries that are nested as deeply as the tokens left allow. -/
theorem paced_factor_of_entry (s : State) :
    Paced true s (tableFactor d rule) (factorOver d rule (tableReference d rule)) := by
  have hnested : tableFactor d rule s = factorOver d rule (tableReferenceAt d rule s.left) s := rfl
  refine .congr_left (paced_factorOver (fun s' hs' hc => ?_) (Nat.le_refl s.left)) hnested
  have hdepth : tableReferenceAt d rule s.left s' = tableReference d rule s' :=
    (congrFun (congrFun (tableReferenceAt_eq_iterate s.left) ()) s').trans
      (grounded_entry.depth (fun _ => unexpected "identifier") s.left () s' hc hs')
  exact ⟨hdepth, ((paced_tableReferenceAt s.left s').weaken hc).2⟩

theorem grounded_joins {factor : Parser TableRef} (hfactor : Onward factor) :
    Grounded (joinsRound d rule factor) (fun left => do joinsOver d rule factor (← tokensLeft) left) := by
  have hdescends : Descends (joinsRound d rule factor) := fun n E E' hE left s hs =>
    paced_joinsRound (fun s' _ => hfactor.paced s') (fun joined s' hs' => hE joined s' (by omega)) left
  refine hdescends.grounded_of_bottom (fun left => return left) (fun left s h₀ hs => ?_) fun left s _ => ?_
  · have hk := State.kind_of_left_eq_zero hs h₀
    have hkind : joinKind s = .ok none s := by
      unfold joinKind
      rw [look_bind_apply, Cursor.keyword?, hk]
      rfl
    have hnext : nextJoin rule factor left s = .ok none s := by
      unfold nextJoin
      rw [bind_apply, hkind]
      rfl
    have hround : joinsRound d rule factor (fun left => return left) left s = .ok left s := by
      unfold joinsRound
      rw [bind_apply, hintBehind_of_eof hk]
      show (nextJoin rule factor left >>= _) s = _
      rw [bind_apply, hnext]
      rfl
    exact Paced.of_ok rfl hround hs
  · rw [← joinsOver_eq_iterate]
    rfl

end SelectRouting.Grammar
