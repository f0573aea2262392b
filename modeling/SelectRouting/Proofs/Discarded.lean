import SelectRouting.Proofs.Edits
/-!
# Conditions that are read and dropped

Reading an expression claims its parameters and records its tables, and changes nothing else of a statement
(`marks_expression`).  So a condition whose tree is dropped leaves no other trace, whether it was read to its end or
not: the clauses stay as they are, the ordinals go on from where they were, and the edits that it adds are those of
tables among the tokens that it has passed (`Discarded.trace_of_after`).
-/
namespace SelectRouting

namespace Statement

/-- A change that counts parameters and records tables, and does nothing else. -/
structure Marked (s s' : Statement) : Prop where
  clauses : s'.clauses = s.clauses
  parameters : s.parameters ≤ s'.parameters
  kept : s.edits.Sublist s'.edits
  added : ∃ added : List Edit, s'.edits.Perm (s.edits ++ added) ∧ ∀ e ∈ added, ∃ start written, e = .table start written

namespace Marked

theorem refl (s : Statement) : s.Marked s where
  clauses := rfl
  parameters := Nat.le_refl _
  kept := .refl _
  added := ⟨[], by rw [List.append_nil], by simp⟩

theorem trans {s s' s'' : Statement} (h : s.Marked s') (h' : s'.Marked s'') : s.Marked s'' := by
  obtain ⟨es, hperm, hes⟩ := h.added
  obtain ⟨es', hperm', hes'⟩ := h'.added
  exact
    { clauses := h'.clauses.trans h.clauses
      parameters := Nat.le_trans h.parameters h'.parameters
      kept := h.kept.trans h'.kept
      added := by
        refine ⟨es ++ es', hperm'.trans ?_, List.forall_mem_append.2 ⟨hes, hes'⟩⟩
        rw [← List.append_assoc]
        exact hperm.append_right es' }

theorem claimParameter (s : Statement) : s.Marked s.claimParameter :=
  { refl s with
    parameters := Nat.le_succ _
    clauses := rfl }

theorem addTable (s : Statement) (start : Nat) (written : String) : s.Marked (s.addEdit (.table start written)) where
  clauses := rfl
  parameters := Nat.le_refl _
  kept := Edit.sublist_insert _ _
  added := by
    refine ⟨[.table start written], ?_, by simp⟩
    exact (Edit.insert_perm _ _).trans (List.perm_append_singleton _ _).symm

end Marked

end Statement

namespace Grammar

section
variable {rule : Rule} {α β : Type}

/-! ## Parsers that only mark a statement -/

/-- Whatever a parser ends with, it has only marked the statement. -/
def Marks (p : Parser α) : Prop :=
  ∀ s : State, s.statement.Marked (s.after p).statement

namespace Marks

theorem bind {p : Parser α} {f : α → Parser β} (hp : Marks p) (hf : ∀ a, Marks (f a)) : Marks (p >>= f) := by
  intro s
  have h := hp s
  unfold State.after at h ⊢
  rw [bind_apply]
  cases hr : p s with
  | error e s' =>
    rw [hr] at h
    exact h
  | ok a s' =>
    rw [hr] at h
    exact h.trans (hf a s')

theorem pure {a : α} : Marks (Pure.pure a : Parser α) :=
  fun s => .refl s.statement

theorem inspect {f : State → α} : Marks (Grammar.inspect f) :=
  fun s => .refl s.statement

theorem look {f : Cursor → α} : Marks (Grammar.look f) :=
  inspect

theorem advance : Marks Grammar.advance :=
  fun s => .refl s.statement

theorem unexpected {expected : String} : Marks (Grammar.unexpected expected : Parser α) :=
  fun s => .refl s.statement

theorem unsupported {construct : String} : Marks (Grammar.unsupported construct : Parser α) :=
  fun s => .refl s.statement

theorem ite {c : Prop} [Decidable c] {p q : Parser α} (hp : Marks p) (hq : Marks q) : Marks (if c then p else q) := by
  split
  · exact hp
  · exact hq

/-- Either way of a test. -/
theorem branch {test : Parser Bool} {p q : Parser α} (ht : Marks test) (hp : Marks p) (hq : Marks q) :
    Marks (test >>= fun b => if b then p else q) :=
  ht.bind fun _ => hp.ite hq

theorem skipWhen {test : Cursor → Bool} : Marks (Grammar.skipWhen test) :=
  .branch look (advance.bind fun _ => pure) pure

theorem expect {k : Token.Kind} : Marks (Grammar.expect k) :=
  look.bind fun _ => .branch skipWhen pure unexpected

theorem expectKeyword {k : Keyword} : Marks (Grammar.expectKeyword k) :=
  look.bind fun _ => .branch skipWhen pure unexpected

theorem expectName : Marks Grammar.expectName := by
  refine look.bind fun name => ?_
  cases name with
  | some name => exact advance.bind fun _ => pure
  | none => exact unexpected

theorem claimParameter : Marks Grammar.claimParameter :=
  inspect.bind fun _ => .bind (fun s => .claimParameter s.statement) fun _ => pure

theorem recordTable {name : String} {token : Token} : Marks (Grammar.recordTable rule name token) :=
  ite (fun s => .addTable s.statement _ _) pure

theorem separated {item : Parser α} (hi : Marks item) (rounds : Nat) : Marks (separated item rounds) := by
  induction rounds with
  | zero => exact hi.bind fun _ => pure
  | succ rounds ih => exact hi.bind fun _ => .branch skipWhen (ih.bind fun _ => pure) pure

theorem commaSeparated {item : Parser α} (hi : Marks item) : Marks (commaSeparated item) :=
  look.bind hi.separated

end Marks

/-! ## Expressions -/

section
variable {inner : Inner} (hinner : ∀ strength, Marks (inner strength))
include hinner

theorem marks_call (name : String) : Marks (call inner name) := by
  have harguments : Marks (arguments inner) :=
    .branch .look .pure (.branch .skipWhen .pure (hinner 0).commaSeparated)
  exact Marks.expect.bind fun _ => Marks.skipWhen.bind fun _ => harguments.bind fun _ => Marks.expect.bind fun _ => .pure

theorem marks_branches (rounds : Nat) : Marks (branches inner rounds) := by
  induction rounds with
  | zero => exact .pure
  | succ rounds ih =>
    refine .branch .skipWhen ((hinner 0).bind fun _ => Marks.expectKeyword.bind fun _ => ?_) .pure
    exact (hinner 0).bind fun _ => ih.bind fun _ => .pure

theorem marks_case : Marks (caseExpression inner) := by
  have hoperand : Marks (caseOperand inner) := .branch .look .pure ((hinner 0).bind fun _ => .pure)
  have hotherwise : Marks (optional .else inner) := .branch .skipWhen ((hinner 0).bind fun _ => .pure) .pure
  refine Marks.expectKeyword.bind fun _ => hoperand.bind fun _ => Marks.look.bind fun n => ?_
  refine (marks_branches hinner n).bind fun _ => .ite .unexpected ?_
  exact hotherwise.bind fun _ => Marks.expectKeyword.bind fun _ => .pure

theorem marks_named : Marks (named rule inner) := by
  refine Marks.look.bind fun _ => Marks.expectName.bind fun name => .branch .look (marks_call hinner name) ?_
  refine .branch .skipWhen (Marks.recordTable.bind fun _ => .branch .skipWhen .pure ?_) .pure
  exact Marks.look.bind fun _ => Marks.expectName.bind fun _ => .pure

theorem marks_primary : Marks (primary rule inner) := by
  refine Marks.look.bind fun token => ?_
  split
  case h_1 | h_2 | h_3 | h_4 | h_5 | h_6 | h_8 => exact Marks.advance.bind fun _ => .pure
  case h_7 => exact Marks.advance.bind fun _ => Marks.claimParameter.bind fun _ => .pure
  case h_9 =>
    refine .branch .look .unsupported (Marks.advance.bind fun _ => ?_)
    exact (hinner 0).bind fun _ => Marks.expect.bind fun _ => .pure
  case h_10 => exact .unsupported
  case h_11 | h_12 | h_13 | h_14 | h_15 => exact Marks.advance.bind fun _ => marks_call hinner _
  case h_16 => exact marks_case hinner
  case h_17 => exact Marks.look.bind fun _ => .ite (marks_named hinner) .unexpected

theorem marks_operand : Marks (operand rule inner) := by
  have hprior : Marks skipPrior := .branch .inspect .skipWhen .pure
  refine .branch hprior (hinner _) (Marks.look.bind fun k => ?_)
  split
  · exact Marks.advance.bind fun _ => (hinner _).bind fun _ => .pure
  · exact marks_primary hinner

theorem marks_membership (tested : Expr) (negated : Bool) : Marks (membership inner tested negated) := by
  refine Marks.expectKeyword.bind fun _ => .branch .look .unsupported (Marks.expect.bind fun _ => ?_)
  exact (hinner 0).commaSeparated.bind fun _ => Marks.expect.bind fun _ => .pure

theorem marks_range (tested : Expr) (negated : Bool) : Marks (range inner tested negated) := by
  refine Marks.expectKeyword.bind fun _ => (hinner _).bind fun _ => Marks.expectKeyword.bind fun _ => ?_
  exact (hinner _).bind fun _ => .pure

theorem marks_extend (left : Expr) (i : Infix) : Marks (extend inner left i) := by
  have hbinary : ∀ op, Marks (binary inner op left) := fun _ => Marks.advance.bind fun _ => (hinner _).bind fun _ => .pure
  cases i with
  | operator op => exact hbinary op
  | is => exact Marks.advance.bind fun _ => Marks.skipWhen.bind fun _ => Marks.expectKeyword.bind fun _ => .pure
  | within => exact marks_membership hinner left false
  | between => exact marks_range hinner left false
  | not =>
    refine Marks.advance.bind fun _ => Marks.look.bind fun k => ?_
    split
    · exact marks_membership hinner left true
    · exact marks_range hinner left true
    · exact (hbinary .like).bind fun _ => .pure
    · exact .unexpected

theorem marks_operators (strength rounds : Nat) (left : Expr) : Marks (operators inner strength rounds left) := by
  induction rounds generalizing left with
  | zero => exact .pure
  | succ rounds ih =>
    refine Marks.look.bind fun k => ?_
    split
    · exact .ite .pure ((marks_extend hinner left _).bind ih)
    · exact .pure

end

theorem marks_expressionAt (depth strength : Nat) : Marks (expressionAt rule depth strength) := by
  induction depth generalizing strength with
  | zero => exact .unexpected
  | succ depth ih => exact (marks_operand ih).bind fun first => Marks.look.bind fun n => marks_operators ih strength n first

theorem marks_expression : Marks (expression rule) :=
  Marks.look.bind fun n => marks_expressionAt (n + 1) 0

/-! ## Clauses that are dropped -/

theorem Marks.allowingPrior {p : Parser α} (hp : Marks p) : Marks (allowingPrior p) := by
  intro s
  have h := hp { s with priorAllowed := true }
  unfold State.after at h ⊢
  unfold Grammar.allowingPrior
  cases hr : p { s with priorAllowed := true } with
  | ok a s' =>
    rw [hr] at h
    exact h
  | error e s' =>
    rw [hr] at h
    exact h

/-- A clause behind its keyword, which may be missing. -/
theorem Marks.whenKeyword {k : Keyword} {p : Parser Unit} (hp : Marks p) :
    Marks (skipKeyword k >>= fun b => if b then p else Pure.pure ()) :=
  .branch .skipWhen hp .pure

theorem marks_skipConnectBy : Marks (skipConnectBy rule) := by
  refine .whenKeyword (Marks.expectKeyword.bind fun _ => Marks.skipWhen.bind fun _ => ?_)
  exact marks_expression.allowingPrior.bind fun _ => .pure

theorem marks_skipStartWith : Marks (skipStartWith rule) :=
  .whenKeyword (Marks.expectKeyword.bind fun _ => marks_expression.bind fun _ => .pure)

theorem marks_skipHierarchy : Marks (skipHierarchy rule) :=
  marks_skipConnectBy.bind fun _ => marks_skipStartWith.bind fun _ => marks_skipConnectBy

theorem marks_skipForUpdate : Marks (skipForUpdate rule) := by
  have hcolumns : Marks (skipLockedColumns rule) := .whenKeyword (marks_expression.commaSeparated.bind fun _ => .pure)
  have hwaiting : Marks skipWaiting := by
    refine .branch .skipWhen (Marks.expect.bind fun _ => .pure) ?_
    exact .branch .skipWhen (Marks.expectKeyword.bind fun _ => .pure) (Marks.skipWhen.bind fun _ => .pure)
  exact .whenKeyword (Marks.expectKeyword.bind fun _ => hcolumns.bind fun _ => hwaiting)

end

/-- What reads conditions that go into no clause, or whose tree the caller may drop. -/
inductive Discarded where
  | expression
  | hierarchicalCondition
  | connectBy
  | startWith
  /-- `CONNECT BY` and `START WITH` in either order. -/
  | hierarchy
  /-- `FOR UPDATE`. -/
  | lock

namespace Discarded

/-- The state behind it, whether it succeeds or fails. -/
def after (rule : Rule) (s : State) : Discarded → State
  | expression => s.after (Grammar.expression rule)
  | hierarchicalCondition => s.after (Grammar.hierarchicalCondition rule)
  | connectBy => s.after (skipConnectBy rule)
  | startWith => s.after (skipStartWith rule)
  | hierarchy => s.after (skipHierarchy rule)
  | lock => s.after (skipForUpdate rule)

theorem marked_after (rule : Rule) (s : State) (c : Discarded) : s.statement.Marked (c.after rule s).statement := by
  cases c with
  | expression => exact marks_expression s
  | hierarchicalCondition => exact marks_expression.allowingPrior s
  | connectBy => exact marks_skipConnectBy s
  | startWith => exact marks_skipStartWith s
  | hierarchy => exact marks_skipHierarchy s
  | lock => exact marks_skipForUpdate s

theorem exists_run (rule : Rule) {s : State} (hs : Token.Complete s.cursor.tokens) (c : Discarded) :
    ∃ es, Run rule s es (c.after rule s) := by
  have hof : ∀ {p : Parser Unit}, Drops .oracle rule p → ∃ es, Run rule s es (s.after p) :=
    fun hp => Runs.of_traced hp s hs
  cases c with
  | expression => exact Call.expression.exists_run (d := .oracle) hs
  | hierarchicalCondition => exact Call.hierarchicalCondition.exists_run (d := .oracle) hs
  | connectBy => exact hof drops_skipConnectBy
  | startWith => exact hof drops_skipStartWith
  | hierarchy => exact hof drops_skipHierarchy
  | lock => exact hof drops_skipForUpdate

/-- Its trace on the statement, where the tokens are those of a text and every edit stands before the current one. -/
theorem trace_of_after (rule : Rule) (s : State) (c : Discarded) :
    s.statement.Marked (c.after rule s).statement ∧
    ∀ source, s.cursor.tokens <:+ Token.lex source →
      ∃ passed, s.cursor.tokens = passed ++ (c.after rule s).cursor.tokens ∧
        ((∀ e ∈ s.statement.edits, e.start < s.cursor.span.start) → ∃ named : List Token, named.Sublist passed ∧
          (c.after rule s).statement.edits = s.statement.edits ++ named.map fun t => .table t.span.start t.text) := by
  refine ⟨c.marked_after rule s, fun source hs => ?_⟩
  have hcomplete : Token.Complete s.cursor.tokens := by
    obtain ⟨pre, hpre⟩ := hs
    exact .of_append (List.cons_ne_nil _ _) (hpre ▸ Token.complete_lex source)
  obtain ⟨es, hrun⟩ := c.exists_run rule hcomplete
  refine ⟨Event.passed es, hrun.tokens_eq, fun hbefore => ?_⟩
  obtain ⟨hreplaces, hordered⟩ := hrun.edited hs
  have hfirst : ∀ t ∈ s.cursor.tokens, s.cursor.span.start ≤ t.span.start := by
    intro t ht
    rcases List.mem_cons.1 ht with rfl | ht
    · exact Nat.le_refl _
    · have hbehind := List.pairwise_cons.1 ((Token.pairwise_before_lex source).sublist hs.sublist)
      exact Nat.le_of_lt (hbehind.1 t ht).1
  have hsublist : ((Event.edited rule es).map Prod.snd).Sublist s.cursor.tokens := by
    rw [hrun.tokens_eq]
    exact (Event.map_snd_edited_sublist es).trans (List.sublist_append_left _ _)
  have hedits : (c.after rule s).statement.edits = s.statement.edits ++ (Event.edited rule es).map Prod.fst := by
    rw [hrun.edits_eq, Event.map_fst_edited]
    refine Edit.foldl_insert (fun a ha e he => ?_) hordered
    rw [← Event.map_fst_edited] at he
    obtain ⟨x, hx, rfl⟩ := List.mem_map.1 he
    have hstart : s.cursor.span.start ≤ x.2.span.start :=
      hfirst x.2 (hsublist.subset (List.mem_map_of_mem hx))
    exact Nat.le_trans (Nat.le_of_lt (hbefore a ha)) ((hreplaces x hx).1 ▸ hstart)
  -- What was added is known twice: as the edits of the tokens passed, and as edits of tables.
  obtain ⟨added, hperm, hadded⟩ := (c.marked_after rule s).added
  rw [hedits, List.perm_append_left_iff] at hperm
  refine ⟨(Event.edited rule es).map Prod.snd, Event.map_snd_edited_sublist es, ?_⟩
  rw [hedits, List.map_map]
  refine congrArg _ (List.map_congr_left fun x hx => ?_)
  obtain ⟨start, written, htable⟩ := hadded x.1 (hperm.subset (List.mem_map_of_mem hx))
  have hreplaces := hreplaces x hx
  rw [htable] at hreplaces
  obtain ⟨hstart, hwritten, -⟩ := hreplaces
  have hmem : x.2 ∈ Token.lex source := hs.subset (hsublist.subset (List.mem_map_of_mem hx))
  show x.1 = .table x.2.span.start x.2.text
  rw [htable, hstart, hwritten, Token.slice_of_mem_lex hmem]
  rfl

/-- A text that breaks off behind an owner in its hierarchical condition. -/
def brokenText : String :=
  "SELECT a FROM t CONNECT BY PRIOR t.a = t."

/-- The state in front of that condition, with the edit of the table behind `FROM`. -/
def brokenState : State :=
  session .oracle ⟨[⟨"t", [], []⟩]⟩ brokenText [.expectKeyword .select, .selectList, .fromClause]

theorem trace_of_after_brokenText :
    brokenState.cursor.tokens <:+ Token.lex brokenText ∧
    (∀ e ∈ brokenState.statement.edits, e.start < brokenState.cursor.span.start) ∧
    ∃ named : List Token, named.Sublist brokenState.cursor.tokens ∧
      [.table 14 "t", .table 33 "t", .table 39 "t"] =
        brokenState.statement.edits ++ named.map fun t => .table t.span.start t.text := by
  have hs : brokenState.cursor.tokens <:+ Token.lex brokenText := by
    obtain ⟨es, hrun⟩ := exists_run_session .oracle ⟨[⟨"t", [], []⟩]⟩ brokenText
      [.expectKeyword .select, .selectList, .fromClause]
    exact ⟨Event.passed es, by rw [← State.tokens_ofSource, hrun.tokens_eq]; rfl⟩
  have hedits : ∀ e ∈ brokenState.statement.edits, e.start < brokenState.cursor.span.start := by decide +kernel
  obtain ⟨-, htrace⟩ := trace_of_after ⟨[⟨"t", [], []⟩]⟩ brokenState .hierarchy
  obtain ⟨passed, htokens, hnamed⟩ := htrace brokenText hs
  obtain ⟨named, hsublist, hafter⟩ := hnamed hedits
  refine ⟨hs, hedits, named, ?_, ?_⟩
  · rw [htokens]
    exact hsublist.trans (List.sublist_append_left _ _)
  · rw [← hafter]
    decide +kernel

end Discarded

end Grammar

end SelectRouting
