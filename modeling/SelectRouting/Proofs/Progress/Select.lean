import SelectRouting.Proofs.Parameters.Counter
import SelectRouting.Proofs.Progress.From
/-!
# Progress

No step of a cursor or a parser goes back or behind the end of the input, the parts of a statement that are never empty
end ahead of where they start, and every loop and every recursion of the grammar passes a token before it comes to
itself again (`progress`).  So each of them ends on every input, and is nested at most one deeper than there are tokens
left.
-/
namespace SelectRouting.Grammar

variable {d : Dialect} {rule : Rule} {source : String} {s s' : State} {α : Type}

/-! ## Places in a text -/

/-- On the token of a text with the given index. -/
def State.StandsOn (source : String) (i : Nat) (s : State) : Prop :=
  s.cursor.tokens = (Token.lex source).drop i

namespace State.StandsOn

variable {i : Nat} (h : s.StandsOn source i)
include h

theorem complete : Token.Complete s.cursor.tokens := by
  have hlex : Token.lex source = (Token.lex source).take i ++ s.cursor.tokens := by
    rw [h, List.take_append_drop]
  exact .of_append (List.cons_ne_nil _ _) (hlex ▸ Token.complete_lex source)

/-- The current token and the one behind it are tokens of the text; the last one is its own successor. -/
theorem inRange : (Token.lex source)[i]? = some s.cursor.current ∧
    (Token.lex source)[min (i + 1) ((Token.lex source).length - 1)]? = some s.cursor.next := by
  have htokens : ∀ j, s.cursor.tokens[j]? = (Token.lex source)[i + j]? := fun j => by rw [h, List.getElem?_drop]
  have hlength : s.cursor.rest.length + 1 = (Token.lex source).length - i := by
    rw [← List.length_drop, ← h]
    rfl
  refine ⟨(htokens 0).symm, ?_⟩
  cases hrest : s.cursor.rest with
  | nil =>
    rw [hrest, List.length_nil] at hlength
    rw [show min (i + 1) ((Token.lex source).length - 1) = i + 0 by omega, ← htokens, Cursor.next, hrest]
    rfl
  | cons t ts =>
    rw [hrest, List.length_cons] at hlength
    rw [show min (i + 1) ((Token.lex source).length - 1) = i + 1 by omega, ← htokens, Cursor.tokens, Cursor.next, hrest]
    rfl

theorem of_run {es : List Event} (hrun : Run rule s es s') : s'.StandsOn source (i + (Event.passed es).length) := by
  show _ = _
  rw [← List.drop_drop, ← h, hrun.tokens_eq, List.drop_left]

theorem after {es : List Event} (hrun : Run rule s es s') : ∃ j, i ≤ j ∧ s'.StandsOn source j :=
  ⟨_, Nat.le_add_right _ _, h.of_run hrun⟩

end State.StandsOn

/-- A method of the parser stays where it is or goes on. -/
theorem Method.standsOn_after {i : Nat} (h : s.StandsOn source i) (m : Method) :
    ∃ j, i ≤ j ∧ (m.after rule s).StandsOn source j := by
  have hof : ∀ {β : Type} {p : Parser β}, Counts rule p → ∃ j, i ≤ j ∧ (s.after p).StandsOn source j := fun hp =>
    have ⟨_, hrun⟩ := Runs.of_traced hp s h.complete
    h.after hrun
  cases m with
  | outer c _ =>
    have ⟨es, hrun⟩ : ∃ es, Run rule s es (c.after .generic rule s) := c.exists_run h.complete
    exact h.after hrun
  | selectItem => exact hof reads_selectItem.counts
  | recordTable name token =>
    refine ⟨i, Nat.le_refl i, ?_⟩
    show (s.after (if rule.containsTable name then _ else _)).cursor.tokens = _
    split
    · exact h
    · exact h
  | joinKind => exact hof silent_joinKind.counts
  | endOfStatement => exact hof counts_endOfStatement
  | expressionOver strength => exact hof (counts_nested fun _ hinner => hinner strength)
  | operand => exact hof (counts_nested fun _ hinner => reads_operand hinner)
  | primary => exact hof (counts_nested fun _ hinner => reads_primary hinner)
  | call name => exact hof (counts_nested fun _ hinner => reads_call hinner name)
  | caseExpression => exact hof (counts_nested fun _ hinner => reads_case hinner)
  | expressionList => exact hof (counts_nested fun _ hinner => (hinner 0).commaSeparated)
  | membership tested negated => exact hof (counts_nested fun _ hinner => reads_membership hinner tested negated)
  | range tested negated => exact hof (counts_nested fun _ hinner => reads_range hinner tested negated)

/-! ## Parts that are never empty -/

theorem paced_expression (s : State) : Paced true s (expression rule) (expression rule) :=
  paced_expressionFrom 0 s

theorem paced_orderItem (s : State) : Paced true s (orderItem d rule) (orderItem d rule) := by
  have hdirection : Runs rule direction := (silent_direction : Silent d rule .reading _).runs
  have hnulls : Runs rule (nullOrder d) := (silent_nullOrder : Silent d rule .reading _).runs
  apply (paced_expression s).bind
  intro e s₁ _
  apply (Paced.of_runs hdirection).andThen
  intro rows s₂ _
  exact (Paced.of_runs hnulls).bind fun _ _ _ => .pure

theorem paced_orderItems (s : State) : Paced true s (orderItems d rule) (orderItems d rule) :=
  paced_commaSeparated fun s₁ _ => paced_orderItem s₁

theorem paced_windowItem (s : State) : Paced true s (windowItem d rule) (windowItem d rule) := by
  have hregion : Runs rule skipRegion := .of_traced (skims_region (d := d))
  have horder : Runs rule (windowOrder d rule) := (reads_windowOrder : Reads d rule .reading _ _ _).runs
  have halias : Runs rule aliasClause := (silent_aliasClause : Silent d rule .reading _).runs
  apply Paced.expectKeyword_bind
  intro _ s₁ _
  apply (Paced.of_runs hregion).andThen
  intro _ s₂ _
  apply Paced.weaken
  apply Paced.expectKeyword_bind
  intro _ s₃ _
  apply Paced.weaken
  refine .expect_bind ⟨nofun, nofun⟩ fun _ s₄ _ => ?_
  apply Paced.look_bind
  apply Paced.ite .unsupported
  apply (Paced.of_runs horder).andThen
  intro order s₅ _
  apply Paced.weaken
  exact .expect_bind ⟨nofun, nofun⟩ fun _ s₆ _ => (Paced.of_runs halias).bind fun _ _ _ => .pure

theorem paced_expressionItem (s : State) : Paced true s (expressionItem rule) (expressionItem rule) := by
  have halias : Runs rule aliasClause := (silent_aliasClause : Silent .generic rule .reading _).runs
  apply (paced_expression s).bind
  intro e s₁ _
  split
  · exact .pure
  · exact (Paced.of_runs halias).bind fun _ _ _ => .pure

theorem paced_selectItem (s : State) : Paced true s (selectItem d rule) (selectItem d rule) := by
  have hat : Runs rule (atRowNumberItem d) := (silent_atRowNumberItem : Silent d rule .reading _).runs
  have hnumber : ∀ s, Paced true s (rowNumberItem d rule) (rowNumberItem d rule) := fun s => by
    cases d with
    | generic | oracle => exact .unexpected
    | sqlServer => exact paced_windowItem s
  apply paced_skipWhen.andThen
  intro _ s₁ _
  apply (Paced.of_runs hat).andThen
  exact fun _ s₂ _ => (hnumber s₂).ite (paced_expressionItem s₂)

theorem paced_selectList (s : State) : Paced true s (selectList d rule) (selectList d rule) := by
  have hitems : Paced true s (commaSeparated (selectItem d rule >>= fun item =>
      modifyStatement fun s => { s with items := s.items ++ [item] })) (commaSeparated (selectItem d rule >>= fun item =>
      modifyStatement fun s => { s with items := s.items ++ [item] })) :=
    paced_commaSeparated fun s₁ _ => (paced_selectItem s₁).bind fun _ _ _ => .modifyStatement
  exact hitems.bind fun _ _ _ => .pure

theorem paced_limitValue (s : State) : Paced true s limitValue limitValue := by
  have hne : ∀ {k : Token.Kind}, s.cursor.current.kind = k → k ≠ .eof → s.cursor.kind ≠ .eof :=
    fun hk h heof => h (hk.symm.trans heof)
  apply Paced.look_bind
  split
  case h_1 n hk => exact .ite (.of_error rfl rfl) (.advance_bind (hne hk nofun) fun _ _ => .pure)
  case h_2 hk =>
    refine fun hs => ⟨rfl, fun _ s' hr => ?_⟩
    cases hr
    exact ⟨Cursor.complete_advance hs, Nat.le_of_eq (State.left_advanced hs (hne hk nofun))⟩
  case h_3 => exact .unexpected

/-- With a value, a parser ends on a later token of a text than it starts on. -/
def Ahead (source : String) (p : Parser α) : Prop :=
  ∀ i s a s', s.StandsOn source i → p s = .ok a s' → ∃ j, i < j ∧ s'.StandsOn source j

theorem Ahead.of_paced {p : Parser α} (hrun : Runs rule p) (hp : ∀ s, Paced true s p p) : Ahead source p := by
  intro i s a s' h hr
  obtain ⟨es, hes⟩ := hrun s h.complete
  rw [State.after, hr] at hes
  refine ⟨_, ?_, h.of_run hes⟩
  have hleft : s'.left + 1 ≤ s.left := ((hp s h.complete).2 a s' hr).2
  have htokens := congrArg List.length hes.tokens_eq
  simp only [Cursor.tokens, List.length_append, List.length_cons] at htokens
  unfold State.left at hleft
  omega

/-! ## All of the grammar -/

/-- That a parser goes on, on a text, and that all of its loops and recursions end. -/
structure Progress (d : Dialect) (rule : Rule) (source : String) : Prop where
  /-- On a token of the text there is a current token and a next one. -/
  inRange : ∀ i (s : State), s.StandsOn source i → (Token.lex source)[i]? = some s.cursor.current ∧
    (Token.lex source)[min (i + 1) ((Token.lex source).length - 1)]? = some s.cursor.next
  /-- No call from outside goes back or leaves the text, whether it fails or not. -/
  calls : ∀ i (s : State), s.StandsOn source i → ∀ c : Call, ∃ j, i ≤ j ∧ (c.after d rule s).StandsOn source j
  /-- Nor do the steps that the calls are made of. -/
  methods : ∀ i (s : State), s.StandsOn source i → ∀ m : Method, ∃ j, i ≤ j ∧ (m.after rule s).StandsOn source j
  ahead : Ahead source (expression rule) ∧ Ahead source (selectList d rule) ∧ Ahead source (tableReference d rule) ∧
    Ahead source (tableFactor d rule) ∧ Ahead source (orderItems d rule) ∧ Ahead source limitValue
  expressions : Grounded (expressionOver rule) (expressionFrom rule)
  operatorLoops : ∀ inner : Inner, (∀ strength, Onward (inner strength)) → ∀ strength,
    Grounded (operatorsRound inner strength) (fun left => do operators inner strength (← tokensLeft) left)
  branchLoops : ∀ inner : Inner, (∀ strength, Onward (inner strength)) →
    Grounded (branchesRound inner) (fun _ => do branches inner (← tokensLeft))
  listLoops : ∀ (β : Type) (item : Parser β), Onward item → Grounded (separatedRound item) (fun _ => commaSeparated item)
  entries : Grounded (entryOver d rule) (fun _ => tableReference d rule)
  joinLoops : ∀ factor, Onward factor →
    Grounded (joinsRound d rule factor) (fun left => do joinsOver d rule factor (← tokensLeft) left)
  /-- Entries and factors are written over each other, without any bound. -/
  factors : ∀ s : State, Token.Complete s.cursor.tokens →
    tableFactor d rule s = factorOver d rule (tableReference d rule) s ∧
      tableReference d rule s = (tableFactor d rule >>= joins d rule) s
  /-- What the loops are made of goes on. -/
  parts : (∀ strength, Onward (expressionFrom rule strength)) ∧ Onward (selectItem d rule) ∧ Onward (orderItem d rule) ∧
    Onward (tableReference d rule) ∧ Onward (tableFactor d rule)

theorem parser_progress (d : Dialect) (rule : Rule) (source : String) : Progress d rule source where
  inRange i s h := h.inRange
  calls i s h c := by
    have ⟨es, hrun⟩ : ∃ es, Run rule s es (c.after d rule s) := c.exists_run h.complete
    exact h.after hrun
  methods i s h m := m.standsOn_after h
  ahead := by
    have hlimit : Runs rule limitValue := .limitValue
    refine ⟨.of_paced (reads_expression : Reads d rule .reading _ _ _).runs paced_expression, ?_, ?_, ?_, ?_, ?_⟩
    · exact .of_paced fills_selectList.runs paced_selectList
    · exact .of_paced reads_tableReference.runs paced_tableReference
    · exact .of_paced reads_tableFactor.runs paced_tableFactor
    · exact .of_paced reads_orderItems.runs paced_orderItems
    · exact .of_paced hlimit paced_limitValue
  expressions := grounded_expression
  operatorLoops inner hinner strength := grounded_operators hinner strength
  branchLoops inner hinner := grounded_branches hinner
  listLoops β item hitem := grounded_separated hitem
  entries := grounded_entry
  joinLoops factor hfactor := grounded_joins hfactor
  factors s hs := by
    refine ⟨(paced_factor_of_entry s hs).1, ?_⟩
    have hjoined : Paced true s (tableFactor d rule >>= joins d rule)
        (entryOver d rule (fun _ => tableReference d rule) ()) := by
      apply (paced_factor_of_entry s).bind
      intro left s₁ h₁
      apply Paced.look_bind
      exact paced_joinsOver (fun s' _ => (paced_factor_of_entry s').weaken) _ left (Nat.le_refl s₁.left)
    exact (grounded_entry.equation () s hs).trans (hjoined hs).1.symm
  parts := by
    refine ⟨fun strength => .of_paced fun s => (paced_expressionFrom strength s).weaken, ?_, ?_, ?_, ?_⟩
    · exact .of_paced fun s => (paced_selectItem s).weaken
    · exact .of_paced fun s => (paced_orderItem s).weaken
    · exact .of_paced fun s => (paced_tableReference s).weaken
    · exact .of_paced fun s => (paced_tableFactor s).weaken

/-- A text with an expression in two pairs of parentheses. -/
def nestedText : String :=
  "((a))"

/-- There are five tokens behind the first one, so six rounds are enough, whatever stands at the bottom; the expression
ends on the last token. -/
theorem parser_progress_nestedText :
    (State.ofSource nestedText).StandsOn nestedText 0 ∧ (State.ofSource nestedText).left = 5 ∧
    (∀ bottom, (expressionOver .empty)^[6] bottom 0 (State.ofSource nestedText) =
      expressionFrom .empty 0 (State.ofSource nestedText)) ∧
    ∃ a s' j, expression .empty (State.ofSource nestedText) = .ok a s' ∧ 0 < j ∧ s'.StandsOn nestedText j := by
  have hprogress := parser_progress .generic .empty nestedText
  have hstart : (State.ofSource nestedText).StandsOn nestedText 0 := State.tokens_ofSource nestedText
  have hleft : (State.ofSource nestedText).left = 5 := by decide +kernel
  refine ⟨hstart, hleft, fun bottom => ?_, ?_⟩
  · exact hprogress.expressions.depth bottom 6 0 _ hstart.complete (by rw [hleft]; decide)
  · have hok : (match expression .empty (State.ofSource nestedText) with | .ok .. => true | .error .. => false) = true := by
      decide +kernel
    cases hr : expression .empty (State.ofSource nestedText) with
    | error e s' =>
      rw [hr] at hok
      cases hok
    | ok a s' =>
      obtain ⟨j, hj, hs'⟩ := hprogress.ahead.1 0 _ a s' hstart hr
      exact ⟨a, s', j, rfl, hj, hs'⟩

end SelectRouting.Grammar
