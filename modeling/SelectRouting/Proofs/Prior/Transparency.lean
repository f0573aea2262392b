import SelectRouting.Proofs.Likeness.Layout
import SelectRouting.Proofs.Prior.Expression
/-!
# What a mark means

Marks stand in the condition of a `CONNECT BY` alone, and there they change nothing but which rows are meant: without them
the same tokens are the same expression, and what is recorded of its parameters and tables is the same.  Behind such a
condition marks are rejected again, also when it has failed (`hierarchicalCondition_transparent`).
-/
namespace SelectRouting.Grammar

open Cursor (Reaches)
open Token (unmark Unstarred Unmarked)

variable {rule : Rule} {s t : State} {e : Expr}

/-! ## Where marks are not allowed -/

/-- A mark is rejected where an expression should begin with it, and no expression has passed one. -/
def RejectsPrior (rule : Rule) (s : State) : Prop :=
  (s.cursor.kind = .keyword .prior →
    expression rule s = .error ⟨.unexpected "expression" (.keyword .prior), s.cursor.span⟩ s) ∧
  ∀ e t, expression rule s = .ok e t → ∃ ts, s.cursor.tokens = ts ++ t.cursor.tokens ∧ Unmarked ts

theorem primary_of_mark {inner : Inner} (hk : s.cursor.kind = .keyword .prior) :
    primary rule inner s = .error ⟨.unexpected "expression" (.keyword .prior), s.cursor.span⟩ s := by
  have hcurrent : s.cursor.current.kind = .keyword .prior := hk
  have hname : s.cursor.name? = none := by
    rw [Cursor.name?, hk]
    rfl
  unfold primary
  rw [look_bind_apply, hcurrent]
  dsimp only
  rw [look_bind_apply, hname]
  show EStateM.Result.error (⟨.unexpected "expression" s.cursor.current.kind, s.cursor.span⟩ : ParseError) s = _
  rw [hcurrent]

theorem rejectsPrior (hallowed : s.priorAllowed = false) (hs : Token.Complete s.cursor.tokens) : RejectsPrior rule s := by
  constructor
  · intro hk
    have hplain : s = s.plain s.cursor := by
      rw [State.plain, ← hallowed]
    have hoperand : ∀ inner, operand rule inner s = .error ⟨.unexpected "expression" (.keyword .prior), s.cursor.span⟩ s := by
      intro inner
      rw [hplain, operand_plain, ← hplain, plainOperand, look_bind_apply, hk]
      exact primary_of_mark hk
    exact bind_of_error (hoperand _) _
  · intro e t hr
    obtain ⟨ts, hts, hbuilt⟩ := passes_expression hallowed hs e t hr
    exact ⟨ts, hts, hbuilt.written.unmarked⟩

/-! ## Conditions -/

section
variable {α : Type} {p : Parser α} {a : α} {error : ParseError}

theorem ok_of_allowingPrior (h : allowingPrior p s = .ok a t) :
    ∃ u, p { s with priorAllowed := true } = .ok a u ∧ t = { u with priorAllowed := false } := by
  rw [allowingPrior_apply] at h
  cases hr : p { s with priorAllowed := true } with
  | error error' u =>
    rw [hr] at h
    cases h
  | ok a' u =>
    rw [hr] at h
    cases h
    exact ⟨u, rfl, rfl⟩

theorem error_of_allowingPrior (h : allowingPrior p s = .error error t) :
    ∃ u, p { s with priorAllowed := true } = .error error u ∧ t = { u with priorAllowed := false } := by
  rw [allowingPrior_apply] at h
  cases hr : p { s with priorAllowed := true } with
  | ok a' u =>
    rw [hr] at h
    cases h
  | error error' u =>
    rw [hr] at h
    cases h
    exact ⟨u, rfl, rfl⟩

/-- However it ends, no mark is allowed behind. -/
theorem allowed_of_allowingPrior
    (h : (∃ a, allowingPrior p s = .ok a t) ∨ ∃ error, allowingPrior p s = .error error t) : t.priorAllowed = false := by
  rcases h with ⟨a, h⟩ | ⟨error, h⟩
  · obtain ⟨u, -, rfl⟩ := ok_of_allowingPrior h
    rfl
  · obtain ⟨u, -, rfl⟩ := error_of_allowingPrior h
    rfl

end

theorem complete_of_hierarchicalCondition (hs : Token.Complete s.cursor.tokens)
    (h : (∃ e, hierarchicalCondition rule s = .ok e t) ∨ ∃ error, hierarchicalCondition rule s = .error error t) :
    Token.Complete t.cursor.tokens := by
  rcases h with ⟨e, h⟩ | ⟨error, h⟩
  · obtain ⟨ts, hts, -⟩ := Settles.of_ok (fun _ _ => settles_hierarchicalCondition) hs h
    exact hts.complete hs
  · obtain ⟨ts, hts, -⟩ := Settles.of_error (fun _ _ => settles_hierarchicalCondition) hs h
    exact hts.complete hs

/-- A condition is read from the same tokens without their marks. -/
theorem expression_of_hierarchicalCondition (hs : Token.Complete s.cursor.tokens)
    (h : hierarchicalCondition rule s = .ok e t) : ∃ ts, s.cursor.tokens = ts ++ t.cursor.tokens ∧ (Unstarred ts →
      ∀ s' : State, s'.cursor.tokens = unmark ts ++ t.cursor.tokens → s'.statement = s.statement → s'.priorAllowed = false →
        ∃ t', expression rule s' = .ok e t' ∧ t'.cursor.tokens = t.cursor.tokens ∧ t'.statement = t.statement) := by
  obtain ⟨u, hrun, rfl⟩ := ok_of_allowingPrior h
  have hwalk : ∀ n', Unmarks .opened (s.cursor.rest.length + 1) n' { s with priorAllowed := true } (expression rule)
      (expression rule) := fun _ => unmarks_expression _
  have hall := fun n' => hwalk n' hs (Nat.lt_succ_self _) rfl e u hrun
  obtain ⟨-, ts, hts, -⟩ := hall 0
  refine ⟨ts, hts.tokens, fun hun s' htokens hstatement hallowed => ?_⟩
  obtain ⟨-, us, hus, -, hall⟩ := hall (s'.cursor.rest.length + 1)
  obtain rfl := hts.unique hus
  have hcomplete : Token.Complete s'.cursor.tokens := by
    rw [htokens]
    refine Token.Complete.unmark (List.cons_ne_nil _ _) ?_
    rw [← hts.tokens]
    exact hs
  have hreaches : Reaches s'.cursor (unmark ts) ⟨s'.cursor.source, u.cursor.current, u.cursor.rest⟩ := ⟨htokens, rfl⟩
  have hplain : s' = ({ s with priorAllowed := true } : State).plain s'.cursor := by
    rw [State.plain, ← hallowed, ← hstatement]
  have hread := hall hun s'.cursor _ hcomplete (Nat.lt_succ_self _) hreaches rfl
  rw [← hplain] at hread
  exact ⟨_, hread, rfl, rfl⟩

/-- **Marks are transparent, and confined to the condition.**  A condition that is read from some tokens, no mark of which
stands in front of a star, is read as the same expression from the tokens without the marks, up to the same place and with
the same parameters and edits; and when these tokens are moved, the same but for places is read.  Behind a condition,
whether it was read or has failed, marks are rejected. -/
theorem hierarchicalCondition_transparent (rule : Rule) {s : State} (hs : Token.Complete s.cursor.tokens) :
    (∀ e t, hierarchicalCondition rule s = .ok e t → ∃ ts, s.cursor.tokens = ts ++ t.cursor.tokens ∧ (Unstarred ts →
      ∀ u : State, u.cursor.tokens = unmark ts ++ t.cursor.tokens → u.statement = s.statement → u.priorAllowed = false →
        ∃ v, expression rule u = .ok e v ∧ v.cursor.tokens = t.cursor.tokens ∧ v.statement = t.statement ∧
          ∀ u', Moved u u' → ∃ e' v', expression rule u' = .ok e' v' ∧ e.map .unplaced = e'.map .unplaced ∧ Moved v v')) ∧
    ∀ t, ((∃ e, hierarchicalCondition rule s = .ok e t) ∨ ∃ error, hierarchicalCondition rule s = .error error t) →
      RejectsPrior rule t ∧
        ∀ u : State, u.priorAllowed = t.priorAllowed → Token.Complete u.cursor.tokens → RejectsPrior rule u := by
  constructor
  · intro e t h
    obtain ⟨ts, hts, hread⟩ := expression_of_hierarchicalCondition hs h
    refine ⟨ts, hts, fun hun u htokens hstatement hallowed => ?_⟩
    obtain ⟨v, hv, hvtokens, hvstatement⟩ := hread hun u htokens hstatement hallowed
    exact ⟨v, hv, hvtokens, hvstatement, fun u' hmoved => hmoved.expression hv⟩
  · intro t h
    have hallowed : t.priorAllowed = false := allowed_of_allowingPrior h
    constructor
    · exact rejectsPrior hallowed (complete_of_hierarchicalCondition hs h)
    · exact fun u hu hcomplete => rejectsPrior (hu.trans hallowed) hcomplete

/-- What a run ends with, unless it fails. -/
def ending? {α : Type} : EStateM.Result ParseError State α → Option (α × State)
  | .ok a t => some (a, t)
  | .error .. => none

/-- A condition with marks under `NOT`, on a tested column and in a list. -/
def markedText : String :=
  "t.a = PRIOR t.b + 1 AND NOT PRIOR c IN (PRIOR ?, 2)"

/-- The condition with blanks for its marks. -/
def blankedText : String :=
  "t.a =       t.b + 1 AND NOT       c IN (      ?, 2)"

/-- The condition without its marks. -/
def unmarkedText : String :=
  "t.a = t.b + 1 AND NOT c IN (?, 2)"

/-- A rule for the table with a name in it. -/
def markedRule : Rule :=
  ⟨[⟨"t", ["a"], []⟩]⟩

theorem moved_unmarkedText : Moved (.ofSource blankedText) (.ofSource unmarkedText) := by
  rw [State.ofSource_of_chars blankedText rfl, State.ofSource_of_chars unmarkedText rfl]
  constructor
  · decide +kernel
  · rfl
  · rfl
  · decide +kernel

theorem hierarchicalCondition_transparent_markedText : ∃ e t,
    hierarchicalCondition markedRule (.ofSource markedText) = .ok e t ∧
    (t.cursor.kind = .eof ∧ t.statement.parameters = 1 ∧ t.statement.edits = [.table 0 "t", .table 12 "t"]) ∧
    (∃ v, expression markedRule (.ofSource blankedText) = .ok e v ∧ v.statement = t.statement) ∧
    (∃ e' v, expression markedRule (.ofSource unmarkedText) = .ok e' v ∧ e.map .unplaced = e'.map .unplaced) ∧
    RejectsPrior markedRule t := by
  have hends : (ending? (hierarchicalCondition markedRule (.ofSource markedText))).map (fun r =>
      (r.2.cursor.kind, r.2.statement.parameters, r.2.statement.edits)) =
        some (.eof, 1, [.table 0 "t", .table 12 "t"]) := by
    rw [State.ofSource_of_chars markedText rfl]
    decide +kernel
  have hlex : unmark (Token.lex markedText) = Token.lex blankedText := by
    rw [Token.lex_of_chars markedText rfl, Token.lex_of_chars blankedText rfl]
    decide +kernel
  have hstars : Unstarred (Token.lex markedText) := by
    rw [Unstarred, Token.lex_of_chars markedText rfl]
    decide +kernel
  have hs := State.complete_ofSource markedText
  obtain ⟨hread, hreject⟩ := hierarchicalCondition_transparent markedRule hs
  cases hr : hierarchicalCondition markedRule (.ofSource markedText) with
  | error error t =>
    rw [hr] at hends
    cases hends
  | ok e t =>
    rw [hr] at hends
    simp only [ending?, Option.map_some, Option.some.injEq, Prod.mk.injEq] at hends
    obtain ⟨ts, hts, hall⟩ := hread e t hr
    -- Behind the condition there is nothing but the end of the text, and that is no mark.
    have hlast : unmark t.cursor.tokens = t.cursor.tokens := by
      rcases complete_of_hierarchicalCondition hs (.inl ⟨e, hr⟩) with ⟨hk, hnil⟩ | ⟨hk, -⟩
      · rw [Cursor.tokens, hnil, Token.unmark_cons (by simp [hk]), Token.unmark_nil]
      · exact absurd hends.1 hk
    rw [State.tokens_ofSource] at hts
    rw [hts] at hlex hstars
    rw [Token.unmark_append, hlast, ← State.tokens_ofSource] at hlex
    obtain ⟨v, hv, -, hstatement, hmoved⟩ := hall hstars.split.1 (.ofSource blankedText) hlex.symm rfl rfl
    obtain ⟨e', v', hv', hmap, -⟩ := hmoved _ moved_unmarkedText
    exact ⟨e, t, rfl, hends, ⟨v, hv, hstatement⟩, ⟨e', v', hv', hmap⟩, (hreject t (.inl ⟨e, hr⟩)).1⟩

end SelectRouting.Grammar
