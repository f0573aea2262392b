import SelectRouting.Grammar.Select
import SelectRouting.Proofs.Likeness.View
import SelectRouting.Proofs.Trace.Step
import Mathlib.Data.List.Forall2
/-!
# Two runs side by side

Two texts whose tokens are alike one by one are read alike: the parsers take the same way in both, and what they return or
store looks the same.  What it takes for two tokens to be alike, and for the edits and conditions made of them, is left
open here (`Likeness`); the judgement (`Agrees`) goes through the steps that parsers are made of.
-/
namespace SelectRouting.Grammar

/-- What two runs, each with its rule, have to have in common at every pair of tokens, so that they stay alike. -/
structure Likeness (rule rule' : Rule) where
  view : View
  token : Token → Token → Prop
  edits : List Edit → List Edit → Prop
  conditions : List Condition → List Condition → Prop
  kind : ∀ {t u}, token t u → t.kind.map view = u.kind.map view
  text : ∀ {t u}, token t u → view.name t.text = view.name u.text
  span : ∀ {t u}, token t u → view.span t.span = view.span u.span
  /-- A span from the start of one token to the end of another. -/
  wideSpan : ∀ {t u t' u'}, token t u → token t' u' →
    view.span ⟨t.span.start, t'.span.stop⟩ = view.span ⟨u.span.start, u'.span.stop⟩
  noEdits : edits [] []
  tableEdit : ∀ {t u name name' es es'}, token t u → view.name name = view.name name' → edits es es' →
    edits (if rule.containsTable name then (Edit.table t.span.start t.text).insert es else es)
      (if rule'.containsTable name' then (Edit.table u.span.start u.text).insert es' else es')
  rowCountEdit : ∀ {t u es es'} (n : Nat), token t u → edits es es' →
    edits ((Edit.rowCount t.span.start n).insert es) ((Edit.rowCount u.span.start n).insert es')
  offsetEdit : ∀ {t u es es'} (n : Nat), token t u → edits es es' →
    edits ((Edit.offset t.span.start n).insert es) ((Edit.offset u.span.start n).insert es')
  noConditions : conditions [] []
  predicate : ∀ {p p' tables tables' cs cs'}, p.map view = p'.map view →
    tables.map view.table = tables'.map view.table → conditions cs cs' →
    conditions (cs ++ Condition.ofPredicate rule tables p) (cs' ++ Condition.ofPredicate rule' tables' p')

/-- Values with the same image. -/
abbrev Same {α β : Type} (f : α → β) (a a' : α) : Prop :=
  f a = f a'

namespace Likeness

variable {rule rule' : Rule} (C : Likeness rule rule')

/-! ## States and results -/

abbrev Cursors (c c' : Cursor) : Prop :=
  List.Forall₂ C.token c.tokens c'.tokens

structure Statements (s s' : Statement) : Prop where
  distinct : s.distinct = s'.distinct
  items : Same (List.map (SelectItem.map C.view)) s.items s'.items
  sources : Same (List.map (TableRef.map C.view)) s.sources s'.sources
  predicate : Same (Option.map (Expr.map C.view)) s.predicate s'.predicate
  groups : Same (List.map (Expr.map C.view)) s.groups s'.groups
  having : Same (Option.map (Expr.map C.view)) s.having s'.having
  order : Same (List.map (OrderItem.map C.view)) s.order s'.order
  limit : s.limit = s'.limit
  parameters : s.parameters = s'.parameters
  edits : C.edits s.edits s'.edits
  conditions : C.conditions s.conditions s'.conditions

structure States (s s' : State) : Prop where
  cursor : C.Cursors s.cursor s'.cursor
  statement : C.Statements s.statement s'.statement
  priorAllowed : s.priorAllowed = s'.priorAllowed

/-- The spans of two tokens that are alike. -/
def Places (span span' : Span) : Prop :=
  ∃ t u, C.token t u ∧ span = t.span ∧ span' = u.span

structure Errors (e e' : ParseError) : Prop where
  cause : e.cause.map C.view = e'.cause.map C.view
  place : C.Places e.span e'.span

/-- Two results: related values and states, or errors that are alike. -/
inductive Results {α : Type} (R : α → α → Prop) :
    EStateM.Result ParseError State α → EStateM.Result ParseError State α → Prop where
  | ok {a a' : α} {s s' : State} (value : R a a') (state : C.States s s') : Results R (.ok a s) (.ok a' s')
  | error {e e' : ParseError} {s s' : State} (error : C.Errors e e') : Results R (.error e s) (.error e' s')

/-- From states that are alike, two parsers come to results that are alike. -/
def Agrees {α : Type} (R : α → α → Prop) (p p' : Parser α) : Prop :=
  ∀ s s', C.States s s' → C.Results R (p s) (p' s')

variable {C}

/-! ## Tokens -/

section
variable {t u : Token}

theorem eq_or_names (h : C.token t u) : t.kind = u.kind ∨
    ∃ name name', t.kind = .identifier name ∧ u.kind = .identifier name' ∧ C.view.name name = C.view.name name' := by
  have hself : ∀ k : Token.Kind, (∀ name, k ≠ .identifier name) → k.map C.view = k := fun k hk => by
    cases k with
    | identifier name => exact absurd rfl (hk name)
    | _ => rfl
  have hkind := C.kind h
  by_cases ht : ∃ name, t.kind = .identifier name
  · obtain ⟨name, ht⟩ := ht
    by_cases hu : ∃ name', u.kind = .identifier name'
    · obtain ⟨name', hu⟩ := hu
      rw [ht, hu] at hkind
      exact .inr ⟨name, name', ht, hu, Token.Kind.identifier.inj hkind⟩
    · rw [ht, hself _ (not_exists.1 hu)] at hkind
      exact absurd ⟨_, hkind.symm⟩ hu
  · by_cases hu : ∃ name', u.kind = .identifier name'
    · obtain ⟨name', hu⟩ := hu
      rw [hself _ (not_exists.1 ht), hu] at hkind
      exact absurd ⟨_, hkind⟩ ht
    · rw [hself _ (not_exists.1 ht), hself _ (not_exists.1 hu)] at hkind
      exact .inl hkind

/-- What does not depend on the name of an identifier is the same for two tokens that are alike. -/
theorem kind_congr {β : Type} (h : C.token t u) (f : Token.Kind → β)
    (hf : ∀ name name', f (.identifier name) = f (.identifier name')) : f t.kind = f u.kind := by
  rcases eq_or_names h with hkind | ⟨name, name', ht, hu, -⟩
  · rw [hkind]
  · rw [ht, hu, hf name name']

theorem keyword?_eq (h : C.token t u) : t.kind.keyword? = u.kind.keyword? :=
  kind_congr h _ fun _ _ => rfl

theorem alike_eq (h : C.token t u) (k : Token.Kind) : t.kind.alike k = u.kind.alike k := by
  refine kind_congr h (·.alike k) fun name name' => ?_
  cases k <;> rfl

theorem kind_eq_iff (h : C.token t u) {k : Token.Kind} (hk : ∀ name, k ≠ .identifier name) : t.kind = k ↔ u.kind = k :=
  iff_of_eq (kind_congr h (· = k) fun name name' => by simp [(hk _).symm])

end

/-! ## Cursors -/

section
variable {c c' : Cursor}

theorem Cursors.current (h : C.Cursors c c') : C.token c.current c'.current :=
  (List.forall₂_cons.1 h).1

theorem Cursors.rest (h : C.Cursors c c') : List.Forall₂ C.token c.rest c'.rest :=
  (List.forall₂_cons.1 h).2

theorem Cursors.next (h : C.Cursors c c') : C.token c.next c'.next := by
  unfold Cursor.next
  have hrest := h.rest
  have hcurrent := h.current
  cases hts : c.rest with
  | nil =>
    rw [hts] at hrest
    rw [List.forall₂_nil_left_iff.1 hrest]
    exact hcurrent
  | cons t ts =>
    rw [hts] at hrest
    obtain ⟨u, us, htu, -, hus⟩ := List.forall₂_cons_left_iff.1 hrest
    rw [hus]
    exact htu

/-- The cursor behind some tokens, or on the last token when there are none. -/
theorem Cursors.moveTo {last last' : Token} {ts ts' : List Token} (hlast : C.token last last')
    (hts : List.Forall₂ C.token ts ts') (c c' : Cursor) : C.Cursors (c.moveTo last ts) (c'.moveTo last' ts') := by
  cases hts with
  | nil => exact .cons hlast .nil
  | cons ht hts => exact .cons ht hts

theorem advance_of_cons {c : Cursor} {t : Token} {ts : List Token} (hk : c.kind ≠ .eof) (hrest : c.rest = t :: ts) :
    c.advance = ⟨c.source, t, ts⟩ := by
  unfold Cursor.advance
  split
  · exact absurd ‹_› hk
  · next hnil _ =>
    rw [hrest] at hnil
    cases hnil
  · next hcons _ =>
    rw [hrest] at hcons
    cases hcons
    rfl

theorem advance_of_nil {c : Cursor} (hrest : c.rest = []) : c.advance = c := by
  unfold Cursor.advance
  split
  · rfl
  · rfl
  · next hcons _ =>
    rw [hrest] at hcons
    cases hcons

theorem Cursors.advance (h : C.Cursors c c') : C.Cursors c.advance c'.advance := by
  have heof := kind_eq_iff h.current (k := .eof) fun _ => nofun
  by_cases hk : c.kind = .eof
  · rw [Cursor.advance_of_eof hk, Cursor.advance_of_eof (heof.1 hk)]
    exact h
  · have hrest := h.rest
    generalize hts : c.rest = ts, hts' : c'.rest = ts' at hrest
    cases hrest with
    | nil =>
      rw [advance_of_nil hts, advance_of_nil hts']
      exact h
    | cons ht hrest =>
      rw [advance_of_cons hk hts, advance_of_cons (mt heof.2 hk) hts']
      exact .cons ht hrest

/-! ## Regions -/

/-- The closing parentheses of two regions, with what follows them, if they are closed. -/
inductive Closings (C : Likeness rule rule') : Option (Token × List Token) → Option (Token × List Token) → Prop where
  | none : Closings C none none
  | some {t u : Token} {ts us : List Token} (token : C.token t u) (rest : List.Forall₂ C.token ts us) :
    Closings C (some (t, ts)) (some (u, us))

theorem closings_closing? {ts us : List Token} (h : List.Forall₂ C.token ts us) (depth : Nat) :
    Closings C (Cursor.closing? depth ts) (Cursor.closing? depth us) := by
  induction h generalizing depth with
  | nil => exact .none
  | @cons t u ts us htu hrest ih =>
    have hleft := kind_eq_iff htu (k := .leftParen) fun _ => nofun
    have hright := kind_eq_iff htu (k := .rightParen) fun _ => nofun
    have heof := kind_eq_iff htu (k := .eof) fun _ => nofun
    by_cases hl : t.kind = .leftParen
    · rw [Cursor.closing?_leftParen hl, Cursor.closing?_leftParen (hleft.1 hl)]
      exact ih (depth + 1)
    · by_cases hr : t.kind = .rightParen
      · rw [Cursor.closing?_rightParen hr, Cursor.closing?_rightParen (hright.1 hr)]
        cases depth with
        | zero => exact .some htu hrest
        | succ depth => exact ih depth
      · by_cases he : t.kind = .eof
        · rw [Cursor.closing?_eof he, Cursor.closing?_eof (heof.1 he)]
          exact .none
        · rw [Cursor.closing?_other hl hr he, Cursor.closing?_other (mt hleft.2 hl) (mt hright.2 hr) (mt heof.2 he)]
          exact ih depth

theorem atEnd_alike {t u : Token} {ts us : List Token} (htu : C.token t u) (h : List.Forall₂ C.token ts us) :
    C.token (Cursor.atEnd t ts).1 (Cursor.atEnd u us).1 ∧
      List.Forall₂ C.token (Cursor.atEnd t ts).2 (Cursor.atEnd u us).2 := by
  induction h generalizing t u with
  | nil => exact ⟨htu, .nil⟩
  | @cons t' u' ts us htu' hrest ih =>
    have heof : t.kind = .eof ↔ u.kind = .eof := kind_eq_iff htu fun _ => nofun
    rw [Cursor.atEnd, Cursor.atEnd]
    simp only [heof]
    split
    · exact ⟨htu, .cons htu' hrest⟩
    · exact ih htu'

theorem Cursors.leaveRegion (h : C.Cursors c c') : Option.Rel C.token c.leaveRegion.1 c'.leaveRegion.1 ∧
    C.Cursors c.leaveRegion.2 c'.leaveRegion.2 := by
  have hclosings := closings_closing? h 0
  have hend := atEnd_alike h.current h.rest
  unfold Cursor.leaveRegion
  generalize Cursor.closing? 0 c.tokens = x, Cursor.closing? 0 c'.tokens = x' at hclosings
  cases hclosings with
  | none => exact ⟨.none, .cons hend.1 hend.2⟩
  | some htoken hrest => exact ⟨.some htoken, .moveTo htoken hrest c c'⟩

/-! ## Looking -/

theorem Cursors.keyword?_eq (h : C.Cursors c c') : c.keyword? = c'.keyword? :=
  Likeness.keyword?_eq h.current

theorem Cursors.atKeyword_eq (h : C.Cursors c c') (k : Keyword) : c.atKeyword k = c'.atKeyword k := by
  rw [Cursor.atKeyword, Cursor.atKeyword, h.keyword?_eq]

theorem Cursors.atAny_eq (h : C.Cursors c c') (ks : List Keyword) : c.atAny ks = c'.atAny ks := by
  rw [Cursor.atAny, Cursor.atAny, h.keyword?_eq]

theorem Cursors.nextIsKeyword_eq (h : C.Cursors c c') (k : Keyword) : c.nextIsKeyword k = c'.nextIsKeyword k := by
  rw [Cursor.nextIsKeyword, Cursor.nextIsKeyword, Likeness.keyword?_eq h.next]

theorem Cursors.atSubquery_eq (h : C.Cursors c c') : c.atSubquery = c'.atSubquery := by
  have hkind : decide (c.kind = .leftParen) = decide (c'.kind = .leftParen) :=
    kind_congr h.current (fun k => decide (k = .leftParen)) fun _ _ => rfl
  rw [Cursor.atSubquery, Cursor.atSubquery, hkind, h.nextIsKeyword_eq]

theorem Cursors.atIdentifier_eq (h : C.Cursors c c') : c.atIdentifier = c'.atIdentifier := by
  unfold Cursor.atIdentifier
  rcases eq_or_names h.current with hkind | ⟨name, name', ht, hu, -⟩
  · have hcursor : c.kind = c'.kind := hkind
    rw [hcursor]
  · have hc : c.kind = .identifier name := ht
    have hc' : c'.kind = .identifier name' := hu
    rw [hc, hc']

theorem Cursors.name?_same (h : C.Cursors c c') : Same (Option.map C.view.name) c.name? c'.name? := by
  rcases eq_or_names h.current with hkind | ⟨name, name', ht, hu, hname⟩
  · have htext := C.text h.current
    have hcursor : c.kind = c'.kind := hkind
    rw [Same, Cursor.name?, Cursor.name?, hcursor]
    cases c'.kind with
    | keyword k =>
      show Option.map C.view.name (if k.reserved then none else some c.current.text) =
        Option.map C.view.name (if k.reserved then none else some c'.current.text)
      split
      · rfl
      · exact congrArg some htext
    | _ => rfl
  · have hc : c.kind = .identifier name := ht
    have hc' : c'.kind = .identifier name' := hu
    rw [Same, Cursor.name?, Cursor.name?, hc, hc']
    exact congrArg some hname

end

end Likeness

end SelectRouting.Grammar
