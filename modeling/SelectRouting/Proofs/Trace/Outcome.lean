import SelectRouting.Dialect
import SelectRouting.Proofs.Trace.Run
/-!
# The outcome of a parser

A parser that ends, with a value or with an error, has done a run whose events its dialect allows; and one that ends
with a value has finished what it began (`Traced`).  The rules here follow the four steps that parsers are made of and
the ways to put them together.  Most parsers are described by the leaves alone that they read for their value
(`Reads`), and those that read none are silent (`Silent`).
-/
namespace SelectRouting

/-! ## Clauses that are passed as they are -/

/-- The keywords that open a clause which a dialect does not look into. -/
def Dialect.skippedClauses : Dialect → List Keyword
  | generic => []
  | oracle => [.sample, .partition, .subpartition, .pivot, .unpivot, .model]
  | sqlServer => [.with, .rowNumber, .raw, .path, .root, .xmlschema]

namespace Token

/-- The depth of parentheses behind some tokens; there is none if one closes that is not open, or if a parameter stands
outside of all. -/
def depthAfter : Nat → List Token → Option Nat
  | depth, [] => some depth
  | depth, t :: ts =>
    match t.kind, depth with
    | .leftParen, _ => depthAfter (depth + 1) ts
    | .rightParen, 0 | .question, 0 => none
    | .rightParen, depth + 1 => depthAfter depth ts
    | _, _ => depthAfter depth ts

/-- Every parenthesis is closed, and every parameter stands between two of them. -/
def Enclosed (ts : List Token) : Prop :=
  depthAfter 0 ts = some 0

theorem depthAfter_leftParen {t : Token} (h : t.kind = .leftParen) (depth : Nat) (ts : List Token) :
    depthAfter depth (t :: ts) = depthAfter (depth + 1) ts := by
  simp [depthAfter, h]

theorem depthAfter_rightParen {t : Token} (h : t.kind = .rightParen) (depth : Nat) (ts : List Token) :
    depthAfter (depth + 1) (t :: ts) = depthAfter depth ts := by
  simp [depthAfter, h]

theorem depthAfter_inner {t : Token} (hl : t.kind ≠ .leftParen) (hr : t.kind ≠ .rightParen) (depth : Nat)
    (ts : List Token) : depthAfter (depth + 1) (t :: ts) = depthAfter (depth + 1) ts := by
  conv => lhs; unfold depthAfter
  split <;> simp_all

theorem depthAfter_append (a b : List Token) : ∀ depth, depthAfter depth (a ++ b) =
    (depthAfter depth a).bind fun d => depthAfter d b := by
  induction a with
  | nil => exact fun _ => rfl
  | cons t a ih =>
    intro depth
    simp only [List.cons_append, depthAfter]
    split <;> simp only [ih, Option.bind_none]

theorem Enclosed.append {a b : List Token} (ha : Enclosed a) (hb : Enclosed b) : Enclosed (a ++ b) := by
  rw [Enclosed, depthAfter_append, ha]
  exact hb

theorem enclosed_nil : Enclosed [] := rfl

/-- A token that is neither a parenthesis nor a parameter changes nothing. -/
theorem Enclosed.cons {t : Token} {ts : List Token} (hl : t.kind ≠ .leftParen) (hr : t.kind ≠ .rightParen)
    (hq : t.kind ≠ .question) (h : Enclosed ts) : Enclosed (t :: ts) := by
  unfold Enclosed depthAfter
  split <;> first | contradiction | exact h

theorem Enclosed.keyword {t : Token} {ts : List Token} {k : Keyword} (hk : t.kind = .keyword k) (h : Enclosed ts) :
    Enclosed (t :: ts) :=
  .cons (hk ▸ nofun) (hk ▸ nofun) (hk ▸ nofun) h

end Token

/-! ## Events of a parser -/

/-- What a parser may do. -/
inductive Mode where
  /-- Pass tokens, parameters among them. -/
  | skimming
  /-- Pass tokens other than parameters. -/
  | passing
  /-- Read a part of the statement. -/
  | reading
  /-- Read clauses and put them into the statement. -/
  | storing
  deriving DecidableEq

namespace Event

/-- An event that a parser of a dialect may cause.  Where clauses are read, it never passes a parameter without
counting it, unless in a clause that the dialect does not look into. -/
def Allowed (d : Dialect) : Mode → Event → Prop
  | .skimming, .pass _ => True
  | .skimming, _ => False
  | _, .pass t => t.kind ≠ .question
  | .passing, _ => False
  | _, .limit _ _ us => ∀ u ∈ us, u.kind ≠ .question
  | _, .skip ts => ∃ t us k, ts = t :: us ∧ t.kind = .keyword k ∧ k ∈ d.skippedClauses
  | m, .store => m = .storing
  | _, _ => True

/-- An event that is not broken off. -/
def Whole : Event → Prop
  | .owner .. => False
  | .skip ts => Token.Enclosed ts
  | _ => True

variable {d : Dialect} {m : Mode}

theorem allowed_pass {t : Token} (h : t.kind ≠ .question) : (Event.pass t).Allowed d m := by
  cases m with
  | skimming => trivial
  | passing | reading | storing => exact h

theorem Allowed.storing {ev : Event} (h : ev.Allowed d .reading) : ev.Allowed d .storing := by
  cases ev with
  | store => rfl
  | _ => exact h

theorem Allowed.exists_pass {ev : Event} (h : ev.Allowed d .passing) : ∃ t, ev = .pass t ∧ t.kind ≠ .question := by
  cases ev with
  | pass t => exact ⟨t, rfl, h⟩
  | _ => exact h.elim

/-- Where only tokens are passed, an event is its token. -/
theorem Allowed.eq_pass {ev : Event} (h : ev.Allowed d .skimming) : ∃ t, ev = .pass t := by
  cases ev with
  | pass t => exact ⟨t, rfl⟩
  | _ => exact h.elim

end Event

namespace Grammar

/-- The state behind the current token. -/
def State.advanced (s : State) : State :=
  { s with cursor := s.cursor.advance }

section
variable {d : Dialect} {rule : Rule} {m : Mode} {s s' : State} {α β : Type}

/-! ## Outcomes -/

/-- What a result says about the run from a state: with a value its events are whole and `Q` holds. -/
def Outcome (d : Dialect) (rule : Rule) (m : Mode) (s : State) (r : EStateM.Result ParseError State α)
    (Q : α → List Event → State → Prop) : Prop :=
  match r with
  | .ok a s' => ∃ es, Run rule s es s' ∧ (∀ ev ∈ es, ev.Allowed d m) ∧ (∀ ev ∈ es, ev.Whole) ∧ Q a es s'
  | .error _ s' => ∃ es, Run rule s es s' ∧ ∀ ev ∈ es, ev.Allowed d m

/-- What a parser does at a state. -/
def Traced (d : Dialect) (rule : Rule) (m : Mode) (s : State) (p : Parser α)
    (Q : α → List Event → State → Prop) : Prop :=
  Token.Complete s.cursor.tokens → Outcome d rule m s (p s) Q

theorem Run.complete {es : List Event} (h : Run rule s es s') (hs : Token.Complete s.cursor.tokens) :
    Token.Complete s'.cursor.tokens :=
  .of_append (List.cons_ne_nil _ _) (h.tokens_eq ▸ hs)

theorem Outcome.mono {r : EStateM.Result ParseError State α} {Q Q' : α → List Event → State → Prop}
    (h : Outcome d rule m s r Q) (hQ : ∀ a es s', Q a es s' → Q' a es s') : Outcome d rule m s r Q' := by
  cases r with
  | ok a s' =>
    obtain ⟨es, hrun, hall, hwhole, hq⟩ := h
    exact ⟨es, hrun, hall, hwhole, hQ a es s' hq⟩
  | error e s' => exact h

theorem Traced.mono {p : Parser α} {Q Q' : α → List Event → State → Prop} (h : Traced d rule m s p Q)
    (hQ : ∀ a es s', Q a es s' → Q' a es s') : Traced d rule m s p Q' :=
  fun hs => (h hs).mono hQ

/-- An outcome in another mode, when its events are allowed there too. -/
theorem Outcome.mode {m' : Mode} {r : EStateM.Result ParseError State α} {Q : α → List Event → State → Prop}
    (h : Outcome d rule m s r Q) (hm : ∀ ev : Event, ev.Allowed d m → ev.Allowed d m') :
    Outcome d rule m' s r fun a es s' => Q a es s' ∧ Run rule s es s' ∧ ∀ ev ∈ es, ev.Allowed d m := by
  cases r with
  | ok a s' =>
    obtain ⟨es, hrun, hall, hwhole, hq⟩ := h
    exact ⟨es, hrun, fun ev hev => hm ev (hall ev hev), hwhole, hq, hrun, hall⟩
  | error e s' =>
    obtain ⟨es, hrun, hall⟩ := h
    exact ⟨es, hrun, fun ev hev => hm ev (hall ev hev)⟩

/-- A run in front of an outcome. -/
theorem Outcome.after {es : List Event} {r : EStateM.Result ParseError State α} {Q : α → List Event → State → Prop}
    (hrun : Run rule s es s') (hall : ∀ ev ∈ es, ev.Allowed d m) (hwhole : ∀ ev ∈ es, ev.Whole)
    (h : Outcome d rule m s' r fun a es' => Q a (es ++ es')) : Outcome d rule m s r Q := by
  cases r with
  | ok a s'' =>
    obtain ⟨es', hrun', hall', hwhole', hq⟩ := h
    exact ⟨es ++ es', hrun.append hrun', List.forall_mem_append.2 ⟨hall, hall'⟩,
      List.forall_mem_append.2 ⟨hwhole, hwhole'⟩, hq⟩
  | error e s'' =>
    obtain ⟨es', hrun', hall'⟩ := h
    exact ⟨es ++ es', hrun.append hrun', List.forall_mem_append.2 ⟨hall, hall'⟩⟩

/-- A single step with a value. -/
theorem Outcome.single {ev : Event} {a : α} {Q : α → List Event → State → Prop} (hstep : Step rule s ev s')
    (hall : ev.Allowed d m) (hwhole : ev.Whole) (h : Q a [ev] s') : Outcome d rule m s (.ok a s') Q :=
  ⟨[ev], .single hstep, List.forall_mem_singleton.2 hall, List.forall_mem_singleton.2 hwhole, h⟩

/-- A step in front of a parser. -/
theorem Traced.step {ev : Event} {p : Parser α} {Q : α → List Event → State → Prop} (hstep : Step rule s ev s')
    (hall : ev.Allowed d m) (hwhole : ev.Whole) (h : Traced d rule m s' p fun a es => Q a (ev :: es))
    (hs : Token.Complete s.cursor.tokens) : Outcome d rule m s (p s') Q :=
  have hrun := Run.single hstep
  .after hrun (List.forall_mem_singleton.2 hall) (List.forall_mem_singleton.2 hwhole) (h (hrun.complete hs))

/-! ## Rules -/

theorem bind_apply (p : Parser α) (f : α → Parser β) (s : State) : (p >>= f) s = match p s with
    | .ok a s => f a s
    | .error e s => .error e s := by
  simp only [Bind.bind, EStateM.bind]
  cases p s <;> rfl

theorem Traced.pure {a : α} {Q : α → List Event → State → Prop} (h : Q a [] s) :
    Traced d rule m s (Pure.pure a) Q :=
  fun _ => ⟨[], .refl rfl rfl, by simp, by simp, h⟩

theorem Traced.bind {p : Parser α} {f : α → Parser β} {Q : α → List Event → State → Prop}
    {T : β → List Event → State → Prop} (hp : Traced d rule m s p Q)
    (hf : ∀ a es s', Q a es s' → Traced d rule m s' (f a) fun b es' => T b (es ++ es')) :
    Traced d rule m s (p >>= f) T := by
  intro hs
  have hp := hp hs
  rw [bind_apply]
  cases hr : p s with
  | error e s' =>
    rw [hr] at hp
    exact hp
  | ok a s' =>
    rw [hr] at hp
    obtain ⟨es, hrun, hall, hwhole, hq⟩ := hp
    exact .after hrun hall hwhole (hf a es s' hq (hrun.complete hs))

theorem Traced.fail {cause : ParseError.Cause} {span : Span} {Q : α → List Event → State → Prop} :
    Traced d rule m s (Grammar.fail cause span) Q :=
  fun _ => ⟨[], .refl rfl rfl, by simp⟩

/-- A parser that has looked at the state goes on from the same state. -/
theorem Traced.inspect_bind {f : State → α} {g : α → Parser β} {Q : β → List Event → State → Prop}
    (h : Traced d rule m s (g (f s)) Q) : Traced d rule m s (inspect f >>= g) Q :=
  h

theorem Traced.look_bind {f : Cursor → α} {g : α → Parser β} {Q : β → List Event → State → Prop}
    (h : Traced d rule m s (g (f s.cursor)) Q) : Traced d rule m s (look f >>= g) Q :=
  h

theorem Traced.unexpected {expected : String} {Q : α → List Event → State → Prop} :
    Traced d rule m s (Grammar.unexpected expected) Q :=
  look_bind fail

theorem Traced.unsupported {construct : String} {Q : α → List Event → State → Prop} :
    Traced d rule m s (Grammar.unsupported construct) Q :=
  look_bind fail

/-- What is only read is also allowed where clauses are stored, and then no clause changes. -/
theorem Traced.storing {p : Parser α} {Q : α → List Event → State → Prop} (h : Traced d rule .reading s p Q) :
    Traced d rule .storing s p fun a es s' => Q a es s' ∧ s'.statement.clauses = s.statement.clauses := by
  intro hs
  refine ((h hs).mode fun _ => Event.Allowed.storing).mono fun a es s' h => ⟨h.1, ?_⟩
  obtain ⟨-, hrun, hall⟩ := h
  exact hrun.clauses_eq fun hmem => nomatch hall _ hmem

end

end Grammar

end SelectRouting
