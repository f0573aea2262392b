import SelectRouting.Grammar.Basic
import SelectRouting.Proofs.Leaf
import SelectRouting.Proofs.Token.Order
/-!
# Runs of a parser

What a parser does to its state is a run: a list of events, each of which passes some tokens and leaves its mark on
the statement.  A step says what one event does (`Step`), and a run is any number of steps (`Run`); what holds of runs
is proved of a step and then by induction.  Main statements: a run passes the tokens of its events one behind the
other (`Run.tokens_eq`), numbers the parameters of its leaves in their order (`Run.ordinals_eq`), records the edits of
its events in their order (`Run.edits_eq`), and without storing anything leaves all clauses as they are
(`Run.clauses_eq`).
-/
namespace SelectRouting

/-! ## Names -/

/-- The name that a token can be. -/
def Token.name? (t : Token) : Option String :=
  match t.kind with
  | .identifier name => some name
  | .keyword k => if k.reserved then none else some t.text
  | _ => none

/-- A name is an identifier, or what a keyword that is not reserved is written with. -/
theorem Token.name?_eq_some {t : Token} {name : String} : t.name? = some name ↔
    t.kind = .identifier name ∨ ∃ k, t.kind = .keyword k ∧ k.reserved = false ∧ t.text = name := by
  unfold name?
  cases t.kind with
  | identifier name' => simp
  | keyword k => cases hk : k.reserved <;> simp [hk]
  | _ => simp

/-- The edit of a token that names a logic table. -/
def Token.tableEdit? (rule : Rule) (t : Token) : Option Edit :=
  if t.name?.any rule.containsTable then some (.table t.span.start t.text) else none

namespace Leaf

/-- The tokens that a name or a star is written with; those of a qualified one have a point between them. -/
def SpelledBy : Leaf → List Token → Prop
  | .column none name span, [t] | .table none name span, [t] => t.name? = some name ∧ span = t.span
  | .column (some owner) name span, [o, dot, t] =>
    o.name? = some owner ∧ dot.kind = .dot ∧ t.name? = some name ∧ span = ⟨o.span.start, t.span.stop⟩
  | .table (some schema) name span, [o, dot, t] =>
    o.name? = some schema ∧ dot.kind = .dot ∧ t.name? = some name ∧ span = t.span
  | .star none, [t] => t.kind = .star
  | .star (some owner), [o, dot, t] => o.name? = some owner ∧ dot.kind = .dot ∧ t.kind = .star
  | _, _ => False

/-- The token that may name a table: the owner of a column or a star, and the name of a table itself. -/
def tableToken? : Leaf → List Token → Option Token
  | .column (some _) _ _, t :: _ | .star (some _), t :: _ | .table none _ _, t :: _ | .table (some _) _ _, [_, _, t] =>
    some t
  | _, _ => none

theorem SpelledBy.ordinal?_eq_none {l : Leaf} {ts : List Token} (h : l.SpelledBy ts) : l.ordinal? = none := by
  cases l with
  | placeholder | bound => exact h.elim
  | column | star | table => rfl

end Leaf

/-! ## Events -/

inductive Event where
  /-- A token without a mark of its own. -/
  | pass (t : Token)
  /-- A `?` that claims the next ordinal. -/
  | parameter (l : Leaf) (t : Token)
  /-- A name or a star, with the edit of its table. -/
  | name (l : Leaf) (ts : List Token)
  /-- An owner and its point that no name follows. -/
  | owner (o dot : Token)
  /-- A number for a row count or an offset, and what stands between it and the record of its edit. -/
  | limit (e : Edit) (t : Token) (us : List Token)
  /-- A clause that is passed as it is. -/
  | skip (ts : List Token)
  /-- A clause is put into the statement. -/
  | store

namespace Event

def tokens : Event → List Token
  | .pass t | .parameter _ t => [t]
  | .name _ ts | .skip ts => ts
  | .owner o dot => [o, dot]
  | .limit _ t us => t :: us
  | .store => []

def leaf? : Event → Option Leaf
  | .parameter l _ | .name l _ => some l
  | _ => none

def edits (rule : Rule) : Event → List Edit
  | .name l ts => ((l.tableToken? ts).bind (Token.tableEdit? rule)).toList
  | .owner o _ => (o.tableEdit? rule).toList
  | .limit e _ _ => [e]
  | _ => []

/-- The marks of an event are those of its tokens. -/
def Sound : Event → Prop
  | .parameter l t => t.kind = .question ∧ ∃ i, l = .placeholder i t.span ∨ l = .bound i
  | .name l ts => l.SpelledBy ts
  | .owner o dot => o.name?.isSome ∧ dot.kind = .dot
  | .limit e t _ => ∃ v : Nat, t.kind = .integer v ∧ (e = .rowCount t.span.start v ∨ e = .offset t.span.start v)
  | _ => True

/-- The ordinal that an event claims. -/
def ordinals (ev : Event) : List Nat :=
  (ev.leaf?.bind Leaf.ordinal?).toList

def passed (es : List Event) : List Token :=
  es.flatMap tokens

def leaves (es : List Event) : List Leaf :=
  es.filterMap leaf?

@[simp] theorem passed_cons (ev : Event) (es : List Event) : passed (ev :: es) = ev.tokens ++ passed es := rfl

@[simp] theorem passed_append (es es' : List Event) : passed (es ++ es') = passed es ++ passed es' :=
  List.flatMap_append

@[simp] theorem leaves_nil : leaves [] = [] := rfl

@[simp] theorem leaves_cons (ev : Event) (es : List Event) : leaves (ev :: es) = ev.leaf?.toList ++ leaves es := by
  rw [leaves, List.filterMap_cons]
  cases ev.leaf? <;> rfl

@[simp] theorem leaves_append (es es' : List Event) : leaves (es ++ es') = leaves es ++ leaves es' :=
  List.filterMap_append

theorem filterMap_ordinal?_leaves (es : List Event) : (leaves es).filterMap Leaf.ordinal? = es.flatMap ordinals := by
  induction es with
  | nil => rfl
  | cons ev es ih =>
    rw [leaves_cons, List.filterMap_append, ih, List.flatMap_cons, ordinals]
    cases ev.leaf? with
    | none => rfl
    | some l => cases h : l.ordinal? <;> simp [h]

end Event

/-! ## Steps and runs -/

namespace Grammar

structure Step (rule : Rule) (s : State) (ev : Event) (s' : State) : Prop where
  tokens : s.cursor.tokens = ev.tokens ++ s'.cursor.tokens
  sound : ev.Sound
  ordinals : ev.ordinals = List.range' s.statement.parameters ev.ordinals.length
  parameters : s'.statement.parameters = s.statement.parameters + ev.ordinals.length
  edits : s'.statement.edits = (ev.edits rule).foldl (fun es e => e.insert es) s.statement.edits
  clauses : ev = .store ∨ s'.statement.clauses = s.statement.clauses

inductive Run (rule : Rule) : State → List Event → State → Prop where
  | refl {s s' : State} (tokens : s'.cursor.tokens = s.cursor.tokens) (statement : s'.statement = s.statement) :
    Run rule s [] s'
  | step {s s' s'' : State} {ev : Event} {es : List Event} (head : Step rule s ev s') (tail : Run rule s' es s'') :
    Run rule s (ev :: es) s''

namespace Run

variable {rule : Rule} {s s' s'' : State} {es es' : List Event}

theorem single {ev : Event} (h : Step rule s ev s') : Run rule s [ev] s' :=
  .step h (.refl rfl rfl)

theorem append (h : Run rule s es s') (h' : Run rule s' es' s'') : Run rule s (es ++ es') s'' := by
  induction h with
  | refl ht hs =>
    -- States with the same tokens and the same statement begin the same runs.
    cases h' with
    | refl ht' hs' => exact .refl (ht'.trans ht) (hs'.trans hs)
    | step head tail => exact .step { head with
        tokens := ht ▸ head.tokens
        ordinals := hs ▸ head.ordinals
        parameters := hs ▸ head.parameters
        edits := hs ▸ head.edits
        clauses := hs ▸ head.clauses } tail
  | step head _ ih => exact .step head (ih h')

theorem tokens_eq (h : Run rule s es s') : s.cursor.tokens = Event.passed es ++ s'.cursor.tokens := by
  induction h with
  | refl ht => rw [ht]; rfl
  | step head _ ih => rw [Event.passed_cons, List.append_assoc, ← ih, head.tokens]

theorem sound (h : Run rule s es s') : ∀ ev ∈ es, ev.Sound := by
  induction h with
  | refl => exact fun _ h => absurd h List.not_mem_nil
  | step head _ ih => exact List.forall_mem_cons.2 ⟨head.sound, ih⟩

theorem parameters_eq (h : Run rule s es s') :
    s'.statement.parameters = s.statement.parameters + (es.flatMap Event.ordinals).length := by
  induction h with
  | refl _ hs => rw [hs]; rfl
  | step head _ ih => rw [ih, head.parameters, List.flatMap_cons, List.length_append, Nat.add_assoc]

/-- The parameters of a run are numbered in their order, from the number of those claimed before. -/
theorem ordinals_eq (h : Run rule s es s') :
    es.flatMap Event.ordinals = List.range' s.statement.parameters (es.flatMap Event.ordinals).length := by
  induction h with
  | refl => rfl
  | step head _ ih =>
    rw [head.parameters] at ih
    rw [List.flatMap_cons, List.length_append, ← List.range'_append_1, ← ih, ← head.ordinals]

theorem edits_eq (h : Run rule s es s') :
    s'.statement.edits = (es.flatMap (Event.edits rule)).foldl (fun es e => e.insert es) s.statement.edits := by
  induction h with
  | refl _ hs => rw [hs]; rfl
  | step head _ ih => rw [ih, List.flatMap_cons, List.foldl_append, head.edits]

theorem clauses_eq (h : Run rule s es s') (hes : Event.store ∉ es) : s'.statement.clauses = s.statement.clauses := by
  induction h with
  | refl _ hs => rw [hs]
  | step head _ ih =>
    rw [List.mem_cons, not_or] at hes
    rw [ih hes.2, head.clauses.resolve_left (Ne.symm hes.1)]

/-! ### Passing tokens -/

/-- Whatever moves the cursor alone passes the tokens one by one. -/
theorem pass {ts : List Token} (ht : s.cursor.tokens = ts ++ s'.cursor.tokens) (hs : s'.statement = s.statement) :
    Run rule s (ts.map .pass) s' := by
  induction ts generalizing s with
  | nil => exact .refl ht.symm hs
  | cons t ts ih =>
    obtain ⟨u, us, hu⟩ : ∃ u us, ts ++ s'.cursor.tokens = u :: us := by
      cases ts with
      | nil => exact ⟨_, _, rfl⟩
      | cons u us => exact ⟨_, _, rfl⟩
    have hstep : Step rule s (.pass t) { s with cursor := ⟨s.cursor.source, u, us⟩ } :=
      { tokens := by rw [ht, List.cons_append, hu]; rfl
        sound := trivial
        ordinals := rfl
        parameters := rfl
        edits := rfl
        clauses := .inr rfl }
    exact .step hstep (ih hu.symm hs)

/-- A run that only passes tokens leaves the statement as it is. -/
theorem statement_eq (h : Run rule s es s') (hes : ∀ ev ∈ es, ∃ t, ev = .pass t) : s'.statement = s.statement := by
  have hordinals : es.flatMap Event.ordinals = [] := List.flatMap_eq_nil_iff.2 fun ev hev => by
    obtain ⟨t, rfl⟩ := hes ev hev
    rfl
  have hedits : es.flatMap (Event.edits rule) = [] := List.flatMap_eq_nil_iff.2 fun ev hev => by
    obtain ⟨t, rfl⟩ := hes ev hev
    rfl
  refine Statement.eq_of_clauses ?_ ?_ ?_
  · exact h.clauses_eq fun hev => nomatch hes _ hev
  · rw [h.parameters_eq, hordinals]
    rfl
  · rw [h.edits_eq, hedits]
    rfl

end Run

end Grammar

end SelectRouting
