import SelectRouting.Proofs.Pagination
import SelectRouting.Proofs.Trace.Claim
import SelectRouting.Proofs.Trace.Session
import SelectRouting.Proofs.Wildcard.Reading
/-!
# The counter and the cursor

The generic dialect skips no clause, so its parsers pass no `?` without counting it, and count none that they do not pass.
This holds wherever a parser ends, with a value or with an error; so at any time the counter of a statement is the number of
parameters in front of the cursor (`counter_in_step`).
-/
namespace SelectRouting

namespace Grammar

/-! ## Steps -/

/-- The counter is the number of parameters in front of the cursor. -/
def State.InStep (source : String) (s : State) : Prop :=
  ∃ before, Token.lex source = before ++ s.cursor.tokens ∧ s.statement.parameters = (Token.parameters before).length

section
variable {rule : Rule} {source : String} {s s' : State} {α β : Type}

theorem State.InStep.complete (h : s.InStep source) : Token.Complete s.cursor.tokens := by
  obtain ⟨before, hlex, -⟩ := h
  exact .of_append (List.cons_ne_nil _ _) (hlex ▸ Token.complete_lex source)

theorem State.InStep.of_run (h : s.InStep source) {es : List Event} (hrun : Run rule s es s')
    (hallowed : ∀ ev ∈ es, ev.Allowed .generic .storing) : s'.InStep source := by
  obtain ⟨before, hlex, hparameters⟩ := h
  refine ⟨before ++ Event.passed es, ?_, ?_⟩
  · rw [hlex, hrun.tokens_eq, List.append_assoc]
  · have hpassed := Event.parameters_passed hrun.sound hallowed
    have hcount : (Token.parameters (before ++ Event.passed es)).length =
        (Token.parameters before).length + (Event.claims es).length := by
      rw [Token.parameters_append, List.length_append, hpassed, List.length_map]
    rw [hcount, hrun.parameters_eq, ← Event.length_claims hrun.sound, hparameters]

/-- A parser of the generic dialect that may store what it reads. -/
abbrev Counts (rule : Rule) (p : Parser α) : Prop :=
  ∀ s, Traced .generic rule .storing s p fun _ _ _ => True

theorem State.InStep.after (h : s.InStep source) {p : Parser α} (hp : Counts rule p) : (s.after p).InStep source := by
  have hout := hp s h.complete
  unfold State.after
  cases hr : p s with
  | ok a s' =>
    rw [hr] at hout
    obtain ⟨es, hrun, hallowed, -⟩ := hout
    exact h.of_run hrun hallowed
  | error e s' =>
    rw [hr] at hout
    obtain ⟨es, hrun, hallowed⟩ := hout
    exact h.of_run hrun hallowed

theorem Counts.of_traced {p : Parser α} {Q : State → α → List Event → State → Prop}
    (hp : ∀ s, Traced .generic rule .storing s p (Q s)) : Counts rule p :=
  fun s => (hp s).mono fun _ _ _ _ => trivial

theorem Drops.counts {p : Parser α} (hp : Drops .generic rule p) : Counts rule p :=
  .of_traced fun s => (hp s).storing

theorem Reads.counts {p : Parser α} {before : List Leaf} {f : α → List Leaf}
    (hp : Reads .generic rule .reading before p f) : Counts rule p :=
  hp.drops.counts

theorem Fills.counts {p : Parser Unit} {U : Statement → Statement → List Leaf → Prop} (hp : Fills .generic rule p U) :
    Counts rule p :=
  .of_traced hp

theorem Counts.bind {p : Parser α} {f : α → Parser β} (hp : Counts rule p) (hf : ∀ a, Counts rule (f a)) :
    Counts rule (p >>= f) :=
  fun s => (hp s).bind fun a _ s' _ => hf a s'

theorem counts_clauses : Counts rule (clauses .generic rule) := by
  have hdistinct : Counts rule (distinct .generic) := .of_traced fun s => traced_distinct s.cursor.current
  refine hdistinct.bind fun _ => fills_selectList.counts.bind fun _ => fills_fromClause.counts.bind fun _ => ?_
  refine fills_whereClause.counts.bind fun _ => fills_groupBy.counts.bind fun _ => ?_
  exact fills_havingClause.counts.bind fun _ => fills_orderBy.counts

theorem counts_endOfStatement : Counts rule endOfStatement :=
  .of_traced fun _ => traced_endOfStatement

theorem counts_select : Counts rule (select .generic rule) :=
  silent_expectKeyword.counts.bind fun _ => counts_clauses.bind fun _ => counts_endOfStatement

/-! ## Methods -/

/-- Runs a parser over the inner expressions that the tokens left have room for. -/
def nested (rule : Rule) (f : Inner → Parser α) : Parser α := do
  f (expressionAt rule ((← tokensLeft) + 1))

theorem counts_nested {f : Inner → Parser α} {before : List Leaf} {g : α → List Leaf}
    (hf : ∀ inner, ReadsInner .generic rule inner → Reads .generic rule .reading before (f inner) g) :
    Counts rule (nested rule f) := by
  have hnested : Reads .generic rule .reading before (nested rule f) g :=
    .look_bind fun n => hf _ (reads_expressionAt (n + 1))
  exact hnested.counts

end

/-- A step of the cursor that passes tokens of any kind, and so a parameter too. -/
def Call.passesAny : Call → Bool
  | advance | skip _ | expect _ | skipRegion => true
  | _ => false

/-- A step of the parser: one that can be called from outside, or one that those are made of. -/
inductive Method where
  /-- A call from outside, unless it passes tokens of any kind. -/
  | outer (c : Call) (counts : c.passesAny = false)
  | selectItem
  | recordTable (name : String) (token : Token)
  | joinKind
  | endOfStatement
  | expressionOver (strength : Nat)
  | operand
  | primary
  | call (name : String)
  | caseExpression
  | expressionList
  | membership (tested : Expr) (negated : Bool)
  | range (tested : Expr) (negated : Bool)

namespace Method

/-- What a method does to the state; its value is not needed here. -/
def after (rule : Rule) (s : State) : Method → State
  | outer c _ => c.after .generic rule s
  | selectItem => s.after (Grammar.selectItem .generic rule)
  | recordTable name token => s.after (Grammar.recordTable rule name token)
  | joinKind => s.after Grammar.joinKind
  | endOfStatement => s.after Grammar.endOfStatement
  | expressionOver strength => s.after (nested rule fun inner => inner strength)
  | operand => s.after (nested rule (Grammar.operand rule))
  | primary => s.after (nested rule (Grammar.primary rule))
  | call name => s.after (nested rule fun inner => Grammar.call inner name)
  | caseExpression => s.after (nested rule Grammar.caseExpression)
  | expressionList => s.after (nested rule Grammar.expressionList)
  | membership tested negated => s.after (nested rule fun inner => Grammar.membership inner tested negated)
  | range tested negated => s.after (nested rule fun inner => Grammar.range inner tested negated)

variable {rule : Rule} {source : String} {s : State}

theorem inStep_outer (h : s.InStep source) (c : Call) (hc : c.passesAny = false) :
    (c.after .generic rule s).InStep source := by
  -- Not every parser asks the rule, so it is fixed here.
  have hafter {α : Type} {p : Parser α} (hp : Counts rule p) : (s.after p).InStep source := h.after hp
  cases c with
  | advance | skip k | expect k | skipRegion => cases hc
  | look f => exact hafter silent_look.counts
  | skipKeyword k => exact hafter silent_skipKeyword.counts
  | skipAny ks => exact hafter silent_skipAny.counts
  | unexpected expected => exact h
  | expectKeyword k => exact hafter silent_expectKeyword.counts
  | expectName => exact hafter silent_expectName.counts
  | distinct => exact hafter (.of_traced fun s => traced_distinct s.cursor.current)
  | selectList => exact hafter fills_selectList.counts
  | fromClause => exact hafter fills_fromClause.counts
  | whereClause => exact hafter fills_whereClause.counts
  | groupBy => exact hafter fills_groupBy.counts
  | havingClause => exact hafter fills_havingClause.counts
  | orderBy => exact hafter fills_orderBy.counts
  | clauses => exact hafter counts_clauses
  | select => exact hafter counts_select
  | tableReference => exact hafter reads_tableReference.counts
  | tableFactor => exact hafter reads_tableFactor.counts
  | commonTableFactor => exact hafter reads_commonTableFactor.counts
  | joins left => exact hafter (reads_joins left).counts
  | commonJoins left => exact hafter (reads_commonJoins left).counts
  | aliasClause => exact hafter silent_aliasClause.counts
  | orderItems => exact hafter reads_orderItems.counts
  | nullsFirstLast => exact hafter silent_nullsFirstLast.counts
  | nullOrder => exact hafter silent_nullOrder.counts
  | limitValue => exact hafter (.of_traced fun _ => traced_limitValue)
  | expression => exact hafter reads_expression.counts
  | hierarchicalCondition => exact hafter (Drops.allowingPrior reads_expression.drops).counts
  | atRowNumberItem => exact hafter silent_atRowNumberItem.counts
  | rowNumberItem => exact hafter reads_rowNumberItem.counts
  | rearrange put stores => exact hafter (.of_traced fun _ => Traced.modifyStatement stores)

/-- The edit of a table changes neither the counter nor the cursor. -/
theorem inStep_recordTable (h : s.InStep source) (name : String) (token : Token) :
    (s.after (Grammar.recordTable rule name token)).InStep source := by
  unfold State.after Grammar.recordTable
  by_cases hruled : rule.containsTable name
  · rw [if_pos hruled]
    exact h
  · rw [if_neg hruled]
    exact h

/-- Wherever a method ends, the counter is in step with the cursor. -/
theorem inStep_after (h : s.InStep source) (m : Method) : (m.after rule s).InStep source := by
  have hafter {α : Type} {p : Parser α} (hp : Counts rule p) : (s.after p).InStep source := h.after hp
  cases m with
  | outer c hc => exact inStep_outer h c hc
  | selectItem => exact hafter reads_selectItem.counts
  | recordTable name token => exact inStep_recordTable h name token
  | joinKind => exact hafter silent_joinKind.counts
  | endOfStatement => exact hafter counts_endOfStatement
  | expressionOver strength => exact hafter (counts_nested fun _ hinner => hinner strength)
  | operand => exact hafter (counts_nested fun _ hinner => reads_operand hinner)
  | primary => exact hafter (counts_nested fun _ hinner => reads_primary hinner)
  | call name => exact hafter (counts_nested fun _ hinner => reads_call hinner name)
  | caseExpression => exact hafter (counts_nested fun _ hinner => reads_case hinner)
  | expressionList => exact hafter (counts_nested fun _ hinner => (hinner 0).commaSeparated)
  | membership tested negated => exact hafter (counts_nested fun _ hinner => reads_membership hinner tested negated)
  | range tested negated => exact hafter (counts_nested fun _ hinner => reads_range hinner tested negated)

end Method

theorem State.inStep_ofSource (source : String) : (State.ofSource source).InStep source :=
  ⟨[], by rw [State.tokens_ofSource, List.nil_append], rfl⟩

/-- The state behind some methods on the first token of a text, with nothing in the statement yet. -/
def Method.run (rule : Rule) (source : String) (methods : List Method) : State :=
  methods.foldl (fun s m => m.after rule s) (.ofSource source)

namespace Method

theorem inStep_foldl {rule : Rule} {source : String} (methods : List Method) {s : State} (h : s.InStep source) :
    (methods.foldl (fun s m => m.after rule s) s).InStep source := by
  induction methods generalizing s with
  | nil => exact h
  | cons m methods ih => exact ih (inStep_after h m)

theorem inStep_run (rule : Rule) (source : String) (methods : List Method) : (run rule source methods).InStep source :=
  inStep_foldl methods (State.inStep_ofSource source)

end Method

end Grammar

/-! ## Accepted texts -/

namespace Statement

variable {rule : Rule} {source : String} {s : Statement}

/-- **The counter is in step with the cursor.**  Behind any methods of the generic dialect on a text, whether they failed or
not, the counter is the number of parameters in front of the cursor.  So for an accepted text it is the number of all
parameters, and each of these is the placeholder with its index, and all placeholders there are. -/
theorem counter_in_step (rule : Rule) (source : String) :
    (∀ methods : List Grammar.Method, ∃ before,
      Token.lex source = before ++ (Grammar.Method.run rule source methods).cursor.tokens ∧
        (Grammar.Method.run rule source methods).statement.parameters = (Token.parameters before).length) ∧
    ∀ s, parse .generic rule source = .ok s →
      s.parameters = (Token.parameters (Token.lex source)).length ∧ s.limit = none ∧
        s.clauseLeaves.filter (·.ordinal?.isSome) =
          (Token.parameters (Token.lex source)).mapIdx fun i t => .placeholder i t.span := by
  refine ⟨Grammar.Method.inStep_run rule source, fun s h => ?_⟩
  have hlimit : s.limit = none := by
    obtain ⟨v, -, hpagination, hnone⟩ := exists_values_of_parse h
    rw [hnone nofun] at hpagination
    exact congrArg Pagination.limit hpagination
  obtain ⟨es, h⟩ := readFrom_of_parse h
  have hleaves : Event.leaves es = s.clauseLeaves := by
    rw [h.read.leaves nofun, Grammar.leaves_of_limit_none hlimit]
  have hparameters : Token.parameters (Token.lex source) = (Event.claims es).map Prod.snd := by
    obtain ⟨eof, heof, htokens⟩ := h.tokens
    have hend : Token.parameters [eof] = [] :=
      Token.parameters_eq_nil (List.forall_mem_singleton.2 (by rw [heof]; exact nofun))
    rw [htokens, Token.parameters_append, hend, List.append_nil, Event.parameters_passed h.sound h.allowed]
  have htree : ∀ l ∈ Event.leaves es, l.InTree := fun l hl => inTree_of_mem_clauseLeaves (hleaves ▸ hl)
  have hrange : es.flatMap Event.ordinals = List.range' 0 (es.flatMap Event.ordinals).length := by
    rw [h.ordinals, List.length_range, List.range_eq_range']
  refine ⟨?_, hlimit, ?_⟩
  · rw [hparameters, List.length_map, Event.length_claims h.sound, h.ordinals, List.length_range]
  · rw [← hleaves, Event.filter_leaves h.sound, Event.map_fst_claims h.sound hrange htree, hparameters]
    simp only [Token.numbered, Nat.zero_add]

/-- A text with three parameters. -/
def listedText : String :=
  "SELECT a FROM t WHERE a IN (?, ?) AND b = ?"

/-- Methods on it that stop with an error at the first comma: it is not the end of a group. -/
def stoppedMethods : List Grammar.Method :=
  [.outer (.skipKeyword .select) rfl, .outer .selectList rfl, .outer .fromClause rfl,
    .outer (.skipKeyword .where) rfl, .primary, .outer (.skipKeyword .in) rfl, .primary]

theorem counter_in_step_listedText :
    (∃ before, Token.lex listedText = before ++ (Grammar.Method.run .empty listedText stoppedMethods).cursor.tokens ∧
      (Grammar.Method.run .empty listedText stoppedMethods).cursor.kind = .comma ∧
        (Token.parameters before).length = 1) ∧
    ∃ s, parse .generic .empty listedText = .ok s ∧ s.parameters = 3 ∧
      s.clauseLeaves.filter (·.ordinal?.isSome) =
        [.placeholder 0 ⟨28, 29⟩, .placeholder 1 ⟨31, 32⟩, .placeholder 2 ⟨42, 43⟩] := by
  obtain ⟨hrun, hparse⟩ := counter_in_step .empty listedText
  constructor
  · obtain ⟨before, hlex, hparameters⟩ := hrun stoppedMethods
    refine ⟨before, hlex, by decide +kernel, ?_⟩
    rw [← hparameters]
    decide +kernel
  · refine exists_of_parse (·.parameters) 3 rfl (by decide +kernel) fun s hs hparameters => ⟨hparameters, ?_⟩
    obtain ⟨-, -, hfilter⟩ := hparse s hs
    rw [hfilter, Token.lex_of_chars listedText rfl]
    decide +kernel

end Statement

end SelectRouting
