import SelectRouting.Proofs.Precedence.Soundness
import SelectRouting.Proofs.Shape.Reading
/-!
# Operands in their text

The operands of a statement are the expressions at the top of its clauses.  A parser that is run on the end of a text puts
only such operands into the statement, and gives only such, as are written in that text (`Finds`): there is one rule for
each way to put parsers together, and one lemma for each parser that reads an operand.  Whatever reads none needs no lemma of
its own, for it leaves the clauses as they are (`Finds.of_drops`).
-/
namespace SelectRouting

/-! ## Operands -/

/-- The expression is written with some of the tokens of a text that follow each other. -/
def Expr.WrittenIn (source : String) (e : Expr) : Prop :=
  ∃ prior ts, ts <:+: Token.lex source ∧ e.Written prior ts

def SelectItem.operands : SelectItem → List Expr
  | .star _ => []
  | .expression e _ => [e]
  | .rowNumber order _ => order.map (·.expr)

/-- The conditions of its joins. -/
def TableRef.operands : TableRef → List Expr
  | .table .. => []
  | .join _ left right condition _ => left.operands ++ right.operands ++ condition.toList

/-- All expressions of its clauses that are no part of another one.  An item that is a star is none of them. -/
def Statement.operands (s : Statement) : List Expr :=
  s.items.flatMap SelectItem.operands ++ s.sources.flatMap TableRef.operands ++ s.predicate.toList ++ s.groups ++
    s.having.toList ++ s.order.map (·.expr)

theorem Statement.forall_mem_operands {s : Statement} {P : Expr → Prop} : (∀ e ∈ s.operands, P e) ↔
    (∀ i ∈ s.items, ∀ e ∈ i.operands, P e) ∧ (∀ r ∈ s.sources, ∀ e ∈ r.operands, P e) ∧ (∀ e ∈ s.predicate, P e) ∧
      (∀ e ∈ s.groups, P e) ∧ (∀ e ∈ s.having, P e) ∧ ∀ o ∈ s.order, P o.expr := by
  simp only [operands, List.forall_mem_append, List.forall_mem_flatMap, List.forall_mem_map, Option.mem_toList,
    Option.mem_def, and_assoc]

/-- The parameters of the clauses are those of their operands. -/
theorem Statement.filter_clauseLeaves (s : Statement) : s.clauseLeaves.filter (·.ordinal?.isSome) =
    s.operands.flatMap fun e => e.leaves.filter (·.ordinal?.isSome) := by
  have hitem : ∀ i : SelectItem, i.leaves.filter (·.ordinal?.isSome) =
      i.operands.flatMap fun e => e.leaves.filter (·.ordinal?.isSome) := by
    intro i
    cases i with
    | star owner => rfl
    | expression e a => simp [SelectItem.leaves, SelectItem.operands]
    | rowNumber order a =>
      simp [SelectItem.leaves, SelectItem.operands, OrderItem.leaves, List.filter_flatMap, List.flatMap_map]
  have htable : ∀ t : TableRef, t.leaves.filter (·.ordinal?.isSome) =
      t.operands.flatMap fun e => e.leaves.filter (·.ordinal?.isSome) := by
    intro t
    induction t with
    | table => rfl
    | join kind left right condition columns ihl ihr =>
      simp [TableRef.leaves, TableRef.operands, ihl, ihr, List.filter_flatMap]
  simp only [clauseLeaves, operands, List.filter_append, List.flatMap_append, List.filter_flatMap, List.flatMap_assoc,
    List.flatMap_map, hitem, htable, OrderItem.leaves, List.append_assoc]

/-- A leaf of the clauses is no row count and no offset. -/
theorem Statement.inTree_of_mem_clauseLeaves {s : Statement} {l : Leaf} (h : l ∈ s.clauseLeaves) : l.InTree := by
  cases l with
  | bound i =>
    have hparameter : Leaf.bound i ∈ s.clauseLeaves.filter (·.ordinal?.isSome) := List.mem_filter.2 ⟨h, rfl⟩
    rw [s.filter_clauseLeaves] at hparameter
    obtain ⟨e, -, he⟩ := List.mem_flatMap.1 hparameter
    exact Expr.inTree_of_mem_leaves (List.mem_filter.1 he).1
  | _ => trivial

namespace Grammar

/-- The tokens left are the end of a text, and the operands of the statement are written in it. -/
structure Attested (source : String) (s : State) : Prop where
  tokens : s.cursor.tokens <:+ Token.lex source
  operands : ∀ e ∈ s.statement.operands, e.WrittenIn source

/-- Whatever a parser puts into the statement is written in the text, and its value has a property. -/
def Finds {α : Type} (d : Dialect) (rule : Rule) (source : String) (p : Parser α) (P : α → Prop) : Prop :=
  ∀ s, Attested source s → Traced d rule .storing s p fun a _ s' => Attested source s' ∧ P a

/-- The operands of its value are written in the text too. -/
abbrev Locates {α : Type} (d : Dialect) (rule : Rule) (source : String) (p : Parser α) (f : α → List Expr) : Prop :=
  Finds d rule source p fun a => ∀ e ∈ f a, e.WrittenIn source

section
variable {d : Dialect} {rule : Rule} {source : String} {α β : Type} {P : α → Prop} {Q : β → Prop}

theorem Attested.complete {s : State} (h : Attested source s) : Token.Complete s.cursor.tokens := by
  obtain ⟨before, hbefore⟩ := h.tokens
  exact .of_append (List.cons_ne_nil _ _) (hbefore ▸ Token.complete_lex source)

/-- Behind a run that leaves the operands as they are. -/
theorem Attested.run {s s' : State} {es : List Event} (h : Attested source s) (hrun : Run rule s es s')
    (hoperands : s'.statement.clauses.operands = s.statement.clauses.operands) : Attested source s' := by
  constructor
  · exact (hrun.tokens_eq ▸ List.suffix_append _ _ : s'.cursor.tokens <:+ s.cursor.tokens).trans h.tokens
  · exact fun e he => h.operands e (hoperands ▸ he)

/-! ## Rules -/

namespace Finds

/-- A parser that leaves the operands as they are, with what is known of its value. -/
theorem of_traced {p : Parser α} {R : State → α → List Event → State → Prop}
    (hp : ∀ s, Traced d rule .storing s p (R s))
    (hR : ∀ s a es s', R s a es s' → s'.statement.clauses.operands = s.statement.clauses.operands)
    (hP : ∀ s a s', Attested source s → p s = .ok a s' → P a) : Finds d rule source p P := by
  intro s hs hcomplete
  have hout := hp s hcomplete
  cases hr : p s with
  | error e s' =>
    rw [hr] at hout
    exact hout
  | ok a s' =>
    rw [hr] at hout
    obtain ⟨es, hrun, hall, hwhole, hq⟩ := hout
    exact ⟨es, hrun, hall, hwhole, hs.run hrun (hR s a es s' hq), hP s a s' hs hr⟩

/-- What is read and not stored. -/
theorem of_drops {p : Parser α} (hp : Drops d rule p) (hP : ∀ s a s', Attested source s → p s = .ok a s' → P a) :
    Finds d rule source p P :=
  of_traced (fun s => (hp s).storing) (fun _ _ _ _ h => congrArg Statement.operands h.2) hP

theorem of_dropped {p : Parser α} (hp : Drops d rule p) : Finds d rule source p fun _ => True :=
  of_drops hp fun _ _ _ _ _ => trivial

theorem of_silent {p : Parser α} (hp : Silent d rule .reading p) : Finds d rule source p fun _ => True :=
  of_dropped hp.drops

theorem pure {a : α} (h : P a) : Finds d rule source (Pure.pure a) P :=
  fun _ hs => .pure ⟨hs, h⟩

theorem bind {p : Parser α} {f : α → Parser β} (hp : Finds d rule source p P)
    (hf : ∀ a, P a → Finds d rule source (f a) Q) : Finds d rule source (p >>= f) Q :=
  fun s hs => (hp s hs).bind fun a _ s' h => hf a h.2 s' h.1

theorem mono {P' : α → Prop} {p : Parser α} (hp : Finds d rule source p P) (h : ∀ a, P a → P' a) :
    Finds d rule source p P' :=
  fun s hs => (hp s hs).mono fun a _ _ h' => ⟨h'.1, h a h'.2⟩

/-- Behind a parser that reads no operand. -/
theorem behind {p : Parser α} {f : α → Parser β} (hp : Silent d rule .reading p)
    (hf : ∀ a, Finds d rule source (f a) Q) : Finds d rule source (p >>= f) Q :=
  (of_silent hp).bind fun a _ => hf a

theorem unexpected {expected : String} : Finds d rule source (Grammar.unexpected expected : Parser α) P :=
  fun _ _ => .unexpected

theorem unsupported {construct : String} : Finds d rule source (Grammar.unsupported construct : Parser α) P :=
  fun _ _ => .unsupported

/-- Behind a clause that begins with a keyword and is skipped. -/
theorem expectClause_bind {γ : Type} {k : Keyword} {p : Parser γ} {f : γ → Parser β} (hk : k ∈ d.skippedClauses)
    (hp : Skims d rule p) (hf : ∀ a, Finds d rule source (f a) Q) :
    Finds d rule source (expectKeyword k >>= fun _ => p >>= f) Q := by
  rw [← bind_assoc]
  exact behind (silent_expectClause hk hp) hf

/-- Either way of a test. -/
theorem branch {test : Parser Bool} {x y : Parser α} (ht : Silent d rule .reading test)
    (hx : Finds d rule source x P) (hy : Finds d rule source y P) :
    Finds d rule source (test >>= fun b => if b then x else y) P := by
  refine behind ht fun b => ?_
  cases b with
  | true => exact hx
  | false => exact hy

theorem separated {item : Parser α} (hi : Finds d rule source item P) (rounds : Nat) :
    Finds d rule source (Grammar.separated item rounds) fun as => ∀ a ∈ as, P a := by
  induction rounds with
  | zero => exact hi.bind fun a ha => .pure (List.forall_mem_singleton.2 ha)
  | succ rounds ih =>
    refine hi.bind fun a ha => .branch (silent_skip ⟨nofun, nofun⟩) (ih.bind fun as has => .pure ?_) (.pure ?_)
    · exact List.forall_mem_cons.2 ⟨ha, has⟩
    · exact List.forall_mem_singleton.2 ha

theorem commaSeparated {item : Parser α} (hi : Finds d rule source item P) :
    Finds d rule source (Grammar.commaSeparated item) fun as => ∀ a ∈ as, P a :=
  behind silent_look hi.separated

/-! ### Clauses -/

/-- What is read and then stored. -/
theorem store {p : Parser α} {put : α → Statement → Statement} (hp : Finds d rule source p P)
    (hput : ∀ a, Stores (put a)) (h : ∀ a c, P a → (∀ e ∈ c.operands, e.WrittenIn source) →
      ∀ e ∈ (put a c).operands, e.WrittenIn source) :
    Finds d rule source (p >>= fun a => modifyStatement (put a)) fun _ => True := by
  refine hp.bind fun a ha s hs => (Traced.store (hput a)).mono ?_
  rintro _ _ _ ⟨-, rfl⟩
  exact ⟨⟨hs.tokens, h a s.statement ha hs.operands⟩, trivial⟩

theorem eachSeparated {p : Parser Unit} (hp : Finds d rule source p fun _ => True) :
    Finds d rule source (Grammar.eachSeparated p) fun _ => True :=
  hp.commaSeparated.bind fun _ _ => .pure trivial

theorem whenKeyword {k : Keyword} {p : Parser Unit} (hp : Finds d rule source p fun _ => True) :
    Finds d rule source (skipKeyword k >>= fun b => if b then p else Pure.pure ()) fun _ => True :=
  .branch silent_skipKeyword hp (.pure trivial)

theorem andThen {p q : Parser Unit} (hp : Finds d rule source p fun _ => True)
    (hq : Finds d rule source q fun _ => True) : Finds d rule source (p >>= fun _ => q) fun _ => True :=
  hp.bind fun _ _ => hq

end Finds

/-! ## Expressions -/

theorem finds_expression : Finds d rule source (expression rule) (Expr.WrittenIn source) := by
  refine .of_drops reads_expression.drops fun s e s' hs hr => ?_
  obtain ⟨ts, hts, hwritten, -⟩ := written_of_expression hs.tokens hr
  have hprefix : ts <:+: s.cursor.tokens := hts ▸ (List.prefix_append ts _).isInfix
  exact ⟨s.priorAllowed, ts, hprefix.trans hs.tokens.isInfix, hwritten⟩

/-! ## Select items -/

theorem finds_orderItem : Finds d rule source (orderItem d rule) fun o => o.expr.WrittenIn source := by
  refine finds_expression.bind fun e he => .behind silent_direction fun _ => ?_
  exact .behind silent_nullOrder fun _ => .pure he

theorem finds_orderItems : Locates d rule source (orderItems d rule) (·.map (·.expr)) :=
  finds_orderItem.commaSeparated.mono fun _ h => List.forall_mem_map.2 h

theorem finds_windowOrder : Locates d rule source (windowOrder d rule) (·.map (·.expr)) :=
  .branch silent_skipKeyword (.behind silent_expectKeyword fun _ => finds_orderItems) (.pure (List.forall_mem_nil _))

theorem finds_rowNumberItem : Locates d rule source (rowNumberItem d rule) SelectItem.operands := by
  cases d with
  | generic | oracle => exact .unexpected
  | sqlServer =>
    refine .expectClause_bind (by decide) skims_region fun _ => .behind silent_expectKeyword fun _ => ?_
    refine .behind (silent_expect ⟨nofun, nofun⟩) fun _ => .branch silent_look .unsupported ?_
    refine finds_windowOrder.bind fun order horder => .behind (silent_expect ⟨nofun, nofun⟩) fun _ => ?_
    exact .behind silent_aliasClause fun _ => .pure horder

theorem finds_expressionItem : Locates d rule source (expressionItem rule) SelectItem.operands := by
  refine finds_expression.bind fun e he => ?_
  split
  · exact .pure (List.forall_mem_nil _)
  · exact .behind silent_aliasClause fun _ => .pure (List.forall_mem_singleton.2 he)

theorem finds_selectItem : Locates d rule source (selectItem d rule) SelectItem.operands :=
  .behind silent_skipAny fun _ => .branch silent_atRowNumberItem finds_rowNumberItem finds_expressionItem

/-! ## Tables -/

section
variable {entry : Parser TableRef} (hentry : Locates d rule source entry TableRef.operands)
include hentry

theorem finds_plainFactor : Locates d rule source (plainFactor rule entry) TableRef.operands := by
  refine .branch silent_look .unsupported (.branch (silent_skip ⟨nofun, nofun⟩) ?_ ?_)
  · exact hentry.bind fun _ hr => .behind (silent_expect ⟨nofun, nofun⟩) fun _ => .pure hr
  · have hgives : Gives (tableName rule) (·.operands = []) := by
      have hnamed : ∀ schema name token, Gives (tableNamed rule schema name token) (·.operands = []) := fun _ _ _ =>
        .behind fun _ => .behind fun _ => .pure rfl
      exact .behind fun _ => .behind fun _ => .branch (.behind fun _ => .behind fun _ => hnamed _ _ _) (hnamed _ _ _)
    exact .of_drops reads_tableName.drops fun s r s' _ hr => hgives s r s' hr ▸ List.forall_mem_nil _

theorem finds_oracleFactor (hd : d = .oracle) : Locates d rule source (oracleFactor rule entry) TableRef.operands := by
  subst hd
  have hsuffixed : Locates .oracle rule source (suffixedFactor rule entry) TableRef.operands := by
    refine (finds_plainFactor hentry).bind fun _ hr => .behind (silent_skipSample (by decide)) fun _ => ?_
    refine .behind (silent_skipPartition (by decide)) fun _ => ?_
    exact .behind (silent_skipPartition (by decide)) fun _ => .pure hr
  have honly : Locates .oracle rule source (onlyFactor rule entry) TableRef.operands := by
    refine .branch (silent_skip ⟨nofun, nofun⟩) ?_ hsuffixed
    exact hsuffixed.bind fun _ hr => .behind (silent_expect ⟨nofun, nofun⟩) fun _ => .pure hr
  have hpivoted : Locates .oracle rule source (pivotedFactor rule entry) TableRef.operands :=
    hsuffixed.bind fun _ hr => .behind (silent_skipPivot (by decide) (by decide)) fun _ => .pure hr
  refine .behind silent_skipKeyword fun b => ?_
  cases b with
  | true => exact honly.bind fun _ hr => .behind silent_rejectFlashback fun _ => .pure hr
  | false => exact hpivoted.bind fun _ hr => .behind silent_rejectFlashback fun _ => .pure hr

theorem finds_factorOver : Locates d rule source (factorOver d rule entry) TableRef.operands := by
  cases d with
  | generic | sqlServer => exact finds_plainFactor hentry
  | oracle => exact finds_oracleFactor hentry rfl

end

theorem finds_joinedBy (kind : JoinKind) : Locates d rule source (joinedBy rule kind) (·.1.toList) := by
  have hby : Locates d rule source (joinedBy rule .inner) (·.1.toList) := by
    refine .branch silent_skipKeyword (finds_expression.bind fun e he => .pure ?_)
      (.branch silent_skipKeyword ?_ .unexpected)
    · exact List.forall_mem_singleton.2 he
    · refine .behind (silent_expect ⟨nofun, nofun⟩) fun _ => ?_
      refine (Finds.of_silent silent_expectName).commaSeparated.bind fun columns _ => ?_
      exact .behind (silent_expect ⟨nofun, nofun⟩) fun _ => .pure nofun
  cases kind with
  | cross => exact .pure nofun
  | inner | left | right | full => exact hby

section
variable {factor : Parser TableRef} (hfactor : Locates d rule source factor TableRef.operands)
include hfactor

theorem finds_nextJoin {left : TableRef} (hleft : ∀ e ∈ left.operands, e.WrittenIn source) :
    Finds d rule source (nextJoin rule factor left) fun joined? =>
      ∀ r ∈ joined?, ∀ e ∈ r.operands, e.WrittenIn source := by
  refine .behind silent_joinKind fun kind? => ?_
  cases kind? with
  | none => exact .pure nofun
  | some kind =>
    refine hfactor.bind fun right hright => (finds_joinedBy kind).bind fun joined hjoined => .pure ?_
    rintro _ ⟨⟩
    exact List.forall_mem_append.2 ⟨List.forall_mem_append.2 ⟨hleft, hright⟩, hjoined⟩

theorem finds_joinsOver (rounds : Nat) {left : TableRef} (hleft : ∀ e ∈ left.operands, e.WrittenIn source) :
    Locates d rule source (joinsOver d rule factor rounds left) TableRef.operands := by
  induction rounds generalizing left with
  | zero => exact .pure hleft
  | succ rounds ih =>
    refine .behind (silent_hintBehind left) fun _ => (finds_nextJoin hfactor hleft).bind fun joined? hjoined => ?_
    cases joined? with
    | none => exact .pure hleft
    | some joined => exact ih (hjoined joined rfl)

end

theorem finds_tableReferenceAt (depth : Nat) : Locates d rule source (tableReferenceAt d rule depth) TableRef.operands := by
  induction depth with
  | zero => exact .unexpected
  | succ depth ih =>
    exact (finds_factorOver ih).bind fun left hleft => .behind silent_look fun rounds =>
      finds_joinsOver (finds_factorOver ih) rounds hleft

theorem finds_tableReference : Locates d rule source (tableReference d rule) TableRef.operands :=
  .behind silent_look fun n => finds_tableReferenceAt (n + 1)

end

end Grammar

end SelectRouting
