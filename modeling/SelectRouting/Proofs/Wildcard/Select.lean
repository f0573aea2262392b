import Mathlib.Data.List.Forall2
import SelectRouting.Proofs.Shape.Select
import SelectRouting.Proofs.Wildcard.Place
import SelectRouting.Proofs.Wildcard.Reading
/-!
# Stars in accepted statements

Every operand of an accepted statement is written in its text (`Statement.writtenIn_of_parse`), one lemma for each clause.
So the text tells where the stars of the statement stand (`Statement.starsPlaced_iff`): they have their places unless a star
is written where an operand is awaited.
-/
namespace SelectRouting

namespace Grammar

section
variable {d : Dialect} {rule : Rule} {source : String}

theorem finds_distinct : Finds d rule source (distinct d) fun _ => True := by
  refine .of_traced (fun s => traced_distinct s.cursor.current) (fun s _ _ s' h => ?_) fun _ _ _ _ _ => trivial
  obtain ⟨-, ⟨b, hc⟩, -⟩ := h
  exact (congrArg Statement.operands hc).trans rfl

theorem finds_selectList : Finds d rule source (selectList d rule) fun _ => True := by
  refine .eachSeparated (.store finds_selectItem ?_ fun item c hitem hc => ?_)
  · exact fun _ => ⟨fun _ => rfl, fun _ => rfl, fun _ => rfl⟩
  · rw [Statement.forall_mem_operands] at hc ⊢
    exact ⟨List.forall_mem_append.2 ⟨hc.1, List.forall_mem_singleton.2 hitem⟩, hc.2⟩

theorem finds_fromClause : Finds d rule source (fromClause d rule) fun _ => True := by
  refine .whenKeyword (.eachSeparated (.store finds_tableReference ?_ fun r c hr hc => ?_))
  · exact fun _ => ⟨fun _ => rfl, fun _ => rfl, fun _ => rfl⟩
  · rw [Statement.forall_mem_operands] at hc ⊢
    exact ⟨hc.1, List.forall_mem_append.2 ⟨hc.2.1, List.forall_mem_singleton.2 hr⟩, hc.2.2⟩

theorem finds_whereClause : Finds d rule source (whereClause rule) fun _ => True := by
  refine .whenKeyword (.store finds_expression ?_ fun e c he hc => ?_)
  · exact fun _ => ⟨fun _ => rfl, fun _ => rfl, fun _ => rfl⟩
  · rw [Statement.forall_mem_operands] at hc ⊢
    exact ⟨hc.1, hc.2.1, forall_mem_some he, hc.2.2.2⟩

theorem finds_groupBy : Finds d rule source (groupBy d rule) fun _ => True := by
  refine .whenKeyword (.behind silent_expectKeyword fun _ => .eachSeparated (.behind silent_look fun k? => ?_))
  split
  · exact .unsupported
  · refine .store finds_expression ?_ fun e c he hc => ?_
    · exact fun _ => ⟨fun _ => rfl, fun _ => rfl, fun _ => rfl⟩
    · rw [Statement.forall_mem_operands] at hc ⊢
      exact ⟨hc.1, hc.2.1, hc.2.2.1, List.forall_mem_append.2 ⟨hc.2.2.2.1, List.forall_mem_singleton.2 he⟩, hc.2.2.2.2⟩

theorem finds_havingClause : Finds d rule source (havingClause rule) fun _ => True := by
  refine .whenKeyword (.store finds_expression ?_ fun e c he hc => ?_)
  · exact fun _ => ⟨fun _ => rfl, fun _ => rfl, fun _ => rfl⟩
  · rw [Statement.forall_mem_operands] at hc ⊢
    exact ⟨hc.1, hc.2.1, hc.2.2.1, hc.2.2.2.1, forall_mem_some he, hc.2.2.2.2.2⟩

theorem finds_orderBy : Finds d rule source (orderBy d rule) fun _ => True := by
  refine .whenKeyword (.behind silent_expectKeyword fun _ => .store finds_orderItems ?_ fun os c hos hc => ?_)
  · exact fun _ => ⟨fun _ => rfl, fun _ => rfl, fun _ => rfl⟩
  · rw [Statement.forall_mem_operands] at hc ⊢
    exact ⟨hc.1, hc.2.1, hc.2.2.1, hc.2.2.2.1, hc.2.2.2.2.1, List.forall_mem_map.1 hos⟩

theorem finds_topClause : Finds d rule source topClause fun _ => True := by
  refine .of_traced (fun _ => traced_topClause) (fun s _ _ s' h => ?_) fun _ _ _ _ _ => trivial
  rcases h with ⟨-, -, hc⟩ | ⟨-, v, -, hc⟩ <;> exact (congrArg Statement.operands hc).trans rfl

theorem finds_offsetFetch : Finds d rule source offsetFetch fun _ => True := by
  refine .of_traced fills_offsetFetch (fun s _ _ s' h => ?_) fun _ _ _ _ _ => trivial
  rcases h with ⟨hc, -⟩ | ⟨v, w, -, -, hc⟩ <;> exact (congrArg Statement.operands hc).trans rfl

theorem finds_endOfStatement : Finds d rule source endOfStatement fun _ => True :=
  .of_traced (fun _ => traced_endOfStatement) (fun _ _ _ _ h => congrArg Statement.operands h.2.1) fun _ _ _ _ _ => trivial

/-! ## All clauses -/

/-- The clauses that all dialects have, with what reads no operand between them. -/
theorem finds_commonClauses {behindWhere behindHaving : Parser Unit} (hw : Finds d rule source behindWhere fun _ => True)
    (hh : Finds d rule source behindHaving fun _ => True) :
    Finds d rule source (commonClauses d rule behindWhere behindHaving) fun _ => True := by
  have hhaving := finds_havingClause.andThen (hh.andThen finds_orderBy)
  have hgroups := hw.andThen (finds_groupBy.andThen hhaving)
  have hfrom := finds_fromClause.andThen (finds_whereClause.andThen hgroups)
  exact finds_selectList.andThen hfrom

theorem finds_clauses : Finds d rule source (clauses d rule) fun _ => True := by
  have hnothing : Finds d rule source (pure ()) fun _ => True := .pure trivial
  have hcommon : Finds d rule source (commonClauses d rule (pure ()) (pure ())) fun _ => True :=
    finds_commonClauses hnothing hnothing
  cases d with
  | generic =>
    rw [clauses_generic]
    exact finds_distinct.andThen hcommon
  | oracle =>
    have hhierarchy : Finds .oracle rule source (skipHierarchy rule) fun _ => True := .of_dropped drops_skipHierarchy
    have hmodel : Finds .oracle rule source skipModel fun _ => True := .of_silent (silent_skipModel (by decide))
    have hlock : Finds .oracle rule source (skipForUpdate rule) fun _ => True := .of_dropped drops_skipForUpdate
    have hclauses := (finds_commonClauses hhierarchy hmodel).andThen hlock
    rw [clauses_oracle]
    exact finds_distinct.andThen hclauses
  | sqlServer =>
    have houtput : Finds .sqlServer rule source skipForOutput fun _ => True :=
      .of_silent (silent_skipForOutput (by decide))
    have hclauses := hcommon.andThen (finds_offsetFetch.andThen houtput)
    rw [clauses_sqlServer]
    exact finds_distinct.andThen (finds_topClause.andThen hclauses)

theorem finds_select : Finds d rule source (select d rule) fun _ => True :=
  .behind silent_expectKeyword fun _ => finds_clauses.andThen finds_endOfStatement

end

end Grammar

/-! ## Statements -/

namespace Statement

/-- Every star stands where the grammar has it: as a whole item, or as the only argument of a call. -/
def StarsPlaced (s : Statement) : Prop :=
  ∀ e ∈ s.operands, e.StarsPlaced

variable {d : Dialect} {rule : Rule} {source : String} {s : Statement}

theorem writtenIn_of_parse (h : parse d rule source = .ok s) : ∀ e ∈ s.operands, e.WrittenIn source := by
  obtain ⟨s', hr, rfl⟩ := exists_select_of_parse h
  have hstart : Grammar.Attested source (.ofSource source) :=
    ⟨Grammar.State.tokens_ofSource source ▸ List.suffix_refl _, List.forall_mem_nil _⟩
  have hfinds : Grammar.Finds d rule source (Grammar.select d rule) fun _ => True := Grammar.finds_select
  have hout := hfinds (.ofSource source) hstart hstart.complete
  rw [hr] at hout
  obtain ⟨-, -, -, -, hattested, -⟩ := hout
  exact hattested.operands

theorem exists_forall₂ {α β : Type} {R : α → β → Prop} (as : List α) (h : ∀ a ∈ as, ∃ b, R a b) :
    ∃ bs, List.Forall₂ R as bs := by
  induction as with
  | nil => exact ⟨[], .nil⟩
  | cons a as ih =>
    obtain ⟨b, hb⟩ := h a List.mem_cons_self
    obtain ⟨bs, hbs⟩ := ih fun a ha => h a (List.mem_cons_of_mem _ ha)
    exact ⟨b :: bs, .cons hb hbs⟩

/-- What may be said of the members of one list or of those of the other. -/
theorem forall_mem_iff {α β : Type} {P : α → Prop} {Q : β → Prop} {as : List α} {bs : List β}
    (h : List.Forall₂ (fun a b => P a ↔ Q b) as bs) : (∀ a ∈ as, P a) ↔ ∀ b ∈ bs, Q b := by
  induction h with
  | nil => simp
  | cons hab _ ih => rw [List.forall_mem_cons, List.forall_mem_cons, hab, ih]

/-- The operands of an accepted text are written with some of its tokens, and their stars are placed exactly if the stars
among those tokens fit. -/
theorem starsPlaced_iff (h : parse d rule source = .ok s) :
    ∃ regions, List.Forall₂ (fun e ts => ts <:+: Token.lex source ∧ ∃ prior, e.Written prior ts) s.operands regions ∧
      (s.StarsPlaced ↔ ∀ ts ∈ regions, Token.StarsFit [] ts []) := by
  obtain ⟨regions, hregions⟩ := exists_forall₂ s.operands fun e he => by
    obtain ⟨prior, ts, hts, hwritten⟩ := writtenIn_of_parse h e he
    exact (⟨ts, hts, prior, hwritten⟩ : ∃ ts, ts <:+: Token.lex source ∧ ∃ prior, e.Written prior ts)
  refine ⟨regions, hregions, forall_mem_iff (hregions.imp fun e ts hts => ?_)⟩
  obtain ⟨-, prior, hwritten⟩ := hts
  exact hwritten.starsFit_iff.symm

/-- A text with stars in all of their places, and with one that multiplies. -/
def starredText : String :=
  "SELECT t.*, count(*) * 2 FROM t JOIN u ON f(u.*) = t.a ORDER BY max(DISTINCT *)"

theorem starsPlaced_iff_starredText : ∃ s, parse .generic .empty starredText = .ok s ∧ s.items.length = 2 ∧
    ∃ regions, List.Forall₂ (fun e ts => ts <:+: Token.lex starredText ∧ ∃ prior, e.Written prior ts) s.operands regions ∧
      (s.StarsPlaced ↔ ∀ ts ∈ regions, Token.StarsFit [] ts []) :=
  exists_of_parse (·.items.length) 2 rfl (by decide +kernel) fun _ hs hlength => ⟨hlength, starsPlaced_iff hs⟩

/-- A text whose predicate is a star. -/
def starPredicateText : String :=
  "SELECT a FROM t WHERE *"

/-- It is accepted, though its star has not its place. -/
theorem star_accepted_as_predicate : ∃ s, parse .generic .empty starPredicateText = .ok s ∧ ¬ s.StarsPlaced := by
  refine exists_of_parse (fun s => s.predicate.any (·.IsStar)) true rfl (by decide +kernel) fun s _ hstar => ?_
  intro hplaced
  obtain ⟨e, he, hstar⟩ := (Option.any_eq_true _ _).1 hstar
  have hpredicate := (forall_mem_operands.1 hplaced).2.2.1
  exact (hpredicate e he).2 (of_decide_eq_true hstar)

end Statement

end SelectRouting
