import SelectRouting.Proofs.Pagination
import SelectRouting.Proofs.Token.Balance
/-!
# Balanced statements

The tokens of an accepted text are balanced in every dialect: each clause walks through its parentheses, and those that
have to do with the pagination pass a few words around such walks.  Without a dialect there is no region that is not
looked into, so what a walk passes is common or a parenthesis, and the whole text is one statement
(`Token.SingleStatement`).  What the clauses pass is told apart from the first word and the end in one place, for both
readings (`Statement.exists_parts_of_parse`).
-/
namespace SelectRouting

namespace Token

/-- The tokens of one statement: no error of the lexer, no `SELECT` but the first token, no word between two statements,
and no semicolon but in front of the end of the input. -/
structure SingleStatement (ts : List Token) : Prop where
  sound : ∀ t ∈ ts, ∀ message, t.kind ≠ .error message
  first : ts.head?.map (·.kind) = some (.keyword .select)
  only : ts.countP (·.kind = .keyword .select) = 1
  alone : ∀ t ∈ ts, ∀ k ∈ [Keyword.union, .intersect, .except, .minus], t.kind ≠ .keyword k
  semicolon : ∀ i t, ts[i]? = some t → t.kind = .semicolon → i + 2 = ts.length
  last : ts.getLast?.map (·.kind) = some .eof

section
variable {t e : Token} {us vs : List Token}

section
variable (hwalk : Walk .generic 0 us 0) (hvs : vs = [] ∨ ∃ t, vs = [t] ∧ t.kind = .semicolon) (he : e.kind = .eof)
include hwalk hvs he

/-- Behind the first token, what is not common is a parenthesis, a semicolon or the end of the input. -/
theorem ne_of_mem_behind {k : Kind} (ht : t ∈ us ++ vs ++ [e]) (hcommon : k.common = false) (hl : k ≠ .leftParen)
    (hr : k ≠ .rightParen) (hsemicolon : k ≠ .semicolon) (heof : k ≠ .eof) : t.kind ≠ k := by
  rcases List.mem_append.1 ht with ht | ht
  · rcases List.mem_append.1 ht with ht | ht
    · exact hwalk.ne_of_mem ht hcommon hl hr
    · obtain rfl | ⟨v, rfl, hv⟩ := hvs
      · exact absurd ht List.not_mem_nil
      · rw [List.mem_singleton.1 ht, hv]
        exact hsemicolon.symm
  · rw [List.mem_singleton.1 ht, he]
    exact heof.symm

theorem length_behind_of_semicolon {i : Nat} (ht : (us ++ vs ++ [e])[i]? = some t) (hsemicolon : t.kind = .semicolon) :
    i + 2 = (us ++ vs ++ [e]).length := by
  rw [List.append_assoc] at ht
  have hclauses : us.length ≤ i := by
    refine Nat.le_of_not_lt fun hlt => ?_
    rw [List.getElem?_append_left hlt] at ht
    exact hwalk.ne_of_mem (k := .semicolon) (List.mem_of_getElem? ht) rfl nofun nofun hsemicolon
  rw [List.getElem?_append_right hclauses] at ht
  have hlast : t ∉ [e] := by
    intro hmem
    rw [List.mem_singleton.1 hmem, he] at hsemicolon
    cases hsemicolon
  obtain rfl | ⟨v, rfl, -⟩ := hvs
  · exact absurd (List.mem_of_getElem? ht) hlast
  · cases hi : i - us.length with
    | zero =>
      simp only [List.length_append, List.length_cons, List.length_nil]
      omega
    | succ j =>
      rw [hi] at ht
      exact absurd (List.mem_of_getElem? (l := [e]) ht) hlast

/-- A `SELECT`, a walk that looks into every region, at most a semicolon, and the end of the input. -/
theorem SingleStatement.of_walk (ht : t.kind = .keyword .select) : SingleStatement (t :: (us ++ vs ++ [e])) := by
  have hwords : ∀ k : Keyword, (Kind.keyword k).common = false → ∀ u ∈ us ++ vs ++ [e], u.kind ≠ .keyword k :=
    fun k hcommon u hu => ne_of_mem_behind hwalk hvs he hu hcommon nofun nofun nofun nofun
  refine ⟨?_, ?_, ?_, ?_, ?_, ?_⟩
  · refine List.forall_mem_cons.2 ⟨fun _ => ht ▸ nofun, fun u hu message => ?_⟩
    exact ne_of_mem_behind hwalk hvs he hu rfl nofun nofun nofun nofun
  · rw [List.head?_cons, Option.map_some, ht]
  · have hnone : (us ++ vs ++ [e]).countP (·.kind = .keyword .select) = 0 :=
      List.countP_eq_zero.2 fun u hu => by simpa using hwords .select rfl u hu
    rw [List.countP_cons, hnone, ht]
    rfl
  · have hcommon : ∀ k ∈ [Keyword.union, .intersect, .except, .minus],
        k ≠ .select ∧ (Kind.keyword k).common = false := by decide
    refine List.forall_mem_cons.2 ⟨fun k hk h => ?_, fun u hu k hk => hwords k (hcommon k hk).2 u hu⟩
    exact (hcommon k hk).1 (Kind.keyword.inj (h.symm.trans ht))
  · intro i u hu hsemicolon
    cases i with
    | zero =>
      obtain rfl := Option.some.inj hu
      cases ht.symm.trans hsemicolon
    | succ i =>
      rw [List.length_cons, ← length_behind_of_semicolon hwalk hvs he hu hsemicolon]
  · simp [List.getLast?_cons, he]

end

end

end Token

namespace Grammar

open Token (Balanced Walk)

/-! ## What a parser passes -/

section
variable {d : Dialect} {rule : Rule} {P : List Token → Prop} {α β : Type}

/-- Whatever a parser passes has a property. -/
def Gathers (P : List Token → Prop) (p : Parser α) : Prop :=
  ∀ s, Passes s p fun _ ts _ => P ts

/-- A statement begins with `SELECT`, and its clauses follow. -/
theorem passes_select_tokens {s : State} (h : Gathers P (clauses d rule)) : Passes s (select d rule) fun _ ts s' =>
    (∃ t us vs, ts = t :: (us ++ vs) ∧ t.kind = .keyword .select ∧ P us ∧
      (vs = [] ∨ ∃ t, vs = [t] ∧ t.kind = .semicolon)) ∧ s'.cursor.kind = .eof := by
  refine .expectKeyword_bind fun hk => (h s.advanced).bind fun _ us s₁ hus => ?_
  refine passes_endOfStatement.mono fun _ vs s₂ hend => ?_
  obtain ⟨hvs, heof, -⟩ := hend
  exact ⟨⟨_, us, vs, rfl, hk, hus, hvs⟩, heof⟩

/-- Whatever a parser passes is balanced. -/
abbrev Balances (p : Parser α) : Prop :=
  Gathers Balanced p

namespace Balances

variable {p : Parser α} {f : α → Parser β}

theorem of_steady (hp : Steady d p) : Balances p :=
  fun s => (hp 0 s).mono fun _ _ _ hts => .of_walk hts.1

theorem fail {cause : ParseError.Cause} {span : Span} : Balances (Grammar.fail cause span : Parser α) :=
  fun _ => .fail

theorem unexpected {expected : String} : Balances (Grammar.unexpected expected : Parser α) :=
  fun _ => .unexpected

theorem unsupported {construct : String} : Balances (Grammar.unsupported construct : Parser α) :=
  fun _ => .unsupported

theorem look_bind {look? : Cursor → α} (hf : ∀ a, Balances (f a)) : Balances (look look? >>= f) :=
  fun s => .look_bind (hf _ s)

theorem inspect_bind {look? : State → α} (hf : ∀ a, Balances (f a)) : Balances (inspect look? >>= f) :=
  fun s => .inspect_bind (hf _ s)

theorem pure {a : α} : Balances (Pure.pure a) :=
  fun _ => .pure Token.Balanced.nil

theorem bind (hp : Balances p) (hf : ∀ a, Balances (f a)) : Balances (p >>= f) :=
  fun s => (hp s).bind fun a _ s' h => (hf a s').mono fun _ _ _ h' => Token.Balanced.append h h'

theorem modify {put : Statement → Statement} : Balances (modifyStatement put) :=
  fun _ => .modify Token.Balanced.nil

theorem skipKeyword {k : Keyword} : Balances (Grammar.skipKeyword k) := by
  intro s
  rw [← bind_pure (Grammar.skipKeyword k)]
  exact .skipKeyword_bind (fun h => .pure (.of_kind (k := .keyword k) nofun nofun _ h)) fun _ => .pure Token.Balanced.nil

/-- Either way of a test. -/
theorem branch {test : Parser Bool} {x y : Parser β} (ht : Balances test) (hx : Balances x) (hy : Balances y) :
    Balances (test >>= fun b => if b then x else y) := by
  refine bind ht fun b => ?_
  cases b with
  | true => exact hx
  | false => exact hy

end Balances

end

/-! ## Pagination -/

theorem balances_recordLimit {edit : Nat → Nat → Edit} {v : Limit.Value} {span : Span} :
    Balances (recordLimit edit v span) := by
  unfold recordLimit
  cases v with
  | literal n => exact .modify
  | parameter i => exact .pure

theorem balances_topClause : Balances topClause := by
  have hvalue : Steady .generic topValue := steady_topValue
  have hties : Steady .generic skipTies := steady_skipTies
  refine .branch .skipKeyword (.bind (.of_steady hvalue) fun v => .look_bind fun b => ?_) .pure
  split
  · exact .unsupported
  · exact .bind (.of_steady hties) fun _ => .bind balances_recordLimit fun _ => .modify

theorem balances_offsetFetch : Balances offsetFetch := by
  have hvalue : Steady .generic limitValue := steady_limitValue
  have hrows : Steady .generic expectRows := steady_expectRows
  have hrecord : ∀ {v : Limit.Value} {span : Span}, Balances (recordFetch v span) := by
    refine .inspect_bind fun b => ?_
    split
    · exact .fail
    · exact balances_recordLimit
  have hcount : Balances fetchClause := by
    have hfirst : Steady .generic (skipAny [.first, .next]) := fun _ => .skipAny (by decide)
    have honly : Steady .generic (expectKeyword .only) := fun _ => .expectKeyword rfl
    refine .branch .skipKeyword (.branch (.of_steady hfirst) ?_ .unexpected) .pure
    refine .bind (.of_steady hvalue) fun _ => .bind (.of_steady hrows) fun _ => ?_
    exact .bind (.of_steady honly) fun _ => .bind hrecord fun _ => .pure
  refine .branch .skipKeyword (.bind (.of_steady hvalue) fun _ => ?_) .pure
  refine .bind (.of_steady hrows) fun _ => .bind balances_recordLimit fun _ => ?_
  exact .bind hcount fun _ => .modify

/-! ## All clauses -/

theorem balances_clauses {d : Dialect} {rule : Rule} : Balances (clauses d rule) := by
  by_cases hd : d = .sqlServer
  · subst hd
    have hbehind : Steady .sqlServer skipForOutput := steady_skipForOutput (by decide)
    rw [clauses_sqlServer]
    refine .bind (.of_steady steady_distinct) fun _ => .bind balances_topClause fun _ => ?_
    exact .bind (.of_steady steady_plainClauses) fun _ => .bind balances_offsetFetch fun _ => .of_steady hbehind
  · exact .of_steady (steady_clauses hd)

end Grammar

/-- An accepted text is a `SELECT`, what its clauses gather, and at most a semicolon. -/
theorem Statement.exists_parts_of_parse {d : Dialect} {rule : Rule} {source : String} {s : Statement}
    {P : List Token → Prop} (hclauses : Grammar.Gathers P (Grammar.clauses d rule)) (h : parse d rule source = .ok s) :
    ∃ t us vs e, Token.lex source = t :: (us ++ vs ++ [e]) ∧ t.kind = .keyword .select ∧ P us ∧
      (vs = [] ∨ ∃ t, vs = [t] ∧ t.kind = .semicolon) ∧ e.kind = .eof := by
  have hcomplete := Grammar.State.complete_ofSource source
  obtain ⟨s', hr, -⟩ := exists_select_of_parse h
  obtain ⟨_, hts, ⟨t, us, vs, rfl, ht, hus, hvs⟩, heof⟩ := Grammar.passes_select_tokens hclauses hcomplete () s' hr
  rw [hts] at hcomplete
  have hend := Cursor.tokens_of_eof (hcomplete.of_append (List.cons_ne_nil _ _)) heof
  refine ⟨t, us, vs, s'.cursor.current, ?_, ht, hus, hvs, heof⟩
  rw [← Grammar.State.tokens_ofSource, hts, hend, List.cons_append]

namespace Statement

open Token (Walk Balanced SingleStatement)

variable {d : Dialect} {rule : Rule} {source : String} {s : Statement}

/-- Without a dialect, an accepted text is one statement. -/
theorem single_of_parse (h : parse .generic rule source = .ok s) : SingleStatement (Token.lex source) := by
  have hsteady : Grammar.Steady .generic (Grammar.clauses .generic rule) := Grammar.steady_clauses nofun
  have hclauses : Grammar.Gathers (Walk .generic 0 · 0) (Grammar.clauses .generic rule) :=
    fun s => (hsteady 0 s).mono fun _ _ _ hts => hts.1
  obtain ⟨t, us, vs, e, hlex, ht, hwalk, hvs, he⟩ := exists_parts_of_parse hclauses h
  rw [hlex]
  exact .of_walk hwalk hvs he ht

/-- The parentheses of an accepted text are balanced, and without a dialect it is one statement. -/
theorem balanced_of_parse (h : parse d rule source = .ok s) :
    Balanced (Token.lex source) ∧ (d = .generic → SingleStatement (Token.lex source)) := by
  refine ⟨?_, fun hd => single_of_parse (hd ▸ h)⟩
  obtain ⟨t, us, vs, e, hlex, ht, hus, hvs, he⟩ := exists_parts_of_parse Grammar.balances_clauses h
  have hvs : Balanced vs := by
    obtain rfl | ⟨u, rfl, hu⟩ := hvs
    · exact .nil
    · exact .of_kind (k := .semicolon) nofun nofun u hu
  have hfirst : Balanced [t] := .of_kind (k := .keyword .select) nofun nofun t ht
  have hlast : Balanced [e] := .of_kind (k := .eof) nofun nofun e he
  rw [hlex]
  exact hfirst.append ((hus.append hvs).append hlast)

/-- A text with parentheses in one another, and a semicolon at its end. -/
def enclosedText : String := "SELECT f((a), b) FROM t WHERE (a = 1);"

theorem balanced_of_parse_enclosed : ∃ s, parse .generic .empty enclosedText = .ok s ∧
    Balanced (Token.lex enclosedText) ∧ SingleStatement (Token.lex enclosedText) := by
  refine exists_of_parse (·.parameters) 0 rfl (by decide +kernel) fun s hs _ => ?_
  obtain ⟨hbalanced, hsingle⟩ := balanced_of_parse hs
  exact ⟨hbalanced, hsingle rfl⟩

end Statement

end SelectRouting
