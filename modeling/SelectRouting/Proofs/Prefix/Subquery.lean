import SelectRouting.Proofs.Outline.Query
import SelectRouting.Proofs.Prefix.Select
/-!
# Nested queries

A parenthesis with a `SELECT` behind it opens a nested query, and no dialect computes one.  A text with such a
parenthesis is accepted only where both tokens stand in a clause that is skipped as it is; and a text that is refused at
such a parenthesis is refused because of the query, or at a place where no parenthesis may stand whatever is behind it.
Where the parenthesis is passed, as in front of the arguments of a call, the `SELECT` behind it is found to be none of
what is expected there, and is never told apart from any other token (`Statement.outcome_of_opensQuery`).
-/
namespace SelectRouting

/-- In the tokens of a text, a parenthesis at an index with `SELECT` right behind it. -/
structure OpensQuery (source : String) (i : Nat) (l w : Token) : Prop where
  opening : (Token.lex source)[i]? = some l
  parenthesis : l.kind = .leftParen
  behind : (Token.lex source)[i + 1]? = some w
  word : w.kind = .keyword .select

theorem opensQuery_of_lex {source : String} {i : Nat} {l w : Token} {ts : List Token} (hlex : Token.lex source = ts)
    (h : ts[i]? = some l ∧ ts[i + 1]? = some w) (hl : l.kind = .leftParen) (hw : w.kind = .keyword .select) :
    OpensQuery source i l w :=
  ⟨hlex ▸ h.1, hl, hlex ▸ h.2, hw⟩

namespace Grammar

variable {opened : Prop} {c : Cursor} {e : ParseError} {ts : List Token} {source : String} {t : Token} {k : Nat}

/-- An error at a token that is no number and no parameter: a parser has failed right there. -/
theorem Located.of_span (h : Located opened c e ts) (hlex : Token.lex source = ts ++ c.tokens)
    (ht : (Token.lex source)[k]? = some t) (hspan : e.span = t.span) (hquestion : t.kind ≠ .question)
    (hinteger : ∀ n, t.kind ≠ .integer n) :
    ts.length = k ∧ c.current = t ∧ ((∃ expected, e.cause = .unexpected expected t.kind) ∨
      ((∃ construct, e.cause = .unsupported construct) ∧ (t.kind = .keyword .select → ∀ u, ts.getLast? = some u →
        u.kind ≠ .leftParen))) := by
  have hhere : (Token.lex source)[ts.length]? = some c.current := by
    rw [hlex, List.getElem?_append_right (Nat.le_refl _), Nat.sub_self]
    rfl
  have hcurrent : c.current.span = t.span → ts.length = k ∧ c.current = t := by
    intro hspan
    obtain rfl := Token.index_eq_of_span hhere ht hspan
    exact ⟨rfl, Option.some.inj (hhere.symm.trans ht)⟩
  cases h with
  | unexpected expected =>
    obtain ⟨hk, rfl⟩ := hcurrent hspan
    exact ⟨hk, rfl, .inl ⟨expected, rfl⟩⟩
  | unsupported construct _ behind =>
    obtain ⟨hk, rfl⟩ := hcurrent hspan
    refine ⟨hk, rfl, .inr ⟨⟨construct, rfl⟩, fun hselect u hu => ?_⟩⟩
    have hbehind := behind hselect
    rwa [hu] at hbehind
  | @negative n _ number _ =>
    obtain ⟨-, rfl⟩ := hcurrent hspan
    exact absurd number (hinteger n)
  | @fetched v x y us value =>
    have hv : (Token.lex source)[us.length]? = some v := by
      rw [hlex, List.append_assoc, List.getElem?_append_right (Nat.le_refl _), Nat.sub_self]
      rfl
    obtain rfl := Token.index_eq_of_span hv ht hspan
    obtain rfl := Option.some.inj (hv.symm.trans ht)
    rcases value with hk | ⟨n, hk⟩
    · exact absurd hk hquestion
    · exact absurd hk (hinteger n)

end Grammar

namespace Statement

open Token (AgreeTo SkippedClause)

variable {d : Dialect} {rule : Rule} {source : String} {i : Nat} {l w : Token} {s : Statement} {e : ParseError}

/-- Both tokens stand in a piece that is skipped. -/
theorem skipped_of_opensQuery (h : OpensQuery source i l w) (hs : parse d rule source = .ok s) :
    ∃ before clause after, d.statement.Spells d (before ++ .skipped clause :: after) ∧
      (before ++ .skipped clause :: after).flatMap Piece.tokens = Token.lex source ∧ SkippedClause d clause ∧
        (before.flatMap Piece.tokens).length < i ∧ i + 1 < (before.flatMap Piece.tokens).length + clause.length := by
  obtain ⟨ps, hspells, htokens, -, -⟩ := exists_pieces_of_parse hs
  obtain ⟨t, qs, rfl, ht, hplain⟩ := hspells.plain
  have hl := h.opening
  have hw := h.behind
  rw [← htokens] at hl hw
  cases i with
  | zero =>
    obtain rfl := Option.some.inj hl
    cases ht.symm.trans h.parenthesis
  | succ i =>
    obtain ⟨before, clause, after, rfl, hbefore, hbehind⟩ := Piece.exists_skipped hplain hl h.parenthesis hw h.word
    have hclause : SkippedClause d clause := hplain _ (List.mem_append_right _ List.mem_cons_self)
    have hlength : ((.token t :: before).flatMap Piece.tokens).length = (before.flatMap Piece.tokens).length + 1 := rfl
    refine ⟨.token t :: before, clause, after, hspells, htokens, hclause, ?_, ?_⟩
    · omega
    · omega

/-- Where a text is refused at a parenthesis, a construct is rejected there, or no parenthesis may stand there. -/
theorem refused_at_parenthesis (ht : (Token.lex source)[i]? = some l) (hk : l.kind = .leftParen)
    (he : parse d rule source = .error e) (hspan : e.span = l.span) : e.isUnsupported = true ∨
      ∀ source', AgreeTo i (Token.lex source) (Token.lex source') → parse d rule source' = .error e := by
  obtain ⟨ts, c, hts, hlocated, hsame⟩ := exists_located_of_refused he
  have hlex : Token.lex source = ts ++ c.tokens := (Cursor.tokens_ofSource source).symm.trans hts.tokens
  obtain ⟨rfl, rfl, hcause⟩ := hlocated.of_span hlex ht hspan (by rw [hk]; decide)
    fun n => by rw [hk]; exact Token.Kind.noConfusion
  rcases hcause with ⟨expected, hcause⟩ | ⟨⟨construct, hcause⟩, -⟩
  · refine .inr fun source' hagree => ?_
    rw [hlex, show ts ++ c.tokens = (ts ++ [c.current]) ++ c.rest by simp [Cursor.tokens]] at hagree
    obtain ⟨ws, hws⟩ := hagree.exists_append (by simp)
    rw [List.append_assoc] at hws
    obtain ⟨b', hb', htokens⟩ := Cursor.exists_reaches ((Cursor.tokens_ofSource source').trans hws)
      (List.cons_ne_nil _ _)
    refine hsame source' b' hb' ?_
    unfold Grammar.Rests
    rw [hcause]
    have hother : ∀ kind : Token.Kind, kind ≠ .leftParen → c.kind ≠ kind := fun kind hne hkind =>
      hne (hkind.symm.trans hk)
    exact .of_current (List.cons.inj htokens).1 (hother _ (by decide)) (hother _ (by decide))
  · refine .inl ?_
    rw [ParseError.isUnsupported, hcause]

/-- Where a text is refused at the `SELECT` of a nested query, that word has been found in place of something else. -/
theorem refused_at_select (h : OpensQuery source i l w) (he : parse d rule source = .error e)
    (hspan : e.span = w.span) : e.isUnsupported = false ∧ e.found? = some (.keyword .select) := by
  obtain ⟨ts, c, hts, hlocated, -⟩ := exists_located_of_refused he
  have hlex : Token.lex source = ts ++ c.tokens := (Cursor.tokens_ofSource source).symm.trans hts.tokens
  obtain ⟨hlength, rfl, hcause⟩ := hlocated.of_span hlex h.behind hspan (by rw [h.word]; decide)
    fun n => by rw [h.word]; exact Token.Kind.noConfusion
  rcases hcause with ⟨expected, hcause⟩ | ⟨-, hbehind⟩
  · rw [ParseError.isUnsupported, ParseError.found?, hcause, h.word]
    exact ⟨rfl, rfl⟩
  · -- The last token passed is the parenthesis, behind which no construct is rejected.
    have hlast : ts.getLast? = some l := by
      rw [List.getLast?_eq_getElem?, hlength, Nat.add_sub_cancel, ← h.opening, hlex,
        List.getElem?_append_left (by omega)]
    exact absurd h.parenthesis (hbehind h.word l hlast)

/-- What becomes of a text with a parenthesis that opens a nested query.  Where it is accepted, the query stands in a
clause that the dialect skips where its grammar has it.  Where it is refused at the parenthesis, the query is the reason,
or no parenthesis may stand there: then every text that agrees as far as the parenthesis is refused in the same way,
whatever is behind it.  Where it is refused at the `SELECT`, the query has not been recognised, and the error is that of a
word out of place. -/
theorem outcome_of_opensQuery (h : OpensQuery source i l w) :
    (∀ s, parse d rule source = .ok s → d ≠ .generic ∧ ∃ before clause after,
      d.statement.Spells d (before ++ .skipped clause :: after) ∧
      (before ++ .skipped clause :: after).flatMap Piece.tokens = Token.lex source ∧ SkippedClause d clause ∧
        (before.flatMap Piece.tokens).length < i ∧ i + 1 < (before.flatMap Piece.tokens).length + clause.length) ∧
    (∀ e, parse d rule source = .error e → e.span = l.span → e.isUnsupported = true ∨
      ∀ source', AgreeTo i (Token.lex source) (Token.lex source') → parse d rule source' = .error e) ∧
    (∀ e, parse d rule source = .error e → e.span = w.span →
      e.isUnsupported = false ∧ e.found? = some (.keyword .select)) := by
  refine ⟨fun s hs => ?_, fun e he => refused_at_parenthesis h.opening h.parenthesis he,
    fun e he => refused_at_select h he⟩
  have hskipped := skipped_of_opensQuery h hs
  refine ⟨?_, hskipped⟩
  rintro rfl
  obtain ⟨-, -, -, -, -, ⟨f, hf, -⟩, -⟩ := hskipped
  cases hf

/-- A query whose rows are turned into columns, behind a clause keyword that a dialect skips. -/
def pivotedText : String := "SELECT a FROM t PIVOT XML (SUM(a) FOR b IN (SELECT b FROM u))"

/-- A query in the place of a table. -/
def derivedText : String := "SELECT a FROM (SELECT b FROM u) v"

/-- A query with whose rows a value is compared, behind a word that is read as the name of a function. -/
def comparedText : String := "SELECT a FROM t WHERE a = ANY (SELECT b FROM u)"

theorem opensQuery_pivotedText :
    OpensQuery pivotedText 14 ⟨.leftParen, ⟨43, 44⟩, "("⟩ ⟨.keyword .select, ⟨44, 50⟩, "SELECT"⟩ :=
  opensQuery_of_lex (Token.lex_of_chars pivotedText rfl) (by decide +kernel) rfl rfl

theorem opensQuery_comparedText :
    OpensQuery comparedText 8 ⟨.leftParen, ⟨30, 31⟩, "("⟩ ⟨.keyword .select, ⟨31, 37⟩, "SELECT"⟩ :=
  opensQuery_of_lex (Token.lex_of_chars comparedText rfl) (by decide +kernel) rfl rfl

theorem parse_pivotedText : ∃ s, parse .oracle .empty pivotedText = .ok s ∧ s.parameters = 0 :=
  exists_of_parse (·.parameters) 0 rfl (by decide +kernel) fun _ _ hparameters => hparameters

theorem parse_comparedText : parse .generic .empty comparedText =
    .error ⟨.unexpected "expression" (.keyword .select), ⟨31, 37⟩⟩ :=
  error_of_parse rfl (by decide +kernel)

/-- Each outcome: a query that is skipped, one that is recognised, and one whose `SELECT` is out of place. -/
theorem outcome_of_opensQuery_each :
    (∃ s, parse .oracle .empty pivotedText = .ok s ∧ ∃ before clause after,
      (Dialect.statement .oracle).Spells .oracle (before ++ .skipped clause :: after) ∧
      (before ++ .skipped clause :: after).flatMap Piece.tokens = Token.lex pivotedText ∧
        SkippedClause .oracle clause ∧ (before.flatMap Piece.tokens).length < 14 ∧
          15 < (before.flatMap Piece.tokens).length + clause.length) ∧
    (∃ e, parse .generic .empty derivedText = .error e ∧ (e.isUnsupported = true ∨
      ∀ source', AgreeTo 3 (Token.lex derivedText) (Token.lex source') → parse .generic .empty source' = .error e)) ∧
    (∃ e, parse .generic .empty comparedText = .error e ∧ e.isUnsupported = false ∧
      e.found? = some (.keyword .select)) := by
  refine ⟨?_, ?_, ?_⟩
  · obtain ⟨s, hs, -⟩ := parse_pivotedText
    obtain ⟨-, hskipped⟩ := (outcome_of_opensQuery opensQuery_pivotedText).1 s hs
    exact ⟨s, hs, hskipped⟩
  · have hquery : OpensQuery derivedText 3 ⟨.leftParen, ⟨14, 15⟩, "("⟩ ⟨.keyword .select, ⟨15, 21⟩, "SELECT"⟩ :=
      opensQuery_of_lex (Token.lex_of_chars derivedText rfl) (by decide +kernel) rfl rfl
    have hr : parse .generic .empty derivedText = .error ⟨.unsupported "subquery", ⟨14, 15⟩⟩ :=
      error_of_parse rfl (by decide +kernel)
    exact ⟨_, hr, (outcome_of_opensQuery hquery).2.1 _ hr rfl⟩
  · exact ⟨_, parse_comparedText, (outcome_of_opensQuery opensQuery_comparedText).2.2 _ parse_comparedText rfl⟩

/-- One text with a nested query is accepted, and another one is refused at the `SELECT` of its query without being told
that queries are not supported. -/
theorem query_not_recognised :
    (∃ s, parse .oracle .empty pivotedText = .ok s ∧
      OpensQuery pivotedText 14 ⟨.leftParen, ⟨43, 44⟩, "("⟩ ⟨.keyword .select, ⟨44, 50⟩, "SELECT"⟩) ∧
    ∃ e, parse .generic .empty comparedText = .error e ∧ e.span = ⟨31, 37⟩ ∧ e.isUnsupported = false ∧
      OpensQuery comparedText 8 ⟨.leftParen, ⟨30, 31⟩, "("⟩ ⟨.keyword .select, ⟨31, 37⟩, "SELECT"⟩ := by
  obtain ⟨s, hs, -⟩ := parse_pivotedText
  exact ⟨⟨s, hs, opensQuery_pivotedText⟩, _, parse_comparedText, rfl, rfl, opensQuery_comparedText⟩

end Statement

end SelectRouting
