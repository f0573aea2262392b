import SelectRouting.Proofs.Nesting.Clause
import SelectRouting.Proofs.Trace.Select
/-!
# The landmarks of a statement

A statement is passed from `SELECT` over its clauses to its end.  In the dialects without a pagination no clause passes
a landmark (`steady_clauses`), and what holds of the clauses in every dialect holds of every accepted text
(`Statement.exists_landmarks_of_parse`).
-/
namespace SelectRouting

namespace Grammar

open Token (Marked)

variable {d : Dialect} {rule : Rule} {s : State}

/-! ## Clauses -/

theorem steady_commonClauses {behindWhere behindHaving : Parser Unit} (hw : Steady d behindWhere)
    (hh : Steady d behindHaving) : Steady d (commonClauses d rule behindWhere behindHaving) := by
  refine fun n => .bind (steady_selectList n) fun _ => .bind (steady_fromClause n) fun _ => ?_
  refine .bind (steady_whereClause n) fun _ => .bind (hw n) fun _ => .bind (steady_groupBy n) fun _ => ?_
  exact .bind (steady_havingClause n) fun _ => .bind (hh n) fun _ => steady_orderBy n

/-- With nothing of a dialect's own between them. -/
theorem steady_plainClauses : Steady d (commonClauses d rule (pure ()) (pure ())) :=
  have hnothing : Steady d (pure ()) := fun _ => .pure
  steady_commonClauses hnothing hnothing

/-- Without `TOP` and `OFFSET` in the grammar of a dialect, no clause has to do with the pagination. -/
theorem steady_clauses (hd : d ≠ .sqlServer) : Steady d (clauses d rule) := by
  intro n
  cases d with
  | generic =>
    rw [clauses_generic]
    exact .bind (steady_distinct n) fun _ => steady_plainClauses n
  | oracle =>
    rw [clauses_oracle]
    refine .bind (steady_distinct n) fun _ => .bind ?_ fun _ => steady_skipForUpdate n
    exact steady_commonClauses steady_skipHierarchy (steady_skipModel (by decide)) n
  | sqlServer => exact absurd rfl hd

/-! ## The whole statement -/

/-- Behind the clauses there is a semicolon or nothing, and then the end of the input. -/
theorem passes_endOfStatement : Passes s endOfStatement fun _ ts s' =>
    (ts = [] ∨ ∃ t, ts = [t] ∧ t.kind = .semicolon) ∧ s'.cursor.kind = .eof ∧ s'.statement = s.statement := by
  refine .look_bind ?_
  split
  · exact .unsupported
  · refine .skip_bind trivial nofun (fun hk => .look_bind ?_) (.look_bind ?_)
    · split
      · next heof => exact .pure ⟨.inr ⟨_, rfl, hk⟩, Token.Kind.eq_of_alike heof trivial, rfl⟩
      · exact .unexpected
    · split
      · next heof => exact .pure ⟨.inl rfl, Token.Kind.eq_of_alike heof trivial, rfl⟩
      · exact .unexpected

/-- Nothing of note stands at the end of a statement. -/
theorem landmarks_endOfStatement {ts : List Token} {t : Token} (hts : ts = [] ∨ ∃ t, ts = [t] ∧ t.kind = .semicolon)
    (ht : t.kind = .eof) : Token.landmarks (ts ++ [t]) = [] := by
  obtain rfl | ⟨u, rfl, hu⟩ := hts
  · simp [Token.landmarks, Token.outsideFrom, Token.Kind.landmark?, ht]
  · simp [Token.landmarks, Token.outsideFrom, Token.Kind.landmark?, ht, hu]

/-- The landmarks of a statement are `SELECT` and those of its clauses. -/
theorem passes_select {Q : List Keyword → Statement → Prop}
    (h : Passes s.advanced (clauses d rule) fun _ ts s' => ∃ ks, Marked ts ks ∧ Q ks s'.statement) :
    Passes s (select d rule) fun _ ts s' => s'.cursor.kind = .eof ∧ ∃ ks,
      (∀ t, t.kind = .eof → Token.landmarks (ts ++ [t]) = .select :: ks) ∧ Q ks s'.statement := by
  refine .expectKeyword_bind fun hk => h.bind fun _ ts s₁ ⟨ks, hts, hq⟩ => ?_
  refine passes_endOfStatement.mono fun _ us s₂ ⟨hus, heof, hs₂⟩ => ⟨heof, ks, fun t ht => ?_, hs₂ ▸ hq⟩
  have hmarked : Marked (s.cursor.current :: ts) (.select :: ks) := .keyword hk rfl hts
  rw [← List.cons_append, List.append_assoc, hmarked, landmarks_endOfStatement hus ht, List.append_nil]

end Grammar

/-- What the clauses of an empty statement leave behind is what an accepted text leaves behind. -/
theorem Statement.exists_landmarks_of_parse {d : Dialect} {rule : Rule} {source : String} {s : Statement}
    {Q : List Keyword → Statement → Prop}
    (hclauses : ∀ s : Grammar.State, s.statement = .empty → Grammar.Passes s (Grammar.clauses d rule) fun _ ts s' =>
      ∃ ks, Token.Marked ts ks ∧ Q ks s'.statement)
    (h : parse d rule source = .ok s) : ∃ ks, Token.landmarks (Token.lex source) = .select :: ks ∧ Q ks s := by
  have hcomplete := Grammar.State.complete_ofSource source
  have hselect : Grammar.Passes (.ofSource source) (Grammar.select d rule) _ :=
    Grammar.passes_select (hclauses (Grammar.State.ofSource source).advanced rfl)
  obtain ⟨s', hr, rfl⟩ := exists_select_of_parse h
  obtain ⟨ts, hts, heof, ks, hks, hq⟩ := hselect hcomplete () s' hr
  rw [hts] at hcomplete
  refine ⟨ks, ?_, hq⟩
  rw [← Grammar.State.tokens_ofSource, hts,
    Cursor.tokens_of_eof (hcomplete.of_append (List.cons_ne_nil _ _)) heof, hks s'.cursor.current heof]

end SelectRouting
