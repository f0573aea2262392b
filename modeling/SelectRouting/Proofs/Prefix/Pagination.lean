import SelectRouting.Proofs.Prefix.Clause
/-!
# The pagination settles its end

A row count that is given twice is found out behind the second one, and the error lies at its value: there the text has
been passed up to two words behind the token that is reported.  No other error lies in front of the place where its
parser stops.
-/
namespace SelectRouting.Grammar

open Cursor (Reaches)

section
variable {n n' : Nat} {s t : State} {opened : Prop} {α β : Type}

/-! ## Values -/

/-- With a value, a number or a parameter has been passed. -/
theorem limitValue_of_ok {v : Limit.Value × Span} (h : limitValue s = .ok v t) :
    t.cursor = s.cursor.advance ∧ v.2 = s.cursor.span ∧
      (s.cursor.kind = .question ∨ ∃ m, s.cursor.kind = .integer m) := by
  unfold limitValue at h
  rw [look_bind_apply] at h
  cases hk : s.cursor.current.kind with
  | integer m =>
    rw [hk] at h
    unfold literalLimit at h
    dsimp only at h
    split at h
    · cases h
    · cases h
      exact ⟨rfl, rfl, .inr ⟨m, hk⟩⟩
  | question =>
    rw [hk] at h
    cases h
    exact ⟨rfl, rfl, .inl hk⟩
  | _ =>
    rw [hk] at h
    cases h

theorem settlesAt_literalLimit {m : Int} (hk : s.cursor.kind = .integer m) :
    SettlesAt anywhere opened n n' s (literalLimit m s.cursor.span) (literalLimit m s.cursor.span) := by
  unfold literalLimit
  split
  · next hbelow => exact fun _ _ => ⟨[], .refl, .negative [] hk hbelow, fun b _ _ _ _ _ => ⟨s.moved b, rfl⟩⟩
  · exact .advance_bind (hk ▸ nofun) .pure

theorem not_reaches_of_limitValue (hs : Token.Complete s.cursor.tokens) {v : Limit.Value × Span}
    (h : limitValue s = .ok v t) : ¬ Reaches s.cursor [] t.cursor := by
  obtain ⟨ht, -, hk⟩ := limitValue_of_ok h
  rw [ht]
  refine s.not_reaches_advanced hs fun heof => ?_
  rw [heof] at hk
  rcases hk with hk | ⟨m, hk⟩ <;> cases hk

theorem settles_limitValue : Settles anywhere n n' limitValue limitValue := by
  intro s hs
  have hvalue : SettlesAt anywhere True n n' s limitValue limitValue := by
    refine .look_bindPast (fun _ _ => id) (fun v t => not_reaches_of_limitValue hs) ?_
    cases hk : s.cursor.current.kind with
    | integer m => exact settlesAt_literalLimit hk
    | question =>
      -- The ordinal is claimed before the token is passed.
      have hpass : SettlesAt anywhere True n n' { s with statement := s.statement.claimParameter }
          (advance >>= fun _ => pure (Limit.Value.parameter s.statement.parameters, s.cursor.span))
          (advance >>= fun _ => pure (Limit.Value.parameter s.statement.parameters, s.cursor.span)) :=
        .advance_bind (fun heof => nomatch hk.symm.trans heof) .pure
      exact .reassoc (.inspect_bind (fun _ => rfl) (.reassoc (.modify_bind hpass)))
    | _ => exact .unexpected
  exact hvalue hs

theorem settles_recordLimit {edit : Nat → Nat → Edit} {v : Limit.Value} {span : Span} :
    Settles anywhere n n' (recordLimit edit v span) (recordLimit edit v span) := by
  unfold recordLimit
  cases v with
  | literal m => exact .modify
  | parameter i => exact .pure

theorem cursor_of_recordLimit {edit : Nat → Nat → Edit} {v : Limit.Value} {span : Span} {a : Unit}
    (h : recordLimit edit v span s = .ok a t) : t.cursor = s.cursor := by
  unfold recordLimit at h
  split at h <;> cases h <;> rfl

/-! ## TOP -/

theorem settles_topValue : Settles anywhere n n' topValue topValue := by
  intro s hs hlt
  have hinside : Settles anywhere (n - 1) (n' - 1) (limitValue >>= fun v => expect .rightParen >>= fun _ => pure v)
      (limitValue >>= fun v => expect .rightParen >>= fun _ => pure v) :=
    .andThen settles_limitValue fun v => .andThen (settles_expect nofun) fun _ => .pure
  have hsame : ∀ b : Cursor, b.current = s.cursor.current → b.kind.alike .leftParen = s.cursor.kind.alike .leftParen :=
    fun _ => congrArg (fun t : Token => t.kind.alike .leftParen)
  cases hk : s.cursor.kind.alike .leftParen with
  | true =>
    have hparen : SettlesAt anywhere True n n' s topValue topValue :=
      .passing (Token.Kind.ne_of_alike hk trivial nofun) (absurd trivial) (hinside s.advanced)
        (bind_of_ok (skipWhen_of_true hk) _) fun b hb _ => bind_of_ok (skipWhen_of_true ((hsame b hb).trans hk)) _
    exact hparen hs hlt
  | false =>
    have hrun : ∀ b : Cursor, b.current = s.cursor.current → topValue (s.moved b) = limitValue (s.moved b) :=
      fun b hb => bind_of_ok (skipWhen_of_false ((hsame b hb).trans hk)) _
    rw [show topValue s = limitValue s from hrun s.cursor rfl]
    exact (settles_limitValue s hs hlt).congrPast (fun v t => not_reaches_of_limitValue hs) hrun

theorem settles_skipTies : Settles numbering n n' skipTies skipTies :=
  fun _ => .skipKeyword_bind (fun _ h => atKeyword_of_numbering h nofun)
    (Settles.behind (.andThen settles_expectKeyword fun _ => .pure)) .pure

theorem settles_topClause : Settles numbering n n' topClause topClause := by
  refine fun s => .skipKeyword_bind (fun _ h => atKeyword_of_numbering h nofun) (Settles.behind ?_) .pure
  rw [if_pos rfl]
  refine .andThen settles_topValue fun v s => ?_
  refine .reject (fun _ _ h => congrArg (fun t : Token => decide (t.kind.keyword? = some .percent)) h)
    (fun _ h => atKeyword_of_numbering h nofun) (fun h hselect => ?_) ?_
  · rw [Cursor.kind_of_atKeyword h] at hselect
    cases hselect
  · refine .bindKept (settles_skipTies s) (fun _ => .andThen settles_recordLimit fun _ => Settles.modify.passed) ?_
    intro _ t _ u h _
    obtain ⟨_, t', hrecord, hstore⟩ := ok_of_bind h
    cases hstore
    exact (cursor_of_recordLimit hrecord : t'.cursor = t.cursor)

/-! ## OFFSET and FETCH -/

/-- The value of the word that ends a row count. -/
def rows? (t : Token) : Option Unit :=
  if t.kind.keyword?.any [.row, .rows].contains then some () else none

theorem demands_expectRows : Demands expectRows rows? "ROW or ROWS" := by
  intro s
  cases ht : s.cursor.atAny [.row, .rows] with
  | true =>
    rw [rows?, if_pos (show s.cursor.current.kind.keyword?.any [.row, .rows].contains = true from ht)]
    exact bind_of_ok (skipWhen_of_true ht) _
  | false =>
    have hrows : s.cursor.current.kind.keyword?.any [.row, .rows].contains = false := ht
    rw [rows?, if_neg (Bool.eq_false_iff.1 hrows)]
    exact bind_of_ok (skipWhen_of_false ht) _

theorem eof_of_rows? {t : Token} {u : Unit} (h : rows? t = some u) : t.kind ≠ .eof := by
  intro heof
  rw [rows?, heof] at h
  cases h

theorem settles_expectRows : Settles anywhere n n' expectRows expectRows :=
  .demand demands_expectRows fun _ _ => eof_of_rows?

/-- A value with the words behind it. -/
def fetchedRows : Parser (Limit.Value × Span) := do
  let v ← limitValue
  expectRows
  let _ ← expectKeyword .only
  return v

theorem settles_fetchedRows : Settles anywhere n n' fetchedRows fetchedRows :=
  .andThen settles_limitValue fun _ => .andThen settles_expectRows fun _ => .andThen settles_expectKeyword fun _ => .pure

/-- The tokens passed with a value: the value, at the place that is returned, and two words. -/
theorem exists_tokens_of_fetchedRows (hs : Token.Complete s.cursor.tokens) {v : Limit.Value × Span}
    (h : fetchedRows s = .ok v t) : ∃ value x y : Token, Reaches s.cursor [value, x, y] t.cursor ∧ v.2 = value.span ∧
      (value.kind = .question ∨ ∃ m, value.kind = .integer m) := by
  obtain ⟨v', s₁, hvalue, h⟩ := ok_of_bind h
  obtain ⟨_, s₂, hrows, h⟩ := ok_of_bind h
  obtain ⟨_, s₃, honly, h⟩ := ok_of_bind h
  cases h
  obtain ⟨hs₁, hspan, hkind⟩ := limitValue_of_ok hvalue
  obtain ⟨hrow, rfl⟩ := demands_expectRows.of_ok hrows
  obtain ⟨hword, rfl⟩ := (demands_expectKeyword .only).of_ok honly
  have hne : s.cursor.kind ≠ .eof := by
    rcases hkind with hk | ⟨m, hk⟩ <;> exact hk ▸ nofun
  have hword : s₁.advanced.cursor.kind = .keyword .only :=
    Token.Kind.eq_of_keyword? (of_decide_eq_true (test_of_placeIf hword))
  have hfirst : Reaches s.cursor [s.cursor.current] s₁.cursor := hs₁ ▸ .advance hs hne
  have hs₁' := hfirst.complete hs
  have hsecond : Reaches s₁.cursor [s₁.cursor.current] s₁.advanced.cursor := .advance hs₁' (eof_of_rows? hrow)
  have hthird : Reaches s₁.advanced.cursor [s₁.advanced.cursor.current] s₁.advanced.advanced.cursor :=
    .advance (hsecond.complete hs₁') (hword ▸ nofun)
  exact ⟨_, _, _, hfirst.trans (hsecond.trans hthird), hspan, hkind⟩

theorem settles_fetchClause : Settles nowhere n n' fetchClause fetchClause := by
  have hfetched : Settles nowhere n n'
      (fetchedRows >>= fun v => recordFetch v.1 v.2 >>= fun _ => pure (some v.1))
      (fetchedRows >>= fun v => recordFetch v.1 v.2 >>= fun _ => pure (some v.1)) := by
    refine fun s => .andThenFail (settles_fetchedRows s) fun v t hr => ?_
    cases hcount : t.statement.hasRowCount with
    | false =>
      refine .inl (.reassoc (.inspect_bind (fun _ => rfl) ?_))
      rw [hcount]
      exact Settles.andThen settles_recordLimit (fun _ => .pure) t
    | true =>
      -- The row count is the second one, and the error lies at its value.
      have hfail : ∀ c, (recordFetch v.1 v.2 >>= fun _ => pure (some v.1) : Parser (Option Limit.Value)) (t.moved c) =
          .error ⟨.invalid "Row count specified by both TOP and FETCH", v.2⟩ (t.moved c) := by
        intro c
        refine bind_of_error ?_ _
        show (if t.statement.hasRowCount = true then fail _ v.2 else recordLimit .rowCount v.1 v.2 : Parser Unit)
          (t.moved c) = _
        rw [hcount]
        rfl
      refine .inr ⟨_, fun c => ⟨hfail c, hfail c⟩, fun ts hs hts => ?_⟩
      obtain ⟨value, x, y, htokens, hspan, hkind⟩ := exists_tokens_of_fetchedRows hs hr
      rw [hts.unique htokens, hspan]
      exact .fetched [] hkind
  simp only [fetchedRows, bind_assoc, pure_bind] at hfetched
  exact .branchKeyword (Settles.behind (.branchAny (hfetched.fewer (by omega) (by omega)) .unexpected)) .pure

theorem settles_offsetFetch : Settles nowhere n n' offsetFetch offsetFetch := by
  refine .whenKeyword (Settles.behind (.andThen settles_limitValue fun v => .andThen settles_expectRows fun _ => ?_))
  exact .andThen settles_recordLimit fun _ => .bind settles_fetchClause fun _ => Settles.modify.passed

end

end SelectRouting.Grammar
