import SelectRouting.Proofs.Edits
import SelectRouting.Proofs.Pagination
import SelectRouting.Proofs.Prefix.Select
import SelectRouting.Proofs.Token.Integer
/-!
# Numbers from the text to the limit

The lexer reads no sign into a number and none beyond the largest of 64 bits, so a limit takes a number over as it is, and
the error for a count below zero is never reached (`integers_exact`).
-/
namespace SelectRouting

/-! ## One value -/

namespace Grammar

variable {source : String} {s : State}

/-- A number of a text is a limit as it is. -/
theorem limitValue_of_integer (hs : s.cursor.tokens <:+ Token.lex source) {v : Int} (hk : s.cursor.kind = .integer v) :
    ∃ n : Nat, v = n ∧ n ≤ 2 ^ 63 - 1 ∧ limitValue s = .ok (.literal n, s.cursor.span) s.advanced := by
  obtain ⟨-, ds, -, -, -, -, -, rfl, hle⟩ :=
    Token.exists_digits_of_mem_lex (hs.subset List.mem_cons_self : s.cursor.current ∈ Token.lex source) hk
  refine ⟨Decimal.placeValue ds, rfl, hle, ?_⟩
  have hvalue : limitValue s = literalLimit (Decimal.placeValue ds) s.cursor.span s := by
    unfold limitValue
    rw [look_bind_apply, show s.cursor.current.kind = _ from hk]
    rfl
  have hnonneg : ¬ (Decimal.placeValue ds : Int) < 0 := Int.not_lt.2 (Int.natCast_nonneg _)
  rw [hvalue, literalLimit, if_neg hnonneg, Int.toNat_natCast]
  rfl

theorem cause_of_limitValue (hs : s.cursor.tokens <:+ Token.lex source) {e : ParseError} {s' : State}
    (h : limitValue s = .error e s') : e.cause ≠ .invalid "Negative row count" := by
  cases hk : s.cursor.kind with
  | integer v =>
    obtain ⟨n, -, -, hok⟩ := limitValue_of_integer hs hk
    cases h.symm.trans hok
  | question =>
    unfold limitValue at h
    rw [look_bind_apply, show s.cursor.current.kind = _ from hk] at h
    cases h
  | _ =>
    unfold limitValue at h
    rw [look_bind_apply, show s.cursor.current.kind = _ from hk] at h
    cases h
    exact nofun

end Grammar

/-! ## Whole statements -/

namespace Edit

theorem mem_of_foldl_insert {e : Edit} {es acc : List Edit} (h : e ∈ es.foldl (fun es e => e.insert es) acc) :
    e ∈ acc ∨ e ∈ es := by
  induction es generalizing acc with
  | nil => exact .inl h
  | cons x es ih =>
    rcases ih h with hacc | hes
    · rcases List.mem_cons.1 ((insert_perm x acc).mem_iff.1 hacc) with rfl | hacc
      · exact .inr List.mem_cons_self
      · exact .inl hacc
    · exact .inr (List.mem_cons_of_mem x hes)

theorem exists_of_rowCount? {es : List Edit} {n : Nat} (h : es.filterMap rowCount? = [n]) :
    ∃ start, .rowCount start n ∈ es := by
  obtain ⟨e, he, hn⟩ := List.mem_filterMap.1 (h ▸ List.mem_singleton_self n)
  cases e <;> cases hn
  exact ⟨_, he⟩

theorem exists_of_offset? {es : List Edit} {n : Nat} (h : es.filterMap offset? = [n]) :
    ∃ start, .offset start n ∈ es := by
  obtain ⟨e, he, hn⟩ := List.mem_filterMap.1 (h ▸ List.mem_singleton_self n)
  cases e <;> cases hn
  exact ⟨_, he⟩

end Edit

namespace Statement

variable {d : Dialect} {rule : Rule} {source : String} {s : Statement}

/-- Every edit of an accepted text replaces a token of it. -/
theorem exists_replaced_of_parse (h : parse d rule source = .ok s) {e : Edit} (he : e ∈ s.edits) :
    ∃ t ∈ Token.lex source, e.Replaces rule source t := by
  obtain ⟨es, hread⟩ := readFrom_of_parse h
  obtain ⟨last, -, htokens⟩ := hread.tokens
  rw [hread.edits] at he
  rcases Edit.mem_of_foldl_insert he with hnil | hes
  · cases hnil
  rw [← Event.map_fst_edited] at hes
  obtain ⟨⟨e', t⟩, hx, rfl⟩ := List.mem_map.1 hes
  obtain ⟨ev, hev, hedited⟩ := List.mem_filterMap.1 hx
  have hlex : ∀ u ∈ Event.passed es, u ∈ Token.lex source := fun u hu => by
    rw [htokens]
    exact List.mem_append_left _ hu
  refine ⟨t, hlex t ((Event.map_snd_edited_sublist es).subset (List.mem_map_of_mem hx)), ?_⟩
  exact Event.replaces_of_edited? (hread.sound ev hev) (fun u hu => hlex u (List.mem_flatMap.2 ⟨ev, hev, hu⟩)) hedited

/-- The numbers of a limit have their edits. -/
theorem edits_of_literal (h : parse d rule source = .ok s) {l : Limit} (hl : s.limit = some l) {n : Nat} :
    (l.rowCount = some (.literal n) → ∃ start, .rowCount start n ∈ s.edits) ∧
    (l.offset = some (.literal n) → ∃ start, .offset start n ∈ s.edits) := by
  obtain ⟨v, -, hrecord, -⟩ := exists_values_of_parse h
  have hlimit : s.limit = v.record.limit := congrArg Pagination.limit hrecord
  have hrowCounts : s.edits.filterMap Edit.rowCount? = v.record.rowCounts := congrArg Pagination.rowCounts hrecord
  have hoffsets : s.edits.filterMap Edit.offset? = v.record.offsets := congrArg Pagination.offsets hrecord
  obtain ⟨rfl, -⟩ := Pagination.eq_of_limit_written (hlimit.symm.trans hl)
  refine ⟨fun hn => Edit.exists_of_rowCount? ?_, fun hn => Edit.exists_of_offset? ?_⟩
  · have hn : (v.top <|> v.fetch) = some (.literal n) := hn
    rw [hrowCounts, Limit.Values.record, Pagination.written, hn]
    rfl
  · have hn : v.offset = some (.literal n) := hn
    rw [hoffsets, Limit.Values.record, Pagination.written, hn]
    rfl

/-- No text is refused for a count below zero. -/
theorem cause_of_parse {e : ParseError} (h : parse d rule source = .error e) :
    e.cause ≠ .invalid "Negative row count" := by
  obtain ⟨ts, c, hreach, hlocated, -⟩ := exists_located_of_refused h
  have hlex : Token.lex source = ts ++ c.tokens := (Cursor.tokens_ofSource source).symm.trans hreach.tokens
  cases hlocated with
  | unexpected | unsupported => exact nofun
  | fetched => simp
  | negative _ hk hbelow =>
    have hmem : c.current ∈ Token.lex source := hlex ▸ List.mem_append_right ts List.mem_cons_self
    obtain ⟨-, ds, -, -, -, -, -, rfl, -⟩ := Token.exists_digits_of_mem_lex hmem hk
    exact absurd hbelow (Int.not_lt.2 (Int.natCast_nonneg _))

/-- The numbers of a limit stand in the text, in places of their own, as they are. -/
theorem exists_integer_of_literal (h : parse d rule source = .ok s) {l : Limit} (hl : s.limit = some l) {n : Nat} :
    (l.rowCount = some (.literal n) → n ≤ 2 ^ 63 - 1 ∧
      ∃ t ∈ Token.lex source, t.kind = .integer n ∧ .rowCount t.span.start n ∈ s.edits) ∧
    (l.offset = some (.literal n) → n ≤ 2 ^ 63 - 1 ∧
      ∃ t ∈ Token.lex source, t.kind = .integer n ∧ .offset t.span.start n ∈ s.edits) := by
  have hle : ∀ t ∈ Token.lex source, t.kind = .integer n → n ≤ 2 ^ 63 - 1 := fun t ht hk => by
    obtain ⟨-, ds, -, -, -, -, -, hv, hle⟩ := Token.exists_digits_of_mem_lex ht hk
    rwa [Int.ofNat.inj hv]
  obtain ⟨hrowCount, hoffset⟩ := edits_of_literal h hl (n := n)
  constructor
  · intro hn
    obtain ⟨start, he⟩ := hrowCount hn
    obtain ⟨t, ht, rfl, hk, -⟩ := exists_replaced_of_parse h he
    exact ⟨hle t ht hk, t, ht, hk, he⟩
  · intro hn
    obtain ⟨start, he⟩ := hoffset hn
    obtain ⟨t, ht, rfl, hk, -⟩ := exists_replaced_of_parse h he
    exact ⟨hle t ht hk, t, ht, hk, he⟩

/-- **Numbers are exact from the text to the limit.**  Digits that nothing behind them continues are the first token of a
text, with their number or as an error, and every integer token is read from digits like that, at most `2 ^ 63 - 1`.  A
limit takes a number over as it is wherever it is read, and no text is refused for a count below zero. -/
theorem integers_exact :
    (∀ ds after, Token.WritesInteger ds after →
      Token.lex (String.ofList (ds ++ after)) =
        ⟨if Decimal.placeValue ds ≤ 2 ^ 63 - 1 then .integer (Decimal.placeValue ds)
          else .error "Invalid integer: number too large to fit in target type", ⟨0, Text.byteSize ds⟩,
          String.ofList ds⟩ :: Token.lexFrom (Text.byteSize ds) after) ∧
    (∀ source, ∀ t ∈ Token.lex source, ∀ v, t.kind = .integer v → ∃ before ds after,
      source.toList = before ++ (ds ++ after) ∧ Token.WritesInteger ds after ∧
      t.span = ⟨Text.byteSize before, Text.byteSize before + Text.byteSize ds⟩ ∧
      t.span.slice source = String.ofList ds ∧ v = Decimal.placeValue ds ∧ Decimal.placeValue ds ≤ 2 ^ 63 - 1) ∧
    (∀ source (s : Grammar.State), s.cursor.tokens <:+ Token.lex source →
      (∀ v, s.cursor.kind = .integer v → ∃ n : Nat, v = n ∧ n ≤ 2 ^ 63 - 1 ∧
        Grammar.limitValue s = .ok (.literal n, s.cursor.span) s.advanced) ∧
      ∀ e s', Grammar.limitValue s = .error e s' → e.cause ≠ .invalid "Negative row count") ∧
    ∀ d rule source,
      (∀ s l, parse d rule source = .ok s → s.limit = some l → ∀ n,
        (l.rowCount = some (.literal n) → n ≤ 2 ^ 63 - 1 ∧
          ∃ t ∈ Token.lex source, t.kind = .integer n ∧ .rowCount t.span.start n ∈ s.edits) ∧
        (l.offset = some (.literal n) → n ≤ 2 ^ 63 - 1 ∧
          ∃ t ∈ Token.lex source, t.kind = .integer n ∧ .offset t.span.start n ∈ s.edits)) ∧
      ∀ e, parse d rule source = .error e → e.cause ≠ .invalid "Negative row count" := by
  refine ⟨fun ds after => Token.lex_digits, fun source t ht v => Token.exists_digits_of_mem_lex ht,
    fun source s hs => ⟨fun v => Grammar.limitValue_of_integer hs, fun e s' => Grammar.cause_of_limitValue hs⟩,
    fun d rule source => ⟨fun s l h hl n => exists_integer_of_literal h hl, fun e => cause_of_parse⟩⟩

/-- A row count with zeros in front. -/
def paddedText : String :=
  "SELECT TOP 007 a FROM t"

/-- In front of the row count. -/
def paddedState : Grammar.State :=
  ⟨(Cursor.ofSource paddedText).advance.advance, .empty, false⟩

theorem integers_exact_paddedText :
    Token.lex "00042.x" = ⟨.integer 42, ⟨0, 5⟩, "00042"⟩ :: Token.lexFrom 5 ".x".toList ∧
    Token.lex "9223372036854775808e" =
      ⟨.error "Invalid integer: number too large to fit in target type", ⟨0, 19⟩, "9223372036854775808"⟩ ::
        Token.lexFrom 19 "e".toList ∧
    (∃ before ds after, paddedText.toList = before ++ (ds ++ after) ∧ Token.WritesInteger ds after ∧
      (7 : Int) = Decimal.placeValue ds) ∧
    (∃ n : Nat, (7 : Int) = n ∧ Grammar.limitValue paddedState = .ok (.literal n, ⟨11, 14⟩) paddedState.advanced) ∧
    (∃ s, parse .sqlServer .empty paddedText = .ok s ∧ ∃ t ∈ Token.lex paddedText, t.kind = .integer 7 ∧
      .rowCount t.span.start 7 ∈ s.edits) ∧
    ∃ e, parse .sqlServer .empty "SELECT TOP -1 a FROM t" = .error e ∧ e.cause ≠ .invalid "Negative row count" := by
  obtain ⟨hwritten, hread, hvalue, hparse⟩ := integers_exact
  have htoken : (⟨.integer 7, ⟨11, 14⟩, "007"⟩ : Token) ∈ Token.lex paddedText := by decide +kernel
  have hbehind : paddedState.cursor.tokens <:+ Token.lex paddedText :=
    ⟨(Token.lex paddedText).take 2, by decide +kernel⟩
  have hpoint : Token.WritesInteger "00042".toList ".x".toList :=
    ⟨by decide +kernel, List.all_eq_true.1 (by decide +kernel), by decide +kernel⟩
  have hlarge : Token.WritesInteger "9223372036854775808".toList "e".toList :=
    ⟨by decide +kernel, List.all_eq_true.1 (by decide +kernel), by decide +kernel⟩
  refine ⟨hwritten _ _ hpoint, hwritten _ _ hlarge, ?_, ?_, ?_, ?_⟩
  · obtain ⟨before, ds, after, hsource, hwrites, -, -, hv, -⟩ := hread paddedText _ htoken 7 rfl
    exact ⟨before, ds, after, hsource, hwrites, hv⟩
  · obtain ⟨n, hn, -, hok⟩ := (hvalue paddedText paddedState hbehind).1 7 (by decide +kernel)
    have hspan : paddedState.cursor.span = ⟨11, 14⟩ := by decide +kernel
    rw [hspan] at hok
    exact ⟨n, hn, hok⟩
  · refine exists_of_parse (·.limit) (some ⟨none, some (.literal 7), false⟩) rfl (by decide +kernel) fun s hs hl => ?_
    exact (((hparse .sqlServer .empty paddedText).1 s _ hs hl 7).1 rfl).2
  · have herror : parse .sqlServer .empty "SELECT TOP -1 a FROM t" =
        .error ⟨.unexpected "integer or '?'" .minus, ⟨11, 12⟩⟩ := error_of_parse rfl (by decide +kernel)
    exact ⟨_, herror, (hparse _ _ _).2 _ herror⟩

end Statement

end SelectRouting
