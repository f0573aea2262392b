import SelectRouting.Proofs.Token.Name
import SelectRouting.Proofs.Token.Place
/-!
# Quoting a text and reading it back

A payload is written between its marks with every closing mark doubled (`Quote.written`).  The reader decides at each
closing mark by the one character behind it, and finds no end exactly where the text behind the opening mark does not
lead to a closing mark that stands alone (`Quote.read?_eq_none_iff`).  So what was written is read back in front of any
text that does not begin with the closing mark, every string and every quoted name of a text is written like that, and a
text that is not closed is an error up to its end (`lex_written`).
-/
namespace SelectRouting.Token

open Text (byteSize)

namespace Quote

/-- A payload between its marks, with every closing mark doubled. -/
def written (q : Quote) (payload : String) : String :=
  String.ofList (q.opening :: (encode q.closing payload.toList ++ [q.closing]))

/-- Behind an opening mark, a payload with every closing mark doubled leads to a closing mark that stands alone. -/
def Closed (q : Quote) (cs : List Char) : Prop :=
  ∃ payload after, cs = encode q.closing payload ++ q.closing :: after ∧ after.head? ≠ some q.closing

/-! ## Reading -/

/-- A payload ends at a closing mark that no other one follows. -/
theorem head?_of_read? {close : Char} {cs payload rest : List Char} (h : read? close cs = some (payload, rest)) :
    rest.head? ≠ some close := by
  fun_induction read? close cs generalizing payload with
  | case1 => cases h
  | case2 =>
    obtain ⟨-, rfl⟩ := Prod.mk.inj (Option.some.inj h)
    simp
  | case3 => cases h
  | case4 cs ih =>
    obtain ⟨r, hr, heq⟩ := Option.map_eq_some_iff.1 h
    obtain ⟨-, rfl⟩ := Prod.mk.inj heq
    exact ih hr
  | case5 d cs hd =>
    obtain ⟨-, rfl⟩ := Prod.mk.inj (Option.some.inj h)
    simpa using hd
  | case6 c d cs hc ih =>
    obtain ⟨r, hr, heq⟩ := Option.map_eq_some_iff.1 h
    obtain ⟨-, rfl⟩ := Prod.mk.inj heq
    exact ih hr

theorem read?_eq_none_iff {q : Quote} {cs : List Char} : read? q.closing cs = none ↔ ¬ q.Closed cs := by
  constructor
  · rintro hnone ⟨payload, after, rfl, hafter⟩
    rw [read?_encode q.closing payload after hafter] at hnone
    cases hnone
  · intro hclosed
    cases hread : read? q.closing cs with
    | none => rfl
    | some r => exact absurd ⟨r.1, r.2, append_of_read? hread, head?_of_read? hread⟩ hclosed

end Quote

/-! ## Quoted tokens -/

section
variable (q : Quote)

theorem lexeme_opening (cs : List Char) : lexeme q.opening cs = quoted q cs :=
  lexeme_of_quote (ofOpening?_opening q) cs

theorem quoted_encode (payload : List Char) {after : List Char} (hafter : after.head? ≠ some q.closing) :
    quoted q (Quote.encode q.closing payload ++ q.closing :: after) =
      ⟨q.kind (String.ofList payload), (q.written (String.ofList payload)).toList, after⟩ := by
  simp only [quoted, Quote.read?_encode q.closing payload after hafter, Quote.written, String.toList_ofList]

theorem quoted_of_not_closed {cs : List Char} (hclosed : ¬ q.Closed cs) :
    quoted q cs = ⟨.error q.unterminated, q.opening :: cs, []⟩ := by
  simp only [quoted, Quote.read?_eq_none_iff.2 hclosed]

/-- Behind an opening mark there is a payload as it is written, or an error. -/
theorem quoted_cases (cs : List Char) :
    (∃ payload, (quoted q cs).kind = q.kind payload ∧ String.ofList (quoted q cs).text = q.written payload) ∨
      (quoted q cs).kind = .error q.unterminated := by
  by_cases hclosed : q.Closed cs
  · obtain ⟨payload, after, rfl, hafter⟩ := hclosed
    rw [quoted_encode q payload hafter]
    exact .inl ⟨_, rfl, String.ofList_toList⟩
  · rw [quoted_of_not_closed q hclosed]
    exact .inr rfl

theorem quoted_ne_keyword (cs : List Char) (k : Keyword) : (quoted q cs).kind ≠ .keyword k := by
  rcases quoted_cases q cs with ⟨payload, hkind, -⟩ | hkind
  · rw [hkind]
    cases q <;> exact nofun
  · rw [hkind]
    exact nofun

end

/-! ## Strings and names -/

/-- A text that is a value: a string between its marks, a name with or without marks around it. -/
def Kind.Quotes (text : String) : Kind → Prop
  | .string value => text = Quote.single.written value
  | .identifier name =>
    (text = name ∧ ∃ c ∈ name.toList.head?, isWordStart c = true) ∨ ∃ q ≠ Quote.single, text = q.written name
  | _ => True

theorem quotes_quoted (q : Quote) (cs : List Char) : (quoted q cs).kind.Quotes (String.ofList (quoted q cs).text) := by
  rcases quoted_cases q cs with ⟨payload, hkind, htext⟩ | hkind
  · rw [hkind, htext]
    cases q with
    | single => exact rfl
    | double => exact .inr ⟨.double, nofun, rfl⟩
    | back => exact .inr ⟨.back, nofun, rfl⟩
    | bracket => exact .inr ⟨.bracket, nofun, rfl⟩
  · rw [hkind]
    trivial

theorem quotes_word {c : Char} (hc : isWordStart c = true) (cs : List Char) :
    (wordKind (c :: cs)).Quotes (String.ofList (c :: cs)) := by
  unfold wordKind
  split
  · trivial
  · exact .inl ⟨rfl, c, by rw [String.toList_ofList]; rfl, hc⟩

theorem Kind.Numeric.quotes {k : Kind} (h : k.Numeric) (text : String) : k.Quotes text := by
  cases k <;> trivial

theorem Kind.Sign.quotes {k : Kind} (h : k.Sign) (text : String) : k.Quotes text := by
  cases k <;> trivial

theorem quotes_lexeme (c : Char) (cs : List Char) : (lexeme c cs).kind.Quotes (String.ofList (lexeme c cs).text) := by
  unfold lexeme
  split
  · exact quotes_quoted _ cs
  · split
    · exact (numeric_numeralKind _).quotes _
    · split
      · next hword => exact quotes_word hword _
      · exact (sign_sign c cs).quotes _

theorem quotes_of_mem_lex {source : String} {t : Token} (ht : t ∈ lex source) :
    t.kind.Quotes (t.span.slice source) := by
  rw [slice_of_mem_lex ht]
  rcases exists_lexeme_of_mem_lexFrom 0 source.toList t ht with heof | ⟨c, cs, hkind, htext⟩
  · rw [heof]
    trivial
  · rw [hkind, htext]
    exact quotes_lexeme c cs

/-! ## Texts -/

theorem lex_of_written (q : Quote) (payload after : String) (hafter : after.toList.head? ≠ some q.closing) :
    lex (q.written payload ++ after) =
      ⟨q.kind payload, ⟨0, byteSize (q.written payload).toList⟩, q.written payload⟩ ::
        lexFrom (byteSize (q.written payload).toList) after.toList := by
  have hchars : (q.written payload ++ after).toList =
      q.opening :: (Quote.encode q.closing payload.toList ++ q.closing :: after.toList) := by
    rw [String.toList_append, Quote.written, String.toList_ofList]
    simp only [List.cons_append, List.append_assoc, List.nil_append]
  rw [lex, hchars, lexFrom_of_not_opens (not_opens_opening q _), lexeme_opening, quoted_encode q _ hafter]
  simp only [String.ofList_toList, Nat.zero_add]

theorem lex_of_not_closed (q : Quote) {cs : List Char} (hclosed : ¬ q.Closed cs) :
    lex (String.ofList (q.opening :: cs)) =
      [⟨.error q.unterminated, ⟨0, byteSize (q.opening :: cs)⟩, String.ofList (q.opening :: cs)⟩,
        ⟨.eof, ⟨byteSize (q.opening :: cs), byteSize (q.opening :: cs)⟩, ""⟩] := by
  rw [lex, String.toList_ofList, lexFrom_of_not_opens (not_opens_opening q _), lexeme_opening,
    quoted_of_not_closed q hclosed]
  simp only [lexFrom_nil, Nat.zero_add]

/-- **What is written between quotes is read back.**  In front of a text that does not begin with the closing mark, a
written payload is the first token, and an opening mark that nothing closes makes an error of all that follows.  Every
string and every quoted name of a text is written like that.  Wherever a token begins with an opening mark, it is the
payload up to the mark that closes it, or an error up to the end of the text, and never a keyword. -/
theorem lex_written :
    (∀ (q : Quote) (payload after : String), after.toList.head? ≠ some q.closing →
      lex (q.written payload ++ after) =
        ⟨q.kind payload, ⟨0, byteSize (q.written payload).toList⟩, q.written payload⟩ ::
          lexFrom (byteSize (q.written payload).toList) after.toList) ∧
    (∀ (q : Quote) (cs : List Char), ¬ q.Closed cs →
      lex (String.ofList (q.opening :: cs)) =
        [⟨.error q.unterminated, ⟨0, byteSize (q.opening :: cs)⟩, String.ofList (q.opening :: cs)⟩,
          ⟨.eof, ⟨byteSize (q.opening :: cs), byteSize (q.opening :: cs)⟩, ""⟩]) ∧
    ∀ (source : String), ∀ t ∈ lex source,
      (∀ value, t.kind = .string value → t.span.slice source = Quote.single.written value) ∧
      (∀ name, t.kind = .identifier name →
        (t.span.slice source = name ∧ ∃ c ∈ name.toList.head?, isWordStart c = true) ∨
          ∃ q ≠ Quote.single, t.span.slice source = q.written name) ∧
      ∀ (q : Quote) (before cs : List Char), source.toList = before ++ q.opening :: cs → t.span.start = byteSize before →
        (∀ payload after, cs = Quote.encode q.closing payload ++ q.closing :: after → after.head? ≠ some q.closing →
          t.kind = q.kind (String.ofList payload) ∧ t.span.slice source = q.written (String.ofList payload)) ∧
        (¬ q.Closed cs → t.kind = .error q.unterminated ∧ t.span.stop = byteSize source.toList) ∧
        ∀ k, t.kind ≠ .keyword k := by
  refine ⟨lex_of_written, fun q cs => lex_of_not_closed q, fun source t ht => ?_⟩
  have hquotes := quotes_of_mem_lex ht
  refine ⟨fun value hkind => ?_, fun name hkind => ?_, fun q before cs hsource hstart => ?_⟩
  · rwa [hkind] at hquotes
  · rwa [hkind] at hquotes
  obtain ⟨hkind, htext⟩ := lexeme_of_start ht hsource hstart
  rw [lexeme_opening] at hkind htext
  refine ⟨fun payload after hcs hafter => ?_, fun hclosed => ?_, fun k => ?_⟩
  · subst hcs
    rw [quoted_encode q payload hafter] at hkind htext
    exact ⟨hkind, (slice_of_mem_lex ht).trans (htext.trans String.ofList_toList)⟩
  · rw [quoted_of_not_closed q hclosed] at hkind htext
    refine ⟨hkind, ?_⟩
    rw [stop_of_mem_lex ht, htext, String.toList_ofList, hstart, hsource, Text.byteSize_append]
  · rw [hkind]
    exact quoted_ne_keyword q cs k

/-- A string that begins with its own mark, a bracket in brackets, and a name that is not closed behind a doubled mark. -/
def quotedText : String :=
  "'''é'[]]]\"select\"\"b"

theorem lex_written_quotedText :
    lex quotedText = ⟨.string "'é", ⟨0, 6⟩, "'''é'"⟩ :: lexFrom 6 "[]]]\"select\"\"b".toList ∧
    lex "\"select\"\"b" = [⟨.error "Unterminated quoted identifier", ⟨0, 10⟩, "\"select\"\"b"⟩, ⟨.eof, ⟨10, 10⟩, ""⟩] ∧
    (∃ t ∈ lex quotedText, t.kind = .string "'é" ∧ t.span.slice quotedText = Quote.single.written "'é") ∧
    (∃ t ∈ lex quotedText, t.kind = .identifier "]" ∧
      ((t.span.slice quotedText = "]" ∧ ∃ c ∈ "]".toList.head?, isWordStart c = true) ∨
        ∃ q ≠ Quote.single, t.span.slice quotedText = q.written "]")) ∧
    ∃ t ∈ lex quotedText, t.kind = .error "Unterminated quoted identifier" ∧ t.span.stop = byteSize quotedText.toList ∧
      ∀ k, t.kind ≠ .keyword k := by
  have hopen : ¬ Quote.Closed .double "select\"\"b".toList := Quote.read?_eq_none_iff.1 (by decide +kernel)
  have hstring : (⟨.string "'é", ⟨0, 6⟩, "'''é'"⟩ : Token) ∈ lex quotedText := by decide +kernel
  have hname : (⟨.identifier "]", ⟨6, 10⟩, "[]]]"⟩ : Token) ∈ lex quotedText := by decide +kernel
  have herror : (⟨.error "Unterminated quoted identifier", ⟨10, 20⟩, "\"select\"\"b"⟩ : Token) ∈ lex quotedText := by
    decide +kernel
  have hbehind := ((lex_written.2.2 quotedText _ herror).2.2 .double "'''é'[]]]".toList "select\"\"b".toList
    (by decide +kernel) (by decide +kernel)).2
  refine ⟨?_, ?_, ⟨_, hstring, rfl, (lex_written.2.2 quotedText _ hstring).1 _ rfl⟩,
    ⟨_, hname, rfl, (lex_written.2.2 quotedText _ hname).2.1 _ rfl⟩,
    ⟨_, herror, (hbehind.1 hopen).1, (hbehind.1 hopen).2, hbehind.2⟩⟩
  · exact lex_written.1 .single "'é" "[]]]\"select\"\"b" (by decide +kernel)
  · exact lex_written.2.1 .double "select\"\"b".toList hopen

end SelectRouting.Token
