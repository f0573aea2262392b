import SelectRouting.Proofs.Token.Relexing
/-!
# The token at a place of a text

A token is what the text begins with from its place on.  At the front of a text that does not begin with trivia stands its
first token (`lexFrom_of_not_opens`), and wherever in a text a token stands, it is the one that the characters from there
on lead to (`lexeme_of_start`).
-/
namespace SelectRouting.Token

open Text (byteSize isWhiteSpace)

theorem lexFrom_of_not_opens {c : Char} {cs : List Char} (h : ¬ Trivia.Opens (c :: cs)) (offset : Nat) :
    lexFrom offset (c :: cs) =
      ⟨(lexeme c cs).kind, ⟨offset, offset + byteSize (lexeme c cs).text⟩, String.ofList (lexeme c cs).text⟩ ::
        lexFrom (offset + byteSize (lexeme c cs).text) (lexeme c cs).rest := by
  have hsplit := Trivia.split_of_not_opens h
  rw [lexFrom_of_cons (congrArg Prod.snd hsplit), hsplit]
  rfl

section
variable {source : String} {t : Token}

/-- The end of the input stands at the end of the text. -/
theorem start_of_eof (ht : t ∈ lex source) (hk : t.kind = .eof) : t.span.start = byteSize source.toList := by
  obtain ⟨ts, hlex, hts⟩ := exists_end_of_lexFrom 0 source.toList
  rw [lex, hlex, List.mem_append, List.mem_singleton] at ht
  rcases ht with ht | rfl
  · exact absurd hk (hts t ht).1
  · exact Nat.zero_add _

/-- A token with the characters of the text in front of it and from its place on. -/
theorem exists_start_of_mem_lex (ht : t ∈ lex source) (hk : t.kind ≠ .eof) :
    ∃ before c cs, source.toList = before ++ c :: cs ∧ byteSize before = t.span.start ∧ t.kind = (lexeme c cs).kind ∧
      t.text = String.ofList (lexeme c cs).text := by
  obtain ⟨pre, post, hlex⟩ := List.append_of_mem ht
  obtain ⟨before, gap, after, -, htile, hled⟩ := tile_of_lexFrom 0 source.toList [] rfl pre t post hlex
  obtain ⟨c, cs, hkind, htext, hafter⟩ := hled hk
  refine ⟨before ++ gap, c, cs, ?_, (congrArg Span.start htile.span_eq).symm, hkind, htext⟩
  have hsource := htile.text_eq
  rw [htext, String.toList_ofList, hafter, List.append_assoc _ _ (lexeme c cs).rest, lexeme_append] at hsource
  exact hsource

/-- Two places of a text with the same number of bytes in front have the same characters behind. -/
theorem behind_of_byteSize {a b as bs : List Char} (h : a ++ as = b ++ bs) (hsize : byteSize a = byteSize b) :
    as = bs := by
  have ha := Text.dropBytes?_byteSize a as
  rw [h, hsize, Text.dropBytes?_byteSize] at ha
  exact (Option.some.inj ha).symm

/-- **A token is what the characters from its place on lead to.** -/
theorem lexeme_of_start (ht : t ∈ lex source) {before cs : List Char} {c : Char}
    (hsource : source.toList = before ++ c :: cs) (hstart : t.span.start = byteSize before) :
    t.kind = (lexeme c cs).kind ∧ t.text = String.ofList (lexeme c cs).text := by
  have hk : t.kind ≠ .eof := by
    intro hk
    have hend := start_of_eof ht hk
    have hpos := Text.byteSize_pos (List.cons_ne_nil c cs)
    rw [hstart, hsource, Text.byteSize_append] at hend
    omega
  obtain ⟨before', c', cs', hsource', hstart', hkind, htext⟩ := exists_start_of_mem_lex ht hk
  have hbehind := behind_of_byteSize (hsource'.symm.trans hsource) (hstart'.trans hstart)
  obtain ⟨rfl, rfl⟩ := List.cons.inj hbehind
  exact ⟨hkind, htext⟩

end

end SelectRouting.Token
