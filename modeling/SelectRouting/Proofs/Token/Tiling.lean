import SelectRouting.Proofs.Token.Order
/-!
# Tokens and trivia cover the text

A text is a chain of gaps and tokens.  What trivia are is said here without the automaton that skips them
(`Trivia.Gap`); the skipped part of a text is a gap, and no more trivia follow (`Trivia.gap_split`).  So each token stands
behind a gap, at the place that its span says, and the last gap ends where the text ends (`lex_tiles`).
-/
namespace SelectRouting.Token

namespace Trivia

/-! ## Gaps -/

/-- A gap in front of some text: white space, line comments that end where the line or the text does, and block comments
that end with the first closing mark behind their opening one, or with the text. -/
inductive Gap : List Char → List Char → Prop where
  | nil {after : List Char} : Gap [] after
  | space {c : Char} {cs after : List Char} (white : Text.isWhiteSpace c = true) (rest : Gap cs after) : Gap (c :: cs) after
  | line {comment cs after : List Char} (inside : '\n' ∉ comment) (stop : ∀ c ∈ (cs ++ after).head?, c = '\n')
    (rest : Gap cs after) : Gap (['-', '-'] ++ comment ++ cs) after
  | block {comment cs after : List Char} (inside : ¬ ['*', '/'] <:+: comment) (rest : Gap cs after) :
    Gap (['/', '*'] ++ comment ++ ['*', '/'] ++ cs) after
  | open {comment : List Char} (inside : ¬ ['*', '/'] <:+: comment) : Gap (['/', '*'] ++ comment) []

/-- Trivia stand at the front. -/
def Opens (cs : List Char) : Prop :=
  (∃ c ∈ cs.head?, Text.isWhiteSpace c = true) ∨ ['-', '-'] <+: cs ∨ ['/', '*'] <+: cs

/-- What is skipped from a place on, in front of some text. -/
def Skips (skipped after : List Char) : Place → Prop
  | .outside => Gap skipped after
  | .line => ∃ comment cs, skipped = comment ++ cs ∧ '\n' ∉ comment ∧ (∀ c ∈ (cs ++ after).head?, c = '\n') ∧ Gap cs after
  | .block => ∃ comment, ¬ ['*', '/'] <:+: comment ∧
    ((∃ cs, skipped = comment ++ ['*', '/'] ++ cs ∧ Gap cs after) ∨ skipped = comment ∧ after = [])

/-- A closing mark does not begin with the first of some characters. -/
theorem not_infix_cons {c : Char} {comment cs : List Char} (hinside : ¬ ['*', '/'] <:+: comment) (hcomment : comment <+: cs)
    (hc : c = '*' → ∀ d ∈ cs.head?, d ≠ '/') : ¬ ['*', '/'] <:+: c :: comment := by
  intro h
  rcases List.infix_cons_iff.1 h with hfront | hlater
  · obtain ⟨hstar, hslash⟩ := List.cons_prefix_cons.1 hfront
    obtain ⟨rest, rfl⟩ := hslash.trans hcomment
    exact hc hstar.symm '/' rfl rfl
  · exact hinside hlater

/-- One more character of a block comment, which ends where it has ended without it. -/
theorem Skips.block_cons {skipped after : List Char} {c : Char} (h : Skips skipped after .block)
    (hc : c = '*' → ∀ d ∈ (skipped ++ after).head?, d ≠ '/') : Skips (c :: skipped) after .block := by
  obtain ⟨comment, hinside, ⟨cs, rfl, hgap⟩ | ⟨rfl, hafter⟩⟩ := h
  · have hcomment : comment <+: comment ++ ['*', '/'] ++ cs ++ after := by
      rw [List.append_assoc, List.append_assoc]
      exact List.prefix_append _ _
    exact ⟨c :: comment, not_infix_cons hinside hcomment hc, .inl ⟨cs, rfl, hgap⟩⟩
  · exact ⟨c :: skipped, not_infix_cons hinside (List.prefix_append _ _) hc, .inr ⟨rfl, hafter⟩⟩

theorem skips_splitAt (p : Place) (cs : List Char) : Skips (splitAt p cs).1 (splitAt p cs).2 p := by
  fun_induction splitAt p cs with
  | case1 p =>
    cases p with
    | outside => exact .nil
    | line => exact ⟨[], [], rfl, by simp, by simp, .nil⟩
    | block => exact ⟨[], by simp, .inr ⟨rfl, rfl⟩⟩
  | case2 cs ih =>
    obtain ⟨comment, rest, hskipped, hinside, hstop, hrest⟩ := ih
    have hgap := Gap.line hinside hstop hrest
    rwa [List.append_assoc, ← hskipped] at hgap
  | case3 cs ih =>
    obtain ⟨comment, hinside, ⟨rest, hskipped, hrest⟩ | ⟨hskipped, hafter⟩⟩ := ih
    · have hgap := Gap.block hinside hrest
      rwa [List.append_assoc, List.append_assoc, ← List.append_assoc comment, ← hskipped] at hgap
    · show Gap (['/', '*'] ++ (splitAt .block cs).1) (splitAt .block cs).2
      rw [hskipped, hafter]
      exact .open hinside
  | case4 c cs hline hblock hwhite ih => exact .space hwhite ih
  | case5 c cs hline hblock hwhite => exact .nil
  | case6 cs ih =>
    have hnewline : Text.isWhiteSpace '\n' = true := by decide
    exact ⟨[], _, rfl, by simp, by simp [extend], .space hnewline ih⟩
  | case7 c cs hc ih =>
    obtain ⟨comment, rest, hskipped, hinside, hstop, hrest⟩ := ih
    refine ⟨c :: comment, rest, by simp [extend, hskipped], ?_, hstop, hrest⟩
    rintro (_ | ⟨_, hmem⟩)
    · exact hc rfl
    · exact hinside hmem
  | case8 cs ih => exact ⟨[], by simp, .inl ⟨_, rfl, ih⟩⟩
  | case9 c cs hc ih =>
    refine ih.block_cons ?_
    rw [splitAt_append]
    rintro rfl d hd rfl
    obtain ⟨tail, htail⟩ := List.head?_eq_some_iff.1 hd
    exact hc tail rfl htail

/-- All trivia are skipped. -/
theorem not_opens_splitAt (p : Place) (cs : List Char) : ¬ Opens (splitAt p cs).2 := by
  fun_induction splitAt p cs with
  | case1 => simp [Opens]
  | case5 c cs hline hblock hwhite =>
    rintro (⟨d, hd, hwhite'⟩ | ⟨rest, heq⟩ | ⟨rest, heq⟩)
    · cases hd
      exact hwhite hwhite'
    · cases heq
      exact hline rest rfl rfl
    · cases heq
      exact hblock rest rfl rfl
  | case2 _ ih | case3 _ ih | case4 _ _ _ _ _ ih | case6 _ ih | case7 _ _ _ ih | case8 _ ih | case9 _ _ _ ih => exact ih

theorem gap_split (cs : List Char) : Gap (split cs).1 (split cs).2 :=
  skips_splitAt .outside cs

theorem not_opens_split (cs : List Char) : ¬ Opens (split cs).2 :=
  not_opens_splitAt .outside cs

end Trivia

/-! ## Tiles -/

open Text (byteSize)

/-- A token in its place: the text is what is in front, a gap, the characters of the token, and the rest.  The gap takes
all trivia, and the span covers the characters. -/
structure Tile (text before gap after : List Char) (t : Token) : Prop where
  text_eq : text = before ++ gap ++ t.text.toList ++ after
  isGap : Trivia.Gap gap (t.text.toList ++ after)
  closed : ¬ Trivia.Opens (t.text.toList ++ after)
  span_eq : t.span = ⟨byteSize (before ++ gap), byteSize (before ++ gap ++ t.text.toList)⟩

/-- The token is what its first character leads to, in front of some text. -/
def LedBy (after : List Char) (t : Token) : Prop :=
  ∃ c cs, t.kind = (lexeme c cs).kind ∧ t.text = String.ofList (lexeme c cs).text ∧ after = (lexeme c cs).rest

/-- Where a token begins to be looked for: at the end of the one before. -/
def stopBefore (offset : Nat) (pre : List Token) : Nat :=
  (pre.getLast?.map (·.span.stop)).getD offset

theorem stopBefore_cons (offset : Nat) (t : Token) (pre : List Token) :
    stopBefore offset (t :: pre) = stopBefore t.span.stop pre := by
  rw [stopBefore, stopBefore, List.getLast?_cons]
  cases pre.getLast? <;> rfl

-- The offset alone does not say where in the text the characters stand, so the characters in front are given too.
theorem tile_of_lexFrom (offset : Nat) (cs : List Char) : ∀ passed : List Char, byteSize passed = offset →
    ∀ pre t post, lexFrom offset cs = pre ++ t :: post →
      ∃ before gap after, byteSize before = stopBefore offset pre ∧ Tile (passed ++ cs) before gap after t ∧
        (t.kind ≠ .eof → LedBy after t) := by
  induction offset, cs using lexFrom.induct with
  | case1 offset cs h =>
    intro passed hpassed pre t post hlex
    have hsplit := Trivia.split_append cs
    rw [h, List.append_nil] at hsplit
    have hgap := Trivia.gap_split cs
    rw [hsplit, h] at hgap
    rw [lexFrom_of_nil h, hsplit] at hlex
    obtain ⟨rfl, heq⟩ | ⟨-, hnil⟩ := List.append_eq_singleton_iff.1 hlex.symm
    · obtain ⟨rfl, -⟩ := List.cons.inj heq
      refine ⟨passed, cs, [], hpassed, ⟨by simp, by simpa using hgap, by simp [Trivia.Opens], ?_⟩, absurd rfl⟩
      simp [hpassed]
    · cases hnil
  | case2 offset cs start c rest h x stop ih =>
    intro passed hpassed pre t post hlex
    have hsplit := Trivia.split_append cs
    have hx := lexeme_append c rest
    rw [lexFrom_of_cons h] at hlex
    rw [h] at hsplit
    cases pre with
    | nil =>
      obtain ⟨rfl, -⟩ := List.cons.inj hlex
      refine ⟨passed, (Trivia.split cs).1, (lexeme c rest).rest, hpassed, ⟨?_, ?_, ?_, ?_⟩,
        fun _ => ⟨c, rest, rfl, rfl, rfl⟩⟩
      · simp only [String.toList_ofList, List.append_assoc, hx, hsplit]
      · have hgap := Trivia.gap_split cs
        rwa [String.toList_ofList, hx, ← h]
      · have hopens := Trivia.not_opens_split cs
        rwa [String.toList_ofList, hx, ← h]
      · simp [hpassed, Nat.add_assoc]
    | cons u pre =>
      obtain ⟨rfl, htail⟩ := List.cons.inj hlex
      obtain ⟨before, gap, after, hbefore, htile, hled⟩ :=
        ih (passed ++ (Trivia.split cs).1 ++ x.text) (by simp [hpassed, stop, start, x, Nat.add_assoc]) pre t post htail
      refine ⟨before, gap, after, ?_, ?_, hled⟩
      · rw [hbefore, stopBefore_cons]
      · have htext : passed ++ (Trivia.split cs).1 ++ x.text ++ x.rest = passed ++ cs := by
          rw [List.append_assoc, List.append_assoc, hx, hsplit]
        rwa [htext] at htile

theorem exists_end_of_lexFrom (offset : Nat) (cs : List Char) :
    ∃ ts, lexFrom offset cs = ts ++ [⟨.eof, ⟨offset + byteSize cs, offset + byteSize cs⟩, ""⟩] ∧
      ∀ t ∈ ts, t.kind ≠ .eof ∧ t.span.start < t.span.stop ∧ t.span.stop ≤ offset + byteSize cs := by
  induction offset, cs using lexFrom.induct with
  | case1 offset cs h =>
    have hsplit := Trivia.split_append cs
    rw [h, List.append_nil] at hsplit
    rw [lexFrom_of_nil h, hsplit]
    exact ⟨[], rfl, List.forall_mem_nil _⟩
  | case2 offset cs start c rest h x stop ih =>
    obtain ⟨ts, hlex, hts⟩ := ih
    have hsize : stop + byteSize x.rest = offset + byteSize cs := by
      have hsplit := congrArg byteSize (Trivia.split_append cs)
      have hx := congrArg byteSize (lexeme_append c rest)
      rw [Text.byteSize_append, h] at hsplit
      rw [Text.byteSize_append] at hx
      simp only [stop, start, x]
      omega
    rw [hsize] at hlex hts
    rw [lexFrom_of_cons h]
    show ∃ us, _ :: lexFrom stop x.rest = _ ∧ _
    rw [hlex]
    refine ⟨_, List.cons_append.symm, List.forall_mem_cons.2 ⟨⟨lexeme_kind_ne_eof c rest, ?_, ?_⟩, hts⟩⟩
    · exact Nat.lt_add_of_pos_right (Text.byteSize_pos (lexeme_text_ne_nil c rest))
    · exact hsize ▸ Nat.le_add_right stop _

/-- **Tokens and trivia cover the text.**  The last token is the end of the input, at the end of the text and nowhere
else; the other tokens have characters, in the order of their spans.  In front of each token, from the end of the one
before, the text is a gap, and the token itself does not begin like trivia. -/
theorem lex_tiles (source : String) :
    (∃ ts, lex source = ts ++ [⟨.eof, ⟨byteSize source.toList, byteSize source.toList⟩, ""⟩] ∧
      ∀ t ∈ ts, t.kind ≠ .eof ∧ t.span.start < t.span.stop ∧ t.span.stop ≤ byteSize source.toList) ∧
    ((lex source).Pairwise fun t u => t.span.start < u.span.start ∧ t.span.stop ≤ u.span.start) ∧
    ∀ pre t post, lex source = pre ++ t :: post →
      ∃ before gap after, byteSize before = stopBefore 0 pre ∧ Tile source.toList before gap after t := by
  refine ⟨?_, pairwise_before_lex source, fun pre t post hlex => ?_⟩
  · have hend := exists_end_of_lexFrom 0 source.toList
    rwa [Nat.zero_add] at hend
  · obtain ⟨before, gap, after, hbefore, htile, -⟩ := tile_of_lexFrom 0 source.toList [] rfl pre t post hlex
    exact ⟨before, gap, after, hbefore, htile⟩

/-- A name of one character and two bytes, a line comment, and a block comment with a slash at its start. -/
def commentedText : String :=
  "é --*/\n/*/ * / */;/*"

theorem lex_tiles_commentedText : ∃ before gap after, byteSize before = 2 ∧
    Tile commentedText.toList before gap after ⟨.semicolon, ⟨18, 19⟩, ";"⟩ := by
  have htokens : lex commentedText =
      [⟨.identifier "é", ⟨0, 2⟩, "é"⟩] ++ ⟨.semicolon, ⟨18, 19⟩, ";"⟩ :: [⟨.eof, ⟨21, 21⟩, ""⟩] := by
    decide +kernel
  exact (lex_tiles commentedText).2.2 _ _ _ htokens

end SelectRouting.Token
