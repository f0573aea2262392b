import SelectRouting.Proofs.Token.Tiling
import SelectRouting.Proofs.Token.Boundary
/-!
# The tokens of a text as texts

Lexing does not look outside a token: the characters of a token alone are lexed to that token, and the characters of all
tokens, with any white space between them, to tokens of the same kinds (`lex_again`).
-/
namespace SelectRouting.Token

open Text (isWhiteSpace byteSize Spaced)

/-! ## Trivia in front of a token -/

namespace Trivia

theorem split_of_not_opens {cs : List Char} (h : ¬ Opens cs) : split cs = ([], cs) := by
  have happend := split_append cs
  have hgap := gap_split cs
  generalize split cs = r at happend hgap ⊢
  obtain ⟨gap, after⟩ := r
  cases hgap with
  | nil => exact congrArg (Prod.mk []) happend
  | space white rest =>
    subst happend
    exact absurd (.inl ⟨_, rfl, white⟩) h
  | line inside stop rest =>
    subst happend
    exact absurd (.inr (.inl (by simp))) h
  | block inside rest =>
    subst happend
    exact absurd (.inr (.inr (by simp))) h
  | «open» inside =>
    subst happend
    exact absurd (.inr (.inr (by simp))) h

theorem split_white {c : Char} (hc : isWhiteSpace c = true) (cs : List Char) : split (c :: cs) = extend [c] (split cs) := by
  unfold split
  rw [splitAt, if_pos hc]
  · rintro ds rfl
    exact absurd hc (by decide)
  · rintro ds rfl
    exact absurd hc (by decide)

theorem split_white_append {gap : List Char} (hgap : ∀ c ∈ gap, isWhiteSpace c = true) (cs : List Char) :
    (split (gap ++ cs)).2 = (split cs).2 := by
  induction gap with
  | nil => rfl
  | cons c gap ih =>
    obtain ⟨hc, hgap⟩ := List.forall_mem_cons.1 hgap
    rw [List.cons_append, split_white hc]
    exact ih hgap

/-- A token that did not begin like trivia does not so either with white space behind it. -/
theorem not_opens_of_text {c : Char} {xs rest : List Char} (h : ¬ Opens (c :: xs ++ rest)) {after : List Char}
    (hafter : Spaced after) : ¬ Opens (c :: xs ++ after) := by
  have hwhite : isWhiteSpace c ≠ true := fun hc => h (.inl ⟨c, rfl, hc⟩)
  have hsecond : ∀ d : Char, isWhiteSpace d = false → [c, d] <+: c :: xs ++ after → [c, d] <+: c :: xs ++ rest := by
    intro d hd hfront
    cases xs with
    | nil =>
      obtain ⟨tail, htail⟩ := hfront
      obtain ⟨-, rfl⟩ := List.cons.inj htail
      simp [hafter d rfl] at hd
    | cons x xs =>
      have hd : d = x := (List.cons_prefix_cons.1 (List.cons_prefix_cons.1 hfront).2).1
      simp [hd]
  rintro (⟨d, hd, hwhite'⟩ | hfront | hfront)
  · cases hd
    exact hwhite hwhite'
  · obtain ⟨rfl, -⟩ := List.cons_prefix_cons.1 hfront
    exact h (.inr (.inl (hsecond '-' (by decide) hfront)))
  · obtain ⟨rfl, -⟩ := List.cons_prefix_cons.1 hfront
    exact h (.inr (.inr (hsecond '*' (by decide) hfront)))

end Trivia

theorem not_opens_of_head {c : Char} (hwhite : isWhiteSpace c = false) (hminus : c ≠ '-') (hslash : c ≠ '/')
    (xs : List Char) : ¬ Trivia.Opens (c :: xs) := by
  rintro (⟨d, hd, h⟩ | h | h)
  · cases hd
    rw [hwhite] at h
    cases h
  · exact hminus (List.cons_prefix_cons.1 h).1.symm
  · exact hslash (List.cons_prefix_cons.1 h).1.symm

theorem not_opens_of_isDigit {c : Char} (hc : Decimal.isDigit c = true) (xs : List Char) : ¬ Trivia.Opens (c :: xs) := by
  refine not_opens_of_head ?_ ?_ ?_ xs
  · exact Bool.eq_false_iff.2 fun hwhite => by simp [Decimal.isDigit_of_white hwhite] at hc
  · rintro rfl
    cases hc
  · rintro rfl
    cases hc

theorem not_opens_opening (q : Quote) (xs : List Char) : ¬ Trivia.Opens (q.opening :: xs) := by
  cases q <;> exact not_opens_of_head (by decide) (by decide) (by decide) xs

/-! ## Kinds -/

theorem kinds_of_offset (offset : Nat) (cs : List Char) :
    ∀ offset', (lexFrom offset' cs).map (·.kind) = (lexFrom offset cs).map (·.kind) := by
  induction offset, cs using lexFrom.induct with
  | case1 offset cs h =>
    intro offset'
    rw [lexFrom_of_nil h, lexFrom_of_nil h]
    rfl
  | case2 offset cs start c rest h x stop ih =>
    intro offset'
    rw [lexFrom_of_cons h, lexFrom_of_cons h]
    exact congrArg (x.kind :: ·) (ih _)

theorem kinds_of_split {cs cs' : List Char} (h : (Trivia.split cs).2 = (Trivia.split cs').2) (offset offset' : Nat) :
    (lexFrom offset cs).map (·.kind) = (lexFrom offset' cs').map (·.kind) := by
  cases hcs : (Trivia.split cs').2 with
  | nil =>
    rw [lexFrom_of_nil (h.trans hcs), lexFrom_of_nil hcs]
    rfl
  | cons c rest =>
    rw [lexFrom_of_cons (h.trans hcs), lexFrom_of_cons hcs]
    exact congrArg ((lexeme c rest).kind :: ·) (kinds_of_offset _ _ _)

/-- The kinds of a text that does not begin with trivia. -/
theorem kinds_of_not_opens {c : Char} {cs : List Char} (h : ¬ Trivia.Opens (c :: cs)) (offset : Nat) :
    (lexFrom offset (c :: cs)).map (·.kind) = (lexeme c cs).kind :: (lexFrom 0 (lexeme c cs).rest).map (·.kind) := by
  have hsplit : (Trivia.split (c :: cs)).2 = c :: cs := by rw [Trivia.split_of_not_opens h]
  rw [lexFrom_of_cons hsplit]
  exact congrArg ((lexeme c cs).kind :: ·) (kinds_of_offset _ _ _)

/-! ## One token -/

/-- The characters of a token alone are read as that token, closed or not. -/
theorem lexeme_of_own_text {c : Char} {cs xs : List Char} (htext : (lexeme c cs).text = c :: xs) :
    lexeme c xs = ⟨(lexeme c cs).kind, (lexeme c cs).text, []⟩ := by
  by_cases hclosed : Unclosed c cs
  · have hnone : ∀ d ∈ ([] : List Char), isWhiteSpace d = true := List.forall_mem_nil _
    obtain ⟨hall, -, hagain⟩ := lexeme_of_unclosed hclosed hnone
    obtain rfl : cs = xs := (List.cons.inj (hall.symm.trans htext)).2
    rw [List.append_nil] at hagain
    rw [hall]
    exact hagain
  · have hagain := lexeme_of_text hclosed htext Text.spaced_nil
    rwa [List.append_nil] at hagain

theorem lexFrom_nil (offset : Nat) : lexFrom offset [] = [⟨.eof, ⟨offset, offset⟩, ""⟩] :=
  lexFrom_of_nil rfl

section
variable {t : Token} {after : List Char}

theorem lex_text (hled : LedBy after t) (hopens : ¬ Trivia.Opens (t.text.toList ++ after)) :
    lex t.text = [⟨t.kind, ⟨0, byteSize t.text.toList⟩, t.text⟩,
      ⟨.eof, ⟨byteSize t.text.toList, byteSize t.text.toList⟩, ""⟩] := by
  obtain ⟨c, cs, hkind, htext, -⟩ := hled
  obtain ⟨xs, hchars, -⟩ := exists_text_of_lexeme c cs
  rw [hchars] at htext
  have hfront : ¬ Trivia.Opens (c :: xs) := by
    rw [htext, String.toList_ofList] at hopens
    have hown := Trivia.not_opens_of_text hopens Text.spaced_nil
    rwa [List.append_nil] at hown
  have hsplit := Trivia.split_of_not_opens hfront
  have hagain := lexeme_of_own_text hchars
  rw [lex, htext, String.toList_ofList, lexFrom_of_cons (congrArg Prod.snd hsplit), hagain, hsplit, hkind]
  simp [byteSize, hchars, lexFrom_nil]

theorem stops_of_ledBy (hled : LedBy after t) {d : Char} (hd : d ∈ after.head?) : Stops t.text.toList d := by
  obtain ⟨c, cs, -, htext, rfl⟩ := hled
  rw [htext, String.toList_ofList]
  exact stops_lexeme c cs d hd

end

/-! ## All tokens -/

/-- The kinds of a text that begins with the characters of a token, when white space keeps them apart from the rest. -/
theorem kinds_text_append {c : Char} {cs gap tail : List Char} (hopens : ¬ Trivia.Opens (c :: cs))
    (hgap : ∀ d ∈ gap, isWhiteSpace d = true) (hapart : gap = [] → tail = [])
    (hend : (lexeme c cs).rest = [] → tail = []) (offset : Nat) :
    (lexFrom offset ((lexeme c cs).text ++ (gap ++ tail))).map (·.kind) =
      (lexeme c cs).kind :: (lexFrom 0 tail).map (·.kind) := by
  obtain ⟨xs, htext, hcs⟩ := exists_text_of_lexeme c cs
  have hspaced : Spaced (gap ++ tail) := by
    cases gap with
    | nil =>
      rw [hapart rfl]
      exact Text.spaced_nil
    | cons d gap =>
      rintro _ ⟨⟩
      exact hgap d List.mem_cons_self
  have hfront : ¬ Trivia.Opens (c :: (xs ++ (gap ++ tail))) := by
    rw [hcs] at hopens
    exact Trivia.not_opens_of_text hopens hspaced
  rw [htext, List.cons_append, kinds_of_not_opens hfront]
  by_cases hclosed : Unclosed c cs
  · obtain ⟨hall, hrest, hagain⟩ := lexeme_of_unclosed hclosed hgap
    obtain rfl : cs = xs := (List.cons.inj (hall.symm.trans htext)).2
    rw [hend hrest, List.append_nil, hagain]
  · rw [lexeme_of_text hclosed htext hspaced]
    exact congrArg _ (kinds_of_split (Trivia.split_white_append hgap tail) 0 0)

/-- Some texts, with a gap behind each. -/
def spread (texts gaps : List (List Char)) : List Char :=
  (List.zipWith (· ++ ·) texts gaps).flatten

theorem spread_nil (texts : List (List Char)) : spread texts [] = [] := by
  rw [spread, List.zipWith_nil_right, List.flatten_nil]

/-- Only the last gap may be empty, also without the first. -/
theorem of_dropLast_cons {gap : List Char} {gaps : List (List Char)} (h : ∀ g ∈ (gap :: gaps).dropLast, g ≠ []) :
    (gap = [] → gaps = []) ∧ ∀ g ∈ gaps.dropLast, g ≠ [] := by
  cases gaps with
  | nil => exact ⟨fun _ => rfl, List.forall_mem_nil _⟩
  | cons g gaps =>
    obtain ⟨hgap, hgaps⟩ := List.forall_mem_cons.1 h
    exact ⟨fun hnil => absurd hnil hgap, hgaps⟩

theorem kinds_spread (offset : Nat) (cs : List Char) : ∀ gaps : List (List Char),
    gaps.length + 1 = (lexFrom offset cs).length → (∀ gap ∈ gaps, ∀ c ∈ gap, isWhiteSpace c = true) →
      (∀ gap ∈ gaps.dropLast, gap ≠ []) →
        (lexFrom 0 (spread ((lexFrom offset cs).map (·.text.toList)) gaps)).map (·.kind) =
          (lexFrom offset cs).map (·.kind) := by
  induction offset, cs using lexFrom.induct with
  | case1 offset cs h =>
    intro gaps hlength hwhite hne
    rw [lexFrom_of_nil h] at hlength ⊢
    obtain rfl : gaps = [] := List.eq_nil_of_length_eq_zero (by simpa using hlength)
    rw [spread_nil, lexFrom_nil]
    rfl
  | case2 offset cs start c rest h x stop ih =>
    intro gaps hlength hwhite hne
    have hlex : lexFrom offset cs = ⟨x.kind, ⟨start, stop⟩, String.ofList x.text⟩ :: lexFrom stop x.rest :=
      lexFrom_of_cons h
    have hopens := Trivia.not_opens_split cs
    rw [h] at hopens
    rw [hlex] at hlength ⊢
    cases gaps with
    | nil =>
      have hcomplete := complete_lexFrom stop x.rest
      rw [List.eq_nil_of_length_eq_zero (l := lexFrom stop x.rest) (by simpa using hlength)] at hcomplete
      exact hcomplete.elim
    | cons gap gaps =>
      obtain ⟨hgap, hwhite⟩ := List.forall_mem_cons.1 hwhite
      have hlength : gaps.length + 1 = (lexFrom stop x.rest).length := by simpa using hlength
      have hnone : gaps = [] → spread ((lexFrom stop x.rest).map (·.text.toList)) gaps = [] := by
        rintro rfl
        exact spread_nil _
      obtain ⟨hapart, hne⟩ := of_dropLast_cons hne
      have hend : x.rest = [] → gaps = [] := fun hrest => by
        rw [hrest, lexFrom_nil] at hlength
        exact List.eq_nil_of_length_eq_zero (by simpa using hlength)
      have hstep := kinds_text_append hopens hgap (hnone ∘ hapart) (hnone ∘ hend) 0
      rw [ih gaps hlength hwhite hne] at hstep
      refine Eq.trans (congrArg (fun cs => (lexFrom 0 cs).map (·.kind)) ?_) hstep
      simp [spread, x]

/-- **Lexing does not look outside a token.**  The characters of a token alone are lexed to that token, and no token could
have taken more of the text.  The characters of all tokens, with white space behind each, or behind each but the last, are
lexed to tokens of the same kinds. -/
theorem lex_again (source : String) :
    (∀ t ∈ lex source, t.kind ≠ .eof →
      lex (t.span.slice source) = [⟨t.kind, ⟨0, t.span.stop - t.span.start⟩, t.text⟩,
        ⟨.eof, ⟨t.span.stop - t.span.start, t.span.stop - t.span.start⟩, ""⟩] ∧
      ∀ d after, Text.dropBytes? source.toList t.span.stop = some (d :: after) → Stops t.text.toList d) ∧
    ∀ gaps : List (List Char), gaps.length + 1 = (lex source).length →
      (∀ gap ∈ gaps, ∀ c ∈ gap, isWhiteSpace c = true) → (∀ gap ∈ gaps.dropLast, gap ≠ []) →
        (lex (String.ofList (spread ((lex source).map fun t => (t.span.slice source).toList) gaps))).map (·.kind) =
          (lex source).map (·.kind) := by
  constructor
  · intro t ht hkind
    obtain ⟨pre, post, hlex⟩ := List.append_of_mem ht
    obtain ⟨before, gap, after, -, htile, hled⟩ := tile_of_lexFrom 0 source.toList [] rfl pre t post hlex
    have hlength : t.span.stop - t.span.start = byteSize t.text.toList := by
      rw [stop_of_mem_lex ht]
      omega
    refine ⟨?_, fun d rest hrest => ?_⟩
    · rw [slice_of_mem_lex ht, hlength]
      exact lex_text (hled hkind) htile.closed
    · have hafter := Text.dropBytes?_byteSize (before ++ gap ++ t.text.toList) after
      have hstop : t.span.stop = byteSize (before ++ gap ++ t.text.toList) := congrArg Span.stop htile.span_eq
      rw [← htile.text_eq, ← hstop, List.nil_append, hrest] at hafter
      exact stops_of_ledBy (hled hkind) (by rw [← Option.some.inj hafter]; rfl)
  · intro gaps hlength hwhite hne
    have htexts : (lex source).map (fun t => (t.span.slice source).toList) = (lex source).map (·.text.toList) :=
      List.map_congr_left fun t ht => by rw [slice_of_mem_lex ht]
    rw [htexts, lex, String.toList_ofList]
    exact kinds_spread 0 source.toList gaps hlength hwhite hne

/-- A numeral without the digits of its exponent, signs that could be read together, and a string that is not closed. -/
def brokenText : String :=
  "1e+x<!=| |\u3000'a''--\n"

/-- White space behind each token, and nothing behind the last. -/
def brokenGaps : List (List Char) :=
  [[' '], ['\n'], ['\t'], ['\u00a0'], [' ', ' '], [' '], []]

theorem lex_again_brokenText :
    (∃ t ∈ lex brokenText, t.kind = .error "Invalid float: invalid float literal" ∧
      lex (t.span.slice brokenText) = [⟨t.kind, ⟨0, 3⟩, "1e+"⟩, ⟨.eof, ⟨3, 3⟩, ""⟩]) ∧
    (lex (String.ofList
      (spread ((lex brokenText).map fun t => (t.span.slice brokenText).toList) brokenGaps))).map (·.kind) =
        (lex brokenText).map (·.kind) := by
  constructor
  · have hmem : (⟨.error "Invalid float: invalid float literal", ⟨0, 3⟩, "1e+"⟩ : Token) ∈ lex brokenText := by
      decide +kernel
    exact ⟨_, hmem, rfl, ((lex_again brokenText).1 _ hmem (by decide)).1⟩
  · have hwhite : brokenGaps.all (·.all isWhiteSpace) = true := by decide
    have hwhite : ∀ gap ∈ brokenGaps, ∀ c ∈ gap, isWhiteSpace c = true := by
      simpa only [List.all_eq_true] using hwhite
    exact (lex_again brokenText).2 brokenGaps (by decide +kernel) hwhite (by decide)

end SelectRouting.Token
