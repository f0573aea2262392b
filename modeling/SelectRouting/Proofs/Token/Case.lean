import SelectRouting.Proofs.Token.Name
import Mathlib.Data.List.Forall2
/-!
# Tokens in lower case

Reading does not look at the case of a letter: keywords are looked up in upper case, a letter is part of a word in either
case, and otherwise only the `e` of an exponent is a letter.  So a text in lower case has the tokens of the text, in lower
case and at the same places (`lexFrom_toLower`).  Texts that are the same up to case have tokens that are
(`alike_of_fold_eq`).
-/
namespace SelectRouting

/-! ## Characters -/

namespace Text

theorem toLower_letter : ∀ n < 26, (Char.ofNat (65 + n)).toLower = Char.ofNat (97 + n) := by decide

theorem isAlpha_letter : ∀ n < 26, (Char.ofNat (97 + n)).isAlpha = true ∧ (Char.ofNat (65 + n)).isAlpha = true := by
  decide

/-- Only the letters `A` to `Z` have a lower case of their own. -/
theorem exists_letter_or_toLower_eq (c : Char) : (∃ n < 26, c = Char.ofNat (65 + n)) ∨ c.toLower = c := by
  by_cases hc : c.val ≥ 'A'.val ∧ c.val ≤ 'Z'.val
  · have hfirst : 65 ≤ c.toNat := hc.1
    have hlast : c.toNat ≤ 90 := hc.2
    refine .inl ⟨c.toNat - 65, by omega, ?_⟩
    rw [Nat.add_sub_cancel' hfirst, Char.ofNat_toNat]
  · exact .inr (dif_neg hc)

/-- What is the same for the two cases of every letter does not look at case. -/
theorem apply_toLower {β : Type} {f : Char → β} (h : ∀ n < 26, f (Char.ofNat (97 + n)) = f (Char.ofNat (65 + n)))
    (c : Char) : f c.toLower = f c := by
  rcases exists_letter_or_toLower_eq c with ⟨n, hn, rfl⟩ | hc
  · rw [toLower_letter n hn, h n hn]
  · rw [hc]

/-- What is true of no letter in upper case is true only of characters that are their own lower case. -/
theorem toLower_of_apply {p : Char → Bool} (hp : ∀ n < 26, p (Char.ofNat (65 + n)) = false) {c : Char}
    (h : p c = true) : c.toLower = c := by
  rcases exists_letter_or_toLower_eq c with ⟨n, hn, rfl⟩ | hc
  · rw [hp n hn] at h
    cases h
  · exact hc

/-- A sign is its own lower case, and that of no other character. -/
theorem toLower_eq_iff {x : Char} (hx : x.isAlpha = false) {c : Char} : c.toLower = x ↔ c = x := by
  rcases exists_letter_or_toLower_eq c with ⟨n, hn, rfl⟩ | hc
  · rw [toLower_letter n hn]
    constructor
    · rintro rfl
      simp [isAlpha_letter n hn] at hx
    · rintro rfl
      simp [isAlpha_letter n hn] at hx
  · rw [hc]

@[simp] theorem isWhiteSpace_toLower (c : Char) : isWhiteSpace c.toLower = isWhiteSpace c :=
  apply_toLower (by decide) c

@[simp] theorem byteSize_toLower (cs : List Char) : byteSize (cs.map Char.toLower) = byteSize cs := by
  have hsize : ∀ c : Char, c.toLower.utf8Size = c.utf8Size := apply_toLower (by decide)
  induction cs with
  | nil => rfl
  | cons c cs ih => rw [List.map_cons, byteSize, byteSize, ih, hsize]

theorem toLower_self {x : Char} (hx : x.isAlpha = false) : x.toLower = x :=
  (toLower_eq_iff hx).2 rfl

/-- A sign in front of a text in lower case stands in front of the text. -/
theorem exists_cons_of_toLower {x : Char} (hx : x.isAlpha = false) {cs ds : List Char}
    (h : cs.map Char.toLower = x :: ds) : ∃ cs', cs = x :: cs' ∧ cs'.map Char.toLower = ds := by
  obtain ⟨c, cs', rfl, hc, hcs⟩ := List.map_eq_cons_iff.1 h
  exact ⟨cs', by rw [(toLower_eq_iff hx).1 hc], hcs⟩

theorem not_front_toLower {x y : Char} (hx : x.isAlpha = false) (hy : y.isAlpha = false) {c : Char} {cs : List Char}
    (h : ∀ ds, c = x → cs = y :: ds → False) : ∀ ds, c.toLower = x → cs.map Char.toLower = y :: ds → False := by
  intro ds hc hcs
  obtain ⟨cs', hcs', -⟩ := exists_cons_of_toLower hy hcs
  exact h cs' ((toLower_eq_iff hx).1 hc) hcs'

end Text

/-! ## Numerals -/

namespace Decimal

open Text

@[simp] theorem isDigit_toLower (c : Char) : isDigit c.toLower = isDigit c :=
  apply_toLower (by decide) c

theorem toLower_of_isDigit {c : Char} (h : isDigit c = true) : c.toLower = c :=
  toLower_of_apply (by decide) h

theorem takeWhile_isDigit_toLower (cs : List Char) :
    (cs.map Char.toLower).takeWhile isDigit = cs.takeWhile isDigit := by
  have hcomp : isDigit ∘ Char.toLower = isDigit := funext isDigit_toLower
  have hdigits : ∀ c ∈ cs.takeWhile isDigit, c.toLower = c := fun c hc =>
    toLower_of_isDigit (List.all_eq_true.1 List.all_takeWhile c hc)
  rw [List.takeWhile_map, hcomp, List.map_congr_left hdigits, List.map_id']

theorem dropWhile_isDigit_toLower (cs : List Char) :
    (cs.map Char.toLower).dropWhile isDigit = (cs.dropWhile isDigit).map Char.toLower := by
  have hcomp : isDigit ∘ Char.toLower = isDigit := funext isDigit_toLower
  rw [List.dropWhile_map, hcomp]

theorem splitFraction_toLower (cs : List Char) :
    splitFraction (cs.map Char.toLower) = ((splitFraction cs).1, (splitFraction cs).2.map Char.toLower) := by
  fun_cases splitFraction cs with
  | case1 d cs h =>
    show splitFraction ('.' :: d.toLower :: cs.map Char.toLower) = _
    rw [toLower_of_isDigit h, splitFraction, if_pos h, takeWhile_isDigit_toLower, dropWhile_isDigit_toLower]
  | case2 d cs h =>
    show splitFraction ('.' :: d.toLower :: cs.map Char.toLower) = _
    rw [splitFraction, isDigit_toLower, if_neg h]
    rfl
  | case3 cs h =>
    rw [splitFraction]
    intro d ds hcs
    obtain ⟨cs', rfl, hcs'⟩ := exists_cons_of_toLower (by decide) hcs
    obtain ⟨d', ds', rfl, -, -⟩ := List.map_eq_cons_iff.1 hcs'
    exact h d' ds' rfl

theorem splitSign_toLower (cs : List Char) :
    splitSign (cs.map Char.toLower) = ((splitSign cs).1, (splitSign cs).2.map Char.toLower) := by
  fun_cases splitSign cs with
  | case1 cs => rfl
  | case2 cs => rfl
  | case3 cs hplus hminus =>
    rw [splitSign]
    · intro ds hcs
      obtain ⟨cs', rfl, -⟩ := exists_cons_of_toLower (by decide) hcs
      exact hplus cs' rfl
    · intro ds hcs
      obtain ⟨cs', rfl, -⟩ := exists_cons_of_toLower (by decide) hcs
      exact hminus cs' rfl

/-- The same exponent with its letter in lower case. -/
def Exponent.lower (x : Exponent) : Exponent :=
  { x with letter := x.letter.toLower }

theorem splitExponent_toLower (cs : List Char) : splitExponent (cs.map Char.toLower) =
    ((splitExponent cs).1.map Exponent.lower, (splitExponent cs).2.map Char.toLower) := by
  have hletter : ∀ e : Char,
      (decide (e.toLower = 'e') || decide (e.toLower = 'E')) = (decide (e = 'e') || decide (e = 'E')) :=
    apply_toLower (f := fun e => decide (e = 'e') || decide (e = 'E')) (by decide)
  have hnext : ∀ d : Char, (isDigit d.toLower || decide (d.toLower = '+') || decide (d.toLower = '-')) =
      (isDigit d || decide (d = '+') || decide (d = '-')) :=
    apply_toLower (f := fun d => isDigit d || decide (d = '+') || decide (d = '-')) (by decide)
  fun_cases splitExponent cs with
  | case1 e d cs h r =>
    have hsign := splitSign_toLower (d :: cs)
    rw [List.map_cons] at hsign
    rw [List.map_cons, List.map_cons, splitExponent, hletter, hnext, if_pos h, hsign]
    simp only [takeWhile_isDigit_toLower, dropWhile_isDigit_toLower]
    rfl
  | case2 e d cs h =>
    rw [List.map_cons, List.map_cons, splitExponent, hletter, hnext, if_neg h]
    rfl
  | case3 cs h =>
    rw [splitExponent]
    · rfl
    · intro e d ds hcs
      obtain ⟨c, cs', rfl, -, hcs'⟩ := List.map_eq_cons_iff.1 hcs
      obtain ⟨c', cs'', rfl, -, -⟩ := List.map_eq_cons_iff.1 hcs'
      exact h c c' cs'' rfl

/-- The same numeral with the letter of its exponent in lower case. -/
def Numeral.lower (n : Numeral) : Numeral :=
  { n with exponent := n.exponent.map Exponent.lower }

theorem Numeral.split_toLower (cs : List Char) :
    split (cs.map Char.toLower) = ((split cs).1.lower, (split cs).2.map Char.toLower) := by
  simp only [split, takeWhile_isDigit_toLower, dropWhile_isDigit_toLower, splitFraction_toLower, splitExponent_toLower,
    lower]

end Decimal

namespace Token

open Text

/-! ## Trivia -/

namespace Trivia

theorem splitAt_toLower (p : Place) (cs : List Char) : splitAt p (cs.map Char.toLower) =
    ((splitAt p cs).1.map Char.toLower, (splitAt p cs).2.map Char.toLower) := by
  fun_induction splitAt p cs with
  | case1 => simp [splitAt]
  | case2 cs ih =>
    show splitAt .outside ('-' :: '-' :: cs.map Char.toLower) = _
    rw [splitAt, ih]
    rfl
  | case3 cs ih =>
    show splitAt .outside ('/' :: '*' :: cs.map Char.toLower) = _
    rw [splitAt, ih]
    rfl
  | case4 c cs hline hblock h ih =>
    rw [List.map_cons, splitAt, isWhiteSpace_toLower, if_pos h, ih]
    · rfl
    · exact not_front_toLower (by decide) (by decide) hline
    · exact not_front_toLower (by decide) (by decide) hblock
  | case5 c cs hline hblock h =>
    rw [List.map_cons, splitAt, isWhiteSpace_toLower, if_neg h]
    · rfl
    · exact not_front_toLower (by decide) (by decide) hline
    · exact not_front_toLower (by decide) (by decide) hblock
  | case6 cs ih =>
    show splitAt .line ('\n' :: cs.map Char.toLower) = _
    rw [splitAt, ih]
    rfl
  | case7 c cs hend ih =>
    rw [List.map_cons, splitAt, ih]
    · rfl
    · exact mt (toLower_eq_iff (by decide)).1 hend
  | case8 cs ih =>
    show splitAt .block ('*' :: '/' :: cs.map Char.toLower) = _
    rw [splitAt, ih]
    rfl
  | case9 c cs hend ih =>
    rw [List.map_cons, splitAt, ih]
    · rfl
    · exact not_front_toLower (by decide) (by decide) hend

end Trivia

/-! ## One token -/

namespace Quote

theorem read?_toLower {close : Char} (hclose : close.isAlpha = false) (cs : List Char) :
    read? close (cs.map Char.toLower) =
      (read? close cs).map fun r => (r.1.map Char.toLower, r.2.map Char.toLower) := by
  fun_induction read? close cs with
  | case1 => rfl
  | case2 => simp [read?, toLower_self hclose]
  | case3 c h => simp [read?, toLower_eq_iff hclose, h]
  | case4 cs ih =>
    simp only [List.map_cons, toLower_self hclose, read?, if_true, ih, Option.map_map]
    exact congrArg (Option.map · _) (funext fun r => by simp [toLower_self hclose])
  | case5 d cs h => simp [read?, toLower_self hclose, toLower_eq_iff hclose, h]
  | case6 c d cs h ih =>
    rw [List.map_cons] at ih
    rw [List.map_cons, List.map_cons, read?, if_neg (mt (toLower_eq_iff hclose).1 h), ih, Option.map_map, Option.map_map]
    rfl

end Quote

/-- The same kind with its name or its string in lower case. -/
def Kind.lower : Kind → Kind
  | .string s => .string (String.ofList (fold s))
  | .identifier s => .identifier (String.ofList (fold s))
  | k => k

namespace Lexeme

def lower (x : Lexeme) : Lexeme :=
  ⟨x.kind.lower, x.text.map Char.toLower, x.rest.map Char.toLower⟩

/-- The characters of a token are what is left of a text when the rest is taken away. -/
theorem eq_lower {x y : Lexeme} (hkind : x.kind = y.kind.lower) (hrest : x.rest = y.rest.map Char.toLower)
    (happend : x.text ++ x.rest = (y.text ++ y.rest).map Char.toLower) : x = y.lower := by
  rw [List.map_append, hrest] at happend
  have htext := List.append_cancel_right happend
  cases x
  simp_all [lower]

end Lexeme

theorem quoted_toLower (q : Quote) (cs : List Char) : quoted q (cs.map Char.toLower) = (quoted q cs).lower := by
  have hopening : q.opening.isAlpha = false := by cases q <;> decide
  have hclosing : q.closing.isAlpha = false := by cases q <;> decide
  have hread := Quote.read?_toLower hclosing cs
  refine Lexeme.eq_lower ?_ ?_ ?_
  · unfold quoted
    rw [hread]
    cases Quote.read? q.closing cs with
    | none => rfl
    | some r => cases q <;> simp [Quote.kind, Kind.lower, fold]
  · unfold quoted
    rw [hread]
    cases Quote.read? q.closing cs with
    | none => rfl
    | some r => rfl
  · rw [quoted_append, quoted_append, List.map_cons, toLower_self hopening]

theorem numeralKind_lower (n : Decimal.Numeral) : numeralKind n.lower = (numeralKind n).lower := by
  obtain ⟨whole, fraction, exponent⟩ := n
  cases exponent with
  | none =>
    cases fraction with
    | none =>
      by_cases h : Decimal.digitsValue whole ≤ largestInteger
      · simp [numeralKind, Decimal.Numeral.lower, Kind.lower, h]
      · simp [numeralKind, Decimal.Numeral.lower, Kind.lower, h]
    | some digits => rfl
  | some x =>
    obtain ⟨letter, sign, digits⟩ := x
    cases digits <;> cases fraction <;> rfl

theorem numeral_toLower (cs : List Char) :
    (⟨numeralKind (Decimal.Numeral.split (cs.map Char.toLower)).1, (Decimal.Numeral.split (cs.map Char.toLower)).1.text,
      (Decimal.Numeral.split (cs.map Char.toLower)).2⟩ : Lexeme) =
    Lexeme.lower ⟨numeralKind (Decimal.Numeral.split cs).1, (Decimal.Numeral.split cs).1.text,
      (Decimal.Numeral.split cs).2⟩ := by
  have hsplit := Decimal.Numeral.split_toLower cs
  refine Lexeme.eq_lower ?_ ?_ ?_
  · rw [hsplit]
    exact numeralKind_lower _
  · rw [hsplit]
  · rw [Decimal.Numeral.split_append, Decimal.Numeral.split_append]

theorem wordKind_toLower (word : List Char) : wordKind (word.map Char.toLower) = (wordKind word).lower := by
  have hupper : Char.toUpper ∘ Char.toLower = Char.toUpper := funext (apply_toLower (by decide))
  have hword : Keyword.ofWord? (word.map Char.toLower) = Keyword.ofWord? word := by
    have hmap : (word.map Char.toLower).map Char.toUpper = word.map Char.toUpper := by
      rw [List.map_map, hupper]
    rw [Keyword.ofWord?, Keyword.ofWord?, hmap]
  unfold wordKind
  rw [hword]
  cases Keyword.ofWord? word with
  | some k => rfl
  | none => simp [Kind.lower, fold]

theorem Kind.Sign.lower {k : Kind} (h : k.Sign) : k.lower = k := by
  cases k <;> first | rfl | exact h.elim

theorem doubleSign?_toLower (c d : Char) : doubleSign? c d.toLower = doubleSign? c d := by
  have hnone : ∀ {d : Char}, d.isAlpha = true → doubleSign? c d = none := by
    intro d hd
    unfold doubleSign?
    split <;> simp_all
  exact apply_toLower (fun n hn => (hnone (isAlpha_letter n hn).1).trans (hnone (isAlpha_letter n hn).2).symm) d

theorem sign_toLower {c : Char} (hc : c.toLower = c) (cs : List Char) :
    sign c (cs.map Char.toLower) = (sign c cs).lower := by
  refine Lexeme.eq_lower ?_ ?_ ?_
  · cases cs with
    | nil => exact (sign_signKind c).lower.symm
    | cons d cs =>
      rw [List.map_cons, sign, sign, doubleSign?_toLower]
      cases h : doubleSign? c d with
      | none => exact (sign_signKind c).lower.symm
      | some k => exact (sign_of_doubleSign? h).lower.symm
  · cases cs with
    | nil => rfl
    | cons d cs =>
      rw [List.map_cons, sign, sign, doubleSign?_toLower]
      cases doubleSign? c d <;> rfl
  · rw [sign_append, sign_append, List.map_cons, hc]

theorem isWordStart_toLower (c : Char) : isWordStart c.toLower = isWordStart c :=
  apply_toLower (by decide) c

theorem isWordPart_toLower (c : Char) : isWordPart c.toLower = isWordPart c :=
  apply_toLower (by decide) c

theorem toLower_of_not_isWordStart {c : Char} (h : isWordStart c = false) : c.toLower = c :=
  toLower_of_apply (p := fun c => !isWordStart c) (by decide) (by rw [h, Bool.not_false])

theorem word_toLower (c : Char) (cs : List Char) :
    (⟨wordKind (c.toLower :: (cs.map Char.toLower).takeWhile isWordPart),
      c.toLower :: (cs.map Char.toLower).takeWhile isWordPart, (cs.map Char.toLower).dropWhile isWordPart⟩ : Lexeme) =
    Lexeme.lower ⟨wordKind (c :: cs.takeWhile isWordPart), c :: cs.takeWhile isWordPart, cs.dropWhile isWordPart⟩ := by
  have hpart : isWordPart ∘ Char.toLower = isWordPart := funext isWordPart_toLower
  rw [List.takeWhile_map, List.dropWhile_map, hpart, ← List.map_cons, wordKind_toLower]
  rfl

theorem lexeme_toLower (c : Char) (cs : List Char) : lexeme c.toLower (cs.map Char.toLower) = (lexeme c cs).lower := by
  have hopening : Quote.ofOpening? c.toLower = Quote.ofOpening? c := apply_toLower (by decide) c
  unfold lexeme
  rw [hopening, Decimal.isDigit_toLower, isWordStart_toLower]
  cases Quote.ofOpening? c with
  | some q => exact quoted_toLower q cs
  | none =>
    by_cases hdigit : Decimal.isDigit c = true
    · simp only [if_pos hdigit]
      exact numeral_toLower (c :: cs)
    · by_cases hword : isWordStart c = true
      · simp only [if_neg hdigit, if_pos hword]
        exact word_toLower c cs
      · simp only [if_neg hdigit, if_neg hword]
        have hc := toLower_of_not_isWordStart (Bool.eq_false_iff.2 hword)
        rw [hc]
        exact sign_toLower hc cs

/-! ## All tokens -/

/-- The same token with its characters in lower case. -/
def lower (t : Token) : Token :=
  ⟨t.kind.lower, t.span, String.ofList (fold t.text)⟩

/-- **The tokens of a text in lower case** are those of the text in lower case. -/
theorem lexFrom_toLower (offset : Nat) (cs : List Char) :
    lexFrom offset (cs.map Char.toLower) = (lexFrom offset cs).map lower := by
  -- By induction on the tokens; the places stay, since a letter has as many bytes in either case.
  induction offset, cs using lexFrom.induct with
  | case1 offset cs h =>
    have hsplit := Trivia.splitAt_toLower .outside cs
    have hlower : (Trivia.split (cs.map Char.toLower)).2 = [] := by
      rw [Trivia.split, hsplit]
      exact congrArg (List.map Char.toLower) h
    rw [lexFrom_of_nil h, lexFrom_of_nil hlower, Trivia.split, hsplit, byteSize_toLower]
    rfl
  | case2 offset cs start c rest h x stop ih =>
    have hsplit := Trivia.splitAt_toLower .outside cs
    have hlower : (Trivia.split (cs.map Char.toLower)).2 = c.toLower :: rest.map Char.toLower := by
      rw [Trivia.split, hsplit]
      exact congrArg (List.map Char.toLower) h
    rw [lexFrom_of_cons h, lexFrom_of_cons hlower, lexeme_toLower, Trivia.split, hsplit, byteSize_toLower]
    simp only [Lexeme.lower, byteSize_toLower, List.map_cons]
    refine congrArg₂ List.cons ?_ ih
    simp [lower, fold, Trivia.split]

/-- Two texts that are the same up to case have tokens that are, at the same places. -/
theorem alike_of_fold_eq {a b : String} (h : fold a = fold b) :
    List.Forall₂ (fun t u => t.lower = u.lower) (lex a) (lex b) := by
  have hmap : (lex a).map lower = (lex b).map lower := by
    have ha := lexFrom_toLower 0 a.toList
    have hb := lexFrom_toLower 0 b.toList
    exact ha.symm.trans ((congrArg (lexFrom 0) h).trans hb)
  rwa [← List.forall₂_eq_eq_eq, List.forall₂_map_left_iff, List.forall₂_map_right_iff] at hmap

end Token

end SelectRouting
