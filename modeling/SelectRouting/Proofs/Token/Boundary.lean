import Mathlib.Data.List.TakeWhile
import SelectRouting.Token.Lexer
/-!
# Where a token ends

A token takes as many characters as it can (`stops_lexeme`), and white space ends every token but a quoted text that is
not closed.  So the characters of a token, with white space or nothing behind them, are read as that token again,
whatever stood behind them before (`lexeme_of_text`).
-/
namespace SelectRouting

/-! ## White space -/

namespace Text

/-- What is true of no character of the table is true of no white space. -/
theorem apply_of_white {p : Char → Bool}
    (hp : ∀ r ∈ whiteSpaceRanges.ranges, ∀ n ∈ List.range' r.1 (r.2 + 1 - r.1), p (Char.ofNat n) = false) {c : Char}
    (hc : isWhiteSpace c = true) : p c = false := by
  obtain ⟨r, hr, hfirst, hlast⟩ := (whiteSpaceRanges.contains_iff c.toNat).1 hc
  have hmem : c.toNat ∈ List.range' r.1 (r.2 + 1 - r.1) := by
    rw [List.mem_range'_1]
    omega
  have hofNat := hp r hr c.toNat hmem
  rwa [Char.ofNat_toNat] at hofNat

theorem ne_of_white {c d : Char} (hc : isWhiteSpace c = true) (hd : isWhiteSpace d = false) : c ≠ d := by
  rintro rfl
  rw [hc] at hd
  cases hd

/-- Nothing, or white space at the front. -/
def Spaced (cs : List Char) : Prop :=
  ∀ c ∈ cs.head?, isWhiteSpace c = true

theorem spaced_nil : Spaced [] := by
  rintro c ⟨⟩

end Text

open Text (isWhiteSpace Spaced apply_of_white ne_of_white)

section
variable {p : Char → Bool} {a b : List Char}

theorem takeWhile_append_stop (ha : ∀ c ∈ a, p c = true) (hb : ∀ c ∈ b.head?, p c = false) :
    (a ++ b).takeWhile p = a := by
  rw [List.takeWhile_append_of_pos ha]
  cases b with
  | nil => simp
  | cons c b => simp [hb c rfl]

theorem dropWhile_append_stop (ha : ∀ c ∈ a, p c = true) (hb : ∀ c ∈ b.head?, p c = false) :
    (a ++ b).dropWhile p = b := by
  rw [List.dropWhile_append_of_pos ha]
  cases b with
  | nil => rfl
  | cons c b => simp [hb c rfl]

theorem not_of_head?_dropWhile (cs : List Char) : ∀ c ∈ (cs.dropWhile p).head?, p c = false := by
  intro c hc
  have hhead := List.head?_dropWhile_not p cs
  rw [Option.mem_def.1 hc] at hhead
  exact hhead

end

/-! ## Numerals -/

namespace Decimal

theorem isDigit_of_white {c : Char} (hc : isWhiteSpace c = true) : isDigit c = false :=
  apply_of_white (by decide) hc

/-- An exponent as it can be read: only behind a sign the digits may be missing. -/
structure Exponent.Proper (x : Exponent) : Prop where
  letter : x.letter = 'e' ∨ x.letter = 'E'
  sign : x.sign = [] ∧ x.digits ≠ [] ∨ x.sign = ['+'] ∨ x.sign = ['-']
  digits : ∀ d ∈ x.digits, isDigit d = true

/-- A numeral as it can be read. -/
structure Numeral.Proper (n : Numeral) : Prop where
  whole : ∀ d ∈ n.whole, isDigit d = true
  fraction : ∀ ds ∈ n.fraction, ds ≠ [] ∧ ∀ d ∈ ds, isDigit d = true
  exponent : ∀ x ∈ n.exponent, x.Proper

theorem splitSign_of_isDigit {d : Char} (hd : isDigit d = true) (cs : List Char) :
    splitSign (d :: cs) = ([], d :: cs) := by
  have hplus : d ≠ '+' := by
    rintro rfl
    simp [isDigit] at hd
  have hminus : d ≠ '-' := by
    rintro rfl
    simp [isDigit] at hd
  rw [splitSign]
  · intro ds h
    exact hplus (List.cons.inj h).1
  · intro ds h
    exact hminus (List.cons.inj h).1

theorem proper_of_splitExponent (cs : List Char) : ∀ x ∈ (splitExponent cs).1, x.Proper := by
  fun_cases splitExponent cs with
  | case1 e d cs h r =>
    rintro x ⟨⟩
    simp only [Bool.and_eq_true, Bool.or_eq_true, decide_eq_true_eq] at h
    refine ⟨h.1, ?_, fun _ => List.mem_takeWhile_imp⟩
    rcases h.2 with (hd | rfl) | rfl
    · have hsign : r = ([], d :: cs) := splitSign_of_isDigit hd cs
      exact .inl ⟨by rw [hsign], by simp [hsign, hd]⟩
    · exact .inr (.inl rfl)
    · exact .inr (.inr rfl)
  | case2 => rintro _ ⟨⟩
  | case3 => rintro _ ⟨⟩

/-- An exponent is read back, whatever white space is behind it. -/
theorem splitExponent_text {x : Exponent} (hx : x.Proper) {after : List Char} (hafter : Spaced after) :
    splitExponent (x.text ++ after) = (some x, after) := by
  obtain ⟨letter, sign, digits⟩ := x
  obtain ⟨hletter, hsign, hdigits⟩ := hx
  have hletter : (letter = 'e' || letter = 'E') = true := by simpa using hletter
  have hstop : ∀ c ∈ after.head?, isDigit c = false := fun c hc => isDigit_of_white (hafter c hc)
  have htake := takeWhile_append_stop hdigits hstop
  have hdrop := dropWhile_append_stop hdigits hstop
  rcases hsign with ⟨rfl, hne⟩ | rfl | rfl
  · cases digits with
    | nil => exact absurd rfl hne
    | cons d digits =>
      have hd := hdigits d List.mem_cons_self
      have hsplit : splitSign (d :: (digits ++ after)) = ([], d :: digits ++ after) := splitSign_of_isDigit hd _
      have hcond : ((letter = 'e' || letter = 'E') && (isDigit d || d = '+' || d = '-')) = true := by simp [hletter, hd]
      show splitExponent (letter :: d :: (digits ++ after)) = _
      rw [splitExponent, if_pos hcond, hsplit]
      simp only [htake, hdrop]
  · show splitExponent (letter :: '+' :: (digits ++ after)) = _
    rw [splitExponent, if_pos (by simp [hletter])]
    simp only [splitSign, htake, hdrop]
  · show splitExponent (letter :: '-' :: (digits ++ after)) = _
    rw [splitExponent, if_pos (by simp [hletter])]
    simp only [splitSign, htake, hdrop]

theorem splitExponent_spaced {after : List Char} (hafter : Spaced after) : splitExponent after = (none, after) := by
  unfold splitExponent
  split
  · next e d cs =>
    have he : (decide (e = 'e') || decide (e = 'E')) = false :=
      apply_of_white (p := fun c => c = 'e' || c = 'E') (by decide) (hafter e rfl)
    rw [if_neg (by simp [he])]
  · rfl

theorem fraction_of_splitFraction (cs : List Char) :
    ∀ ds ∈ (splitFraction cs).1, ds ≠ [] ∧ ∀ d ∈ ds, isDigit d = true := by
  fun_cases splitFraction cs with
  | case1 d cs h =>
    rintro ds ⟨⟩
    exact ⟨List.cons_ne_nil _ _, List.forall_mem_cons.2 ⟨h, fun _ => List.mem_takeWhile_imp⟩⟩
  | case2 => rintro _ ⟨⟩
  | case3 => rintro _ ⟨⟩

theorem splitFraction_point {ds : List Char} (hne : ds ≠ []) (hds : ∀ d ∈ ds, isDigit d = true) {tail : List Char}
    (htail : ∀ c ∈ tail.head?, isDigit c = false) : splitFraction ('.' :: ds ++ tail) = (some ds, tail) := by
  cases ds with
  | nil => exact absurd rfl hne
  | cons d ds =>
    obtain ⟨hd, hds⟩ := List.forall_mem_cons.1 hds
    show splitFraction ('.' :: d :: (ds ++ tail)) = _
    rw [splitFraction, if_pos hd, takeWhile_append_stop hds htail, dropWhile_append_stop hds htail]

theorem splitFraction_of_ne {tail : List Char} (htail : ∀ c ∈ tail.head?, c ≠ '.') : splitFraction tail = (none, tail) := by
  unfold splitFraction
  split
  · exact absurd rfl (htail '.' rfl)
  · rfl

namespace Numeral

theorem proper_split (cs : List Char) : (split cs).1.Proper :=
  ⟨fun _ => List.mem_takeWhile_imp, fraction_of_splitFraction _, proper_of_splitExponent _⟩

/-- What stands behind the digits of a numeral begins neither with a digit nor with a point. -/
theorem exponent_head {n : Numeral} (hn : n.Proper) {after : List Char} (hafter : Spaced after) :
    ∀ c ∈ (n.exponent.elim [] Exponent.text ++ after).head?, isDigit c = false ∧ c ≠ '.' := by
  intro c hc
  cases hx : n.exponent with
  | none =>
    rw [hx] at hc
    exact ⟨isDigit_of_white (hafter c hc), ne_of_white (hafter c hc) (by decide)⟩
  | some x =>
    rw [hx] at hc
    obtain rfl : x.letter = c := Option.some.inj hc
    rcases (hn.exponent x hx).letter with h | h
    · rw [h]
      decide
    · rw [h]
      decide

/-- **A numeral is read back**, whatever white space is behind it. -/
theorem split_text {n : Numeral} (hn : n.Proper) {after : List Char} (hafter : Spaced after) :
    split (n.text ++ after) = (n, after) := by
  have hhead := exponent_head hn hafter
  have hexponent : splitExponent (n.exponent.elim [] Exponent.text ++ after) = (n.exponent, after) := by
    cases hx : n.exponent with
    | none => exact splitExponent_spaced hafter
    | some x => exact splitExponent_text (hn.exponent x hx) hafter
  have htext : n.text ++ after =
      n.whole ++ (n.fraction.elim [] ('.' :: ·) ++ (n.exponent.elim [] Exponent.text ++ after)) := by
    simp [text]
  rw [htext]
  generalize n.exponent.elim [] Exponent.text ++ after = tail at hhead hexponent
  have hfraction : splitFraction (n.fraction.elim [] ('.' :: ·) ++ tail) = (n.fraction, tail) ∧
      ∀ c ∈ (n.fraction.elim [] ('.' :: ·) ++ tail).head?, isDigit c = false := by
    cases hf : n.fraction with
    | none => exact ⟨splitFraction_of_ne fun c hc => (hhead c hc).2, fun c hc => (hhead c hc).1⟩
    | some ds =>
      obtain ⟨hne, hds⟩ := hn.fraction ds hf
      refine ⟨splitFraction_point hne hds fun c hc => (hhead c hc).1, ?_⟩
      rintro c ⟨⟩
      decide
  unfold split
  rw [takeWhile_append_stop hn.whole hfraction.2, dropWhile_append_stop hn.whole hfraction.2, hfraction.1]
  simp only [hexponent]

/-- No digit follows a numeral. -/
theorem isDigit_behind_split (cs : List Char) : ∀ d ∈ (split cs).2.head?, isDigit d = false := by
  have hfraction : ∀ d ∈ (splitFraction (cs.dropWhile isDigit)).2.head?, isDigit d = false := by
    have hwhole := not_of_head?_dropWhile (p := isDigit) cs
    generalize cs.dropWhile isDigit = tail at hwhole
    fun_cases splitFraction tail with
    | case1 d tail h => exact not_of_head?_dropWhile tail
    | case2 => exact hwhole
    | case3 => exact hwhole
  show ∀ d ∈ (splitExponent (splitFraction (cs.dropWhile isDigit)).2).2.head?, isDigit d = false
  generalize (splitFraction (cs.dropWhile isDigit)).2 = tail at hfraction
  fun_cases splitExponent tail with
  | case1 e d tail h r => exact not_of_head?_dropWhile r.2
  | case2 => exact hfraction
  | case3 => exact hfraction

end Numeral

end Decimal

namespace Token

open Decimal (isDigit)

/-! ## First characters -/

theorem isWordPart_of_white {c : Char} (hc : isWhiteSpace c = true) : isWordPart c = false :=
  apply_of_white (by decide +kernel) hc

/-- A digit does not begin a word or a quoted text. -/
theorem of_isDigit {c : Char} (hc : isDigit c = true) : isWordStart c = false ∧ Quote.ofOpening? c = none := by
  have hdigits : ∀ n ∈ List.range' 48 10, isWordStart (Char.ofNat n) = false ∧ Quote.ofOpening? (Char.ofNat n) = none := by
    decide +kernel
  have hfirst : 48 ≤ c.toNat ∧ c.toNat ≤ 57 := by
    simp only [isDigit, Bool.and_eq_true, decide_eq_true_eq] at hc
    exact hc
  have hofNat := hdigits c.toNat (by rw [List.mem_range'_1]; omega)
  rwa [Char.ofNat_toNat] at hofNat

/-- An opening mark is neither a digit nor a letter. -/
theorem of_ofOpening? {c : Char} {q : Quote} (h : Quote.ofOpening? c = some q) :
    isDigit c = false ∧ isWordStart c = false := by
  have hopening : isDigit q.opening = false ∧ isWordStart q.opening = false := by
    cases q <;> decide +kernel
  rwa [opening_of_ofOpening? h] at hopening

/-- A sign of two characters begins with a sign. -/
theorem of_doubleSign? {c d : Char} {k : Kind} (h : doubleSign? c d = some k) :
    Quote.ofOpening? c = none ∧ isDigit c = false ∧ isWordStart c = false := by
  unfold doubleSign? at h
  split at h
  all_goals first | decide +kernel | cases h

theorem lexeme_of_quote {c : Char} {q : Quote} (h : Quote.ofOpening? c = some q) (cs : List Char) :
    lexeme c cs = quoted q cs := by
  unfold lexeme
  rw [h]

theorem lexeme_of_digit {c : Char} (hc : isDigit c = true) (cs : List Char) :
    lexeme c cs = ⟨numeralKind (Decimal.Numeral.split (c :: cs)).1, (Decimal.Numeral.split (c :: cs)).1.text,
      (Decimal.Numeral.split (c :: cs)).2⟩ := by
  unfold lexeme
  rw [(of_isDigit hc).2]
  simp only [hc, if_true]

theorem lexeme_of_word {c : Char} (hc : isWordStart c = true) (cs : List Char) :
    lexeme c cs = ⟨wordKind (c :: cs.takeWhile isWordPart), c :: cs.takeWhile isWordPart, cs.dropWhile isWordPart⟩ := by
  have hdigit : isDigit c = false := by
    cases h : isDigit c with
    | false => rfl
    | true =>
      have hword := (of_isDigit h).1
      simp [hc] at hword
  have hquote : Quote.ofOpening? c = none := by
    cases h : Quote.ofOpening? c with
    | none => rfl
    | some q =>
      have hword := (of_ofOpening? h).2
      simp [hc] at hword
  unfold lexeme
  rw [hquote]
  simp [hdigit, hc]

theorem lexeme_of_sign {c : Char} (hquote : Quote.ofOpening? c = none) (hdigit : isDigit c = false)
    (hword : isWordStart c = false) (cs : List Char) : lexeme c cs = sign c cs := by
  unfold lexeme
  rw [hquote]
  simp [hdigit, hword]

/-! ## Behind a token -/

/-- A character that stands behind the characters of a token: it does not continue a word or a numeral, and makes no sign of
two characters. -/
structure Stops (text : List Char) (d : Char) : Prop where
  word : ∀ c ∈ text.head?, isWordStart c = true → isWordPart d = false
  digits : ∀ c ∈ text.head?, isDigit c = true → isDigit d = false
  sign : ∀ c, text = [c] → doubleSign? c d = none

theorem exists_text_of_lexeme (c : Char) (cs : List Char) :
    ∃ xs, (lexeme c cs).text = c :: xs ∧ cs = xs ++ (lexeme c cs).rest := by
  have happend := lexeme_append c cs
  cases htext : (lexeme c cs).text with
  | nil => exact absurd htext (lexeme_text_ne_nil c cs)
  | cons x xs =>
    rw [htext] at happend
    obtain ⟨rfl, hcs⟩ := List.cons.inj happend
    exact ⟨xs, rfl, hcs.symm⟩

/-- **A token takes as many characters as it can.** -/
theorem stops_lexeme (c : Char) (cs : List Char) : ∀ d ∈ (lexeme c cs).rest.head?, Stops (lexeme c cs).text d := by
  intro d hd
  obtain ⟨xs, htext, hcs⟩ := exists_text_of_lexeme c cs
  rw [htext]
  constructor
  · rintro _ ⟨⟩ hword
    rw [lexeme_of_word hword] at hd
    exact not_of_head?_dropWhile cs d hd
  · rintro _ ⟨⟩ hdigit
    rw [lexeme_of_digit hdigit] at hd
    exact Decimal.Numeral.isDigit_behind_split _ d hd
  · rintro _ ⟨⟩
    cases hdouble : doubleSign? c d with
    | none => rfl
    | some k =>
      obtain ⟨rest, hrest⟩ := List.head?_eq_some_iff.1 hd
      obtain ⟨hquote, hdigit, hword⟩ := of_doubleSign? hdouble
      rw [lexeme_of_sign hquote hdigit hword, hcs, hrest] at htext
      simp [sign, hdouble] at htext

/-! ## The characters of a token again -/

/-- A quoted text that is not closed. -/
def Unclosed (c : Char) (cs : List Char) : Prop :=
  ∃ q, Quote.ofOpening? c = some q ∧ Quote.read? q.closing cs = none

theorem closing_of_white {c : Char} (hc : isWhiteSpace c = true) (q : Quote) : c ≠ q.closing := by
  cases q <;> exact ne_of_white hc (by decide)

theorem doubleSign?_of_white {d : Char} (hd : isWhiteSpace d = true) (c : Char) : doubleSign? c d = none := by
  unfold doubleSign?
  split
  all_goals first | rfl | exact absurd rfl (ne_of_white hd (by decide))

theorem sign_spaced {after : List Char} (hafter : Spaced after) (c : Char) : sign c after = ⟨signKind c, [c], after⟩ := by
  cases after with
  | nil => rfl
  | cons d after => simp [sign, doubleSign?_of_white (hafter d rfl)]

theorem sign_of_text {c : Char} {cs xs : List Char} (htext : (sign c cs).text = c :: xs) {after : List Char}
    (hafter : Spaced after) : sign c (xs ++ after) = ⟨(sign c cs).kind, (sign c cs).text, after⟩ := by
  cases cs with
  | nil =>
    obtain rfl : [] = xs := (List.cons.inj htext).2
    exact sign_spaced hafter c
  | cons d cs =>
    cases hdouble : doubleSign? c d with
    | none =>
      have hsign : sign c (d :: cs) = ⟨signKind c, [c], d :: cs⟩ := by simp [sign, hdouble]
      rw [hsign] at htext ⊢
      obtain rfl : [] = xs := (List.cons.inj htext).2
      exact sign_spaced hafter c
    | some k =>
      have hsign : ∀ rest, sign c (d :: rest) = ⟨k, [c, d], rest⟩ := fun rest => by simp [sign, hdouble]
      rw [hsign] at htext ⊢
      obtain rfl : [d] = xs := (List.cons.inj htext).2
      exact hsign after

theorem quoted_of_text {q : Quote} {cs xs : List Char} (hclosed : Quote.read? q.closing cs ≠ none)
    (htext : (quoted q cs).text = q.opening :: xs) {after : List Char} (hafter : Spaced after) :
    quoted q (xs ++ after) = ⟨(quoted q cs).kind, (quoted q cs).text, after⟩ := by
  cases hread : Quote.read? q.closing cs with
  | none => exact absurd hread hclosed
  | some r =>
    have hhead : after.head? ≠ some q.closing := fun h => closing_of_white (hafter _ h) q rfl
    have hagain := Quote.read?_encode q.closing r.1 after hhead
    have hquoted : quoted q cs =
        ⟨q.kind (String.ofList r.1), q.opening :: (Quote.encode q.closing r.1 ++ [q.closing]), r.2⟩ := by
      simp only [quoted, hread]
    rw [hquoted] at htext ⊢
    obtain rfl : Quote.encode q.closing r.1 ++ [q.closing] = xs := (List.cons.inj htext).2
    simp only [quoted, List.append_assoc, List.singleton_append, hagain]

theorem numeral_of_text {c : Char} {cs xs : List Char} (hc : isDigit c = true) (htext : (lexeme c cs).text = c :: xs)
    {after : List Char} (hafter : Spaced after) :
    lexeme c (xs ++ after) = ⟨(lexeme c cs).kind, (lexeme c cs).text, after⟩ := by
  have hsplit := Decimal.Numeral.split_text (Decimal.Numeral.proper_split (c :: cs)) hafter
  rw [lexeme_of_digit hc] at htext
  have hchars : (Decimal.Numeral.split (c :: cs)).1.text = c :: xs := htext
  rw [hchars, List.cons_append] at hsplit
  rw [lexeme_of_digit hc, lexeme_of_digit hc, hsplit]

theorem word_of_text {c : Char} {cs xs : List Char} (hc : isWordStart c = true) (htext : (lexeme c cs).text = c :: xs)
    {after : List Char} (hafter : Spaced after) :
    lexeme c (xs ++ after) = ⟨(lexeme c cs).kind, (lexeme c cs).text, after⟩ := by
  have hstop : ∀ d ∈ after.head?, isWordPart d = false := fun d hd => isWordPart_of_white (hafter d hd)
  rw [lexeme_of_word hc] at htext ⊢
  obtain rfl : cs.takeWhile isWordPart = xs := (List.cons.inj htext).2
  have hparts : ∀ d ∈ cs.takeWhile isWordPart, isWordPart d = true := fun _ => List.mem_takeWhile_imp
  rw [lexeme_of_word hc, takeWhile_append_stop hparts hstop, dropWhile_append_stop hparts hstop]

/-- **The characters of a token are read as that token again**, whatever white space is behind them. -/
theorem lexeme_of_text {c : Char} {cs xs : List Char} (hclosed : ¬ Unclosed c cs) (htext : (lexeme c cs).text = c :: xs)
    {after : List Char} (hafter : Spaced after) :
    lexeme c (xs ++ after) = ⟨(lexeme c cs).kind, (lexeme c cs).text, after⟩ := by
  cases hquote : Quote.ofOpening? c with
  | some q =>
    have hread : Quote.read? q.closing cs ≠ none := fun h => hclosed ⟨q, hquote, h⟩
    rw [lexeme_of_quote hquote] at htext
    rw [lexeme_of_quote hquote, lexeme_of_quote hquote]
    rw [← opening_of_ofOpening? hquote] at htext
    exact quoted_of_text hread htext hafter
  | none =>
    by_cases hdigit : isDigit c = true
    · exact numeral_of_text hdigit htext hafter
    · by_cases hword : isWordStart c = true
      · exact word_of_text hword htext hafter
      · have hsign := lexeme_of_sign hquote (by simpa using hdigit) (by simpa using hword)
        rw [hsign] at htext
        rw [hsign, hsign]
        exact sign_of_text htext hafter

theorem read?_eq_none_of_not_mem {close : Char} {cs : List Char} (h : close ∉ cs) : Quote.read? close cs = none := by
  fun_induction Quote.read? close cs with
  | case1 => rfl
  | case2 => simp at h
  | case3 => rfl
  | case4 => simp at h
  | case5 => simp at h
  | case6 c d cs hc ih => simp [ih (fun hmem => h (List.mem_cons_of_mem _ hmem))]

theorem read?_append_eq_none {close : Char} {cs gap : List Char} (h : Quote.read? close cs = none) (hgap : close ∉ gap) :
    Quote.read? close (cs ++ gap) = none := by
  fun_induction Quote.read? close cs with
  | case1 => exact read?_eq_none_of_not_mem hgap
  | case2 => cases h
  | case3 c hc =>
    have hrest := read?_eq_none_of_not_mem hgap
    cases gap with
    | nil => simp [Quote.read?, hc]
    | cons d gap => simp [Quote.read?, hc, hrest]
  | case4 cs ih =>
    have hrest := ih (Option.map_eq_none_iff.1 h)
    simp [Quote.read?, hrest]
  | case5 => cases h
  | case6 c d cs hc ih =>
    have hrest := ih (Option.map_eq_none_iff.1 h)
    rw [List.cons_append] at hrest
    simp [Quote.read?, hc, hrest]

/-- A quoted text that is not closed takes all the text there is. -/
theorem lexeme_of_unclosed {c : Char} {cs gap : List Char} (h : Unclosed c cs) (hgap : ∀ d ∈ gap, isWhiteSpace d = true) :
    (lexeme c cs).text = c :: cs ∧ (lexeme c cs).rest = [] ∧
      lexeme c (cs ++ gap) = ⟨(lexeme c cs).kind, c :: (cs ++ gap), []⟩ := by
  obtain ⟨q, hquote, hread⟩ := h
  have hopening := opening_of_ofOpening? hquote
  have hmore : Quote.read? q.closing (cs ++ gap) = none :=
    read?_append_eq_none hread fun hmem => closing_of_white (hgap _ hmem) q rfl
  simp only [lexeme_of_quote hquote, quoted, hread, hmore, hopening, and_self]

end Token

end SelectRouting
