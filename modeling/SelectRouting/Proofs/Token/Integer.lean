import Mathlib.Data.List.Induction
import Mathlib.Data.Nat.Digits.Defs
import SelectRouting.Proofs.Token.Place
/-!
# Integer constants

Digits are an integer constant if nothing behind them goes on with the numeral: no digit, no point with a digit behind
it, and no `e` with a digit or a sign behind it (`Decimal.Ends`).  Then they are the whole numeral
(`Numeral.split_digits`), and where a numeral is without fraction and exponent, what follows it does not go on
(`Numeral.ends_of_split`).  So digits are read as their number, up to the largest one, and every integer token is read
from digits like that (`lex_digits`, `exists_digits_of_mem_lex`).
-/
namespace SelectRouting

namespace Decimal

/-- Digits as a number: each counts for the power of ten of its place. -/
def placeValue (ds : List Char) : Nat :=
  Nat.ofDigits 10 (ds.reverse.map fun d => d.toNat - '0'.toNat)

theorem placeValue_append (ds : List Char) (d : Char) :
    placeValue (ds ++ [d]) = 10 * placeValue ds + (d.toNat - '0'.toNat) := by
  unfold placeValue
  rw [List.reverse_append, List.reverse_singleton, List.singleton_append, List.map_cons, Nat.ofDigits_cons, Nat.add_comm]

theorem digitsValue_eq (ds : List Char) : digitsValue ds = placeValue ds := by
  induction ds using List.reverseRecOn with
  | nil => rfl
  | append_singleton ds d ih => rw [placeValue_append, ← ih, digitsValue, digitsValue, List.foldl_append]; rfl

/-- No numeral goes on with this text. -/
structure Ends (after : List Char) : Prop where
  digit : ∀ d ∈ after.head?, isDigit d = false
  fraction : ∀ d, ['.', d] <+: after → isDigit d = false
  exponent : ∀ e d, e = 'e' ∨ e = 'E' → [e, d] <+: after → isDigit d = false ∧ d ≠ '+' ∧ d ≠ '-'

theorem splitFraction_eq_none_iff {cs : List Char} :
    (splitFraction cs).1 = none ↔ ∀ d, ['.', d] <+: cs → isDigit d = false := by
  fun_cases splitFraction cs with
  | case1 d cs hd =>
    refine ⟨fun h => absurd h (Option.some_ne_none _), fun h => ?_⟩
    rw [h d ⟨cs, rfl⟩] at hd
    cases hd
  | case2 d cs hd =>
    refine ⟨fun _ d' h => ?_, fun _ => rfl⟩
    obtain ⟨_, ⟨⟩⟩ := h
    simpa using hd
  | case3 cs hcs =>
    refine ⟨fun _ d h => ?_, fun _ => rfl⟩
    obtain ⟨tail, rfl⟩ := h
    exact absurd rfl (hcs d tail)

theorem splitExponent_eq_none_iff {cs : List Char} :
    (splitExponent cs).1 = none ↔
      ∀ e d, e = 'e' ∨ e = 'E' → [e, d] <+: cs → isDigit d = false ∧ d ≠ '+' ∧ d ≠ '-' := by
  fun_cases splitExponent cs with
  | case1 e d cs hcond r =>
    simp only [Bool.and_eq_true, Bool.or_eq_true, decide_eq_true_eq] at hcond
    refine ⟨fun h => absurd h (Option.some_ne_none _), fun h => ?_⟩
    obtain ⟨hdigit, hplus, hminus⟩ := h e d hcond.1 ⟨cs, rfl⟩
    simp [hdigit, hplus, hminus] at hcond
  | case2 e d cs hcond =>
    refine ⟨fun _ e' d' he h => ?_, fun _ => rfl⟩
    obtain ⟨_, ⟨⟩⟩ := h
    simp only [Bool.and_eq_true, Bool.or_eq_true, decide_eq_true_eq, not_and, not_or, Bool.not_eq_true] at hcond
    obtain ⟨⟨hdigit, hplus⟩, hminus⟩ := hcond he
    exact ⟨hdigit, hplus, hminus⟩
  | case3 cs hcs =>
    refine ⟨fun _ e d _ h => ?_, fun _ => rfl⟩
    obtain ⟨tail, rfl⟩ := h
    exact absurd rfl (hcs e d tail)

theorem ends_iff {after : List Char} : Ends after ↔
    (∀ d ∈ after.head?, isDigit d = false) ∧ (splitFraction after).1 = none ∧ (splitExponent after).1 = none := by
  rw [splitFraction_eq_none_iff, splitExponent_eq_none_iff]
  exact ⟨fun h => ⟨h.digit, h.fraction, h.exponent⟩, fun h => ⟨h.1, h.2.1, h.2.2⟩⟩

-- The bounded quantifier of `ends_iff` is decided on the head alone, never by going through all characters.
instance (after : List Char) : Decidable (Ends after) :=
  decidable_of_iff' (after.head?.all (!isDigit ·) = true ∧ (splitFraction after).1 = none ∧
    (splitExponent after).1 = none) (by simp [ends_iff, Option.all_eq_true])

theorem snd_of_splitFraction {cs : List Char} (h : (splitFraction cs).1 = none) : (splitFraction cs).2 = cs := by
  have happend := splitFraction_append cs
  rwa [h] at happend

theorem snd_of_splitExponent {cs : List Char} (h : (splitExponent cs).1 = none) : (splitExponent cs).2 = cs := by
  have happend := splitExponent_append cs
  rwa [h] at happend

namespace Numeral

/-- Digits are the whole numeral if it does not go on behind them. -/
theorem split_digits {ds after : List Char} (hds : ∀ d ∈ ds, isDigit d = true) (hafter : Ends after) :
    split (ds ++ after) = (⟨ds, none, none⟩, after) := by
  obtain ⟨hdigit, hfraction, hexponent⟩ := ends_iff.1 hafter
  unfold split
  rw [takeWhile_append_stop hds hdigit, dropWhile_append_stop hds hdigit]
  simp only [hfraction, snd_of_splitFraction hfraction, hexponent, snd_of_splitExponent hexponent]

/-- A numeral without fraction and exponent does not go on behind its digits. -/
theorem ends_of_split {cs : List Char} (hfraction : (split cs).1.fraction = none)
    (hexponent : (split cs).1.exponent = none) : Ends (split cs).2 := by
  have hf : (splitFraction (cs.dropWhile isDigit)).1 = none := hfraction
  have hx : (splitExponent (splitFraction (cs.dropWhile isDigit)).2).1 = none := hexponent
  have hrest : (split cs).2 = cs.dropWhile isDigit :=
    (snd_of_splitExponent hx).trans (snd_of_splitFraction hf)
  rw [snd_of_splitFraction hf] at hx
  rw [hrest]
  exact ends_iff.2 ⟨not_of_head?_dropWhile cs, hf, hx⟩

end Numeral

end Decimal

namespace Token

open Decimal (isDigit placeValue digitsValue_eq)
open Text (byteSize)

/-- Digits in front of a text that are an integer constant there. -/
structure WritesInteger (ds after : List Char) : Prop where
  nonempty : ds ≠ []
  digits : ∀ d ∈ ds, isDigit d = true
  ends : Decimal.Ends after

theorem largestInteger_eq : largestInteger = 2 ^ 63 - 1 :=
  rfl

/-- The token that digits make: their number, or an error if it is too large. -/
theorem numeralKind_digits (ds : List Char) : numeralKind ⟨ds, none, none⟩ =
    if placeValue ds ≤ 2 ^ 63 - 1 then .integer (placeValue ds)
    else .error "Invalid integer: number too large to fit in target type" := by
  rw [← digitsValue_eq, ← largestInteger_eq]
  rfl

/-- Digits in front of a text are its first token, with the number they stand for. -/
theorem lex_digits {ds after : List Char} (h : WritesInteger ds after) :
    lex (String.ofList (ds ++ after)) =
      ⟨if placeValue ds ≤ 2 ^ 63 - 1 then .integer (placeValue ds)
        else .error "Invalid integer: number too large to fit in target type", ⟨0, byteSize ds⟩, String.ofList ds⟩ ::
        lexFrom (byteSize ds) after := by
  obtain ⟨hne, hdigits, hends⟩ := h
  have hsplit := Decimal.Numeral.split_digits hdigits hends
  cases ds with
  | nil => exact absurd rfl hne
  | cons d ds =>
    have hd : isDigit d = true := hdigits d List.mem_cons_self
    rw [List.cons_append] at hsplit
    rw [lex, String.toList_ofList, List.cons_append, lexFrom_of_not_opens (not_opens_of_isDigit hd _), lexeme_of_digit hd,
      hsplit, ← numeralKind_digits]
    simp only [Decimal.Numeral.text, Option.elim_none, List.append_nil, Nat.zero_add]

/-- Every integer token is read from digits that are an integer constant where they stand. -/
theorem exists_digits_of_mem_lex {source : String} {t : Token} {v : Int} (ht : t ∈ lex source)
    (hk : t.kind = .integer v) : ∃ before ds after, source.toList = before ++ (ds ++ after) ∧
      WritesInteger ds after ∧ t.span = ⟨byteSize before, byteSize before + byteSize ds⟩ ∧
      t.span.slice source = String.ofList ds ∧ v = placeValue ds ∧ placeValue ds ≤ 2 ^ 63 - 1 := by
  have hne : t.kind ≠ .eof := by
    rw [hk]
    exact nofun
  obtain ⟨before, c, cs, hsource, hstart, hkind, htext⟩ := exists_start_of_mem_lex ht hne
  have hstop := stop_of_mem_lex ht
  have hlexeme := (lexeme_append c cs).symm
  have hnil := lexeme_text_ne_nil c cs
  rw [hk] at hkind
  rcases plain_or_isDigit c cs with hplain | ⟨hd, hnumeral, -⟩
  · rw [← hkind] at hplain
    exact hplain.elim
  obtain ⟨hn, hv, hle⟩ := of_numeralKind (hnumeral.symm.trans hkind.symm)
  rw [digitsValue_eq] at hv hle
  have hproper := Decimal.Numeral.proper_split (c :: cs)
  have hends : Decimal.Ends (Decimal.Numeral.split (c :: cs)).2 :=
    Decimal.Numeral.ends_of_split (by rw [hn]) (by rw [hn])
  rw [lexeme_of_digit hd] at hlexeme htext hnil
  generalize Decimal.Numeral.split (c :: cs) = r at *
  obtain ⟨⟨whole, fraction, exponent⟩, after⟩ := r
  obtain ⟨-, rfl, rfl⟩ := Decimal.Numeral.mk.inj hn
  simp only [Decimal.Numeral.text, Option.elim_none, List.append_nil] at hlexeme htext hnil
  refine ⟨before, whole, after, hsource.trans (by rw [hlexeme]), ⟨hnil, hproper.whole, hends⟩, ?_, ?_, hv, hle⟩
  · rw [htext, String.toList_ofList] at hstop
    rw [hstart, ← hstop]
  · exact (slice_of_mem_lex ht).trans htext

end Token

end SelectRouting
