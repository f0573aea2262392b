/-!
# Decimal numerals

The parts of a number as it is written: digits, digits behind a point, and an exponent of ten with its letter and sign.  The
parts keep every character, so a numeral has one text; which texts are numerals is for each notation to say.
-/
namespace SelectRouting.Decimal

def isDigit (c : Char) : Bool :=
  '0' ≤ c && c ≤ '9'

/-- The number that decimal digits stand for. -/
def digitsValue (ds : List Char) : Nat :=
  ds.foldl (fun n d => 10 * n + (d.toNat - '0'.toNat)) 0

/-- A letter, a sign or nothing, and digits. -/
structure Exponent where
  letter : Char
  sign : List Char
  digits : List Char
  deriving DecidableEq

namespace Exponent

def text (x : Exponent) : List Char :=
  x.letter :: (x.sign ++ x.digits)

def value (x : Exponent) : Int :=
  if x.sign = ['-'] then -(digitsValue x.digits : Int) else digitsValue x.digits

end Exponent

structure Numeral where
  whole : List Char
  /-- The digits behind the point. -/
  fraction : Option (List Char)
  exponent : Option Exponent
  deriving DecidableEq

namespace Numeral

def text (n : Numeral) : List Char :=
  n.whole ++ n.fraction.elim [] ('.' :: ·) ++ n.exponent.elim [] Exponent.text

/-- The numeral of a natural number. -/
def ofNat (n : Nat) : Numeral :=
  ⟨Nat.toDigits 10 n, none, none⟩

def fractionDigits (n : Numeral) : List Char :=
  n.fraction.getD []

/-- The exponent as it is written, 0 if there is none. -/
def written (n : Numeral) : Int :=
  n.exponent.elim 0 Exponent.value

end Numeral

/-! ## Reading the parts -/

/-- The digits behind a point, if there is a point and a digit behind it. -/
def splitFraction : List Char → Option (List Char) × List Char
  | '.' :: d :: cs => if isDigit d then (some (d :: cs.takeWhile isDigit), cs.dropWhile isDigit) else (none, '.' :: d :: cs)
  | cs => (none, cs)

/-- A sign at the front, or nothing. -/
def splitSign : List Char → List Char × List Char
  | '+' :: cs => (['+'], cs)
  | '-' :: cs => (['-'], cs)
  | cs => ([], cs)

/-- An exponent, if there is its letter and a digit or a sign behind it; behind a sign the digits may be missing. -/
def splitExponent : List Char → Option Exponent × List Char
  | e :: d :: cs =>
    if (e = 'e' || e = 'E') && (isDigit d || d = '+' || d = '-') then
      let r := splitSign (d :: cs)
      (some ⟨e, r.1, r.2.takeWhile isDigit⟩, r.2.dropWhile isDigit)
    else (none, e :: d :: cs)
  | cs => (none, cs)

theorem splitFraction_append (cs : List Char) :
    (splitFraction cs).1.elim [] ('.' :: ·) ++ (splitFraction cs).2 = cs := by
  fun_cases splitFraction cs <;> simp [*]

theorem splitSign_append (cs : List Char) : (splitSign cs).1 ++ (splitSign cs).2 = cs := by
  fun_cases splitSign cs <;> simp

theorem splitExponent_append (cs : List Char) :
    (splitExponent cs).1.elim [] Exponent.text ++ (splitExponent cs).2 = cs := by
  fun_cases splitExponent cs with
  | case1 e d cs h r =>
    have := splitSign_append (d :: cs)
    simp only [Option.elim_some, Exponent.text, List.cons_append, List.append_assoc, List.takeWhile_append_dropWhile, r,
      this]
  | case2 => simp
  | case3 => simp

/-- The longest numeral at the front of a text and what follows it. -/
def Numeral.split (cs : List Char) : Numeral × List Char :=
  let f := splitFraction (cs.dropWhile isDigit)
  let x := splitExponent f.2
  (⟨cs.takeWhile isDigit, f.1, x.1⟩, x.2)

theorem Numeral.split_append (cs : List Char) : (Numeral.split cs).1.text ++ (Numeral.split cs).2 = cs := by
  have hf := splitFraction_append (cs.dropWhile isDigit)
  have hx := splitExponent_append (splitFraction (cs.dropWhile isDigit)).2
  simp only [Numeral.split, Numeral.text, List.append_assoc]
  rw [hx, hf, List.takeWhile_append_dropWhile]

end SelectRouting.Decimal
