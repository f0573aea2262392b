import SelectRouting.Decimal.Shortest
/-!
# JSON values

A value keeps what its text says: a number its digits, a string its code points, with halves of surrogate pairs among them
where the text has some.  What these stand for is asked when a value is used, and only then can a number be out of range or
a string be no text; so a part that nobody uses only has to follow the grammar.
-/
namespace SelectRouting

namespace Json

/-- A number by its sign and its digits. -/
structure Number where
  negative : Bool
  numeral : Decimal.Numeral
  deriving DecidableEq

/-- The code points of a string, or halves of surrogate pairs. -/
abbrev Units := List Nat

end Json

inductive Json where
  | null
  | bool (value : Bool)
  | number (value : Json.Number)
  | string (units : Json.Units)
  | array (items : List Json)
  | object (members : List (Json.Units × Json))

namespace Json

/-! ## Strings -/

namespace Units

def ofString (s : String) : Units :=
  s.toList.map (·.toNat)

def isHigh (n : Nat) : Bool :=
  0xd800 ≤ n && n < 0xdc00

def isLow (n : Nat) : Bool :=
  0xdc00 ≤ n && n < 0xe000

/-- The characters, each pair of halves joined to one; a half by itself is no character. -/
def chars? : Units → Option (List Char)
  | [] => some []
  | [n] => if isHigh n || isLow n then none else some [Char.ofNat n]
  | n :: m :: ns =>
    if isHigh n then
      if isLow m then (chars? ns).map (Char.ofNat (0x10000 + (n - 0xd800) * 0x400 + (m - 0xdc00)) :: ·) else none
    else if isLow n then none
    else (chars? (m :: ns)).map (Char.ofNat n :: ·)

def text? (u : Units) : Option String :=
  u.chars?.map String.ofList

end Units

/-! ## Numbers

A number with a point or an exponent is a float, and so is a negative zero and an integer of more than 64 bits; only the
others are integers. -/

namespace Number

def ofInt (n : Int) : Number :=
  ⟨n < 0, .ofNat n.natAbs⟩

/-- The integer written, if no point and no exponent is. -/
def written? (x : Number) : Option Nat :=
  match x.numeral.fraction, x.numeral.exponent with
  | none, none => some (Decimal.digitsValue x.numeral.whole)
  | _, _ => none

/-- An unsigned integer of 64 bits. -/
def nat? (x : Number) : Option Nat :=
  x.written?.filter fun n => !x.negative && n < twoPow 64

/-- A signed integer of 64 bits. -/
def int? (x : Number) : Option Int :=
  match x.negative, x.written? with
  | false, some n => if n < twoPow 63 then some n else none
  | true, some n => if 0 < n && n ≤ twoPow 63 then some (-n) else none
  | _, none => none

/-! ### Floats

A float is read fast rather than exactly: its digits are cut where they would no longer fit 64 bits, and the rest is one
multiplication or division by a power of ten, after divisions by `10 ^ 308` for as long as the exponent is below that. -/

/-- Reads digits for as long as the significand fits 64 bits: the significand and how many digits are left. -/
def accumulate : Nat → List Char → Nat × Nat
  | n, [] => (n, 0)
  | n, d :: ds =>
    let m := 10 * n + (d.toNat - '0'.toNat)
    if m < twoPow 64 then accumulate m ds else (n, ds.length + 1)

/-- The significand and the exponent of ten.  Digits cut in front of the point raise the exponent, digits read behind it
lower it. -/
def parts (n : Decimal.Numeral) : Nat × Int :=
  let w := accumulate 0 n.whole
  let f := accumulate w.1 n.fractionDigits
  (f.1, (w.2 : Int) - (n.fractionDigits.length - f.2) + n.written)

def powerOfTen (k : Nat) : Binary64 :=
  Binary64.ofDecimal false 1 k

/-- `x · 10 ^ e`, unless that is infinite.  Three divisions make any significand zero. -/
def scale? : Nat → Binary64 → Int → Option Binary64
  | 0, x, _ => some x
  | rounds + 1, x, e =>
    if e.natAbs ≤ 308 then
      if 0 ≤ e then (some (x.mul (powerOfTen e.toNat))).filter (·.isFinite)
      else some (x.div (powerOfTen e.natAbs))
    else if x.isZero then some x
    else if 0 ≤ e then none
    else scale? rounds (x.div (powerOfTen 308)) (e + 308)

def float? (x : Number) : Option Binary64 :=
  let p := parts x.numeral
  (scale? 4 (.ofRatio false p.1 1) p.2).map fun y => if x.negative then y.negate else y

end Number

/-- Floats are positional from `10 ^ (-5)` up to `10 ^ 16`; an exponent always has its sign. -/
def floatLayout : Decimal.Layout :=
  { lowest := -4, highest := 16, plus := ['+'], tie := .even }

/-- A float; JSON has no infinity. -/
def ofFloat (x : Binary64) : Json :=
  match x.read with
  | .finite negative m e => .number ⟨negative, floatLayout.ofBinary m e⟩
  | _ => .null

def ofNat (n : Nat) : Json :=
  .number (.ofInt n)

def ofString (s : String) : Json :=
  .string (.ofString s)

/-! ## Values taken as a whole -/

/-- All strings are texts, all numbers are in range, and arrays and objects are nested no deeper than the limit. -/
def sound : Nat → Json → Bool
  | _, .null | _, .bool _ => true
  | _, .number x => x.float?.isSome
  | _, .string u => u.text?.isSome
  | 0, .array _ | 0, .object _ => false
  | limit + 1, .array items => items.all (sound limit)
  | limit + 1, .object members => members.all fun m => m.1.text?.isSome && sound limit m.2

end Json

end SelectRouting
