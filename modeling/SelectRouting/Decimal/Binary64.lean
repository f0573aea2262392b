import SelectRouting.Decimal.Power
/-!
# Binary64 numbers as bit patterns

A floating-point constant is kept as the 64 bits of its format, so that two constants are equal exactly when their bits
are.  Its value is read off the bits as `± m · 2 ^ e` with natural `m` and integer `e`, and every operation works on these
exact values and rounds once at the end: to the nearest number, a half to the one with an even significand.  No machine
arithmetic is involved.
-/
namespace SelectRouting

structure Binary64 where
  bits : UInt64
  deriving DecidableEq, Inhabited

namespace Binary64

/-! ## Reading

The top bit is the sign, eleven bits are the exponent field, 52 the fraction.  Field 0 holds the numbers without the
implicit leading bit, field 2047 the infinities and the non-numbers. -/

/-- What a bit pattern stands for; a finite value is `± significand · 2 ^ exponent`. -/
inductive Reading where
  | finite (negative : Bool) (significand : Nat) (exponent : Int)
  | infinite (negative : Bool)
  | notANumber

def read (x : Binary64) : Reading :=
  let word := x.bits.toNat
  let negative : Bool := twoPow 63 ≤ word
  let field : Nat := word / twoPow 52 % twoPow 11
  let fraction : Nat := word % twoPow 52
  if field = 2047 then
    if fraction = 0 then .infinite negative else .notANumber
  else if field = 0 then .finite negative fraction (-1074)
  else .finite negative (twoPow 52 + fraction) (field - 1075)

/-! ## Rounding -/

/-- The quotient to the nearest integer, a half to the even one. -/
def roundHalfEven (numerator denominator : Nat) : Nat :=
  let q := numerator / denominator
  let twice := 2 * (numerator % denominator)
  if twice < denominator || (twice = denominator && q % 2 = 0) then q else q + 1

/-- The number whose magnitude has the given bits; a magnitude past the finite ones becomes infinity. -/
def ofMagnitude (negative : Bool) (magnitude : Nat) : Binary64 :=
  ⟨UInt64.ofNat ((if negative then twoPow 63 else 0) + min magnitude (2047 * twoPow 52))⟩

/-- The number nearest to `± numerator / denominator`.  With `2 ^ top` the largest power of two in the quotient, the last
of 53 binary digits stands for `2 ^ (top - 52)`, and no digit for less than `2 ^ (-1074)`.  A significand that rounds up
to `2 ^ 53` carries into the exponent field by itself. -/
def ofRatio (negative : Bool) (numerator denominator : Nat) : Binary64 :=
  if numerator = 0 then ofMagnitude negative 0
  else
    let size : Int := numerator.log2 - denominator.log2
    let top := if denominator * twoPow size.toNat ≤ numerator * twoPow (-size).toNat then size else size - 1
    let last := max (top - 52) (-1074)
    let significand := roundHalfEven (numerator * twoPow (-last).toNat) (denominator * twoPow last.toNat)
    ofMagnitude negative
      (if significand < twoPow 52 then significand else significand - twoPow 52 + (last + 1075).toNat * twoPow 52)

/-- The number nearest to `± significand · 10 ^ exponent`.  An exponent so large or so small that the result is certain
to be infinite or zero is not multiplied out. -/
def ofDecimal (negative : Bool) (significand : Nat) (exponent : Int) : Binary64 :=
  if significand = 0 then ofMagnitude negative 0
  else if 400 < exponent then ofMagnitude negative (2047 * twoPow 52)
  else if exponent < -400 - (significand.log2 + 1) then ofMagnitude negative 0
  else ofRatio negative (significand * tenPow exponent.toNat) (tenPow (-exponent).toNat)

/-! ## Arithmetic on finite numbers

Used with operands of known sign and size only; anything that is not finite stays as it is. -/

def mul (x y : Binary64) : Binary64 :=
  match x.read, y.read with
  | .finite s m e, .finite t n f =>
    ofRatio (s != t) (m * n * twoPow (e + f).toNat) (twoPow (-(e + f)).toNat)
  | _, _ => x

def div (x y : Binary64) : Binary64 :=
  match x.read, y.read with
  | .finite s m e, .finite t n f =>
    ofRatio (s != t) (m * twoPow (e - f).toNat) (n * twoPow (f - e).toNat)
  | _, _ => x

def negate (x : Binary64) : Binary64 :=
  ⟨x.bits ^^^ 0x8000000000000000⟩

def isFinite (x : Binary64) : Bool :=
  match x.read with
  | .finite .. => true
  | _ => false

/-- True of both zeros. -/
def isZero (x : Binary64) : Bool :=
  match x.read with
  | .finite _ m _ => m = 0
  | _ => false

end Binary64

end SelectRouting
