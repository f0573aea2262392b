import SelectRouting.Token
import SelectRouting.Decimal.Numeral
/-!
# Numerals in a statement

A numeral starts with ASCII digits.  A point joins in when a digit follows it, an `e` when a digit or a sign follows it, so
that `7.x` is a number, a point and a name.  With neither the numeral is an integer of 64 bits, with either a float; the
digits of an exponent may turn out to be missing, and then there is no value.
-/
namespace SelectRouting.Token

open Decimal (Numeral digitsValue)

/-- The largest integer constant. -/
def largestInteger : Nat :=
  twoPow 63 - 1

def floatValue (n : Numeral) : Binary64 :=
  Binary64.ofDecimal false (digitsValue (n.whole ++ n.fractionDigits)) (n.written - n.fractionDigits.length)

/-- The token that a numeral makes. -/
def numeralKind (n : Numeral) : Kind :=
  match n.fraction, n.exponent with
  | none, none =>
    let v := digitsValue n.whole
    if v ≤ largestInteger then .integer v
    else .error "Invalid integer: number too large to fit in target type"
  | _, some ⟨_, _, []⟩ => .error "Invalid float: invalid float literal"
  | _, _ => .float (floatValue n)

end SelectRouting.Token
