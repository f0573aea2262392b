import SelectRouting.Decimal.Binary64
import SelectRouting.Decimal.Numeral
/-!
# The shortest decimal that reads back

A number `m · 2 ^ e` is what every real in an interval around it rounds to: half a step down and half a step up, the ends
included exactly when `m` is even.  Below the least significand of a binade the step is half as wide.  For one, two, …
seventeen digits the two neighbours of the number on that decimal grid are tried in exact arithmetic; the first grid with a
neighbour in the interval gives the digits.  If both are, the nearer one is taken, and a `Tie` says which at equal
distance.
-/
namespace SelectRouting.Decimal

/-- Where a number half-way between two decimals of the same length goes. -/
inductive Tie where
  | up
  | even

/-- The positive number `0.digits · 10 ^ point`. -/
structure Digits where
  digits : List Nat
  point : Int

/-- A positive number `m · 2 ^ e` with its interval, as multiples of `scale`, all over `denominator`. -/
structure Interval where
  low : Nat
  value : Nat
  high : Nat
  denominator : Nat
  closed : Bool

/-- In units of a quarter of `2 ^ e`, so that the ends are whole. -/
def Interval.ofBinary (m : Nat) (e : Int) : Interval :=
  let up := twoPow (e - 2).toNat
  let below := if m = twoPow 52 && -1074 < e then 1 else 2
  { low := (4 * m - below) * up
    value := 4 * m * up
    high := (4 * m + 2) * up
    denominator := twoPow (2 - e).toNat
    closed := m % 2 = 0 }

/-- The interval in multiples of `10 ^ k`. -/
def Interval.scale (i : Interval) (k : Int) : Interval :=
  let up := tenPow (-k).toNat
  { i with low := i.low * up, value := i.value * up, high := i.high * up, denominator := i.denominator * tenPow k.toNat }

def Interval.contains (i : Interval) (n : Nat) : Bool :=
  let x := n * i.denominator
  if i.closed then i.low ≤ x && x ≤ i.high else i.low < x && x < i.high

/-- The integer of the interval that is nearest to the value, if there is one. -/
def Interval.nearest? (i : Interval) (tie : Tie) : Option Nat :=
  let n := i.value / i.denominator
  let below := i.value % i.denominator
  let above := i.denominator - below
  match i.contains n, i.contains (n + 1) with
  | false, false => none
  | true, false => some n
  | false, true => some (n + 1)
  | true, true =>
    if below < above then some n
    else if above < below then some (n + 1)
    else match tie with
      | .up => some (n + 1)
      | .even => some (if n % 2 = 0 then n else n + 1)

/-- The `point` with `10 ^ (point - 1) ≤ value < 10 ^ point`, searched upwards from an estimate that is not above it. -/
def Interval.point (i : Interval) : Nat → Int → Int
  | 0, p => p
  | fuel + 1, p => if (i.scale p).value < (i.scale p).denominator then p else i.point fuel (p + 1)

def decimalDigits (n : Nat) : List Nat :=
  (Nat.toDigits 10 n).map fun c => c.toNat - '0'.toNat

def stripTrailingZeros (ds : List Nat) : List Nat :=
  (ds.reverse.dropWhile (· = 0)).reverse

/-- Tries grids of `count`, `count + 1`, … digits, `fuel` of them. -/
def shortestFrom (i : Interval) (tie : Tie) (point : Int) : Nat → Nat → Digits
  | 0, _ => ⟨[], point⟩
  | fuel + 1, count =>
    match (i.scale (point - count)).nearest? tie with
    | some n =>
      let ds := decimalDigits n
      ⟨stripTrailingZeros ds, point - count + ds.length⟩
    | none => shortestFrom i tie point fuel (count + 1)

/-- The digits of the positive number `m · 2 ^ e`.  Three binary digits are less than one decimal digit and four are
more, so the estimate of the decimal point is low, and by less than a hundred. -/
def shortest (tie : Tie) (m : Nat) (e : Int) : Digits :=
  let i := Interval.ofBinary m e
  let size : Int := m.log2 + e
  let point := i.point 100 (if 0 ≤ size then size / 4 else size / 3 - 1)
  shortestFrom i tie point 18 1

/-! ## Layout -/

/-- How a number is laid out: positionally while the decimal point is at a place from `lowest` to `highest`, counted from
the front of the digits, and with an exponent otherwise. -/
structure Layout where
  lowest : Int
  highest : Int
  /-- What stands in front of an exponent that is not negative. -/
  plus : List Char
  tie : Tie

def digitChars (ds : List Nat) : List Char :=
  ds.map Nat.digitChar

def zeros (n : Nat) : List Char :=
  List.replicate n '0'

/-- A positional form always has a fractional part; an exponent form has one digit in front of the point, and no point when
there is just that one. -/
def Layout.numeral (l : Layout) (d : Digits) : Numeral :=
  let n := d.digits.length
  if l.lowest ≤ d.point && d.point ≤ l.highest then
    if d.point ≤ 0 then ⟨['0'], some (zeros (-d.point).toNat ++ digitChars d.digits), none⟩
    else
      let k := d.point.toNat
      if n ≤ k then ⟨digitChars d.digits ++ zeros (k - n), some ['0'], none⟩
      else ⟨digitChars (d.digits.take k), some (digitChars (d.digits.drop k)), none⟩
  else
    let x := d.point - 1
    { whole := digitChars (d.digits.take 1)
      fraction := if n ≤ 1 then none else some (digitChars (d.digits.drop 1))
      exponent := some ⟨'e', if x < 0 then ['-'] else l.plus, Nat.toDigits 10 x.natAbs⟩ }

/-- The numeral of a number `m · 2 ^ e`. -/
def Layout.ofBinary (l : Layout) (m : Nat) (e : Int) : Numeral :=
  if m = 0 then ⟨['0'], some ['0'], none⟩ else l.numeral (shortest l.tie m e)

/-- The text of any number. -/
def Layout.text (l : Layout) (x : Binary64) : String :=
  match x.read with
  | .notANumber => "NaN"
  | .infinite negative => if negative then "-inf" else "inf"
  | .finite negative m e => String.ofList ((if negative then ['-'] else []) ++ (l.ofBinary m e).text)

end SelectRouting.Decimal
