import SelectRouting.Json
/-!
# Reading JSON

The reader takes exactly the texts of the grammar: one value with white space around it, no comma in front of a closing
mark, no control character inside a string, no zero in front of other digits.  An array or an object is written over the
reader of inner values; an inner value is a shorter text, so the length bounds the nesting and every list.
-/
namespace SelectRouting.Json

abbrev Reader (α : Type) := List Char → Option (α × List Char)

def isSpace (c : Char) : Bool :=
  c = ' ' || c = '\n' || c = '\t' || c = '\r'

def skipSpace (cs : List Char) : List Char :=
  cs.dropWhile isSpace

/-! ## Strings -/

def hexValue? (c : Char) : Option Nat :=
  if '0' ≤ c && c ≤ '9' then some (c.toNat - '0'.toNat)
  else if 'a' ≤ c && c ≤ 'f' then some (c.toNat - 'a'.toNat + 10)
  else if 'A' ≤ c && c ≤ 'F' then some (c.toNat - 'A'.toNat + 10)
  else none

/-- Four hexadecimal digits. -/
def hexUnit? (a b c d : Char) : Option Nat := do
  return 0x1000 * (← hexValue? a) + 0x100 * (← hexValue? b) + 0x10 * (← hexValue? c) + (← hexValue? d)

/-- What a letter behind a backslash stands for. -/
def escape? : Char → Option Nat
  | '\x22' => some 0x22
  | '\\' => some 0x5c
  | '/' => some 0x2f
  | 'b' => some 0x08
  | 'f' => some 0x0c
  | 'n' => some 0x0a
  | 'r' => some 0x0d
  | 't' => some 0x09
  | _ => none

def push (n : Nat) (r : Units × List Char) : Units × List Char :=
  (n :: r.1, r.2)

/-- The units of a string, behind its opening quote. -/
def units? : Reader Units
  | [] => none
  | '\x22' :: cs => some ([], cs)
  | '\\' :: 'u' :: a :: b :: c :: d :: cs => (hexUnit? a b c d).bind fun n => (units? cs).map (push n)
  | '\\' :: e :: cs => (escape? e).bind fun n => (units? cs).map (push n)
  | c :: cs => if c.toNat < 0x20 || c = '\\' then none else (units? cs).map (push c.toNat)

/-! ## Numbers -/

/-- No zero in front of other digits, and no exponent without digits. -/
def isStrict (n : Decimal.Numeral) : Bool :=
  (n.whole = ['0'] || n.whole.head?.any (· ≠ '0')) && n.exponent.all (!·.digits.isEmpty)

def unsigned? (negative : Bool) (cs : List Char) : Option (Json × List Char) :=
  let r := Decimal.Numeral.split cs
  if isStrict r.1 then some (.number ⟨negative, r.1⟩, r.2) else none

/-! ## Lists -/

/-- One or more items with commas between them, up to the closing mark. -/
def itemsUntil (close : Char) (item : Reader α) : Nat → Reader (List α)
  | 0, _ => none
  | rounds + 1, cs => do
    let (a, cs) ← item cs
    match skipSpace cs with
    | ',' :: cs =>
      let (rest, cs) ← itemsUntil close item rounds cs
      return (a :: rest, cs)
    | c :: cs => if c = close then return ([a], cs) else none
    | [] => none

/-- Any number of items, up to the closing mark. -/
def listUntil (close : Char) (item : Reader α) : Reader (List α) := fun cs =>
  match skipSpace cs with
  | [] => none
  | c :: rest => if c = close then some ([], rest) else itemsUntil close item cs.length cs

/-- `"name": value`. -/
def member? (value : Reader Json) : Reader (Units × Json) := fun cs =>
  match skipSpace cs with
  | '\x22' :: cs => do
    let (name, cs) ← units? cs
    match skipSpace cs with
    | ':' :: cs =>
      let (v, cs) ← value cs
      return ((name, v), cs)
    | _ => none
  | _ => none

/-! ## Values -/

/-- A value of which the first character is not white space. -/
def valueOver (value : Reader Json) : Reader Json
  | 'n' :: 'u' :: 'l' :: 'l' :: cs => some (.null, cs)
  | 't' :: 'r' :: 'u' :: 'e' :: cs => some (.bool true, cs)
  | 'f' :: 'a' :: 'l' :: 's' :: 'e' :: cs => some (.bool false, cs)
  | '\x22' :: cs => (units? cs).map fun r => (.string r.1, r.2)
  | '[' :: cs => (listUntil ']' value cs).map fun r => (.array r.1, r.2)
  | '\x7b' :: cs => (listUntil '\x7d' (member? value) cs).map fun r => (.object r.1, r.2)
  | '-' :: cs => unsigned? true cs
  | cs => unsigned? false cs

/-- A value nested less deeply than the given depth. -/
def valueAt : Nat → Reader Json
  | 0, _ => none
  | depth + 1, cs => valueOver (valueAt depth) (skipSpace cs)

/-- The value that a whole text is. -/
def parse? (text : String) : Option Json := do
  let cs := text.toList
  let (v, rest) ← valueAt (cs.length + 1) cs
  if (skipSpace rest).isEmpty then some v else none

end SelectRouting.Json
