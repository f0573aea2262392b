import SelectRouting.Json
/-!
# Writing JSON

The text of a value has no white space.  In a string only the quote, the backslash and the controls below U+0020 are
escaped, by a letter where there is one, and halves of surrogate pairs, which have no other form.
-/
namespace SelectRouting.Json

def hexDigits (n : Nat) : List Char :=
  [n / 0x1000 % 16, n / 0x100 % 16, n / 0x10 % 16, n % 16].map Nat.digitChar

def unitText (n : Nat) : List Char :=
  if n = 0x22 then ['\\', '\x22']
  else if n = 0x5c then ['\\', '\\']
  else if n = 0x08 then ['\\', 'b']
  else if n = 0x0c then ['\\', 'f']
  else if n = 0x0a then ['\\', 'n']
  else if n = 0x0d then ['\\', 'r']
  else if n = 0x09 then ['\\', 't']
  else if n < 0x20 || Units.isHigh n || Units.isLow n then '\\' :: 'u' :: hexDigits n
  else [Char.ofNat n]

def stringText (u : Units) : List Char :=
  '\x22' :: (u.flatMap unitText ++ ['\x22'])

def numberText (x : Number) : List Char :=
  (if x.negative then ['-'] else []) ++ x.numeral.text

mutual

def chars : Json → List Char
  | .null => "null".toList
  | .bool true => "true".toList
  | .bool false => "false".toList
  | .number x => numberText x
  | .string u => stringText u
  | .array items => '[' :: (itemsText items ++ [']'])
  | .object members => '\x7b' :: (membersText members ++ ['\x7d'])

def itemsText : List Json → List Char
  | [] => []
  | [v] => chars v
  | v :: vs => chars v ++ ',' :: itemsText vs

def membersText : List (Units × Json) → List Char
  | [] => []
  | [(name, v)] => stringText name ++ ':' :: chars v
  | (name, v) :: ms => stringText name ++ ':' :: (chars v ++ ',' :: membersText ms)

end

def text (v : Json) : String :=
  String.ofList (chars v)

end SelectRouting.Json
