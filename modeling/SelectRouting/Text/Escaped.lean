import SelectRouting.Text.Unprintable
import SelectRouting.Text.GraphemeExtend
import SelectRouting.Text.DefaultIgnorable
/-!
# Texts shown in messages

A text inside a message stands between double quotes, with the characters that could not be told apart on display written
as escapes: the quote and the backslash, four controls by a letter or `0`, and whatever is unprintable, would join the
character in front of it or is shown as nothing by its code point in hexadecimal.
-/
namespace SelectRouting.Text

def hexText (n : Nat) : String :=
  String.ofList (Nat.toDigits 16 n)

/-- A character that cannot be seen by itself. -/
def isHidden (c : Char) : Bool :=
  isUnprintable c || isCombining c || isDefaultIgnorable c

/-- One character as it is shown. -/
def escapeChar (c : Char) : String :=
  if c = '\x00' then "\\0"
  else if c = '\t' then "\\t"
  else if c = '\n' then "\\n"
  else if c = '\r' then "\\r"
  else if c = '\\' then "\\\\"
  else if c = '\x22' then "\\\""
  else if isHidden c then "\\u\x7b" ++ hexText c.toNat ++ "\x7d"
  else c.toString

def escaped (s : String) : String :=
  "\"" ++ String.join (s.toList.map escapeChar) ++ "\""

end SelectRouting.Text
