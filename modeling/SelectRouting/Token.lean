import SelectRouting.Span
import SelectRouting.Keyword
import SelectRouting.Decimal.Shortest
import SelectRouting.Text.Escaped
/-!
# Tokens

A token says what it is (its kind, with the value of a constant or the name without its quotes), where it stands, and which
characters it is made of.  Reading a text never fails: what is no token of the language becomes an error token, and the last
token is always the end of the input.
-/
namespace SelectRouting

namespace Token

inductive Kind where
  | integer (value : Int)
  | float (value : Binary64)
  | string (value : String)
  | identifier (name : String)
  | keyword (word : Keyword)
  | error (message : String)
  | plus | minus | star | slash | percent
  | eq | notEq | lt | ltEq | gt | gtEq
  | concat
  | leftParen | rightParen | comma | semicolon | dot
  | question
  | eof
  deriving DecidableEq

namespace Kind

/-- Of the same kind, whatever the value, the name or the keyword. -/
def alike : Kind → Kind → Bool
  | .integer _, .integer _ | .float _, .float _ | .string _, .string _ => true
  | .identifier _, .identifier _ | .keyword _, .keyword _ | .error _, .error _ => true
  | a, b => a = b

def keyword? : Kind → Option Keyword
  | .keyword k => some k
  | _ => none

/-! ## Display form

How messages name a kind.  Floats are positional from a ten-thousandth up to `10 ^ 16`. -/

def floatLayout : Decimal.Layout :=
  { lowest := -3, highest := 16, plus := [], tie := .up }

def display : Kind → String
  | .integer n => "Integer(" ++ toString n ++ ")"
  | .float x => "Float(" ++ floatLayout.text x ++ ")"
  | .string s => "String(" ++ Text.escaped s ++ ")"
  | .identifier s => "Identifier(" ++ Text.escaped s ++ ")"
  | .keyword k => "Keyword(" ++ k.title ++ ")"
  | .error s => "Error(" ++ Text.escaped s ++ ")"
  | .plus => "Plus"
  | .minus => "Minus"
  | .star => "Star"
  | .slash => "Slash"
  | .percent => "Percent"
  | .eq => "Eq"
  | .notEq => "NotEq"
  | .lt => "Lt"
  | .ltEq => "LtEq"
  | .gt => "Gt"
  | .gtEq => "GtEq"
  | .concat => "Concat"
  | .leftParen => "LeftParen"
  | .rightParen => "RightParen"
  | .comma => "Comma"
  | .semicolon => "Semicolon"
  | .dot => "Dot"
  | .question => "Question"
  | .eof => "Eof"

end Kind

end Token

structure Token where
  kind : Token.Kind
  span : Span
  /-- The characters of the span. -/
  text : String
  deriving DecidableEq

end SelectRouting
