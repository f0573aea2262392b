import SelectRouting.Token
/-!
# Why a statement is refused

A text is refused because it does not follow the grammar, or because it uses a construct that is known and cannot be sharded
safely.  An error keeps its cause; the words are chosen in one place.
-/
namespace SelectRouting

namespace ParseError

inductive Cause where
  /-- The token found does not continue the statement. -/
  | unexpected (expected : String) (found : Token.Kind)
  /-- A construct that is recognised and rejected. -/
  | unsupported (construct : String)
  /-- Any other breach of the grammar, in words. -/
  | invalid (message : String)
  deriving DecidableEq

end ParseError

structure ParseError where
  cause : ParseError.Cause
  span : Span
  deriving DecidableEq

namespace ParseError

/-- The message without the place. -/
def message (e : ParseError) : String :=
  match e.cause with
  | .unexpected expected .eof => "Unexpected end of input: expected " ++ expected
  | .unexpected expected found => "Unexpected token: expected " ++ expected ++ ", found " ++ found.display
  | .unsupported construct => "Unsupported construct: " ++ construct
  | .invalid message => message

/-- The message with the place. -/
def display (e : ParseError) : String :=
  e.message ++ " at position " ++ toString e.span.start ++ ".." ++ toString e.span.stop

def isUnsupported (e : ParseError) : Bool :=
  match e.cause with
  | .unsupported _ => true
  | _ => false

def expected? (e : ParseError) : Option String :=
  match e.cause with
  | .unexpected expected _ => some expected
  | _ => none

def found? (e : ParseError) : Option Token.Kind :=
  match e.cause with
  | .unexpected _ found => some found
  | _ => none

end ParseError

end SelectRouting
