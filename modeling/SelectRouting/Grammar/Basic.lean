import SelectRouting.Cursor
import SelectRouting.ParseError
import SelectRouting.Statement
import SelectRouting.Rule
/-!
# Parsers

A parser reads tokens from a cursor and fills a statement.  It fails with an error and then leaves both as they were at that
moment: what was read stays read.  All parsers are made of four steps: to look at the state, to move the cursor forward, to
change the statement, and to fail.

A loop takes the number of its rounds from the tokens left.  Each round passes at least one of them, so the bound is never
what ends a loop.
-/
namespace SelectRouting.Grammar

structure State where
  cursor : Cursor
  statement : Statement
  /-- Inside a hierarchical condition an operand may be marked `PRIOR`. -/
  priorAllowed : Bool

def State.ofSource (source : String) : State :=
  ⟨.ofSource source, .empty, false⟩

abbrev Parser := EStateM ParseError State

/-! ## Steps -/

def inspect (f : State → α) : Parser α :=
  fun s => .ok (f s) s

def moveCursor (f : Cursor → Cursor) : Parser Unit :=
  fun s => .ok () { s with cursor := f s.cursor }

def modifyStatement (f : Statement → Statement) : Parser Unit :=
  fun s => .ok () { s with statement := f s.statement }

def fail (cause : ParseError.Cause) (span : Span) : Parser α :=
  fun s => .error ⟨cause, span⟩ s

/-! ## Looking -/

def look (f : Cursor → α) : Parser α :=
  inspect (f ·.cursor)

def check (k : Token.Kind) : Parser Bool :=
  look (·.kind.alike k)

def checkKeyword (k : Keyword) : Parser Bool :=
  look (·.atKeyword k)

def checkAny (ks : List Keyword) : Parser Bool :=
  look (·.atAny ks)

/-- The number of tokens behind the current one. -/
def tokensLeft : Parser Nat :=
  look (·.rest.length)

/-! ## Moving -/

def advance : Parser Unit :=
  moveCursor Cursor.advance

/-- Passes the current token if the test holds of the cursor, and says whether it did. -/
def skipWhen (test : Cursor → Bool) : Parser Bool := do
  if ← look test then
    advance
    return true
  else return false

def skip (k : Token.Kind) : Parser Bool :=
  skipWhen (·.kind.alike k)

def skipKeyword (k : Keyword) : Parser Bool :=
  skipWhen (·.atKeyword k)

def skipAny (ks : List Keyword) : Parser Bool :=
  skipWhen (·.atAny ks)

/-! ## Failing -/

/-- The current token is not what has to stand here. -/
def unexpected (expected : String) : Parser α := do
  let t ← look (·.current)
  fail (.unexpected expected t.kind) t.span

/-- The current token starts a construct that is rejected. -/
def unsupported (construct : String) : Parser α := do
  let span ← look (·.span)
  fail (.unsupported construct) span

/-! ## Demanding -/

/-- Passes a token of the given kind, whatever its value, and returns its place. -/
def expect (k : Token.Kind) : Parser Span := do
  let span ← look (·.span)
  if ← skip k then return span else unexpected k.display

def expectKeyword (k : Keyword) : Parser Span := do
  let span ← look (·.span)
  if ← skipKeyword k then return span else unexpected k.text

/-- Passes a name. -/
def expectName : Parser String := do
  match ← look (·.name?) with
  | some name => advance; return name
  | none => unexpected "identifier"

/-- Passes a region in parentheses and returns its place, parentheses included. -/
def skipRegion : Parser Span := do
  let opening ← expect .leftParen
  let closing ← look (·.leaveRegion.1)
  moveCursor (·.leaveRegion.2)
  match closing with
  | some close => return ⟨opening.start, close.span.stop⟩
  | none => unexpected "')'"

/-! ## Filling the statement -/

/-- The ordinal of a parameter just passed. -/
def claimParameter : Parser Nat := do
  let ordinal ← inspect (·.statement.parameters)
  modifyStatement (·.claimParameter)
  return ordinal

/-- Records the edit for a token that names a table, if it names a logic table. -/
def recordTable (rule : Rule) (name : String) (token : Token) : Parser Unit :=
  if rule.containsTable name then modifyStatement (·.addEdit (.table token.span.start token.text)) else pure ()

/-! ## Lists -/

def separated (item : Parser α) : Nat → Parser (List α)
  | 0 => return [← item]
  | rounds + 1 => do
    let first ← item
    if ← skip .comma then return first :: (← separated item rounds) else return [first]

/-- One or more items with commas between them. -/
def commaSeparated (item : Parser α) : Parser (List α) := do
  separated item (← tokensLeft)

/-- One or more items with commas between them, each of which fills the statement by itself. -/
def eachSeparated (item : Parser Unit) : Parser Unit := do
  let _ ← commaSeparated item

end SelectRouting.Grammar
