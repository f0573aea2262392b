import SelectRouting.Token.Lexer
/-!
# A place in a list of tokens

A cursor stands on a token and knows the ones behind it; what lies in front is forgotten, since nothing ever moves back.
There is always a current token, because a list of tokens ends with the end of the input and no step passes that.
-/
namespace SelectRouting

structure Cursor where
  /-- The text that the tokens are made of. -/
  source : String
  current : Token
  /-- The tokens behind the current one. -/
  rest : List Token

namespace Cursor

/-- On the first token of a text. -/
def ofSource (source : String) : Cursor :=
  match Token.lex source with
  | [] => ⟨source, ⟨.eof, ⟨0, 0⟩, ""⟩, []⟩
  | t :: ts => ⟨source, t, ts⟩

/-! ## Looking -/

/-- The current token and all behind it. -/
def tokens (c : Cursor) : List Token :=
  c.current :: c.rest

/-- The token behind the current one; the last token is its own successor. -/
def next (c : Cursor) : Token :=
  c.rest.headD c.current

def span (c : Cursor) : Span :=
  c.current.span

def kind (c : Cursor) : Token.Kind :=
  c.current.kind

def keyword? (c : Cursor) : Option Keyword :=
  c.kind.keyword?

def atKeyword (c : Cursor) (k : Keyword) : Bool :=
  c.keyword? = some k

def atAny (c : Cursor) (ks : List Keyword) : Bool :=
  c.keyword?.any ks.contains

def nextIsKeyword (c : Cursor) (k : Keyword) : Bool :=
  c.next.kind.keyword? = some k

/-- On a bare or quoted name that is no keyword. -/
def atIdentifier (c : Cursor) : Bool :=
  match c.kind with
  | .identifier _ => true
  | _ => false

/-- At the start of a nested query. -/
def atSubquery (c : Cursor) : Bool :=
  c.kind = .leftParen && c.nextIsKeyword .select

/-- The name that the current token can be: a bare or quoted one without its quotes, or a keyword that is not reserved, as
it is written. -/
def name? (c : Cursor) : Option String :=
  match c.kind with
  | .identifier name => some name
  | .keyword k => if k.reserved then none else some c.current.text
  | _ => none

/-! ## Moving -/

/-- To the next token, unless this is the end of the input. -/
def advance (c : Cursor) : Cursor :=
  match c.kind, c.rest with
  | .eof, _ | _, [] => c
  | _, t :: ts => { c with current := t, rest := ts }

/-- Behind the parenthesis that closes `depth` inner ones and the region itself: that parenthesis and what follows it. -/
def closing? : Nat → List Token → Option (Token × List Token)
  | _, [] => none
  | depth, t :: ts =>
    match t.kind, depth with
    | .leftParen, _ => closing? (depth + 1) ts
    | .rightParen, 0 => some (t, ts)
    | .rightParen, depth + 1 => closing? depth ts
    | .eof, _ => none
    | _, _ => closing? depth ts

/-- To the end of the input. -/
def atEnd : Token → List Token → Token × List Token
  | t, [] => (t, [])
  | t, u :: us => if t.kind = .eof then (t, u :: us) else atEnd u us

/-- To the first of some tokens. -/
def moveTo (c : Cursor) (last : Token) : List Token → Cursor
  | [] => { c with current := last, rest := [] }
  | t :: ts => { c with current := t, rest := ts }

/-- Inside a parenthesized region: its closing parenthesis and the cursor behind it, or the cursor at the end of the input
when the region is not closed. -/
def leaveRegion (c : Cursor) : Option Token × Cursor :=
  match closing? 0 c.tokens with
  | some (close, after) => (some close, c.moveTo close after)
  | none =>
    let e := atEnd c.current c.rest
    (none, { c with current := e.1, rest := e.2 })

end Cursor

end SelectRouting
