import SelectRouting.Grammar.Basic
import SelectRouting.Expr.Level
/-!
# Expressions

An expression is an operand followed by operators that bind at least as strongly as asked for, each with what it takes on
its right; the right side asks for more than the left, so that operators of one level group to the left.  The grammar of an
operand is written over the parser of inner expressions, and the knot is tied once, in `expressionAt`: an inner expression
starts at least one token further on, so the number of tokens left bounds the nesting.
-/
namespace SelectRouting.Grammar

/-- A parser of inner expressions that bind at least as strongly as asked for. -/
abbrev Inner := Nat → Parser Expr

/-! ## Operators -/

/-- What a token between two operands starts. -/
inductive Infix where
  | operator (op : BinaryOp)
  | is
  | within
  | between
  /-- The negation of a test that follows it. -/
  | not

namespace Infix

def ofKind? : Token.Kind → Option Infix
  | .eq => some (.operator .eq)
  | .notEq => some (.operator .notEq)
  | .lt => some (.operator .lt)
  | .ltEq => some (.operator .ltEq)
  | .gt => some (.operator .gt)
  | .gtEq => some (.operator .gtEq)
  | .plus => some (.operator .add)
  | .minus => some (.operator .sub)
  | .concat => some (.operator .concat)
  | .star => some (.operator .mul)
  | .slash => some (.operator .div)
  | .percent => some (.operator .mod)
  | .keyword .or => some (.operator .or)
  | .keyword .and => some (.operator .and)
  | .keyword .like => some (.operator .like)
  | .keyword .is => some .is
  | .keyword .in => some .within
  | .keyword .between => some .between
  | .keyword .not => some .not
  | _ => none

def level : Infix → Level
  | .operator op => op.level
  | _ => .comparison

end Infix

/-- The operator in front of an operand that a token is. -/
def prefixed? : Token.Kind → Option UnaryOp
  | .minus => some .neg
  | .keyword .not => some .not
  | _ => none

/-! ## Operands -/

def expressionList (inner : Inner) : Parser (List Expr) :=
  commaSeparated (inner 0)

/-- The arguments of a call; a star stands alone. -/
def arguments (inner : Inner) : Parser (List Expr) := do
  if ← check .rightParen then return []
  else if ← skip .star then return [.wildcard none]
  else expressionList inner

/-- `([DISTINCT] arguments)` behind the name of a function. -/
def call (inner : Inner) (name : String) : Parser Expr := do
  let _ ← expect .leftParen
  let distinct ← skipKeyword .distinct
  let args ← arguments inner
  let _ ← expect .rightParen
  return .call name distinct args

/-- Any number of `WHEN … THEN …`. -/
def branches (inner : Inner) : Nat → Parser (List (Expr × Expr))
  | 0 => return []
  | rounds + 1 => do
    if ← skipKeyword .when then
      let condition ← inner 0
      let _ ← expectKeyword .then
      let value ← inner 0
      return (condition, value) :: (← branches inner rounds)
    else return []

/-- An inner expression behind a keyword, if the keyword is there. -/
def optional (k : Keyword) (inner : Inner) : Parser (Option Expr) := do
  if ← skipKeyword k then return some (← inner 0) else return none

/-- The operand of a `CASE` that compares. -/
def caseOperand (inner : Inner) : Parser (Option Expr) := do
  if ← checkKeyword .when then return none else return some (← inner 0)

def caseExpression (inner : Inner) : Parser Expr := do
  let _ ← expectKeyword .case
  let operand ← caseOperand inner
  let whens ← branches inner (← tokensLeft)
  if whens.isEmpty then unexpected "WHEN"
  else
    let otherwise ← optional .else inner
    let _ ← expectKeyword .end
    return .case operand whens otherwise

/-- `owner.name` or `owner.*` behind the point.  The owner counts as a table name as soon as the point is there. -/
def qualified (rule : Rule) (owner : String) (token : Token) : Parser Expr := do
  recordTable rule owner token
  if ← skip .star then return .wildcard (some owner)
  else
    let stop := (← look (·.span)).stop
    let column ← expectName
    return .column (some owner) column ⟨token.span.start, stop⟩

/-- A call, a qualified or a plain name. -/
def named (rule : Rule) (inner : Inner) : Parser Expr := do
  let token ← look (·.current)
  let name ← expectName
  if ← check .leftParen then call inner name
  else if ← skip .dot then qualified rule name token
  else return .column none name token.span

/-- A constant that is one token. -/
def constant (value : Literal) : Parser Expr := do
  advance
  return .literal value

def parameter (span : Span) : Parser Expr := do
  advance
  return .placeholder (← claimParameter) span

/-- An expression in parentheses. -/
def parenthesized (inner : Inner) : Parser Expr := do
  if ← look (·.atSubquery) then unsupported "subquery"
  else
    advance
    let e ← inner 0
    let _ ← expect .rightParen
    return .paren e

def aggregate (inner : Inner) (k : Keyword) : Parser Expr := do
  advance
  call inner k.text

/-- An operand without an operator in front. -/
def primary (rule : Rule) (inner : Inner) : Parser Expr := do
  let token ← look (·.current)
  match token.kind with
  | .integer n => constant (.integer n)
  | .float x => constant (.float x)
  | .string s => constant (.string s)
  | .keyword .trueLiteral => constant (.boolean true)
  | .keyword .falseLiteral => constant (.boolean false)
  | .keyword .null => constant .null
  | .question => parameter token.span
  | .star => do advance; return .wildcard none
  | .leftParen => parenthesized inner
  | .keyword .exists => unsupported "subquery"
  | .keyword .count => aggregate inner .count
  | .keyword .sum => aggregate inner .sum
  | .keyword .avg => aggregate inner .avg
  | .keyword .min => aggregate inner .min
  | .keyword .max => aggregate inner .max
  | .keyword .case => caseExpression inner
  | _ => if (← look (·.name?)).isSome then named rule inner else unexpected "expression"

/-- Passes `PRIOR` where it is allowed. -/
def skipPrior : Parser Bool := do
  if ← inspect (·.priorAllowed) then skipKeyword .prior else return false

/-- An operand with its operators in front. -/
def operand (rule : Rule) (inner : Inner) : Parser Expr := do
  if ← skipPrior then inner Level.negation.rightStrength
  else
    match prefixed? (← look (·.kind)) with
    | some op =>
      advance
      return .unary op (← inner op.level.rightStrength)
    | none => primary rule inner

/-! ## What follows an operand -/

/-- `IN (members)`. -/
def membership (inner : Inner) (tested : Expr) (negated : Bool) : Parser Expr := do
  let _ ← expectKeyword .in
  if ← look (·.atSubquery) then unsupported "subquery"
  else
    let _ ← expect .leftParen
    let members ← expressionList inner
    let _ ← expect .rightParen
    return .within tested members negated

/-- `BETWEEN low AND high`; the bounds bind tighter than a comparison, so the first `AND` ends the lower one. -/
def range (inner : Inner) (tested : Expr) (negated : Bool) : Parser Expr := do
  let _ ← expectKeyword .between
  let low ← inner Level.comparison.rightStrength
  let _ ← expectKeyword .and
  let high ← inner Level.comparison.rightStrength
  return .between tested low high negated

/-- `NULL` or `NOT NULL` behind `IS`. -/
def nullTest (tested : Expr) : Parser Expr := do
  advance
  let negated ← skipKeyword .not
  let _ ← expectKeyword .null
  return .isNull tested negated

def binary (inner : Inner) (op : BinaryOp) (left : Expr) : Parser Expr := do
  advance
  return .binary op left (← inner op.level.rightStrength)

/-- A test behind `NOT`. -/
def negatedTest (inner : Inner) (tested : Expr) : Parser Expr := do
  advance
  match ← look (·.keyword?) with
  | some .in => membership inner tested true
  | some .between => range inner tested true
  | some .like => return .unary .not (← binary inner .like tested)
  | _ => unexpected "IN, BETWEEN or LIKE"

/-- An operator with its right side, behind its left side. -/
def extend (inner : Inner) (left : Expr) : Infix → Parser Expr
  | .operator op => binary inner op left
  | .is => nullTest left
  | .within => membership inner left false
  | .between => range inner left false
  | .not => negatedTest inner left

/-- The operators behind an operand, as far as they bind strongly enough. -/
def operators (inner : Inner) (strength : Nat) : Nat → Expr → Parser Expr
  | 0, left => return left
  | rounds + 1, left => do
    match Infix.ofKind? (← look (·.kind)) with
    | some i =>
      if i.level.leftStrength < strength then return left
      else operators inner strength rounds (← extend inner left i)
    | none => return left

/-! ## The knot -/

/-- An expression that binds at least as strongly as asked for, nested less deeply than the given depth. -/
def expressionAt (rule : Rule) : Nat → Inner
  | 0, _ => unexpected "expression"
  | depth + 1, strength => do
    let inner := expressionAt rule depth
    let first ← operand rule inner
    operators inner strength (← tokensLeft) first

def expression (rule : Rule) : Parser Expr := do
  expressionAt rule ((← tokensLeft) + 1) 0

/-- Runs a parser with `PRIOR` allowed; behind it, whether it failed or not, `PRIOR` is forbidden. -/
def allowingPrior (p : Parser α) : Parser α := fun s =>
  match p { s with priorAllowed := true } with
  | .ok a s => .ok a { s with priorAllowed := false }
  | .error e s => .error e { s with priorAllowed := false }

/-- The condition of a `CONNECT BY`, where any operand may be marked `PRIOR`. -/
def hierarchicalCondition (rule : Rule) : Parser Expr :=
  allowingPrior (expression rule)

end SelectRouting.Grammar
