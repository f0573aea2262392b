import SelectRouting.Dialect
import SelectRouting.Grammar.SelectList
import SelectRouting.Grammar.TableSuffix
/-!
# FROM

An entry is a table factor with any number of joins, which group to the left.  A factor is a table or an entry in
parentheses, so factors and entries are written over each other, and the knot is tied in `tableReferenceAt`: an inner entry
starts behind a parenthesis, and so the number of tokens left bounds the nesting.
-/
namespace SelectRouting.Grammar

/-! ## Factors -/

/-- The table that the name at `token` is, with its edit and its alias. -/
def tableNamed (rule : Rule) (schema : Option String) (name : String) (token : Token) : Parser TableRef := do
  recordTable rule name token
  return .table schema name (← aliasClause) token.span

/-- `[schema.]name [alias]`. -/
def tableName (rule : Rule) : Parser TableRef := do
  let first ← look (·.current)
  let name ← expectName
  if ← skip .dot then
    let second ← look (·.current)
    let inner ← expectName
    tableNamed rule (some name) inner second
  else tableNamed rule none name first

/-- A table, or an entry in parentheses. -/
def plainFactor (rule : Rule) (entry : Parser TableRef) : Parser TableRef := do
  if ← look (·.atSubquery) then unsupported "subquery"
  else if ← skip .leftParen then
    let inner ← entry
    let _ ← expect .rightParen
    return inner
  else tableName rule

/-- A factor with its sample and its partitions. -/
def suffixedFactor (rule : Rule) (entry : Parser TableRef) : Parser TableRef := do
  let table ← plainFactor rule entry
  skipSample
  skipPartition .partition
  skipPartition .subpartition
  return table

/-- The factor behind `ONLY`, with or without parentheses around it. -/
def onlyFactor (rule : Rule) (entry : Parser TableRef) : Parser TableRef := do
  if ← skip .leftParen then
    let table ← suffixedFactor rule entry
    let _ ← expect .rightParen
    return table
  else suffixedFactor rule entry

def pivotedFactor (rule : Rule) (entry : Parser TableRef) : Parser TableRef := do
  let table ← suffixedFactor rule entry
  skipPivot
  return table

def oracleFactor (rule : Rule) (entry : Parser TableRef) : Parser TableRef := do
  let table ← if ← skipKeyword .only then onlyFactor rule entry else pivotedFactor rule entry
  rejectFlashback
  return table

def factorOver (d : Dialect) (rule : Rule) (entry : Parser TableRef) : Parser TableRef :=
  match d with
  | .oracle => oracleFactor rule entry
  | _ => plainFactor rule entry

/-! ## Joins -/

/-- `[OUTER]`, which may stand behind a side. -/
def skipOuter : JoinKind → Parser Unit
  | .left | .right | .full => do
    let _ ← skipKeyword .outer
  | .inner | .cross => pure ()

/-- The rest of a join's name behind its first keyword. -/
def joinOf (kind : JoinKind) : Parser (Option JoinKind) := do
  advance
  skipOuter kind
  let _ ← expectKeyword .join
  return some kind

def joinKind : Parser (Option JoinKind) := do
  match ← look (·.keyword?) with
  | some .join => advance; return some .inner
  | some .inner => joinOf .inner
  | some .left => joinOf .left
  | some .right => joinOf .right
  | some .full => joinOf .full
  | some .cross => joinOf .cross
  | _ => return none

/-- What a join is by: `ON condition` or `USING (columns)`, and for a cross join nothing. -/
def joinedBy (rule : Rule) : JoinKind → Parser (Option Expr × List String)
  | .cross => return (none, [])
  | _ => do
    if ← skipKeyword .on then return (some (← expression rule), [])
    else if ← skipKeyword .using then
      let _ ← expect .leftParen
      let columns ← commaSeparated expectName
      let _ ← expect .rightParen
      return (none, columns)
    else unexpected "ON or USING"

/-- One join behind its left side, if there is one. -/
def nextJoin (rule : Rule) (factor : Parser TableRef) (left : TableRef) : Parser (Option TableRef) := do
  match ← joinKind with
  | none => return none
  | some kind =>
    let right ← factor
    let (condition, columns) ← joinedBy rule kind
    return some (.join kind left right condition columns)

/-- Where a table factor has just been read, and not a condition or columns. -/
def endsWithFactor : TableRef → Bool
  | .table .. => true
  | .join kind .. => kind = .cross

/-- The hint that SQL Server allows behind a table factor. -/
def hintBehind (d : Dialect) (left : TableRef) : Parser Unit :=
  match d with
  | .sqlServer => if endsWithFactor left then skipHint else pure ()
  | _ => pure ()

def joinsOver (d : Dialect) (rule : Rule) (factor : Parser TableRef) : Nat → TableRef → Parser TableRef
  | 0, left => return left
  | rounds + 1, left => do
    hintBehind d left
    match ← nextJoin rule factor left with
    | some joined => joinsOver d rule factor rounds joined
    | none => return left

/-! ## The knot -/

/-- An entry nested less deeply than the given depth. -/
def tableReferenceAt (d : Dialect) (rule : Rule) : Nat → Parser TableRef
  | 0 => unexpected "identifier"
  | depth + 1 => do
    let factor := factorOver d rule (tableReferenceAt d rule depth)
    let left ← factor
    joinsOver d rule factor (← tokensLeft) left

def tableReference (d : Dialect) (rule : Rule) : Parser TableRef := do
  tableReferenceAt d rule ((← tokensLeft) + 1)

def tableFactor (d : Dialect) (rule : Rule) : Parser TableRef := do
  factorOver d rule (tableReferenceAt d rule (← tokensLeft))

/-- A factor without the suffixes of a dialect. -/
def commonTableFactor (d : Dialect) (rule : Rule) : Parser TableRef := do
  plainFactor rule (tableReferenceAt d rule (← tokensLeft))

/-- The joins behind a left side. -/
def joins (d : Dialect) (rule : Rule) (left : TableRef) : Parser TableRef := do
  joinsOver d rule (tableFactor d rule) (← tokensLeft) left

/-- The joins behind a left side that no hint follows. -/
def commonJoins (d : Dialect) (rule : Rule) (left : TableRef) : Parser TableRef := do
  match ← nextJoin rule (tableFactor d rule) left with
  | some joined => joins d rule joined
  | none => return left

/-- `[FROM entry, …]`; entries are stored one by one. -/
def fromClause (d : Dialect) (rule : Rule) : Parser Unit := do
  if ← skipKeyword .from then
    eachSeparated do
      let entry ← tableReference d rule
      modifyStatement fun s => { s with sources := s.sources ++ [entry] }

end SelectRouting.Grammar
