import SelectRouting.Grammar.Basic
/-!
# Pagination of SQL Server

`TOP` in front of the select list and `OFFSET … FETCH …` behind the order write one limit together.  A number that is
written in the text gets an edit, since each shard has to return more rows than the whole; a parameter gets none.
-/
namespace SelectRouting.Grammar

/-- A limit of so many rows; a count below zero is no limit. -/
def literalLimit (n : Int) (span : Span) : Parser (Limit.Value × Span) :=
  if n < 0 then fail (.invalid "Negative row count") span
  else do
    advance
    return (.literal n.toNat, span)

/-- A number or a parameter, with the place of its token. -/
def limitValue : Parser (Limit.Value × Span) := do
  let token ← look (·.current)
  match token.kind with
  | .integer n => literalLimit n token.span
  | .question =>
    let ordinal ← claimParameter
    advance
    return (.parameter ordinal, token.span)
  | _ => unexpected "integer or '?'"

/-- Records an edit for a limit written in the text. -/
def recordLimit (edit : Nat → Nat → Edit) (value : Limit.Value) (span : Span) : Parser Unit :=
  match value with
  | .literal n => modifyStatement (·.addEdit (edit span.start n))
  | .parameter _ => pure ()

/-! ## TOP -/

/-- The value behind `TOP`, with or without parentheses. -/
def topValue : Parser (Limit.Value × Span) := do
  if ← skip .leftParen then
    let v ← limitValue
    let _ ← expect .rightParen
    return v
  else limitValue

/-- `[WITH TIES]`. -/
def skipTies : Parser Unit := do
  if ← skipKeyword .with then
    let _ ← expectKeyword .ties

/-- Sets the row count. -/
def storeRowCount (value : Limit.Value) (s : Statement) : Statement :=
  { s with limit := some { s.limitOr false with rowCount := some value } }

/-- `[TOP value [WITH TIES]]`. -/
def topClause : Parser Unit := do
  if ← skipKeyword .top then
    let (value, span) ← topValue
    if ← checkKeyword .percent then unsupported "TOP ... PERCENT"
    else
      skipTies
      recordLimit .rowCount value span
      modifyStatement (storeRowCount value)

/-! ## OFFSET and FETCH -/

def expectRows : Parser Unit := do
  if ← skipAny [.row, .rows] then return () else unexpected "ROW or ROWS"

/-- Records the row count of a `FETCH`, unless there is one already. -/
def recordFetch (value : Limit.Value) (span : Span) : Parser Unit := do
  if ← inspect (·.statement.hasRowCount) then
    fail (.invalid "Row count specified by both TOP and FETCH") span
  else recordLimit .rowCount value span

/-- `[FETCH FIRST value ROWS ONLY]`. -/
def fetchClause : Parser (Option Limit.Value) := do
  if ← skipKeyword .fetch then
    if ← skipAny [.first, .next] then
      let (value, span) ← limitValue
      expectRows
      let _ ← expectKeyword .only
      recordFetch value span
      return some value
    else unexpected "FIRST or NEXT"
  else return none

/-- `[OFFSET value ROWS [FETCH …]]`. -/
def offsetFetch : Parser Unit := do
  if ← skipKeyword .offset then
    let (value, span) ← limitValue
    expectRows
    recordLimit .offset value span
    let rowCount ← fetchClause
    modifyStatement (·.mergeLimit true ⟨some value, rowCount, true⟩)

end SelectRouting.Grammar
