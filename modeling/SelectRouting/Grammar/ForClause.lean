import SelectRouting.Grammar.Expression
/-!
# FOR

Oracle locks rows with `FOR UPDATE`, which leaves the result as it is.  SQL Server returns rows for browsing or as markup,
and any other `FOR` of it is rejected.
-/
namespace SelectRouting.Grammar

/-! ## Oracle -/

/-- `[OF column, …]`; the columns are read like any expression and dropped. -/
def skipLockedColumns (rule : Rule) : Parser Unit := do
  if ← skipKeyword .of then
    let _ ← commaSeparated (expression rule)

/-- `[WAIT n | SKIP LOCKED | NOWAIT]`, where `n` is any integer. -/
def skipWaiting : Parser Unit := do
  if ← skipKeyword .wait then
    let _ ← expect (.integer 0)
  else if ← skipKeyword .skip then
    let _ ← expectKeyword .locked
  else
    let _ ← skipKeyword .nowait

/-- `[FOR UPDATE …]`. -/
def skipForUpdate (rule : Rule) : Parser Unit := do
  if ← skipKeyword .for then
    let _ ← expectKeyword .update
    skipLockedColumns rule
    skipWaiting

/-! ## SQL Server -/

/-- `[(…)]`. -/
def skipOptionalRegion : Parser Unit := do
  if ← check .leftParen then
    let _ ← skipRegion

/-- One option of `FOR XML`. -/
def skipXmlOption : Parser Unit := do
  match ← look (·.keyword?) with
  | some .raw | some .path | some .root | some .xmlschema =>
    advance
    skipOptionalRegion
  | some .auto | some .explicit | some .type => advance
  | some .elements =>
    advance
    let _ ← skipAny [.xsinil, .absent]
  | _ => unexpected "FOR XML option"

/-- What stands behind `FOR`, when it is not `BROWSE`. -/
def skipMarkup : Parser Unit := do
  let token ← look (·.current)
  if token.kind = .eof || token.kind = .semicolon then unexpected "BROWSE or XML"
  else if ← skipKeyword .xml then eachSeparated skipXmlOption
  else unsupported ("FOR " ++ token.text)

/-- `[FOR BROWSE | FOR XML option, …]`. -/
def skipForOutput : Parser Unit := do
  if ← skipKeyword .for then
    if ← skipKeyword .browse then return () else skipMarkup

end SelectRouting.Grammar
