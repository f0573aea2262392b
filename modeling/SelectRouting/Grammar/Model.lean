import SelectRouting.Grammar.Basic
/-!
# The MODEL clause of Oracle

A model computes with the rows of the result as with the cells of a sheet.  The main model is skipped part by part; a
reference model brings in a query of its own and is rejected.
-/
namespace SelectRouting.Grammar

/-- `[IGNORE NAV | KEEP NAV]`. -/
def skipMissing : Parser Unit := do
  if ← skipAny [.ignore, .keep] then
    let _ ← expectKeyword .nav

/-- `[UNIQUE DIMENSION | UNIQUE SINGLE REFERENCE]`. -/
def skipUniqueness : Parser Unit := do
  if ← skipKeyword .unique then
    if ← skipKeyword .single then
      let _ ← expectKeyword .reference
    else
      let _ ← expectKeyword .dimension

def skipCellOptions : Parser Unit := do
  skipMissing
  skipUniqueness

/-- `[RETURN ALL ROWS | RETURN UPDATED ROWS]`. -/
def skipReturn : Parser Unit := do
  if ← skipKeyword .return then
    if ← skipAny [.all, .updated] then
      let _ ← expectKeyword .rows
    else unexpected "ALL or UPDATED"

/-- `REFERENCE name ON (…)` is read to its end before it is rejected. -/
def rejectReference : Parser Unit := do
  if ← skipKeyword .reference then
    let _ ← expectName
    let _ ← expectKeyword .on
    let _ ← skipRegion
    unsupported "MODEL reference column clause"

/-- `[MAIN name]`. -/
def skipMainName : Parser Unit := do
  if ← skipKeyword .main then
    let _ ← expectName

/-- `[PARTITION BY (…)]`. -/
def skipModelPartition : Parser Unit := do
  if ← skipKeyword .partition then
    let _ ← expectKeyword .by
    if ← check .leftParen then
      let _ ← skipRegion
    else unsupported "PARTITION BY without parentheses in MODEL"

/-- `DIMENSION BY (…) MEASURES (…)`. -/
def skipColumns : Parser Unit := do
  let _ ← expectKeyword .dimension
  let _ ← expectKeyword .by
  let _ ← skipRegion
  let _ ← expectKeyword .measures
  let _ ← skipRegion

/-- `[UPDATE | UPSERT [ALL]]`. -/
def skipRuleKind : Parser Unit := do
  if ← skipKeyword .upsert then
    let _ ← skipKeyword .all
  else
    let _ ← skipKeyword .update

/-- `[AUTOMATIC ORDER | SEQUENTIAL ORDER]`. -/
def skipRuleOrder : Parser Unit := do
  if ← skipAny [.automatic, .sequential] then
    let _ ← expectKeyword .order

/-- `[RULES …]`. -/
def skipRuleOptions : Parser Unit := do
  if ← skipKeyword .rules then
    skipRuleKind
    skipRuleOrder

/-- `[ITERATE (…) [UNTIL (…)]]`. -/
def skipIteration : Parser Unit := do
  if ← skipKeyword .iterate then
    let _ ← skipRegion
    if ← skipKeyword .until then
      let _ ← skipRegion

/-- The rules in their parentheses, with what may stand in front. -/
def skipRules : Parser Unit := do
  skipRuleOptions
  skipIteration
  let _ ← skipRegion

def skipMainModel : Parser Unit := do
  skipMainName
  skipModelPartition
  skipColumns
  skipCellOptions
  skipRules

def skipModel : Parser Unit := do
  if ← skipKeyword .model then
    skipCellOptions
    skipReturn
    rejectReference
    skipMainModel

end SelectRouting.Grammar
