import SelectRouting.Dialect
import SelectRouting.Grammar.OrderBy
/-!
# The select list

Items are stored one by one, so that those in front of an error are there to see.  Only SQL Server has a row-numbering item.
-/
namespace SelectRouting.Grammar

/-- `DISTINCT`, one of its synonyms, or `ALL`, which means nothing. -/
def distinct (d : Dialect) : Parser Unit := do
  if ← skipAny (.distinct :: d.distinctSynonyms) then modifyStatement ({ · with distinct := true })
  else let _ ← skipKeyword .all

/-- The name behind `AS`: a string may stand for it. -/
def aliasAfterAs : Parser String := do
  match ← look (·.kind) with
  | .string s => advance; return s
  | _ => expectName

/-- `[AS] alias`.  Without `AS` only a name that is no keyword counts, so that no clause is taken for an alias; `AS OF` is
left where it is. -/
def aliasClause : Parser (Option String) := do
  if ← look (fun c => c.atKeyword .as && c.nextIsKeyword .of) then return none
  else if ← skipKeyword .as then return some (← aliasAfterAs)
  else if ← look (·.atIdentifier) then return some (← expectName)
  else return none

/-! ## Row numbers -/

def atRowNumberItem (d : Dialect) : Parser Bool :=
  match d with
  | .sqlServer => checkKeyword .rowNumber
  | _ => return false

/-- The order of the rows to number. -/
def windowOrder (d : Dialect) (rule : Rule) : Parser (List OrderItem) := do
  if ← skipKeyword .order then
    let _ ← expectKeyword .by
    orderItems d rule
  else return []

/-- `ROW_NUMBER() OVER ([ORDER BY …]) [AS] alias`.  Rows are numbered over the whole result or not at all. -/
def windowItem (d : Dialect) (rule : Rule) : Parser SelectItem := do
  let _ ← expectKeyword .rowNumber
  let _ ← skipRegion
  let _ ← expectKeyword .over
  let _ ← expect .leftParen
  if ← checkKeyword .partition then unsupported "PARTITION BY in ROW_NUMBER() OVER"
  else
    let order ← windowOrder d rule
    let _ ← expect .rightParen
    return .rowNumber order (← aliasClause)

def rowNumberItem (d : Dialect) (rule : Rule) : Parser SelectItem :=
  match d with
  | .sqlServer => windowItem d rule
  | _ => unexpected "select item"

/-! ## Items -/

/-- An expression with its alias; a star has none. -/
def expressionItem (rule : Rule) : Parser SelectItem := do
  match ← expression rule with
  | .wildcard owner => return .star owner
  | e => return .expression e (← aliasClause)

def selectItem (d : Dialect) (rule : Rule) : Parser SelectItem := do
  let _ ← skipAny d.skippedBeforeItem
  if ← atRowNumberItem d then rowNumberItem d rule else expressionItem rule

def selectList (d : Dialect) (rule : Rule) : Parser Unit :=
  eachSeparated do
    let item ← selectItem d rule
    modifyStatement fun s => { s with items := s.items ++ [item] }

end SelectRouting.Grammar
