import SelectRouting.Dialect
import SelectRouting.Grammar.Expression
/-!
# Orders

Each item of an order has a direction for the rows and one for nulls.  Where a statement can say where nulls go, they come
first unless it says last; SQL Server has no such words, and its nulls are the least values.
-/
namespace SelectRouting.Grammar

/-- `[NULLS FIRST | NULLS LAST]`. -/
def nullsFirstLast : Parser Direction := do
  if ← skipKeyword .nulls then
    if ← skipKeyword .first then return .ascending
    else if ← skipKeyword .last then return .descending
    else unexpected "FIRST or LAST"
  else return .ascending

def nullOrder (d : Dialect) : Parser Direction :=
  match d with
  | .sqlServer => return .descending
  | _ => nullsFirstLast

/-- `[ASC | DESC]`. -/
def direction : Parser Direction := do
  if ← skipKeyword .desc then return .descending
  else
    let _ ← skipKeyword .asc
    return .ascending

def orderItem (d : Dialect) (rule : Rule) : Parser OrderItem := do
  let e ← expression rule
  let rows ← direction
  return ⟨e, rows, ← nullOrder d⟩

def orderItems (d : Dialect) (rule : Rule) : Parser (List OrderItem) :=
  commaSeparated (orderItem d rule)

/-- `[ORDER BY …]`; the items are stored when all are read. -/
def orderBy (d : Dialect) (rule : Rule) : Parser Unit := do
  if ← skipKeyword .order then
    let _ ← expectKeyword .by
    let items ← orderItems d rule
    modifyStatement ({ · with order := items })

end SelectRouting.Grammar
