import SelectRouting.Grammar.From
import SelectRouting.Grammar.Filter
import SelectRouting.Grammar.Pagination
import SelectRouting.Grammar.Hierarchy
import SelectRouting.Grammar.Model
import SelectRouting.Grammar.ForClause
/-!
# Whole statements

The clauses of each dialect in their order, and what may stand behind them: one semicolon.  Set operators are rejected.
-/
namespace SelectRouting

namespace Grammar

/-- Everything between `SELECT` and the end of the statement. -/
def clauses (d : Dialect) (rule : Rule) : Parser Unit :=
  match d with
  | .generic => do
    distinct d
    selectList d rule
    fromClause d rule
    whereClause rule
    groupBy d rule
    havingClause rule
    orderBy d rule
  | .oracle => do
    distinct d
    selectList d rule
    fromClause d rule
    whereClause rule
    skipHierarchy rule
    groupBy d rule
    havingClause rule
    skipModel
    orderBy d rule
    skipForUpdate rule
  | .sqlServer => do
    distinct d
    topClause
    selectList d rule
    fromClause d rule
    whereClause rule
    groupBy d rule
    havingClause rule
    orderBy d rule
    offsetFetch
    skipForOutput

/-- The set operator that the current token is. -/
def setOperator? (c : Cursor) : Option Keyword :=
  c.keyword?.filter [.union, .intersect, .except, .minus].contains

def endOfStatement : Parser Unit := do
  match ← look setOperator? with
  | some k => unsupported k.text
  | none =>
    let _ ← skip .semicolon
    if ← check .eof then return () else unexpected "end of statement"

def select (d : Dialect) (rule : Rule) : Parser Unit := do
  let _ ← expectKeyword .select
  clauses d rule
  endOfStatement

end Grammar

/-- Reads a text that is one SELECT statement and nothing else. -/
def Statement.parse (d : Dialect) (rule : Rule) (source : String) : Except ParseError Statement :=
  match Grammar.select d rule (.ofSource source) with
  | .ok _ s => .ok s.statement
  | .error e _ => .error e

end SelectRouting
