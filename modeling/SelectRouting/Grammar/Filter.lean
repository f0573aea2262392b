import SelectRouting.Dialect
import SelectRouting.Condition.Extract
import SelectRouting.Grammar.Expression
/-!
# WHERE, GROUP BY and HAVING

The predicate of `WHERE` is stored together with the conditions found in it, against the tables known by then.
-/
namespace SelectRouting.Grammar

/-- Stores a predicate and its conditions. -/
def storePredicate (rule : Rule) (predicate : Expr) (s : Statement) : Statement :=
  { s with
    conditions := s.conditions ++ Condition.ofPredicate rule s.tables predicate
    predicate := some predicate }

def whereClause (rule : Rule) : Parser Unit := do
  if ← skipKeyword .where then
    let predicate ← expression rule
    modifyStatement (storePredicate rule predicate)

/-- One grouping; some dialects have keywords that no shard can group by. -/
def grouping (d : Dialect) (rule : Rule) : Parser Unit := do
  match ← look (fun c => c.keyword?.filter d.unsupportedGrouping.contains) with
  | some k => unsupported k.text
  | none =>
    let e ← expression rule
    modifyStatement fun s => { s with groups := s.groups ++ [e] }

def groupBy (d : Dialect) (rule : Rule) : Parser Unit := do
  if ← skipKeyword .group then
    let _ ← expectKeyword .by
    eachSeparated (grouping d rule)

def havingClause (rule : Rule) : Parser Unit := do
  if ← skipKeyword .having then
    let predicate ← expression rule
    modifyStatement ({ · with having := some predicate })

end SelectRouting.Grammar
