import SelectRouting.Keyword
/-!
# Dialects

The generic dialect is the common grammar alone.  The others add clauses to it at fixed places; here are the places where a
dialect differs only by a set of keywords.
-/
namespace SelectRouting

inductive Dialect where
  | generic
  | oracle
  | sqlServer
  deriving DecidableEq

namespace Dialect

def name : Dialect → String
  | generic => "generic"
  | oracle => "oracle"
  | sqlServer => "sqlserver"

/-- Keywords that mean the same as `DISTINCT`. -/
def distinctSynonyms : Dialect → List Keyword
  | oracle => [.unique]
  | _ => []

/-- Keywords without effect in front of a select item. -/
def skippedBeforeItem : Dialect → List Keyword
  | oracle => [.connectByRoot]
  | _ => []

/-- Keywords at the start of a grouping that no shard can compute alone. -/
def unsupportedGrouping : Dialect → List Keyword
  | oracle => [.rollup, .cube, .grouping]
  | _ => []

end Dialect

end SelectRouting
