import SelectRouting.Text.Fold
/-!
# Sharding rules

A rule lists the logic tables: the names that statements use for tables that are spread over several physical ones, each
with the columns whose values decide where a row is.  Look-ups ignore the case of ASCII letters, and the first entry of a
name counts.  A rule that is loaded may not list a name twice.
-/
namespace SelectRouting

structure TableRule where
  name : String
  /-- The sharding columns. -/
  columns : List String
  /-- The physical tables. -/
  actual : List String
  deriving DecidableEq

namespace TableRule

def isShardingColumn (t : TableRule) (column : String) : Bool :=
  t.columns.any (Text.sameName · column)

end TableRule

structure Rule where
  tables : List TableRule
  deriving DecidableEq

namespace Rule

def empty : Rule :=
  ⟨[]⟩

def table? (r : Rule) (name : String) : Option TableRule :=
  r.tables.find? (Text.sameName ·.name name)

def containsTable (r : Rule) (name : String) : Bool :=
  (r.table? name).isSome

def isShardingColumn (r : Rule) (table column : String) : Bool :=
  (r.table? table).any (·.isShardingColumn column)

/-! ## Names listed twice -/

/-- The first name, as it is written, that repeats one of `seen` or one before it. -/
def firstRepeated : List String → List String → Option String
  | _, [] => none
  | seen, name :: names => if seen.any (Text.sameName · name) then some name else firstRepeated (name :: seen) names

/-- The first table name that repeats an earlier one. -/
def repeated? (r : Rule) : Option String :=
  firstRepeated [] (r.tables.map (·.name))

def repeatedMessage (name : String) : String :=
  "logic table '" ++ name ++ "' is configured more than once"

end Rule

end SelectRouting
