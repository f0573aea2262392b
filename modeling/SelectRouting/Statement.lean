import SelectRouting.Expr
import SelectRouting.Statement.Limit
import SelectRouting.Statement.Edit
/-!
# SELECT statements

The clauses of a statement as trees, and beside them what routing needs: the pagination, the conditions on sharding
columns, the number of parameters claimed so far, and the edits.  A statement grows while its text is read, and can be
looked at at any time.
-/
namespace SelectRouting

/-! ## Clauses -/

inductive Direction where
  | ascending
  | descending
  deriving DecidableEq

structure OrderItem where
  expr : Expr
  direction : Direction
  /-- Where nulls sort. -/
  nulls : Direction

inductive SelectItem where
  /-- `*` or `owner.*`. -/
  | star (owner : Option String)
  | expression (expr : Expr) (aliasName : Option String)
  /-- A column that numbers the rows in the given order. -/
  | rowNumber (order : List OrderItem) (aliasName : Option String)

namespace SelectItem

def aliasName? : SelectItem → Option String
  | .star _ => none
  | .expression _ a | .rowNumber _ a => a

end SelectItem

inductive JoinKind where
  | inner | left | right | full | cross
  deriving DecidableEq

inductive TableRef where
  /-- The span covers the name without the schema. -/
  | table (schema : Option String) (name : String) (aliasName : Option String) (span : Span)
  /-- A join by a condition, by columns of the same names, or, for a cross join, by neither. -/
  | join (kind : JoinKind) (left right : TableRef) (condition : Option Expr) (columns : List String)

namespace TableRef

/-- The name and the alias of each table, left to right. -/
def tables : TableRef → List (String × Option String)
  | .table _ name a _ => [(name, a)]
  | .join _ left right _ _ => left.tables ++ right.tables

end TableRef

/-! ## Conditions -/

namespace Condition

/-- A sharding column: the table as `FROM` writes it, and the column. -/
structure Column where
  table : String
  name : String
  deriving DecidableEq

/-- How the values of a condition relate to its column. -/
inductive Relation where
  | equal
  | oneOf
  | between
  deriving DecidableEq

inductive Value where
  | literal (value : Literal)
  /-- The ordinal of a parameter. -/
  | parameter (ordinal : Nat)
  deriving DecidableEq

end Condition

/-- What a statement demands of a sharding column, in a form that routing can evaluate. -/
structure Condition where
  column : Condition.Column
  relation : Condition.Relation
  values : List Condition.Value
  deriving DecidableEq

/-! ## Statements -/

structure Statement where
  distinct : Bool
  items : List SelectItem
  /-- The entries of `FROM`. -/
  sources : List TableRef
  /-- The predicate of `WHERE`. -/
  predicate : Option Expr
  groups : List Expr
  having : Option Expr
  order : List OrderItem
  limit : Option Limit
  conditions : List Condition
  /-- The number of parameters claimed so far, and so the ordinal of the next one. -/
  parameters : Nat
  edits : List Edit

namespace Statement

def empty : Statement :=
  { distinct := false, items := [], sources := [], predicate := none, groups := [], having := none, order := [],
    limit := none, conditions := [], parameters := 0, edits := [] }

/-- The name and the alias of each table of `FROM`, left to right. -/
def tables (s : Statement) : List (String × Option String) :=
  s.sources.flatMap TableRef.tables

/-- Claims the next ordinal, which is `parameters` before the claim. -/
def claimParameter (s : Statement) : Statement :=
  { s with parameters := s.parameters + 1 }

def addEdit (s : Statement) (e : Edit) : Statement :=
  { s with edits := e.insert s.edits }

/-- The limit, or an empty one if there is none yet. -/
def limitOr (s : Statement) (offsetFirst : Bool) : Limit :=
  s.limit.getD (.empty offsetFirst)

def hasRowCount (s : Statement) : Bool :=
  (s.limit.bind (·.rowCount)).isSome

/-- Makes sure that there is a limit, and merges another into it. -/
def mergeLimit (s : Statement) (offsetFirst : Bool) (l : Limit) : Statement :=
  { s with limit := some ((s.limitOr offsetFirst).merge l) }

end Statement

end SelectRouting
