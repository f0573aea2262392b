import SelectRouting.Statement
import SelectRouting.Rule
/-!
# Conditions of a predicate

Each conjunct of a predicate that compares a sharding column with constants and parameters only becomes a condition; all
others are left out, which is safe, since a condition only ever narrows down the shards.  A column is the one of the table
that its owner names; without an owner it belongs to the only table, or to the only one with a sharding column of that name.
-/
namespace SelectRouting

namespace Expr

/-- The constant or the parameter that an expression is, parentheses aside. -/
def shardingValue? (e : Expr) : Option Condition.Value :=
  match e.unparenthesized with
  | .literal v => some (.literal v)
  | .placeholder i _ => some (.parameter i)
  | _ => none

/-- A column, parentheses aside. -/
def isColumn (e : Expr) : Bool :=
  match e.unparenthesized with
  | .column .. => true
  | _ => false

end Expr

namespace Condition

/-- A table by its alias or its name. -/
def isCalled (owner : String) (t : String × Option String) : Bool :=
  t.2.any (Text.sameName · owner) || Text.sameName t.1 owner

/-- The table that a column belongs to. -/
def table? (rule : Rule) (tables : List (String × Option String)) (owner : Option String) (name : String) :
    Option String :=
  match owner with
  | some o => (tables.find? (isCalled o)).map (·.1)
  | none =>
    match tables with
    | [t] => some t.1
    | _ =>
      match tables.filter (rule.isShardingColumn ·.1 name) with
      | [t] => some t.1
      | _ => none

/-- The sharding column that an expression is. -/
def column? (rule : Rule) (tables : List (String × Option String)) (e : Expr) : Option Column :=
  match e.unparenthesized with
  | .column owner name _ =>
    (table? rule tables owner name).bind fun t =>
      if rule.isShardingColumn t name then some ⟨t, name⟩ else none
  | _ => none

/-- What a conjunct compares: the tested side, the relation, and the other operands. -/
def comparison? : Expr → Option (Expr × Relation × List Expr)
  | .binary .eq left right =>
    if left.isColumn then some (left, .equal, [right]) else some (right, .equal, [left])
  | .within tested members false => some (tested, .oneOf, members)
  | .between tested low high false => some (tested, .between, [low, high])
  | _ => none

def ofConjunct? (rule : Rule) (tables : List (String × Option String)) (e : Expr) : Option Condition := do
  let (tested, relation, operands) ← comparison? e
  let column ← column? rule tables tested
  let values ← operands.mapM Expr.shardingValue?
  return ⟨column, relation, values⟩

/-- The conditions of a predicate, in the order of its conjuncts. -/
def ofPredicate (rule : Rule) (tables : List (String × Option String)) (predicate : Expr) : List Condition :=
  predicate.conjuncts.filterMap (ofConjunct? rule tables)

end Condition

end SelectRouting
