import SelectRouting.Statement
import SelectRouting.Rule
import SelectRouting.Json.Record
import SelectRouting.Json.Reader
import SelectRouting.Json.Writer
/-!
# What is handed over as JSON

Rules come in, and spans, limits, conditions and edits go out to the routing of statements, all as JSON texts.  Each type
has a value (`toJson`) and a way to read it back (`ofJson?`).
-/
namespace SelectRouting

open Json (record choice bare optional list)

namespace Span

def toJson (s : Span) : Json :=
  record [("start", .ofNat s.start), ("end", .ofNat s.stop)]

def ofJson? (v : Json) : Option Span := do
  match ← v.fields? ["start", "end"] with
  | [start, stop] => return ⟨← start.required Json.nat?, ← stop.required Json.nat?⟩
  | _ => none

end Span

namespace Limit

def Value.toJson : Value → Json
  | .literal n => choice "Literal" (.ofNat n)
  | .parameter i => choice "Parameter" (.ofNat i)

def Value.ofJson? (v : Json) : Option Value := do
  match ← v.choice? with
  | ("Literal", some n) => n.nat?.map .literal
  | ("Parameter", some i) => i.nat?.map .parameter
  | _ => none

def toJson (l : Limit) : Json :=
  record [("offset", optional Value.toJson l.offset), ("row_count", optional Value.toJson l.rowCount),
    ("offset_before_row_count", .bool l.offsetFirst)]

def ofJson? (v : Json) : Option Limit := do
  match ← v.fields? ["offset", "row_count", "offset_before_row_count"] with
  | [offset, rowCount, first] =>
    return ⟨← offset.nullable Value.ofJson?, ← rowCount.nullable Value.ofJson?, ← first.required Json.bool?⟩
  | _ => none

end Limit

namespace Literal

def toJson : Literal → Json
  | .integer n => choice "Integer" (.number (.ofInt n))
  | .float x => choice "Float" (.ofFloat x)
  | .string s => choice "String" (.ofString s)
  | .boolean b => choice "Boolean" (.bool b)
  | .null => bare "Null"

def ofJson? (v : Json) : Option Literal := do
  match ← v.choice? with
  | ("Integer", some n) => n.int?.map .integer
  | ("Float", some x) => x.float?.map .float
  | ("String", some s) => s.text?.map .string
  | ("Boolean", some b) => b.bool?.map .boolean
  | ("Null", rest) => if Json.isBare rest then some .null else none
  | _ => none

end Literal

namespace Condition

def Column.toJson (c : Column) : Json :=
  record [("table", .ofString c.table), ("name", .ofString c.name)]

def Column.ofJson? (v : Json) : Option Column := do
  match ← v.fields? ["table", "name"] with
  | [table, name] => return ⟨← table.required Json.text?, ← name.required Json.text?⟩
  | _ => none

def Relation.toJson : Relation → Json
  | .equal => bare "Equal"
  | .oneOf => bare "In"
  | .between => bare "Between"

def Relation.ofJson? (v : Json) : Option Relation := do
  let (name, rest) ← v.choice?
  if Json.isBare rest then
    match name with
    | "Equal" => some .equal
    | "In" => some .oneOf
    | "Between" => some .between
    | _ => none
  else none

def Value.toJson : Value → Json
  | .literal v => choice "Literal" v.toJson
  | .parameter i => choice "Parameter" (.ofNat i)

def Value.ofJson? (v : Json) : Option Value := do
  match ← v.choice? with
  | ("Literal", some l) => (Literal.ofJson? l).map .literal
  | ("Parameter", some i) => i.nat?.map .parameter
  | _ => none

def toJson (c : Condition) : Json :=
  record [("column", c.column.toJson), ("operator", c.relation.toJson), ("values", list Value.toJson c.values)]

def ofJson? (v : Json) : Option Condition := do
  match ← v.fields? ["column", "operator", "values"] with
  | [column, relation, values] =>
    return ⟨← column.required Column.ofJson?, ← relation.required Relation.ofJson?,
      ← values.required (Json.list? Value.ofJson?)⟩
  | _ => none

end Condition

/-! ## Edits

The kind of an edit is a member of its record, so a reader has to keep all members until it knows the kind.  That is why an
edit is only read from a value that is sound as a whole, ignored members included. -/

namespace Edit

def toJson : Edit → Json
  | .table start written =>
    record [("type", .ofString "table"), ("begin", .ofNat start), ("original_literals", .ofString written)]
  | .rowCount start n =>
    record [("type", .ofString "row_count"), ("begin", .ofNat start), ("row_count", .ofNat n)]
  | .offset start n => record [("type", .ofString "offset"), ("begin", .ofNat start), ("offset", .ofNat n)]

/-- The kind, and the record without it: the member `type` of an object, which stands once, or the first item of an
array. -/
def kind? : Json → Option (String × Json)
  | .object members => do
    let isKind (m : Json.Units × Json) : Bool := m.1 == .ofString "type"
    match members.filter isKind with
    | [(_, v)] => return (← v.text?, .object (members.filter (!isKind ·)))
    | _ => none
  | .array (v :: items) => v.text?.map (·, .array items)
  | _ => none

/-- The place and the value of an edit, under its own name. -/
def placed? (name : String) (read : Json → Option α) (v : Json) : Option (Nat × α) := do
  match ← v.fields? ["begin", name] with
  | [start, value] => return (← start.required Json.nat?, ← value.required read)
  | _ => none

/-- The deepest nesting of a value that is kept as a whole. -/
def depthLimit : Nat := 127

def ofJson? (v : Json) : Option Edit := do
  guard (v.sound depthLimit)
  match ← kind? v with
  | ("table", v) => (placed? "original_literals" Json.text? v).map fun p => .table p.1 p.2
  | ("row_count", v) => (placed? "row_count" Json.nat? v).map fun p => .rowCount p.1 p.2
  | ("offset", v) => (placed? "offset" Json.nat? v).map fun p => .offset p.1 p.2
  | _ => none

end Edit

/-! ## Rules -/

namespace TableRule

def toJson (t : TableRule) : Json :=
  record [("logic_table", .ofString t.name), ("sharding_columns", list .ofString t.columns),
    ("actual_tables", list .ofString t.actual)]

def ofJson? (v : Json) : Option TableRule := do
  match ← v.fields? ["logic_table", "sharding_columns", "actual_tables"] with
  | [name, columns, actual] =>
    return ⟨← name.required Json.text?, ← columns.defaulted (Json.list? Json.text?) [],
      ← actual.defaulted (Json.list? Json.text?) []⟩
  | _ => none

end TableRule

namespace Rule

def toJson (r : Rule) : Json :=
  record [("tables", list TableRule.toJson r.tables)]

def ofJson? (v : Json) : Option Rule := do
  match ← v.fields? ["tables"] with
  | [tables] => return ⟨← tables.defaulted (Json.list? TableRule.ofJson?) []⟩
  | _ => none

inductive LoadError where
  /-- The text is not JSON, or not that of a rule. -/
  | malformed
  /-- A logic table is listed again, under this spelling. -/
  | repeated (name : String)
  deriving DecidableEq

/-- Reads a rule and checks that no logic table is listed twice. -/
def load (text : String) : Except LoadError Rule :=
  match (Json.parse? text).bind ofJson? with
  | none => .error .malformed
  | some r =>
    match r.repeated? with
    | some name => .error (.repeated name)
    | none => .ok r

end Rule

end SelectRouting
