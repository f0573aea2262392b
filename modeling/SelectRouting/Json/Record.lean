import SelectRouting.Json
/-!
# Records and choices as JSON

A record is written as an object with its fields in order, and read from an object with its members in any order, unknown
ones ignored, or from an array of its fields.  A choice is written by the name of its alternative, alone or with one value.
-/
namespace SelectRouting.Json

/-! ## Writing -/

def record (fields : List (String × Json)) : Json :=
  .object (fields.map fun f => (.ofString f.1, f.2))

/-- An alternative without a value. -/
def bare (name : String) : Json :=
  .ofString name

/-- An alternative with a value. -/
def choice (name : String) (value : Json) : Json :=
  record [(name, value)]

def optional (f : α → Json) : Option α → Json
  | none => .null
  | some a => f a

def list (f : α → Json) (as : List α) : Json :=
  .array (as.map f)

/-! ## Fields of a record -/

/-- What a record has at a field. -/
inductive Field where
  | present (value : Json)
  /-- An object without the member. -/
  | omitted
  /-- An array that ends in front of the field. -/
  | cut

namespace Field

/-- A field without which there is no record. -/
def required (read : Json → Option α) : Field → Option α
  | .present v => read v
  | _ => none

/-- A field that may be null, or left out of an object. -/
def nullable (read : Json → Option α) : Field → Option (Option α)
  | .present .null => some none
  | .present v => (read v).map some
  | .omitted => some none
  | .cut => none

/-- A field that may be left out, for a default. -/
def defaulted (read : Json → Option α) (value : α) : Field → Option α
  | .present v => read v
  | _ => some value

end Field

def noRepeats : List String → Bool
  | [] => true
  | n :: ns => !ns.contains n && noRepeats ns

/-- The members of an object under their names, if all names are texts and no name of the list stands twice. -/
def named? (names : List String) (members : List (Units × Json)) : Option (List (String × Json)) := do
  let ms ← members.mapM fun m => m.1.text?.map (·, m.2)
  if noRepeats ((ms.map (·.1)).filter names.contains) then some ms else none

def fieldsOfObject (names : List String) (members : List (String × Json)) : List Field :=
  names.map fun n => (members.lookup n).elim .omitted .present

def fieldsOfArray : List String → List Json → List Field
  | [], _ => []
  | _ :: names, [] => .cut :: fieldsOfArray names []
  | _ :: names, v :: vs => .present v :: fieldsOfArray names vs

/-- The fields of a record, in the order of the names. -/
def fields? (names : List String) : Json → Option (List Field)
  | .object members => (named? names members).map (fieldsOfObject names)
  | .array items => if items.length ≤ names.length then some (fieldsOfArray names items) else none
  | _ => none

/-! ## Reading the rest -/

def nat? : Json → Option Nat
  | .number x => x.nat?
  | _ => none

def int? : Json → Option Int
  | .number x => x.int?
  | _ => none

def float? : Json → Option Binary64
  | .number x => x.float?
  | _ => none

def bool? : Json → Option Bool
  | .bool b => some b
  | _ => none

def text? : Json → Option String
  | .string u => u.text?
  | _ => none

def list? (read : Json → Option α) : Json → Option (List α)
  | .array items => items.mapM read
  | _ => none

/-- The name of an alternative, and its value if it has one. -/
def choice? : Json → Option (String × Option Json)
  | .string u => u.text?.map (·, none)
  | .object [(u, v)] => u.text?.map (·, some v)
  | _ => none

/-- Of an alternative without a value: nothing may be given for it but null. -/
def isBare : Option Json → Bool
  | none | some .null => true
  | _ => false

end SelectRouting.Json
