import RowQuery.Fault
import RowQuery.ResultSet

/-!
Values, rows and result sets as JSON and back.
-/

namespace RowQuery

namespace Value

/-- A value of JSON: integers of 64 bits stay integers, other numbers are floats, arrays and objects
are kept as their text. -/
def ofJson [Formats] : Json → Value
  | .null => .null
  | .boolean b => .boolean b
  | .integer n =>
    match Integer64.ofInt? n with
    | some word => .integer word
    | none => .float (.ofFloat (Float.ofInt n))
  | .float x => .float (.ofFloat x)
  | .string s => .text s
  | nested => .text (Formats.jsonText nested)

/-- A value as JSON: what is no finite number is null, a timestamp is its text. -/
def toJson [Formats] : Value → Json
  | .null => .null
  | .integer n => .integer n.toInt
  | .float x => if x.toFloat.isFinite then .float x else .null
  | .text s => .string s
  | .boolean b => .boolean b
  | .timestamp t => .string (Formats.instantText t)

end Value

namespace Row

/-- The row of a JSON object. -/
def ofJson [Formats] : Json → Except Fault Row
  | .object members => .ok (ofFields (members.map fun (name, json) => (name, Value.ofJson json)))
  | other => .error (.argument (.notAnObject other))

/-- A row as a JSON object. -/
def toJson [Formats] (row : Row) : Json :=
  .ofMembers (row.fields.map fun (name, value) => (name, value.toJson))

end Row

/-- A result set as a JSON array. -/
def ResultSet.toJson [Formats] (result : ResultSet) : Json :=
  .array (result.rows.map Row.toJson)

end RowQuery
