import RowQuery.Name
import RowQuery.Row

/-!
Grouping: each row has a key, and rows whose keys have one id form a group.
-/

namespace RowQuery

/-- The tag of a value's kind in an id; integers and floats share theirs. -/
def Kind.tag : Kind → Char
  | .null => 'n'
  | .integer | .float => 'd'
  | .text => 's'
  | .boolean => 'b'
  | .timestamp => 't'

/-- The text that stands for a value in an id: numbers that are the same have the same text. -/
def Value.idText : Value → String
  | .null => ""
  | .integer n => toString n.toInt
  | .float x =>
    match (Value.float x).exactInteger? with
    | some n => toString n.toInt
    | none => Binary64.text x
  | .text s => s
  | .boolean b => if b then "true" else "false"
  | .timestamp t => toString ((t.total64?.map Int64.toInt).getD 0)

/-- A value in an id: its tag, the number of bytes of its text, and the text. -/
def Value.idPart (value : Value) : String :=
  let text := value.idText
  value.kind.tag.toString ++ toString text.utf8ByteSize ++ ":" ++ text ++ "|"

/-- What a row is grouped under. -/
structure GroupKey where
  /-- Rows belong to one group when their ids are equal. -/
  id : String
  /-- What the row of the group shows of the key. -/
  values : List Field
deriving DecidableEq

/-- The row of a group before its results. -/
def GroupKey.row (key : GroupKey) : Row :=
  Row.ofFields key.values

/-- How rows are grouped. -/
inductive Grouping where
  /-- By the values of fields; a field that is missing counts as NULL. -/
  | byFields (fields : List String)
  /-- By any function, with a name for messages. -/
  | custom (name : String) (key : Row → GroupKey)

namespace Grouping

/-- The key of a row by some of its fields. -/
def fieldsKey (fields : List String) (row : Row) : GroupKey :=
  let values := fields.map fun field => (field, (row.get? field).getD .null)
  ⟨String.join (values.map fun field => field.2.idPart), values⟩

/-- The key of a row. -/
def keyOf : Grouping → Row → GroupKey
  | .byFields fields, row => fieldsKey fields row
  | .custom _ key, row => key row

/-- Grouping by columns: their names are trimmed and brought into normal form, and blank ones are
left out. -/
def ofColumns (names : List String) : Grouping :=
  .byFields ((names.map fun name => Name.normalize (Text.trim name)).filter fun name => name != "")

/-- Grouping by columns written with commas between them. -/
def ofText (text : String) : Grouping :=
  ofColumns ((Text.pieces (· == ',') text.toList).map String.ofList)

/-- The fields that rows are grouped by, if it is by fields. -/
def fields? : Grouping → Option (List String)
  | .byFields fields => some fields
  | .custom _ _ => none

end Grouping

end RowQuery
