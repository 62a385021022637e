import RowQuery.Binary64.Text
import RowQuery.Formats
import RowQuery.Value

/-!
Values as text.
-/

namespace RowQuery.Value

/-- A value as shown in tables, messages and concatenations. -/
def render [Formats] : Value → String
  | .null => "NULL"
  | .integer n => toString n.toInt
  | .float x => Binary64.text x
  | .text s => s
  | .boolean b => if b then "true" else "false"
  | .timestamp t => Formats.instantText t

/-- A value as text; NULL has none. -/
def string? [Formats] : Value → Option String
  | .null => none
  | value => some value.render

end RowQuery.Value
