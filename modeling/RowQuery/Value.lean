import RowQuery.FloatBits
import RowQuery.Timestamp

/-!
The values that the fields of a row hold, and their kinds.
-/

namespace RowQuery

/-- What kind of value a field holds. -/
inductive Kind where
  | null
  | integer
  | float
  | text
  | boolean
  | timestamp
deriving DecidableEq, Repr

namespace Kind

/-- The name of a kind in messages. -/
def name : Kind → String
  | .null => "NULL"
  | .integer => "INTEGER"
  | .float => "FLOAT"
  | .text => "TEXT"
  | .boolean => "BOOLEAN"
  | .timestamp => "TIMESTAMP"

/-- Integers and floats are numbers. -/
def isNumeric : Kind → Bool
  | .integer | .float => true
  | _ => false

end Kind

/-- The value of a field. -/
inductive Value where
  | null
  | integer (n : Int64)
  | float (x : FloatBits)
  | text (s : String)
  | boolean (b : Bool)
  | timestamp (t : Timestamp)
deriving DecidableEq

instance : Inhabited Value := ⟨.null⟩

namespace Value

/-- The kind of a value. -/
def kind : Value → Kind
  | .null => .null
  | .integer _ => .integer
  | .float _ => .float
  | .text _ => .text
  | .boolean _ => .boolean
  | .timestamp _ => .timestamp

/-- Whether a value is NULL. -/
def isNull : Value → Bool
  | .null => true
  | _ => false

/-- The text of a text value. -/
def text? : Value → Option String
  | .text s => some s
  | _ => none

/-- The instant of a timestamp value. -/
def timestamp? : Value → Option Timestamp
  | .timestamp t => some t
  | _ => none

end Value

end RowQuery
