import RowQuery.Binary64.Exact
import RowQuery.Decimal.Numeral
import RowQuery.Value

/-!
Values read as numbers.
-/

namespace RowQuery.Value

/-- A value read as an integer: floats lose their fraction, text is read as a numeral, a timestamp
counts nanoseconds. -/
def int64? : Value → Option Int64
  | .null => none
  | .integer n => some n
  | .float x => some (Binary64.place x).truncate
  | .text s =>
    let chars := Text.trimChars s.toList
    (Numeral.int64? chars).or ((Numeral.float? chars).map fun x => (Binary64.place x).truncate)
  | .boolean b => some (if b then 1 else 0)
  | .timestamp t => t.total64?

/-- A value read as a float; NULL and timestamps have no such reading. -/
def float? : Value → Option Float
  | .null => none
  | .integer n => some (Float.ofInt n.toInt)
  | .float x => some x
  | .text s => Numeral.float? (Text.trimChars s.toList)
  | .boolean b => some (if b then 1.0 else 0.0)
  | .timestamp _ => none

end RowQuery.Value
