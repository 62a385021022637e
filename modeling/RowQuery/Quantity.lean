import RowQuery.Fault
import RowQuery.Settings
import RowQuery.Value.Number

/-!
The numbers that SUM and AVG add up.
-/

namespace RowQuery

/-- A number to be added: an integer of 64 bits or a float. -/
inductive Quantity where
  | integer (n : Int64)
  | float (x : FloatBits)
deriving DecidableEq

namespace Quantity

/-- A quantity as a float. -/
def toFloat : Quantity → Float
  | .integer n => Float.ofInt n.toInt
  | .float x => x

/-- A quantity as a value. -/
def toValue : Quantity → Value
  | .integer n => .integer n
  | .float x => .float x

/-- Integers add up exactly as long as 64 bits hold the sum; all else adds up as floats. -/
def add : Quantity → Quantity → Quantity
  | .integer m, .integer n =>
    match Integer64.ofInt? (m.toInt + n.toInt) with
    | some sum => .integer sum
    | none => .float (.ofFloat (Float.ofInt m.toInt + Float.ofInt n.toInt))
  | left, right => .float (.ofFloat (left.toFloat + right.toFloat))

end Quantity

namespace Value

/-- The quantity of a number. -/
def quantity? : Value → Option Quantity
  | .integer n => some (.integer n)
  | .float x => some (.float x)
  | _ => none

/-- The quantity of a value that is no number but counts as one. -/
def coerced? : Value → Option Quantity
  | .boolean b => some (.integer (if b then 1 else 0))
  | .text s =>
    let chars := Text.trimChars s.toList
    ((Numeral.int64? chars).map .integer).or
      ((Numeral.float? chars).map fun x => .float (.ofFloat x))
  | _ => none

/-- The quantity that a value contributes to a function under a rule, if it contributes any. -/
def contribution (function : AggregateFunction) (rule : OperandRule) (value : Value) :
    Except Fault (Option Quantity) :=
  match value.quantity?, rule with
  | some quantity, _ => .ok (some quantity)
  | none, .coerce => .ok value.coerced?
  | none, .reject => .error (.type (.notNumeric function value))

end Value

end RowQuery
