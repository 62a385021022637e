import RowQuery.Quantity
import RowQuery.Value.Hash

/-!
Running states of the aggregate functions, and the values seen so far under DISTINCT.
-/

namespace RowQuery

/-- What an aggregate function has gathered. -/
inductive Accumulator where
  /-- AVG: the sum and the number of contributions. -/
  | average (sum : Float) (number : Nat)
  /-- COUNT. -/
  | count (n : Nat)
  /-- MAX and MIN: the value that lies furthest to a side. -/
  | extremum (side : Ordering) (best : Option Value)
  /-- SUM: the sum of the contributions, if there was any. -/
  | total (sum : Option Quantity)
deriving DecidableEq

namespace Accumulator

/-- A function before any value. -/
def start : AggregateFunction → Accumulator
  | .avg => .average 0.0 0
  | .count => .count 0
  | .max => .extremum .gt none
  | .min => .extremum .lt none
  | .sum => .total none

/-- The value that lies further to a side; the earlier one if they are equal or not comparable. -/
def further (side : Ordering) (best : Option Value) (value : Value) : Value :=
  match best with
  | none => value
  | some earlier => if value.compare? earlier = some side then value else earlier

/-- The state after one more value. -/
def add (rule : OperandRule) (value : Value) : Accumulator → Except Fault Accumulator
  | .average sum number =>
    (value.contribution .avg rule).map fun
      | some quantity => .average (sum + quantity.toFloat) (number + 1)
      | none => .average sum number
  | .count n => .ok (.count (n + 1))
  | .extremum side best => .ok (.extremum side (some (further side best value)))
  | .total sum =>
    (value.contribution .sum rule).map fun
      | some quantity => .total (some (sum.elim quantity fun sum => sum.add quantity))
      | none => .total sum

/-- The state after one more row; only COUNT heeds rows. -/
def addRow : Accumulator → Accumulator
  | .count n => .count (n + 1)
  | other => other

/-- What a function gives; NULL if nothing contributed, but for COUNT. -/
def result : Accumulator → Value
  | .average sum number =>
    if number = 0 then .null else .float (.ofFloat (sum / Float.ofNat number))
  | .count n => .integer (Int64.ofNat n)
  | .extremum _ best => best.getD .null
  | .total sum => (sum.map Quantity.toValue).getD .null

end Accumulator

/-- The values seen so far, as a set built on hashes keeps them: no two of them coincide. -/
structure Seen where
  values : List Value
deriving DecidableEq

namespace Seen

/-- No value seen yet. -/
def empty : Seen := ⟨[]⟩

/-- The number of values. -/
def size (seen : Seen) : Nat :=
  seen.values.length

/-- Whether a value was seen. -/
def contains [Hashing] (seen : Seen) (value : Value) : Bool :=
  seen.values.any fun earlier => earlier.coincides value

/-- Sees a value; tells whether it is new. NULL is never seen and never new. -/
def add [Hashing] (value : Value) (seen : Seen) : Bool × Seen :=
  if value.isNull || seen.contains value then (false, seen)
  else (true, ⟨seen.values ++ [value]⟩)

end Seen

end RowQuery
