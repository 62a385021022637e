import RowQuery.Binary64.Exact
import RowQuery.Value

/-!
Sameness and order of values. Sameness of numbers is exact: integers and floats are the same when
they stand at one place. Order compares an integer with a float after rounding it to 53 bits.
-/

namespace RowQuery.Value

open Binary64 (Place)

/-- The place of a number. -/
def place? : Value → Option Place
  | .integer n => some (Place.ofInt n.toInt)
  | .float x => some (Binary64.place x)
  | _ => none

/-- Whether two values are the same for grouping and for DISTINCT. Not a number is the same as
itself, and the two zeros are one. -/
def same (a b : Value) : Bool :=
  match a.place?, b.place? with
  | some p, some q => p = q
  | none, none => a = b
  | _, _ => false

/-- The place of a number after an integer became a float. -/
def floatPlace? : Value → Option Place
  | .integer n => some (Place.ofInt (Binary64.round53 n.toInt))
  | .float x => some (Binary64.place x)
  | _ => none

/-- The order of two values of one kind, or of two numbers; `none` if they are not comparable. -/
def compare? (a b : Value) : Option Ordering :=
  match a, b with
  | .null, .null => some .eq
  | .integer m, .integer n => some (compare m.toInt n.toInt)
  | .text s, .text t => some (compare s t)
  | .boolean s, .boolean t => some (compare s.toNat t.toNat)
  | .timestamp s, .timestamp t => some (compare s t)
  | a, b =>
    match a.floatPlace?, b.floatPlace? with
    | some p, some q => some (compare p q)
    | _, _ => none

/-- The integer of 64 bits that a number is exactly. -/
def exactInteger? : Value → Option Int64
  | .integer n => some n
  | .float x => (Binary64.place x).integer?.bind Integer64.ofInt?
  | _ => none

end RowQuery.Value
