import RowQuery.Value.Order

/-!
What the hash of a value is made from. Values that are the same agree in it, but for floats that are
not a number: these are all the same, and their hashes are made from their bits.
-/

namespace RowQuery

open Binary64 (Place)

/-- What a hash is made from. -/
inductive HashKey where
  | null
  /-- The float of a number, where both zeros count as one: its place tells its bits. -/
  | number (place : Place)
  /-- A float that is not a number, by its bits. -/
  | nan (x : FloatBits)
  | text (s : String)
  | boolean (b : Bool)
  /-- An instant by its nanoseconds, as far as 64 bits hold them. -/
  | timestamp (nanos : Option Int64)
deriving DecidableEq

/-- The hash function of sets. -/
class Hashing where
  /-- As much of a hash as a set goes by. -/
  hash : HashKey → UInt64

namespace Hashing

/-- A table tells its entries apart by seven bits of a hash by multiplication. Of unlike keys only
those of floats that are no number can belong to values that are the same, so the others get no
hash. -/
scoped instance standard : Hashing where
  hash
    | .nan x =>
      let factor := 0xf1357aea2e62a9c5
      ((factor + x.bits) * factor) >>> 31 &&& 127
    | _ => 0

end Hashing

namespace Value

/-- What the hash of a value is made from. An integer becomes a float first. -/
def hashKey : Value → HashKey
  | .null => .null
  | .integer n => .number (Place.ofInt (Binary64.round53 n.toInt))
  | .float x => if x.toFloat.isNaN then .nan x else .number (Binary64.place x)
  | .text s => .text s
  | .boolean b => .boolean b
  | .timestamp t => .timestamp t.total64?

/-- Whether a set that is built on hashes takes one value for another: it looks for the same value
among those of its hash. -/
def coincides [Hashing] (a b : Value) : Bool :=
  Hashing.hash a.hashKey = Hashing.hash b.hashKey && a.same b

end Value

end RowQuery
