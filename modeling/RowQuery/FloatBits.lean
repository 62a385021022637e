/-!
Floats by their bits. `Float` has a single value that is not a number; here each of the bit patterns
of such values is one of its own.
-/

namespace RowQuery

/-- A float of 64 bits. -/
structure FloatBits where
  bits : UInt64
deriving DecidableEq, Repr

namespace FloatBits

/-- What the bits stand for. -/
def toFloat (x : FloatBits) : Float :=
  Float.ofBits x.bits

instance : Coe FloatBits Float := ⟨toFloat⟩

/-- The bits of a float. What is not a number gets those of the quiet one without a payload. -/
def ofFloat (x : Float) : FloatBits :=
  ⟨x.toBits⟩

instance : OfScientific FloatBits where
  ofScientific mantissa negative exponent := ofFloat (.ofScientific mantissa negative exponent)

instance (n : Nat) : OfNat FloatBits n := ⟨ofFloat (.ofNat n)⟩

end FloatBits

end RowQuery
