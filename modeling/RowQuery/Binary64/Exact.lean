import RowQuery.Integer64

/-!
The exact value of a float, and its place on the line of numbers. Every finite float is an integer
multiple of `2 ^ -1074`, so places are compared as integers.
-/

namespace RowQuery.Binary64

/-- What the bits of a float stand for; a finite one is `± significand · 2 ^ exponent`. -/
inductive Exact where
  | nan
  | infinite (negative : Bool)
  | finite (negative : Bool) (significand : Nat) (exponent : Int)
deriving DecidableEq, Repr

/-- Reads sign, exponent field and fraction off the bits of a float. -/
def exact (x : Float) : Exact :=
  let bits : Nat := x.toBits.toNat
  let negative := decide (0x8000000000000000 ≤ bits)
  let field : Nat := bits / 0x10000000000000 % 0x800
  let fraction : Nat := bits % 0x10000000000000
  if field = 2047 then
    if fraction = 0 then .infinite negative else .nan
  else if field = 0 then .finite negative fraction (-1074)
  else .finite negative (fraction + 0x10000000000000) ((field : Int) - 1075)

/-- The number of `2 ^ -1074` in one. -/
abbrev unit : Int := Nat.pow 2 1074

/-- The multiple of `2 ^ -1074` that a finite float is. -/
def scaled (negative : Bool) (significand : Nat) (exponent : Int) : Int :=
  let magnitude : Int := significand * Nat.pow 2 (exponent + 1074).toNat
  if negative then -magnitude else magnitude

/-- A place on the line of numbers: the finite numbers lie between the infinities, and a place past
all of them is kept for what is not a number. -/
structure Place where
  /-- -1 and 1 for the infinities, 0 for a finite number, 2 for no number. -/
  region : Int
  /-- A finite number as a multiple of `2 ^ -1074`. -/
  offset : Int
deriving DecidableEq, Repr

namespace Place

/-- Regions first, offsets within a region. -/
instance : Ord Place where
  compare p q := (compare p.region q.region).then (compare p.offset q.offset)

/-- The place of an integer. -/
def ofInt (n : Int) : Place := ⟨0, n * unit⟩

end Place

/-- The place of an exact value. Both zeros have the place of the integer 0. -/
def Exact.place : Exact → Place
  | .nan => ⟨2, 0⟩
  | .infinite negative => ⟨if negative then -1 else 1, 0⟩
  | .finite negative significand exponent => ⟨0, scaled negative significand exponent⟩

/-- The place of a float. -/
def place (x : Float) : Place := (exact x).place

/-- The integer that stands at a place, if one does. -/
def Place.integer? (p : Place) : Option Int :=
  if p.region = 0 ∧ p.offset % unit = 0 then some (p.offset / unit) else none

/-- The integer part of a place, toward zero and as near as 64 bits come to it; 0 for no number. -/
def Place.truncate (p : Place) : Int64 :=
  if p.region = 0 then Integer64.nearest (p.offset.tdiv unit)
  else if p.region = -1 then Int64.minValue
  else if p.region = 1 then Int64.maxValue
  else 0

/-- A natural number rounded to a multiple of `step`, a half to the even multiple. -/
def roundTo (step n : Nat) : Nat :=
  let below := n / step
  let left := n % step
  if 2 * left < step ∨ (2 * left = step ∧ below % 2 = 0) then below * step else (below + 1) * step

/-- An integer rounded to 53 significant bits, as it is when it becomes a float. -/
def round53 (n : Int) : Int :=
  let magnitude := roundTo (Nat.pow 2 (n.natAbs.log2 - 52)) n.natAbs
  if n < 0 then -magnitude else magnitude

end RowQuery.Binary64
