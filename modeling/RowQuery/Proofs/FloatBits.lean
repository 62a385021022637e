import Mathlib
import RowQuery.FloatBits

/-!
# Floats and their bits

A float comes back from its bits, and the bits of a number come back from the float. So two bit
patterns stand for one float only if it is not a number (`eq_of_toFloat`).
-/

namespace RowQuery.FloatBits

open Float.Model (UnpackedFloat)

@[simp] theorem toFloat_ofFloat (x : Float) : (ofFloat x).toFloat = x :=
  Float.ofBits_toBits x

/-- The bits after they were read as a float. -/
theorem toBitVec_ofFloat_toFloat (x : FloatBits) :
    (ofFloat x.toFloat).bits.toBitVec =
      if @UnpackedFloat.isNaNBits .binary64 x.bits.toBitVec
      then UnpackedFloat.packedNaN .binary64 else x.bits.toBitVec :=
  @UnpackedFloat.pack_unpack .binary64 x.bits.toBitVec (by decide)

theorem ofFloat_toFloat {x : FloatBits} (number : x.toFloat.isNaN = false) :
    ofFloat x.toFloat = x := by
  have bits := toBitVec_ofFloat_toFloat x
  split at bits
  · have unpacked : x.toFloat.toModel.unpack = .notANumber :=
      (congrArg (UnpackedFloat.unpack .binary64) bits).trans UnpackedFloat.unpack_packedNaN
    have nan : x.toFloat.isNaN = true := UnpackedFloat.isNaN_iff.mpr unpacked
    rw [nan] at number
    cases number
  · cases x
    exact congrArg FloatBits.mk (UInt64.toBitVec_inj.mp bits)

/-- Only what is not a number has several bit patterns. -/
theorem eq_of_toFloat {x y : FloatBits} (number : x.toFloat.isNaN = false)
    (same : x.toFloat = y.toFloat) : x = y := by
  rw [← ofFloat_toFloat number, same, ofFloat_toFloat (same ▸ number)]

end RowQuery.FloatBits
