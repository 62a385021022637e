import Mathlib
import RowQuery.Proofs.Binary64.Rounding
import RowQuery.Proofs.Binary64.Text

/-!
# The real values of floats

What a float stands for as the standard model of floats unpacks its bits: an extended real, or no
number (`real?`). The bits are read in the same way here (`exact_eq_ofUnpacked`), so the place of a
float shows just its value (`real?_eq_place`). A float that is an integer has at most 53 bits, so
rounding leaves that integer as it is (`round53_of_place`).
-/

namespace RowQuery.Binary64

open Float.Model (UnpackedFloat)
open Float.Model.UnpackedFloat (Sign)

def negates : Sign → Bool
  | .negative => true
  | .positive => false

def Exact.ofUnpacked : UnpackedFloat → Exact
  | .notANumber => .nan
  | .infinity sign => .infinite (negates sign)
  | .zero sign => .finite (negates sign) 0 (-1074)
  | .finite sign mantissa exponent _ => .finite (negates sign) mantissa exponent

/-- The extended real that an unpacked float is. -/
noncomputable def realOf? : UnpackedFloat → Option EReal
  | .notANumber => none
  | .infinity .positive => some ⊤
  | .infinity .negative => some ⊥
  | .zero _ => some 0
  | .finite sign mantissa exponent _ => some ((sign.apply mantissa * 2 ^ exponent : ℝ) : EReal)

/-- The extended real that a float is, unless it is not a number. -/
noncomputable def real? (x : Float) : Option EReal :=
  realOf? x.toModel.unpack

/-! ## Bits -/

section
variable (bits : BitVec 64)

theorem toNat_unpackMantissa :
    (@UnpackedFloat.unpackMantissa .binary64 bits).toNat =
      bits.toNat % 0x10000000000000 := by
  simp [UnpackedFloat.unpackMantissa]

theorem toNat_unpackExponent :
    (@UnpackedFloat.unpackExponent .binary64 bits).toNat =
      bits.toNat / 0x10000000000000 % 0x800 := by
  simp [UnpackedFloat.unpackExponent, Nat.shiftRight_eq_div_pow]

theorem negates_unpackSign :
    negates (.ofBitVec (@UnpackedFloat.unpackSign .binary64 bits)) =
      decide (0x8000000000000000 ≤ bits.toNat) := by
  have sign : (@UnpackedFloat.unpackSign .binary64 bits).toNat =
      bits.toNat / 0x8000000000000000 % 2 := by
    simp [UnpackedFloat.unpackSign, Nat.shiftRight_eq_div_pow]
  have small := bits.isLt
  by_cases positive : @UnpackedFloat.unpackSign .binary64 bits = 0#1
  · have zero : bits.toNat / 0x8000000000000000 % 2 = 0 := by rw [← sign, positive]; rfl
    rw [Sign.ofBitVec, if_pos positive, negates, Bool.false_eq, decide_eq_false_iff_not]
    omega
  · have nonzero : ¬ bits.toNat / 0x8000000000000000 % 2 = 0 := by
      rw [← sign]
      exact fun zero => positive (BitVec.toNat_inj.mp zero)
    rw [Sign.ofBitVec, if_neg positive, negates, Bool.true_eq, decide_eq_true_eq]
    omega

theorem toNat_implicit_append (fraction : BitVec 52) :
    (1#1 ++ fraction).toNat = fraction.toNat + 0x10000000000000 := by
  rw [BitVec.toNat_append, Nat.shiftLeft_eq, Nat.or_comm]
  exact Nat.or_two_pow_eq_add_of_lt fraction.isLt

end

theorem exact_eq_ofUnpacked (x : Float) : exact x = .ofUnpacked x.toModel.unpack := by
  have bits : x.toBits.toNat = x.toModel.toBits.toBitVec.toNat := rfl
  have ones : (-1#11).toNat = 2047 := rfl
  have bias : (Float.Model.Format.binary64.exponentBias : Int) + (52 : Nat) = 1075 := rfl
  rw [Float.Model.unpack, UnpackedFloat.unpack, exact, bits]
  simp only [← BitVec.toNat_inj, toNat_unpackExponent, toNat_unpackMantissa, ← negates_unpackSign,
    toNat_implicit_append, ones, bias, BitVec.toNat_ofNat]
  split
  · split <;> rfl
  · split
    · rename_i subnormal
      rw [subnormal]
      split
      · rename_i zero
        rw [zero]
        rfl
      · rfl
    · rfl

/-! ## Places -/

/-- The distance between a place and the next. -/
noncomputable def step : ℝ :=
  2 ^ (-1074 : ℤ)

theorem step_ne_zero : step ≠ 0 :=
  zpow_ne_zero _ two_ne_zero

theorem cast_pow_mul_step {exponent : Int} (least : -1074 ≤ exponent) :
    ((Nat.pow 2 (exponent + 1074).toNat : Nat) : ℝ) * step = 2 ^ exponent := by
  have whole : ((exponent + 1074).toNat : Int) = exponent + 1074 := Int.toNat_of_nonneg (by omega)
  rw [step, Nat.pow_eq, Nat.cast_pow, Nat.cast_ofNat, ← zpow_natCast, whole,
    ← zpow_add₀ two_ne_zero, Int.add_assoc, Int.add_right_neg, Int.add_zero]

/-- The extended real at a place, unless it is the place of no number. -/
noncomputable def Place.real? (p : Place) : Option EReal :=
  if p.region = 0 then some ((p.offset * step : ℝ) : EReal)
  else if p.region = 1 then some ⊤
  else if p.region = -1 then some ⊥
  else none

/-- The places that numbers have. -/
inductive Place.Stands : Place → Prop
  | finite (offset : Int) : Stands ⟨0, offset⟩
  | above : Stands ⟨1, 0⟩
  | below : Stands ⟨-1, 0⟩
  | nan : Stands ⟨2, 0⟩

theorem stands_place (x : Float) : (place x).Stands := by
  rw [place]
  rcases exact x with _ | (_ | _) | _
  · exact .nan
  · exact .above
  · exact .below
  · exact .finite _

theorem Place.Stands.real?_inj {p q : Place} (left : p.Stands) (right : q.Stands) :
    p.real? = q.real? ↔ p = q := by
  cases left <;> cases right <;> simp [Place.real?, step_ne_zero, -EReal.coe_mul]

theorem Place.stands_ofInt (n : Int) : (Place.ofInt n).Stands :=
  .finite _

theorem unit_mul_step : ((unit : Int) : ℝ) * step = 1 := by
  simp only [unit_eq, Int.cast_natCast]
  unfold unitCount
  generalize places : 1074 = count
  have power := cast_pow_mul_step (show (-1074 : Int) ≤ 0 by decide)
  have whole : ((0 : Int) + 1074).toNat = count := by omega
  rwa [whole, zpow_zero] at power

theorem Place.real?_ofInt (n : Int) : (Place.ofInt n).real? = some ((n : ℝ) : EReal) := by
  have offset : ((Place.ofInt n).offset : ℝ) * step = n := by
    rw [ofInt, Int.cast_mul, mul_assoc, unit_mul_step, mul_one]
  exact congrArg (fun number : ℝ => some (number : EReal)) offset

theorem scaled_mul_step {exponent : Int} (least : -1074 ≤ exponent) (sign : Sign) (mantissa : Nat) :
    (scaled (negates sign) mantissa exponent : ℝ) * step = sign.apply mantissa * 2 ^ exponent := by
  rw [← cast_pow_mul_step least, scaled_eq]
  cases sign <;> simp [negates, Sign.apply, mul_assoc]

theorem real?_place_finite {exponent : Int} (least : -1074 ≤ exponent) (sign : Sign)
    (mantissa : Nat) : (Exact.finite (negates sign) mantissa exponent).place.real? =
      some ((sign.apply mantissa * 2 ^ exponent : ℝ) : EReal) := by
  rw [← scaled_mul_step least]
  rfl

theorem real?_eq_place (x : Float) : real? x = (place x).real? := by
  have bits := exact_eq_ofUnpacked x
  rw [place, bits, real?]
  cases unpacked : x.toModel.unpack with
  | notANumber => rfl
  | infinity sign => cases sign <;> rfl
  | zero sign =>
      rw [Exact.ofUnpacked, real?_place_finite (by decide)]
      cases sign <;> simp [realOf?, Sign.apply]
  | finite sign mantissa exponent positive =>
      rw [unpacked] at bits
      exact (real?_place_finite (canonical_of_exact bits).least sign mantissa).symm

theorem realOf?_eq_none_iff {unpacked : UnpackedFloat} :
    realOf? unpacked = none ↔ unpacked = .notANumber := by
  rcases unpacked with (_ | _) | _ | _ | _ <;> simp [realOf?]

theorem isNaN_iff {x : Float} : x.isNaN = true ↔ real? x = none :=
  UnpackedFloat.isNaN_iff.trans realOf?_eq_none_iff.symm

/-! ## Integers -/

theorem exists_significand {x : Float} {n : Int} (here : place x = Place.ofInt n) :
    ∃ significand exponent : Nat, significand < 0x20000000000000 ∧
      n.natAbs = significand * Nat.pow 2 exponent := by
  have inside : (exact x).place.region = 0 := congrArg Place.region here
  obtain ⟨negative, significand, exponent, finite⟩ := finite_of_region_eq_zero inside
  have canonical := canonical_of_exact finite
  have least := canonical.least
  have magnitude : significand * Nat.pow 2 (exponent + 1074).toNat = n.natAbs * unitCount := by
    have offset : scaled negative significand exponent = n * unit := by
      rw [place, finite] at here
      exact congrArg Place.offset here
    have unsigned (size : Nat) : (if negative then -(size : Int) else size).natAbs = size := by
      cases negative <;> simp
    have sizes := congrArg Int.natAbs offset
    rwa [scaled_eq, unsigned, unit_eq, Int.natAbs_mul, Int.natAbs_natCast] at sizes
  by_cases whole : 0 ≤ exponent
  · have places : (exponent + 1074).toNat = exponent.toNat + 1074 := by omega
    rw [places, two_pow_mul_unitCount, ← Nat.mul_assoc] at magnitude
    exact ⟨significand, exponent.toNat, canonical.below,
      (Nat.eq_of_mul_eq_mul_right unitCount_pos magnitude).symm⟩
  · have parts : unitCount = Nat.pow 2 (-exponent).toNat * Nat.pow 2 (exponent + 1074).toNat :=
      unitCount_eq_mul (by omega)
    rw [parts, ← Nat.mul_assoc] at magnitude
    have product : significand = n.natAbs * Nat.pow 2 (-exponent).toNat :=
      Nat.eq_of_mul_eq_mul_right (Nat.pow_pos (by decide)) magnitude
    have smaller : n.natAbs ≤ significand :=
      product ▸ Nat.le_mul_of_pos_right _ (Nat.pow_pos (by decide))
    exact ⟨n.natAbs, 0, smaller.trans_lt canonical.below, (Nat.mul_one _).symm⟩

/-- An integer that a float is has no bits to round away. -/
theorem round53_of_place {x : Float} {n : Int} (here : place x = Place.ofInt n) :
    round53 n = n := by
  obtain ⟨significand, exponent, below, whole⟩ := exists_significand here
  exact round53_of_stepOf_dvd (whole ▸ stepOf_dvd below exponent)

/-! ## Infinities -/

theorem exact_of_isInf {x : Float} (infinite : x.isInf = true) :
    ∃ negative, exact x = .infinite negative := by
  rw [exact_eq_ofUnpacked]
  rw [Float.isInf, Float.Model.isInf] at infinite
  cases unpacked : x.toModel.unpack with
  | infinity sign => exact ⟨negates sign, rfl⟩
  | _ =>
      rw [unpacked] at infinite
      cases infinite

theorem isNaN_of_isInf {x : Float} (infinite : x.isInf = true) : x.isNaN = false := by
  rw [Float.isInf, Float.Model.isInf] at infinite
  rw [Float.isNaN, Float.Model.isNaN]
  cases unpacked : x.toModel.unpack with
  | infinity sign => rfl
  | _ =>
      rw [unpacked] at infinite
      cases infinite

theorem toBits_of_infinite {x : Float} {negative : Bool} (infinite : exact x = .infinite negative) :
    x.toBits.toNat = if negative then 0xfff0000000000000 else 0x7ff0000000000000 := by
  have small := x.toBits.toNat_lt
  rw [exact] at infinite
  split at infinite
  · split at infinite
    · cases infinite
      simp only [decide_eq_true_eq]
      split <;> omega
    · cases infinite
  · split at infinite <;> cases infinite

/-- The bits of an infinity are its sign. -/
theorem eq_of_infinite {x y : Float} {negative : Bool} (left : exact x = .infinite negative)
    (right : exact y = .infinite negative) : x = y := by
  have bits : x.toBits = y.toBits :=
    UInt64.toNat_inj.mp ((toBits_of_infinite left).trans (toBits_of_infinite right).symm)
  exact Float.toBits_inj.mp bits

end RowQuery.Binary64
