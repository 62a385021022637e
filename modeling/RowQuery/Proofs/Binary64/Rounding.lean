import RowQuery.Binary64.Exact

/-!
# Rounding to 53 bits keeps order

A larger integer never rounds to a smaller one (`round53_mono`), and an integer of 53 significant
bits is not rounded (`stepOf_dvd`, `round53_of_stepOf_dvd`). Within a binade all integers round
to multiples of one step; the bounds of a binade are such multiples, so no integer of it rounds past
them.
-/

namespace RowQuery.Binary64

variable {step m n : Nat}

theorem roundTo_mul (positive : 0 < step) (count : Nat) :
    roundTo step (count * step) = count * step := by
  simp [roundTo, Nat.mul_div_cancel count positive, positive]

theorem roundTo_bounds (step n : Nat) :
    n / step * step ≤ roundTo step n ∧ roundTo step n ≤ (n / step + 1) * step := by
  have more : n / step * step ≤ (n / step + 1) * step :=
    Nat.mul_le_mul_right step (Nat.le_succ _)
  rw [roundTo]
  split
  · exact ⟨Nat.le_refl _, more⟩
  · exact ⟨more, Nat.le_refl _⟩

theorem roundTo_mono (step : Nat) (le : m ≤ n) : roundTo step m ≤ roundTo step n := by
  rcases Nat.lt_or_eq_of_le (Nat.div_le_div_right (c := step) le) with less | same
  · calc roundTo step m ≤ (m / step + 1) * step := (roundTo_bounds step m).2
      _ ≤ n / step * step := Nat.mul_le_mul_right step less
      _ ≤ roundTo step n := (roundTo_bounds step n).1
  · have left : m % step ≤ n % step := by
      have whole := Nat.div_add_mod m step
      have whole' := Nat.div_add_mod n step
      rw [same] at whole
      omega
    have more : n / step * step ≤ (n / step + 1) * step :=
      Nat.mul_le_mul_right step (Nat.le_succ _)
    simp only [roundTo, same]
    split
    · split
      · exact Nat.le_refl _
      · exact more
    · rename_i up
      have up' : ¬ (2 * (n % step) < step ∨ 2 * (n % step) = step ∧ n / step % 2 = 0) := by omega
      simp only [if_neg up', Nat.le_refl]

/-- The number of integers between two neighbours in the binade of a natural number. -/
def stepOf (n : Nat) : Nat :=
  Nat.pow 2 (n.log2 - 52)

theorem stepOf_pos (n : Nat) : 0 < stepOf n :=
  Nat.pow_pos (by decide)

/-- The powers of two in and above a binade are multiples of its step. -/
theorem exists_mul_stepOf {exponent : Nat} (above : n.log2 ≤ exponent) :
    ∃ count, count * stepOf n = Nat.pow 2 exponent := by
  refine ⟨Nat.pow 2 (exponent - (n.log2 - 52)), ?_⟩
  have split : exponent - (n.log2 - 52) + (n.log2 - 52) = exponent := by omega
  calc Nat.pow 2 (exponent - (n.log2 - 52)) * stepOf n
      = Nat.pow 2 (exponent - (n.log2 - 52) + (n.log2 - 52)) := (Nat.pow_add ..).symm
    _ = Nat.pow 2 exponent := by rw [split]

theorem le_roundTo_stepOf {exponent : Nat} (above : n.log2 ≤ exponent)
    (le : Nat.pow 2 exponent ≤ n) : Nat.pow 2 exponent ≤ roundTo (stepOf n) n := by
  obtain ⟨count, multiple⟩ := exists_mul_stepOf above
  rw [← multiple] at le ⊢
  calc count * stepOf n = roundTo (stepOf n) (count * stepOf n) :=
        (roundTo_mul (stepOf_pos n) count).symm
    _ ≤ roundTo (stepOf n) n := roundTo_mono (stepOf n) le

theorem roundTo_stepOf_le {exponent : Nat} (above : n.log2 ≤ exponent)
    (le : n ≤ Nat.pow 2 exponent) : roundTo (stepOf n) n ≤ Nat.pow 2 exponent := by
  obtain ⟨count, multiple⟩ := exists_mul_stepOf above
  rw [← multiple] at le ⊢
  calc roundTo (stepOf n) n ≤ roundTo (stepOf n) (count * stepOf n) :=
        roundTo_mono (stepOf n) le
    _ = count * stepOf n := roundTo_mul (stepOf_pos n) count

theorem roundTo_stepOf_mono (le : m ≤ n) : roundTo (stepOf m) m ≤ roundTo (stepOf n) n := by
  by_cases zero : m = 0
  · subst zero
    exact Nat.zero_le _
  have nonzero : n ≠ 0 := by omega
  have order : m.log2 ≤ n.log2 := by
    rw [Nat.le_log2 nonzero]
    exact Nat.le_trans (Nat.log2_self_le zero) le
  -- In different binades the power of two between them also lies between the results.
  rcases Nat.lt_or_eq_of_le order with less | same
  · calc roundTo (stepOf m) m ≤ Nat.pow 2 (m.log2 + 1) :=
          roundTo_stepOf_le (Nat.le_succ _) (Nat.le_of_lt Nat.lt_log2_self)
      _ ≤ Nat.pow 2 n.log2 := Nat.pow_le_pow_right (by decide) less
      _ ≤ roundTo (stepOf n) n := le_roundTo_stepOf (Nat.le_refl _) (Nat.log2_self_le nonzero)
  · have steps : stepOf m = stepOf n := by rw [stepOf, stepOf, same]
    rw [steps]
    exact roundTo_mono (stepOf n) le

/-- Fewer than 54 significant bits make a multiple of the step of their binade. -/
theorem stepOf_dvd {significand : Nat} (below : significand < 0x20000000000000) (exponent : Nat) :
    stepOf (significand * Nat.pow 2 exponent) ∣ significand * Nat.pow 2 exponent := by
  by_cases zero : significand * Nat.pow 2 exponent = 0
  · rw [zero]
    exact Nat.dvd_zero _
  have less : significand * Nat.pow 2 exponent < Nat.pow 2 (53 + exponent) := by
    calc significand * Nat.pow 2 exponent < Nat.pow 2 53 * Nat.pow 2 exponent :=
          Nat.mul_lt_mul_of_pos_right below (Nat.pow_pos (by decide))
      _ = Nat.pow 2 (53 + exponent) := (Nat.pow_add ..).symm
  have binade : (significand * Nat.pow 2 exponent).log2 < 53 + exponent :=
    (Nat.log2_lt zero).mpr less
  exact Nat.dvd_mul_left_of_dvd (Nat.pow_dvd_pow 2 (by omega)) significand

theorem round53_of_stepOf_dvd {n : Int} (multiple : stepOf n.natAbs ∣ n.natAbs) :
    round53 n = n := by
  obtain ⟨count, whole⟩ := multiple
  have kept : roundTo (stepOf n.natAbs) n.natAbs = n.natAbs := by
    have rounded := roundTo_mul (stepOf_pos n.natAbs) count
    rwa [Nat.mul_comm, ← whole] at rounded
  have magnitude : roundTo (Nat.pow 2 (n.natAbs.log2 - 52)) n.natAbs = n.natAbs := kept
  simp only [round53, magnitude]
  split <;> omega

theorem round53_mono {m n : Int} (le : m ≤ n) : round53 m ≤ round53 n := by
  simp only [round53]
  split <;> split
  · have further : roundTo (stepOf n.natAbs) n.natAbs ≤ roundTo (stepOf m.natAbs) m.natAbs :=
      roundTo_stepOf_mono (by omega)
    exact Int.neg_le_neg (Int.ofNat_le.mpr further)
  · omega
  · omega
  · exact Int.ofNat_le.mpr (roundTo_stepOf_mono (by omega))

end RowQuery.Binary64
