import RowQuery.Binary64.Shortest
import RowQuery.Proofs.Decimal

/-!
# The numbers that read back as a float

No number reads back as two floats (`eq_of_readsBack`), and the shortest digits of a float read back
as it (`readsBack_shortest`): 17 digits always do, since a step of their grid is shorter than the
span of the float.
-/

namespace RowQuery.Binary64

/-- The significands and exponents that floats have. -/
structure Canonical (significand : Nat) (exponent : Int) : Prop where
  below : significand < 0x20000000000000
  least : -1074 ≤ exponent
  normal : -1074 < exponent → 0x10000000000000 ≤ significand

theorem canonical_of_exact {x : Float} {negative : Bool} {significand : Nat} {exponent : Int}
    (finite : exact x = .finite negative significand exponent) :
    Canonical significand exponent := by
  simp only [exact] at finite
  split at finite
  · split at finite <;> cases finite
  · split at finite <;> cases finite <;> constructor <;> omega

namespace Span

/-- A quarter of the last place of a float, in the common unit. -/
def quarter (exponent : Int) : Nat :=
  Nat.pow 2 (exponent + 1074).toNat * Nat.pow 10 340

/-- The quarters from a float down to the midpoint below it. -/
def gapBelow (significand : Nat) (exponent : Int) : Nat :=
  if significand = 0x10000000000000 ∧ -1074 < exponent then 1 else 2

theorem quarter_pos (exponent : Int) : 0 < quarter exponent := by
  apply Nat.mul_pos
  · exact Nat.pow_pos (n := (exponent + 1074).toNat) (by decide : 0 < 2)
  · decide +kernel

theorem two_mul_quarter_le {first second : Int} (least : -1074 ≤ first) (less : first < second) :
    2 * quarter first ≤ quarter second := by
  have more : (first + 1074).toNat + 1 ≤ (second + 1074).toNat := by omega
  have doubled : 2 * Nat.pow 2 (first + 1074).toNat ≤ Nat.pow 2 (second + 1074).toNat := by
    rw [Nat.mul_comm]
    exact Nat.pow_le_pow_right (n := 2) (by decide) more
  rw [quarter, quarter, ← Nat.mul_assoc]
  exact Nat.mul_le_mul_right _ doubled

section
variable {significand : Nat} {exponent : Int}

theorem ofFinite_low : (ofFinite significand exponent).low =
    (4 * significand - gapBelow significand exponent) * quarter exponent :=
  rfl

theorem ofFinite_value :
    (ofFinite significand exponent).value = 4 * significand * quarter exponent :=
  rfl

theorem ofFinite_high :
    (ofFinite significand exponent).high = (4 * significand + 2) * quarter exponent :=
  rfl

theorem gapBelow_bounds (significand : Nat) (exponent : Int) :
    1 ≤ gapBelow significand exponent ∧ gapBelow significand exponent ≤ 2 := by
  unfold gapBelow
  split <;> decide

theorem contains_of_between {s : Span} {n : Nat} (above : s.low < n) (below : n < s.high) :
    s.contains n = true := by
  unfold contains
  split
  · simp [above.le, below.le]
  · simp [above, below]

theorem bounds_of_contains {s : Span} {n : Nat} (inside : s.contains n = true) :
    s.low ≤ n ∧ n ≤ s.high ∧ (s.closed = false → s.low < n ∧ n < s.high) := by
  unfold contains at inside
  split at inside
  · rename_i closed
    simp only [Bool.and_eq_true, decide_eq_true_eq] at inside
    exact ⟨inside.1, inside.2, fun other => by rw [closed] at other; cases other⟩
  · simp only [Bool.and_eq_true, decide_eq_true_eq] at inside
    exact ⟨inside.1.le, inside.2.le, fun _ => inside⟩

theorem low_lt_value (positive : 0 < significand) :
    (ofFinite significand exponent).low < (ofFinite significand exponent).value := by
  have gap := gapBelow_bounds significand exponent
  rw [ofFinite_low, ofFinite_value]
  exact Nat.mul_lt_mul_of_pos_right (by omega) (quarter_pos exponent)

theorem value_lt_high :
    (ofFinite significand exponent).value < (ofFinite significand exponent).high := by
  rw [ofFinite_value, ofFinite_high]
  exact Nat.mul_lt_mul_of_pos_right (by omega) (quarter_pos exponent)

theorem contains_value (exponent : Int) (positive : 0 < significand) :
    (ofFinite significand exponent).contains (ofFinite significand exponent).value = true :=
  contains_of_between (low_lt_value positive) value_lt_high

end

/-! ## Spans of different floats -/

section
variable {significand other : Nat} {exponent : Int} {n : Nat}

theorem not_contains_both_of_lt (canonical : Canonical significand exponent)
    (less : significand < other)
    (first : (ofFinite significand exponent).contains n = true)
    (second : (ofFinite other exponent).contains n = true) : False := by
  obtain ⟨-, high, strict⟩ := bounds_of_contains first
  obtain ⟨low, -, strict'⟩ := bounds_of_contains second
  have wide : gapBelow other exponent = 2 := by
    rw [gapBelow, if_neg]
    rintro ⟨rfl, normal⟩
    have bound := canonical.normal normal
    omega
  simp only [ofFinite_high, ofFinite_low, wide] at high low strict strict'
  have apart : (4 * significand + 2) * quarter exponent ≤ (4 * other - 2) * quarter exponent :=
    Nat.mul_le_mul_right _ (by omega)
  -- Only the midpoint can be in both, and one of two neighbours is odd.
  have meets : n = (4 * significand + 2) * quarter exponent := by omega
  have adjacent : other = significand + 1 := by
    have same : (4 * significand + 2) * quarter exponent = (4 * other - 2) * quarter exponent := by
      omega
    have factors := Nat.eq_of_mul_eq_mul_right (quarter_pos exponent) same
    omega
  by_cases even : significand % 2 = 0
  · have odd : (ofFinite other exponent).closed = false := by
      simp only [ofFinite, decide_eq_false_iff_not]
      omega
    exact absurd (strict' odd).1 (by omega)
  · have odd : (ofFinite significand exponent).closed = false := by
      simp only [ofFinite, decide_eq_false_iff_not]
      exact even
    exact absurd (strict odd).2 (by omega)

theorem not_contains_both_of_exponent_lt {larger : Int}
    (canonical : Canonical significand exponent) (canonical' : Canonical other larger)
    (less : exponent < larger) (first : (ofFinite significand exponent).contains n = true)
    (second : (ofFinite other larger).contains n = true) : False := by
  obtain ⟨-, high, strict⟩ := bounds_of_contains first
  obtain ⟨low, -, -⟩ := bounds_of_contains second
  rw [ofFinite_high] at high strict
  rw [ofFinite_low] at low
  have least := canonical.least
  have normal : 0x10000000000000 ≤ other := canonical'.normal (by omega)
  have doubled := two_mul_quarter_le least less
  have positive := quarter_pos exponent
  have factor : 0x3fffffffffffff ≤ 4 * other - gapBelow other larger := by
    unfold gapBelow
    split <;> omega
  have above : 0x3fffffffffffff * (2 * quarter exponent) ≤ n :=
    (Nat.mul_le_mul factor doubled).trans low
  -- The greatest significand is odd, so the midpoint above it belongs to the next binade.
  by_cases greatest : significand = 0x1fffffffffffff
  · subst greatest
    have below := (strict rfl).2
    omega
  · have bound := canonical.below
    have below : (4 * significand + 2) * quarter exponent ≤ 0x7ffffffffffffa * quarter exponent :=
      Nat.mul_le_mul_right _ (by omega)
    omega

theorem eq_of_contains {exponent' : Int} (canonical : Canonical significand exponent)
    (canonical' : Canonical other exponent')
    (first : (ofFinite significand exponent).contains n = true)
    (second : (ofFinite other exponent').contains n = true) :
    significand = other ∧ exponent = exponent' := by
  rcases lt_trichotomy exponent exponent' with less | rfl | more
  · exact (not_contains_both_of_exponent_lt canonical canonical' less first second).elim
  · rcases lt_trichotomy significand other with less | rfl | more
    · exact (not_contains_both_of_lt canonical less first second).elim
    · exact ⟨rfl, rfl⟩
    · exact (not_contains_both_of_lt canonical' more second first).elim
  · exact (not_contains_both_of_exponent_lt canonical' canonical more second first).elim

end

/-! ## Seventeen digits -/

theorem unitOf_pos (exponent : Int) : 0 < unitOf exponent := by
  apply Nat.mul_pos
  · decide +kernel
  · exact Nat.pow_pos (n := (exponent + 340).toNat) (by decide : 0 < 10)

theorem unitOf_add (exponent : Int) (least : -340 ≤ exponent) (count : Nat) :
    unitOf (exponent + count) = unitOf exponent * 10 ^ count := by
  have sum : (exponent + count + 340).toNat = (exponent + 340).toNat + count := by omega
  rw [unitOf, unitOf, sum]
  generalize Nat.pow 2 1076 = one
  rw [Nat.mul_assoc]
  exact congrArg (one * ·) (Nat.pow_add 10 _ count)

section
variable {tie : Tie} {s : Span} {exponent : Int} {d : Decimal}

theorem contains_of_onGrid? (found : s.onGrid? tie exponent = some d) :
    d.exponent = exponent ∧ s.contains (d.digits * unitOf exponent) = true := by
  simp only [onGrid?] at found
  split at found
  · rename_i upper
    cases found
    exact ⟨rfl, (Bool.and_eq_true_iff.mp upper).1⟩
  · split at found
    · rename_i lower
      cases found
      exact ⟨rfl, lower⟩
    · cases found

/-- A grid finer than the span has a point in it, next to the float. -/
theorem isSome_onGrid? (above : s.low < s.value) (below : s.value < s.high)
    (fine : unitOf exponent < s.high - s.low) : (s.onGrid? tie exponent).isSome := by
  have parts := Nat.div_add_mod' s.value (unitOf exponent)
  have left := Nat.mod_lt s.value (unitOf_pos exponent)
  have next : (s.value / unitOf exponent + 1) * unitOf exponent =
      s.value / unitOf exponent * unitOf exponent + unitOf exponent := Nat.succ_mul _ _
  have inside : s.contains (s.value / unitOf exponent * unitOf exponent) = true ∨
      s.contains ((s.value / unitOf exponent + 1) * unitOf exponent) = true := by
    by_cases lower : s.low < s.value / unitOf exponent * unitOf exponent
    · exact .inl (contains_of_between lower (by omega))
    · exact .inr (contains_of_between (by omega) (by omega))
  simp only [onGrid?]
  split
  · rfl
  · rename_i no_upper
    split
    · rfl
    · rename_i no_lower
      rcases inside with lower | upper
      · exact absurd lower no_lower
      · simp [upper, no_lower] at no_upper

end

/-- The integer part of a float in the unit `10 ^ -340`. -/
def wholeUnits (s : Span) : Nat :=
  s.value / Nat.pow 2 1076

theorem leading_eq (s : Span) : s.leading = (Decimal.width s.wholeUnits : Int) - 341 :=
  rfl

theorem unitOf_leading_le {s : Span} (whole : 0 < s.wholeUnits) : unitOf s.leading ≤ s.value := by
  have positive := Decimal.width_pos s.wholeUnits
  have place : (s.leading + 340).toNat = Decimal.width s.wholeUnits - 1 := by
    rw [leading_eq]
    omega
  have power := Decimal.pow_width_le whole
  rw [unitOf, place]
  unfold wholeUnits at power ⊢
  generalize Nat.pow 2 1076 = one at power ⊢
  exact (Nat.mul_le_mul_left one power).trans (Nat.mul_div_le _ one)

section
variable {significand : Nat} {exponent : Int}

theorem wholeUnits_ofFinite (exponent : Int) (positive : 0 < significand) :
    10 ^ 16 ≤ (ofFinite significand exponent).wholeUnits := by
  have least : 10 ^ 16 * Nat.pow 2 1076 ≤ 4 * Nat.pow 10 340 := by decide +kernel
  have quarters : Nat.pow 10 340 ≤ quarter exponent :=
    Nat.le_mul_of_pos_left _ (Nat.pow_pos (n := (exponent + 1074).toNat) (by decide : 0 < 2))
  have one : 4 * quarter exponent ≤ 4 * significand * quarter exponent :=
    Nat.mul_le_mul_right _ (by omega)
  rw [wholeUnits, Nat.le_div_iff_mul_le (by decide +kernel), ofFinite_value]
  exact least.trans ((Nat.mul_le_mul_left 4 quarters).trans one)

theorem leading_ofFinite (exponent : Int) (positive : 0 < significand) :
    -324 ≤ (ofFinite significand exponent).leading := by
  have large := wholeUnits_ofFinite exponent positive
  have wide : ¬ Decimal.width (ofFinite significand exponent).wholeUnits ≤ 16 := by
    rw [Decimal.width_le_iff (by decide)]
    exact Nat.not_lt.mpr large
  rw [leading_eq]
  omega

theorem fine_ofFinite (canonical : Canonical significand exponent) (positive : 0 < significand) :
    unitOf ((ofFinite significand exponent).leading - 16) <
      (ofFinite significand exponent).high - (ofFinite significand exponent).low := by
  have least := leading_ofFinite exponent positive
  have large := wholeUnits_ofFinite exponent positive
  have first := unitOf_leading_le (s := ofFinite significand exponent) (by omega)
  have steps := unitOf_add ((ofFinite significand exponent).leading - 16) (by omega) 16
  rw [Nat.cast_ofNat, Int.sub_add_cancel] at steps
  rw [steps, ofFinite_value] at first
  have width : (ofFinite significand exponent).high - (ofFinite significand exponent).low =
      (2 + gapBelow significand exponent) * quarter exponent := by
    have gap := gapBelow_bounds significand exponent
    rw [ofFinite_high, ofFinite_low, ← Nat.sub_mul]
    congr 1
    omega
  have quarters := quarter_pos exponent
  rw [width, gapBelow]
  generalize unitOf ((ofFinite significand exponent).leading - 16) = step at first ⊢
  split
  · rename_i power
    rw [power.1] at first
    omega
  · have bound : 4 * significand * quarter exponent ≤ 0x80000000000000 * quarter exponent :=
      Nat.mul_le_mul_right _ (by have := canonical.below; omega)
    omega

theorem exists_grid_of_shortest (tie : Tie) (canonical : Canonical significand exponent)
    (positive : 0 < significand) : ∃ grid : Decimal,
      (ofFinite significand exponent).shortest tie = grid.reduce ∧ -340 ≤ grid.exponent ∧
        (ofFinite significand exponent).contains (grid.digits * unitOf grid.exponent) = true := by
  have least := leading_ofFinite exponent positive
  let onDigits (count : Nat) :=
    (ofFinite significand exponent).onGrid? tie ((ofFinite significand exponent).leading - count)
  have enough : ((List.range 17).findSome? onDigits).isSome := by
    rw [List.findSome?_isSome_iff]
    refine ⟨16, by simp, ?_⟩
    exact isSome_onGrid? (low_lt_value positive) value_lt_high (fine_ofFinite canonical positive)
  obtain ⟨grid, found⟩ := Option.isSome_iff_exists.mp enough
  obtain ⟨count, member, here⟩ := List.exists_of_findSome?_eq_some found
  obtain ⟨place, inside⟩ := contains_of_onGrid? here
  have few := List.mem_range.mp member
  refine ⟨grid, ?_, by omega, by rwa [place]⟩
  exact congrArg (fun grid : Option Decimal => (grid.getD _).reduce) found

end

theorem cast_unitOf {exponent : Int} (least : -340 ≤ exponent) :
    (unitOf exponent : ℚ) = 10 ^ exponent * unitOf 0 := by
  by_cases whole : 0 ≤ exponent
  · have steps := unitOf_add 0 (by decide) exponent.toNat
    rw [Int.zero_add, Int.toNat_of_nonneg whole] at steps
    rw [steps, Nat.cast_mul, Nat.cast_pow, Nat.cast_ofNat, ← zpow_natCast,
      Int.toNat_of_nonneg whole, mul_comm]
  · have steps := unitOf_add exponent least (-exponent).toNat
    have place : ((-exponent).toNat : Int) = -exponent := Int.toNat_of_nonneg (by omega)
    have cancels : (10 : ℚ) ^ exponent ≠ 0 := zpow_ne_zero _ (by norm_num)
    rw [place, Int.add_right_neg] at steps
    rw [steps, Nat.cast_mul, Nat.cast_pow, Nat.cast_ofNat, ← zpow_natCast, place, zpow_neg]
    field_simp

end Span

/-! ## Reading back -/

/-- The numbers that read back as a float. -/
def ReadsBack (significand : Nat) (exponent : Int) (number : ℚ) : Prop :=
  ∃ n : Nat, (n : ℚ) = number * Span.unitOf 0 ∧
    (Span.ofFinite significand exponent).contains n = true

section
variable {significand other : Nat} {exponent exponent' : Int} {number : ℚ}

theorem eq_of_readsBack (canonical : Canonical significand exponent)
    (canonical' : Canonical other exponent') (first : ReadsBack significand exponent number)
    (second : ReadsBack other exponent' number) :
    significand = other ∧ exponent = exponent' := by
  obtain ⟨n, units, inside⟩ := first
  obtain ⟨n', units', inside'⟩ := second
  have same : n = n' := Nat.cast_injective (units.trans units'.symm)
  subst same
  exact Span.eq_of_contains canonical canonical' inside inside'

theorem ne_zero_of_readsBack (positive : 0 < significand)
    (reads : ReadsBack significand exponent number) : number ≠ 0 := by
  rintro rfl
  obtain ⟨n, units, inside⟩ := reads
  rw [zero_mul, Nat.cast_eq_zero] at units
  subst units
  have low := (Span.bounds_of_contains inside).1
  have gap := Span.gapBelow_bounds significand exponent
  have below : 0 < (Span.ofFinite significand exponent).low := by
    rw [Span.ofFinite_low]
    exact Nat.mul_pos (by omega) (Span.quarter_pos exponent)
  omega

theorem readsBack_shortest (tie : Tie) (canonical : Canonical significand exponent)
    (positive : 0 < significand) :
    ReadsBack significand exponent (shortest tie significand exponent).value := by
  obtain ⟨grid, same, least, inside⟩ := Span.exists_grid_of_shortest tie canonical positive
  refine ⟨_, ?_, inside⟩
  rw [shortest, if_neg positive.ne', same, Decimal.value_reduce, Nat.cast_mul,
    Span.cast_unitOf least, Decimal.value, mul_assoc]

theorem value_shortest_zero (tie : Tie) (exponent : Int) : (shortest tie 0 exponent).value = 0 := by
  simp [shortest, Decimal.value]

/-- The shortest digits tell the float. -/
theorem shortest_inj {tie : Tie} (canonical : Canonical significand exponent)
    (canonical' : Canonical other exponent')
    (same : (shortest tie significand exponent).value = (shortest tie other exponent').value) :
    significand = other ∧ exponent = exponent' := by
  rcases Nat.eq_zero_or_pos significand with rfl | positive
  · rcases Nat.eq_zero_or_pos other with rfl | positive'
    · have least := canonical.least
      have normal := canonical.normal
      have least' := canonical'.least
      have normal' := canonical'.normal
      omega
    · rw [value_shortest_zero] at same
      exact (ne_zero_of_readsBack positive' (readsBack_shortest tie canonical' positive')
        same.symm).elim
  · have reads := readsBack_shortest tie canonical positive
    rcases Nat.eq_zero_or_pos other with rfl | positive'
    · rw [same, value_shortest_zero] at reads
      exact (ne_zero_of_readsBack positive reads rfl).elim
    · rw [same] at reads
      exact eq_of_readsBack canonical canonical' reads
        (readsBack_shortest tie canonical' positive')

/-- The number of `2 ^ -1074` in one. -/
def unitCount : Nat :=
  Nat.pow 2 1074

theorem unitCount_pos : 0 < unitCount := by
  decide +kernel

theorem unit_eq : unit = unitCount := by
  unfold unit unitCount
  exact rfl

theorem two_pow_mul_unitCount (count : Nat) :
    Nat.pow 2 (count + 1074) = Nat.pow 2 count * unitCount := by
  unfold unitCount
  generalize 1074 = places
  exact Nat.pow_add 2 count places

theorem unitCount_eq_mul {first second : Nat} (split : first + second = 1074) :
    unitCount = Nat.pow 2 first * Nat.pow 2 second := by
  unfold unitCount
  rw [← split]
  exact Nat.pow_add 2 first second

theorem bounds_of_readsBack_whole {whole : Nat} (reads : ReadsBack significand exponent whole) :
    (4 * significand - 2) * Nat.pow 2 (exponent + 1074).toNat ≤ whole * (4 * unitCount) ∧
      whole * (4 * unitCount) ≤
        (4 * significand + 2) * Nat.pow 2 (exponent + 1074).toNat := by
  obtain ⟨n, units, inside⟩ := reads
  rw [← Nat.cast_mul, Nat.cast_inj] at units
  obtain ⟨low, high, -⟩ := Span.bounds_of_contains inside
  have gap := Span.gapBelow_bounds significand exponent
  have wider : (4 * significand - 2) * Span.quarter exponent ≤
      (Span.ofFinite significand exponent).low := by
    rw [Span.ofFinite_low]
    exact Nat.mul_le_mul_right _ (by omega)
  have unit : Span.unitOf 0 = 4 * unitCount * Nat.pow 10 340 := by decide +kernel
  have ten : 0 < Nat.pow 10 340 := by decide +kernel
  rw [Span.ofFinite_high] at high
  rw [units, unit] at low high
  unfold Span.quarter at wider high
  generalize Nat.pow 10 340 = scale at ten low high wider
  generalize 4 * unitCount = four at low high ⊢
  simp only [← Nat.mul_assoc] at wider low high
  exact ⟨Nat.le_of_mul_le_mul_right (wider.trans low) ten, Nat.le_of_mul_le_mul_right high ten⟩

/-- A float that a whole number of up to 16 digits reads back as is a whole number itself, well
below the bounds of 64 bits. -/
theorem whole_of_readsBack (canonical : Canonical significand exponent)
    (positive : 0 < significand) {whole : Nat} (short : whole < 10 ^ 16)
    (reads : ReadsBack significand exponent whole) :
    ∃ q < 2 * 10 ^ 16, significand * Nat.pow 2 (exponent + 1074).toNat = q * unitCount := by
  obtain ⟨low, high⟩ := bounds_of_readsBack_whole reads
  have least := canonical.least
  by_cases coarse : 0 < exponent
  · have normal := canonical.normal (by omega)
    have places : (exponent + 1074).toNat = exponent.toNat + 1074 := by omega
    rw [places, two_pow_mul_unitCount] at low ⊢
    generalize Nat.pow 2 exponent.toNat = step at low ⊢
    rw [← Nat.mul_assoc, ← Nat.mul_assoc] at low
    have bound := Nat.le_of_mul_le_mul_right low unitCount_pos
    have double : 2 * significand * step ≤ (4 * significand - 2) * step :=
      Nat.mul_le_mul_right _ (by omega)
    rw [Nat.mul_assoc] at double
    exact ⟨significand * step, by omega, (Nat.mul_assoc _ _ _).symm⟩
  · have parts : unitCount = Nat.pow 2 (-exponent).toNat * Nat.pow 2 (exponent + 1074).toNat :=
      unitCount_eq_mul (by omega)
    have positive : 0 < Nat.pow 2 (exponent + 1074).toNat :=
      Nat.pow_pos (n := (exponent + 1074).toNat) (by decide : 0 < 2)
    generalize Nat.pow 2 (exponent + 1074).toNat = unit at parts positive low high ⊢
    generalize Nat.pow 2 (-exponent).toNat = step at parts
    have regroup : whole * (4 * unitCount) = 4 * (whole * step) * unit := by
      rw [parts, Nat.mul_left_comm, ← Nat.mul_assoc whole, Nat.mul_assoc 4]
    rw [regroup] at low high
    have above := Nat.le_of_mul_le_mul_right low positive
    have below := Nat.le_of_mul_le_mul_right high positive
    have same : significand = whole * step := by omega
    refine ⟨whole, by omega, ?_⟩
    rw [same, parts, Nat.mul_assoc]

end

end RowQuery.Binary64
