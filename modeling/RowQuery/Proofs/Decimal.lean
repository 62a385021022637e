import Mathlib.Algebra.Field.Rat
import Mathlib.Algebra.GroupWithZero.Basic
import Mathlib.Tactic.FieldSimp
import RowQuery.Decimal.Numeral

/-!
# Decimals and their texts

Every layout of a decimal is a numeral, and reading it gives a decimal of the same value
(`decimal?_chars`). A text in digits alone is that of a whole number (`whole_of_digits`).
-/

namespace RowQuery

namespace Numeral

open Decimal (digitChars)

theorem digitsValue_digitChars (n : Nat) : digitsValue 0 (digitChars n) = n :=
  Nat.ofDigitChars_ten_toDigits

theorem digitsValue_append (before : Nat) (first second : List Char) :
    digitsValue before (first ++ second) = digitsValue (digitsValue before first) second :=
  List.foldl_append

theorem digitsValue_zeros (before count : Nat) :
    digitsValue before (List.replicate count '0') = before * 10 ^ count := by
  rw [Nat.mul_comm]
  exact Nat.ofDigitChars_replicate_zero

theorem isDigit_of_mem_digitChars {n : Nat} {c : Char} (member : c ∈ digitChars n) :
    c.isDigit = true :=
  Nat.isDigit_of_mem_toDigits (by decide) (by decide) member

theorem isDigit_of_mem_zeros {count : Nat} {c : Char} (member : c ∈ List.replicate count '0') :
    c.isDigit = true := by
  rw [List.eq_of_mem_replicate member]
  rfl

theorem digitChars_ne_nil (n : Nat) : digitChars n ≠ [] :=
  Nat.toDigits_ne_nil

/-! ## Reading the parts of a numeral -/

variable {tail : List Char} {exponent : Int}

theorem sign_of_digits {digits : List Char} (all : ∀ c ∈ digits, c.isDigit = true) :
    sign digits = (false, digits) := by
  unfold sign
  split
  · cases all '-' List.mem_cons_self
  · cases all '+' List.mem_cons_self
  · rfl

theorem integer?_of_digits {digits : List Char} (some_digit : digits ≠ [])
    (all : ∀ c ∈ digits, c.isDigit = true) :
    integer? digits = some ((digitsValue 0 digits : Nat) : Int) := by
  have read : digits ≠ [] ∧ digits.all Char.isDigit = true := ⟨some_digit, List.all_eq_true.mpr all⟩
  simp [integer?, sign_of_digits all, read]

theorem integer?_of_minus {digits : List Char} (some_digit : digits ≠ [])
    (all : ∀ c ∈ digits, c.isDigit = true) :
    integer? ('-' :: digits) = some (-((digitsValue 0 digits : Nat) : Int)) := by
  have read : digits ≠ [] ∧ digits.all Char.isDigit = true := ⟨some_digit, List.all_eq_true.mpr all⟩
  simp [integer?, sign, read]

theorem integer?_of_plus {digits : List Char} (all : ∀ c ∈ digits, c.isDigit = true) :
    integer? ('+' :: digits) = integer? digits := by
  rw [integer?, integer?, sign_of_digits all]
  rfl

theorem toList_toString (n : Int) : (toString n).toList =
    if n < 0 then '-' :: digitChars n.natAbs else digitChars n.natAbs := by
  rw [Int.toString_eq_repr, Int.repr_eq_if]
  by_cases negative : n < 0
  · have magnitude : (-n).toNat = n.natAbs := by omega
    rw [if_neg (by omega), if_pos negative, String.toList_append, Nat.toList_repr, magnitude]
    rfl
  · have magnitude : n.toNat = n.natAbs := by omega
    rw [if_pos (by omega), if_neg negative, Nat.toList_repr, magnitude]
    rfl

theorem sign_toString (n : Int) :
    sign (toString n).toList = (decide (n < 0), digitChars n.natAbs) := by
  rw [toList_toString]
  by_cases negative : n < 0
  · simp [negative, sign]
  · rw [if_neg negative, sign_of_digits fun c => isDigit_of_mem_digitChars]
    simp [negative]

/-- The text of an integer reads back as it. -/
theorem integer?_toString (n : Int) : integer? (toString n).toList = some n := by
  have all : ∀ c ∈ digitChars n.natAbs, c.isDigit = true := fun c => isDigit_of_mem_digitChars
  have some_digit := digitChars_ne_nil n.natAbs
  rw [toList_toString]
  split
  · rw [integer?_of_minus some_digit all, digitsValue_digitChars, Option.some_inj]
    omega
  · rw [integer?_of_digits some_digit all, digitsValue_digitChars, Option.some_inj]
    omega

theorem toString_eq_iff {m n : Int} : toString m = toString n ↔ m = n := by
  constructor
  · intro same
    have read := integer?_toString m
    rw [same, integer?_toString] at read
    exact (Option.some.inj read).symm
  · rintro rfl
    rfl

theorem exponent?_exponentChars (signs : Bool) (exponent : Int) :
    exponent? (Decimal.exponentChars signs exponent) = some exponent := by
  have all : ∀ c ∈ digitChars exponent.natAbs, c.isDigit = true :=
    fun c => isDigit_of_mem_digitChars
  have unsigned := integer?_of_digits (digitChars_ne_nil exponent.natAbs) all
  rw [digitsValue_digitChars] at unsigned
  rw [Decimal.exponentChars, List.cons_append, exponent?, if_pos (by simp)]
  by_cases negative : exponent < 0
  · rw [if_pos negative, List.singleton_append,
      integer?_of_minus (digitChars_ne_nil _) all, digitsValue_digitChars, Option.some_inj]
    omega
  · have here : ((exponent.natAbs : Nat) : Int) = exponent := by omega
    rw [here] at unsigned
    cases signs
    · simpa [negative] using unsigned
    · rw [if_neg negative, if_pos rfl, List.singleton_append, integer?_of_plus all, unsigned]

theorem tail_of_exponent? (read : exponent? tail = some exponent) :
    tail.takeWhile Char.isDigit = [] ∧ tail.dropWhile Char.isDigit = tail ∧
      ∀ rest, tail ≠ '.' :: rest := by
  cases tail with
  | nil => simp
  | cons mark rest =>
      have marked : mark = 'e' ∨ mark = 'E' := by
        rw [exponent?] at read
        split at read
        · rename_i marked
          simpa using marked
        · cases read
      rcases marked with rfl | rfl <;> simp [Char.isDigit]

variable {whole : List Char} (places : List Char)

theorem decimal?_whole (some_digit : whole ≠ []) (all : ∀ c ∈ whole, c.isDigit = true)
    (read : exponent? tail = some exponent) :
    decimal? (whole ++ tail) = some ⟨digitsValue 0 whole, exponent⟩ := by
  obtain ⟨none_left, same, no_point⟩ := tail_of_exponent? read
  have taken : (whole ++ tail).takeWhile Char.isDigit = whole := by
    rw [List.takeWhile_append_of_pos all, none_left, List.append_nil]
  have dropped : (whole ++ tail).dropWhile Char.isDigit = tail := by
    rw [List.dropWhile_append_of_pos all, same]
  rw [decimal?, taken, dropped]
  cases tail with
  | nil => simp [some_digit, read, digitsValue]
  | cons mark rest => simp [some_digit, read, digitsValue]

theorem decimal?_of_sign {mark : Char} (marked : mark = '-' ∨ mark = '+') (rest : List Char) :
    decimal? (mark :: rest) = none := by
  rcases marked with rfl | rfl <;> simp [decimal?, Char.isDigit]

theorem decimal?_point (some_digit : whole ++ places ≠ []) (all : ∀ c ∈ whole, c.isDigit = true)
    (others : ∀ c ∈ places, c.isDigit = true) (read : exponent? tail = some exponent) :
    decimal? (whole ++ '.' :: (places ++ tail)) =
      some ⟨digitsValue 0 (whole ++ places), exponent - places.length⟩ := by
  obtain ⟨none_left, same, -⟩ := tail_of_exponent? read
  have taken : (whole ++ '.' :: (places ++ tail)).takeWhile Char.isDigit = whole := by
    rw [List.takeWhile_append_of_pos all]
    simp [Char.isDigit]
  have dropped : (whole ++ '.' :: (places ++ tail)).dropWhile Char.isDigit =
      '.' :: (places ++ tail) := by
    rw [List.dropWhile_append_of_pos all]
    simp [Char.isDigit]
  have after : (places ++ tail).takeWhile Char.isDigit = places ∧
      (places ++ tail).dropWhile Char.isDigit = tail := by
    rw [List.takeWhile_append_of_pos others, List.dropWhile_append_of_pos others, none_left, same]
    simp
  have some_digit : ¬ (whole = [] ∧ places = []) := by simpa using some_digit
  rw [decimal?, taken, dropped]
  simp [after, some_digit, read, digitsValue_append]

end Numeral

namespace Decimal

open Numeral

/-- The number that a decimal stands for. -/
def value (d : Decimal) : ℚ :=
  d.digits * 10 ^ d.exponent

theorem value_shift (digits : Nat) (exponent : Int) (count : Nat) :
    value ⟨digits * 10 ^ count, exponent - count⟩ = value ⟨digits, exponent⟩ := by
  have ten : (10 : ℚ) ≠ 0 := by norm_num
  simp only [value]
  rw [zpow_sub₀ ten, zpow_natCast, Nat.cast_mul, Nat.cast_pow, Nat.cast_ofNat]
  field_simp

theorem value_reduce (d : Decimal) : d.reduce.value = d.value := by
  induction d using reduce.induct with
  | case1 d ends ih =>
      rw [reduce, dif_pos ends, ih]
      have whole : d.digits / 10 * 10 ^ 1 = d.digits := by omega
      rw [← value_shift _ _ 1, whole]
      simp
  | case2 d ends => rw [reduce, dif_neg ends]

theorem value_digits_of_whole {d : Decimal} (whole : 0 ≤ d.exponent) :
    value ⟨d.digits * 10 ^ d.exponent.toNat, 0⟩ = d.value := by
  have shifted := value_shift d.digits d.exponent d.exponent.toNat
  rwa [show d.exponent - d.exponent.toNat = 0 by omega] at shifted

theorem value_of_whole {d : Decimal} (whole : 0 ≤ d.exponent) :
    d.value = (d.digits * 10 ^ d.exponent.toNat : Nat) := by
  rw [← value_digits_of_whole whole]
  simp [value]

theorem width_pos (n : Nat) : 0 < width n :=
  Nat.length_toDigits_pos

theorem width_le_iff {n count : Nat} (positive : 0 < count) : width n ≤ count ↔ n < 10 ^ count :=
  Nat.length_toDigits_le_iff (by decide) positive

theorem lt_pow_width (n : Nat) : n < 10 ^ width n :=
  (width_le_iff (width_pos n)).mp le_rfl

theorem pow_width_le {n : Nat} (positive : 0 < n) : 10 ^ (width n - 1) ≤ n := by
  have some_digit := width_pos n
  by_cases single : width n = 1
  · rw [single]
    exact positive
  · have wide : ¬ width n ≤ width n - 1 := by omega
    rw [width_le_iff (by omega)] at wide
    exact Nat.le_of_not_lt wide

theorem whole_lt_of_leading {d : Decimal} {place : Nat} (whole : 0 ≤ d.exponent)
    (leading : d.leading ≤ place) : d.digits * 10 ^ d.exponent.toNat < 10 ^ (place + 1) := by
  have digits : d.digits * 10 ^ d.exponent.toNat < 10 ^ width d.digits * 10 ^ d.exponent.toNat :=
    Nat.mul_lt_mul_of_pos_right (lt_pow_width _) (Nat.pow_pos (by decide))
  rw [← Nat.pow_add] at digits
  apply digits.trans_le
  apply Nat.pow_le_pow_right (by decide)
  unfold Decimal.leading at leading
  omega

/-! ## Layouts -/

variable {layout : Layout} {d : Decimal}

theorem decimal?_scientificChars (signs : Bool) (d : Decimal) :
    decimal? (scientificChars signs d) = some d := by
  have all : ∀ c ∈ digitChars d.digits, c.isDigit = true := fun c => isDigit_of_mem_digitChars
  have number := digitsValue_digitChars d.digits
  have tail := exponent?_exponentChars signs d.leading
  have sized : d.leading = d.exponent + (digitChars d.digits).length - 1 := rfl
  rw [scientificChars]
  rcases digits : digitChars d.digits with _ | ⟨first, _ | ⟨second, others⟩⟩
  · exact (digitChars_ne_nil _ digits).elim
  · rw [digits] at all number sized
    rw [decimal?_whole (by simp) all tail, number, sized]
    simp
  · rw [digits] at all number sized
    have some_digit : [first] ++ second :: others ≠ [] := List.cons_ne_nil first _
    have read := decimal?_point (second :: others) some_digit
      (fun c here => all c (by simp_all)) (fun c there => all c (List.mem_cons_of_mem _ there)) tail
    rw [List.singleton_append, List.singleton_append, number] at read
    have place : d.leading - (second :: others).length = d.exponent := by
      rw [sized, List.length_cons (a := first)]
      omega
    rw [place] at read
    exact read

theorem decimal?_positionalChars_of_whole (keepsPoint : Bool) (whole : 0 ≤ d.exponent) :
    ∃ read, decimal? (positionalChars keepsPoint d) = some read ∧ read.value = d.value := by
  let digits := digitChars d.digits ++ List.replicate d.exponent.toNat '0'
  have some_digit : digits ≠ [] := by simp [digits, digitChars_ne_nil]
  have all : ∀ c ∈ digits, c.isDigit = true :=
    List.forall_mem_append.mpr ⟨fun c => isDigit_of_mem_digitChars, fun c => isDigit_of_mem_zeros⟩
  have number : digitsValue 0 digits = d.digits * 10 ^ d.exponent.toNat := by
    rw [digitsValue_append, digitsValue_digitChars, digitsValue_zeros]
  have shifted := value_digits_of_whole whole
  have nothing : exponent? [] = some 0 := rfl
  rw [positionalChars, if_pos whole]
  cases keepsPoint
  · refine ⟨_, decimal?_whole some_digit all nothing, ?_⟩
    rw [number, shifted]
  · refine ⟨_, decimal?_point ['0'] (by simp) all (List.forall_mem_singleton.mpr rfl) nothing, ?_⟩
    rw [digitsValue_append, number, ← shifted, ← value_shift _ 0 1]
    exact congrArg (fun digits => value ⟨digits, 0 - 1⟩) (digitsValue_zeros _ 1)

theorem decimal?_positionalChars_of_fraction (keepsPoint : Bool) (fraction : d.exponent < 0) :
    decimal? (positionalChars keepsPoint d) = some d := by
  have number := digitsValue_digitChars d.digits
  have nothing : exponent? [] = some 0 := rfl
  rw [positionalChars, if_neg (by omega)]
  by_cases inside : (-d.exponent).toNat < (digitChars d.digits).length
  · let cut := (digitChars d.digits).length - (-d.exponent).toNat
    have some_digit : (digitChars d.digits).take cut ++ (digitChars d.digits).drop cut ≠ [] := by
      rw [List.take_append_drop]
      exact digitChars_ne_nil _
    have read := decimal?_point ((digitChars d.digits).drop cut) some_digit
      (fun c here => isDigit_of_mem_digitChars (List.mem_of_mem_take here))
      (fun c here => isDigit_of_mem_digitChars (List.mem_of_mem_drop here)) nothing
    have place : (0 : Int) - ((digitChars d.digits).length - cut : Nat) = d.exponent := by omega
    rw [List.take_append_drop, number, List.append_nil, List.length_drop, place] at read
    rw [if_pos inside]
    exact read
  · let zeros := (-d.exponent).toNat - (digitChars d.digits).length
    have all : ∀ c ∈ List.replicate zeros '0' ++ digitChars d.digits, c.isDigit = true :=
      List.forall_mem_append.mpr ⟨fun c => isDigit_of_mem_zeros, fun c => isDigit_of_mem_digitChars⟩
    have read := decimal?_point _ (List.cons_ne_nil '0' _) (List.forall_mem_singleton.mpr rfl) all
      nothing
    have place : (0 : Int) - (zeros + (digitChars d.digits).length : Nat) = d.exponent := by omega
    rw [List.append_nil, ← List.append_assoc, digitsValue_append, ← List.replicate_one,
      List.replicate_append_replicate, digitsValue_zeros, Nat.zero_mul, number,
      List.length_append, List.length_replicate, place] at read
    rw [if_neg inside]
    exact read

theorem decimal?_chars (layout : Layout) (d : Decimal) :
    ∃ read, decimal? (layout.chars d) = some read ∧ read.value = d.value := by
  rw [Layout.chars]
  split
  · by_cases whole : 0 ≤ d.exponent
    · exact decimal?_positionalChars_of_whole _ whole
    · exact ⟨d, decimal?_positionalChars_of_fraction _ (by omega), rfl⟩
  · exact ⟨d, decimal?_scientificChars _ d, rfl⟩

/-- A text in digits alone shows a whole number, and not a longer one than its layout allows. -/
theorem whole_of_digits (digits : ∀ c ∈ layout.chars d, c.isDigit = true) :
    0 ≤ d.exponent ∧ d.leading ≤ layout.greatestPositional := by
  rw [Layout.chars] at digits
  split at digits
  · rename_i positional
    refine ⟨?_, positional.2⟩
    by_contra fraction
    rw [positionalChars, if_neg fraction] at digits
    have point := digits '.' (by dsimp only; split <;> simp)
    cases point
  · have mark := digits 'e' (by simp [scientificChars, exponentChars])
    cases mark

end Decimal

end RowQuery
