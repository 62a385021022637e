import RowQuery.Binary64.Text
import RowQuery.Proofs.Binary64.Span

/-!
# Floats, their places and their texts

A float is told by its text (`exact_of_text_eq`), and by its place unless that is zero
(`exact_of_place_eq`). Only a float that is an integer of 64 bits has the text of an integer
(`place_of_text_eq_toString`).
-/

namespace RowQuery.Binary64

open Numeral (decimal? sign)

/-! ## Places -/

theorem Place.integer?_eq_some_iff {p : Place} {n : Int} :
    p.integer? = some n ↔ p = Place.ofInt n := by
  have unit_pos : (0 : Int) < unit := by decide +kernel
  obtain ⟨region, offset⟩ := p
  simp only [integer?, ofInt, Place.mk.injEq]
  generalize unit = one at unit_pos
  constructor
  · intro found
    split at found
    · rename_i whole
      cases found
      exact ⟨whole.1, (Int.ediv_mul_cancel_of_emod_eq_zero whole.2).symm⟩
    · cases found
  · rintro ⟨rfl, rfl⟩
    rw [if_pos ⟨rfl, Int.mul_emod_left n one⟩, Int.mul_ediv_cancel n unit_pos.ne']

theorem Place.ofInt_inj {m n : Int} : Place.ofInt m = Place.ofInt n ↔ m = n := by
  constructor
  · intro same
    have whole : (Place.ofInt m).integer? = some m := integer?_eq_some_iff.mpr rfl
    rw [integer?_eq_some_iff.mpr same] at whole
    exact (Option.some.inj whole).symm
  · rintro rfl
    rfl

section
variable {significand other : Nat} {exponent exponent' : Int}

theorem eq_of_magnitude_eq (canonical : Canonical significand exponent)
    (canonical' : Canonical other exponent') (positive : 0 < significand) (positive' : 0 < other)
    (same : significand * Nat.pow 2 (exponent + 1074).toNat =
      other * Nat.pow 2 (exponent' + 1074).toNat) : significand = other ∧ exponent = exponent' := by
  have value (m : Nat) (e : Int) : (Span.ofFinite m e).value =
      4 * Nat.pow 10 340 * (m * Nat.pow 2 (e + 1074).toNat) := by
    rw [Span.ofFinite_value, Span.quarter]
    generalize Nat.pow 10 340 = scale
    rw [Nat.mul_comm (Nat.pow 2 _) scale, Nat.mul_assoc 4, Nat.mul_assoc 4, Nat.mul_left_comm m]
  have first := Span.contains_value exponent positive
  have second := Span.contains_value exponent' positive'
  rw [value, same, ← value other exponent'] at first
  exact Span.eq_of_contains canonical canonical' first second

theorem scaled_eq (negative : Bool) (significand : Nat) (exponent : Int) :
    scaled negative significand exponent =
      if negative then -((significand * Nat.pow 2 (exponent + 1074).toNat : Nat) : Int)
      else ((significand * Nat.pow 2 (exponent + 1074).toNat : Nat) : Int) := by
  rw [Nat.cast_mul]
  rfl

theorem eq_of_scaled_eq {negative negative' : Bool} (canonical : Canonical significand exponent)
    (canonical' : Canonical other exponent')
    (same : scaled negative significand exponent = scaled negative' other exponent')
    (nonzero : scaled negative significand exponent ≠ 0) :
    negative = negative' ∧ significand = other ∧ exponent = exponent' := by
  rw [scaled_eq, scaled_eq] at same
  rw [scaled_eq] at nonzero
  have sides (a b : Nat) (same : (if negative then -(a : Int) else a) =
      if negative' then -(b : Int) else b) (nonzero : (if negative then -(a : Int) else a) ≠ 0) :
      negative = negative' ∧ a = b ∧ 0 < a := by
    cases negative <;> cases negative' <;> simp at same nonzero ⊢ <;> omega
  obtain ⟨signs, magnitudes, positive⟩ := sides _ _ same nonzero
  have positive' := magnitudes ▸ positive
  exact ⟨signs, eq_of_magnitude_eq canonical canonical' (Nat.pos_of_mul_pos_right positive)
    (Nat.pos_of_mul_pos_right positive') magnitudes⟩

end

/-- Each of the places that no finite number has is that of one value. -/
theorem Exact.eq_of_place_eq {one two : Exact} (same : one.place = two.place)
    (outside : one.place.region ≠ 0) : one = two := by
  rcases one with _ | (_ | _) | _ <;> rcases two with _ | (_ | _) | _ <;> simp [place] at *

theorem finite_of_region_eq_zero {one : Exact} (inside : one.place.region = 0) :
    ∃ negative significand exponent, one = .finite negative significand exponent := by
  rcases one with _ | (_ | _) | ⟨negative, significand, exponent⟩
  · simp [Exact.place] at inside
  · simp [Exact.place] at inside
  · simp [Exact.place] at inside
  · exact ⟨negative, significand, exponent, rfl⟩

theorem exact_of_place_eq {x y : Float} (same : place x = place y)
    (nonzero : place x ≠ Place.ofInt 0) : exact x = exact y := by
  unfold place at same nonzero
  by_cases inside : (exact x).place.region = 0
  · obtain ⟨negative, significand, exponent, exact_x⟩ := finite_of_region_eq_zero inside
    obtain ⟨negative', other, exponent', exact_y⟩ := finite_of_region_eq_zero (same ▸ inside)
    rw [exact_x] at same nonzero
    rw [exact_y] at same
    simp only [Exact.place, Place.mk.injEq, true_and] at same
    have offset : scaled negative significand exponent ≠ 0 := by
      intro zero
      apply nonzero
      rw [Exact.place, zero, Place.ofInt, Int.zero_mul]
    obtain ⟨rfl, rfl, rfl⟩ := eq_of_scaled_eq (canonical_of_exact exact_x)
      (canonical_of_exact exact_y) same offset
    rw [exact_x, exact_y]
  · exact Exact.eq_of_place_eq same inside

/-! ## Texts -/

theorem sign_of_decimal? {chars : List Char} {d : Decimal} (read : decimal? chars = some d) :
    sign chars = (false, chars) := by
  unfold sign
  split
  · rw [Numeral.decimal?_of_sign (.inl rfl)] at read
    cases read
  · rw [Numeral.decimal?_of_sign (.inr rfl)] at read
    cases read
  · rfl

/-- Reads a sign and a decimal, all of the text. -/
def signed? (chars : List Char) : Option (Bool × Decimal) :=
  (decimal? (sign chars).2).map fun magnitude => ((sign chars).1, magnitude)

section
variable {x y : Float} {negative : Bool} {significand : Nat} {exponent : Int}

theorem sign_text (finite : exact x = .finite negative significand exponent) :
    sign (text x).toList =
      (negative, plainForm.layout.chars (shortest .away significand exponent)) := by
  let digits := plainForm.layout.chars (shortest .away significand exponent)
  have chars : (text x).toList = if negative then '-' :: digits else digits := by
    simp only [text, finite, String.toList_ofList]
    rfl
  rw [chars]
  cases negative with
  | true => rfl
  | false =>
      obtain ⟨read, here, -⟩ := Decimal.decimal?_chars plainForm.layout
        (shortest .away significand exponent)
      exact sign_of_decimal? here

theorem signed?_text (finite : exact x = .finite negative significand exponent) :
    ∃ read, signed? (text x).toList = some (negative, read) ∧
      read.value = (shortest .away significand exponent).value := by
  obtain ⟨read, here, same⟩ := Decimal.decimal?_chars plainForm.layout
    (shortest .away significand exponent)
  refine ⟨read, ?_, same⟩
  rw [signed?, sign_text finite, here]
  rfl

theorem signed?_text_of_nan (nan : exact x = .nan) : signed? (text x).toList = none := by
  simp only [text, nan]
  decide +kernel

theorem signed?_text_of_infinite (infinite : exact x = .infinite negative) :
    signed? (text x).toList = none := by
  simp only [text, infinite]
  cases negative <;> decide +kernel

theorem finite_of_signed?_text (read : (signed? (text x).toList).isSome) :
    ∃ negative significand exponent, exact x = .finite negative significand exponent := by
  cases exact_x : exact x with
  | nan =>
      rw [signed?_text_of_nan exact_x] at read
      cases read
  | infinite negative =>
      rw [signed?_text_of_infinite exact_x] at read
      cases read
  | finite negative significand exponent => exact ⟨negative, significand, exponent, rfl⟩

theorem exact_of_text_eq (same : text x = text y) : exact x = exact y := by
  by_cases read : (signed? (text x).toList).isSome
  · obtain ⟨negative, significand, exponent, exact_x⟩ := finite_of_signed?_text read
    obtain ⟨negative', other, exponent', exact_y⟩ := finite_of_signed?_text (same ▸ read)
    obtain ⟨magnitude, here, value⟩ := signed?_text exact_x
    obtain ⟨magnitude', there, value'⟩ := signed?_text exact_y
    rw [same, there, Option.some_inj, Prod.mk.injEq] at here
    obtain ⟨rfl, rfl⟩ := here
    obtain ⟨rfl, rfl⟩ := shortest_inj (canonical_of_exact exact_x)
      (canonical_of_exact exact_y) (value.symm.trans value')
    rw [exact_x, exact_y]
  · have unread (z : Float) (same : text x = text z) (negative : Bool) (significand : Nat)
        (exponent : Int) : exact z ≠ .finite negative significand exponent := by
      intro finite
      obtain ⟨magnitude, here, -⟩ := signed?_text finite
      rw [same, here] at read
      exact read rfl
    rcases exact_x : exact x with _ | (_ | _) | _ <;>
      rcases exact_y : exact y with _ | (_ | _) | _ <;>
      first
      | rfl
      | exact absurd exact_x (unread x rfl _ _ _)
      | exact absurd exact_y (unread y same _ _ _)
      | simp [text, exact_x, exact_y] at same

/-! ## Integers -/

theorem isSome_signed?_toString (n : Int) : (signed? (toString n).toList).isSome := by
  have nothing : Numeral.exponent? [] = some 0 := rfl
  have whole := Numeral.decimal?_whole (Numeral.digitChars_ne_nil n.natAbs)
    (fun c => Numeral.isDigit_of_mem_digitChars) nothing
  rw [List.append_nil] at whole
  rw [signed?, Numeral.sign_toString, whole]
  rfl

theorem magnitude_of_text_eq_toString {n : Int}
    (finite : exact x = .finite negative significand exponent) (same : text x = toString n) :
    ∃ q < 2 * 10 ^ 16, significand * Nat.pow 2 (exponent + 1074).toNat = q * unitCount := by
  have canonical := canonical_of_exact finite
  have signs := sign_text finite
  rw [same, Numeral.sign_toString, Prod.mk.injEq] at signs
  obtain ⟨-, digits⟩ := signs
  obtain ⟨whole, leading⟩ := Decimal.whole_of_digits fun c member =>
    Numeral.isDigit_of_mem_digitChars (digits ▸ member)
  have short := Decimal.whole_lt_of_leading whole leading
  rcases Nat.eq_zero_or_pos significand with rfl | positive
  · exact ⟨0, by decide, by rw [Nat.zero_mul, Nat.zero_mul]⟩
  · have reads := readsBack_shortest .away canonical positive
    rw [Decimal.value_of_whole whole] at reads
    exact whole_of_readsBack canonical positive short reads

/-- Only integers of 64 bits are shown as integers. -/
theorem place_of_text_eq_toString {n : Int} (same : text x = toString n) :
    ∃ k, Integer64.Fits k ∧ place x = Place.ofInt k := by
  have read := isSome_signed?_toString n
  rw [← same] at read
  obtain ⟨negative, significand, exponent, finite⟩ := finite_of_signed?_text read
  obtain ⟨q, bound, magnitude⟩ := magnitude_of_text_eq_toString finite same
  refine ⟨if negative then -q else q, ?_, ?_⟩
  · cases negative <;> simp [Integer64.Fits] <;> omega
  · have signed (one : Int) : (if negative then -(q * one) else q * one) =
        (if negative then -(q : Int) else q) * one := by
      cases negative <;> simp
    rw [place, finite, Exact.place, scaled_eq, magnitude, Place.ofInt, unit_eq, Nat.cast_mul,
      signed]

end

end RowQuery.Binary64
