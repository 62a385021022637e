import Mathlib.Data.List.TakeWhile
import RowQuery.Proofs.Decimal

/-!
# Which texts are read as numbers

`IsNumeral` is the grammar of decimal numerals, apart from any reader. A text is read as a float
exactly if it is a numeral, or one of three words after a sign or none (`isSome_float?_iff`); an
integer is a numeral of digits alone.
-/

namespace RowQuery.Numeral

/-! ## The grammar -/

/-- Nothing, or one sign. -/
inductive OptionalSign : List Char → Prop
  | none : OptionalSign []
  | minus : OptionalSign ['-']
  | plus : OptionalSign ['+']

/-- Decimal digits, at least one. -/
structure Digits (digits : List Char) : Prop where
  nonempty : digits ≠ []
  all : ∀ c ∈ digits, c.isDigit = true

/-- Digits with at most one point before, among or after them. -/
inductive Mantissa : List Char → Prop
  | whole {digits : List Char} : Digits digits → Mantissa digits
  | point {whole places : List Char} : Digits (whole ++ places) → Mantissa (whole ++ '.' :: places)

theorem isAlpha_of_isDigit {c : Char} (digit : c.isDigit = true) : c.isAlpha = false := by
  have nine : '9'.val.toNat = 57 := rfl
  have upper : 'A'.val.toNat = 65 := rfl
  have lower : 'a'.val.toNat = 97 := rfl
  simp only [Char.isDigit, Bool.and_eq_true, decide_eq_true_eq, UInt32.le_iff_toNat_le] at digit
  unfold Char.isAlpha Char.isUpper Char.isLower
  simp only [Bool.or_eq_false_iff, Bool.and_eq_false_iff, decide_eq_false_iff_not, ge_iff_le,
    UInt32.le_iff_toNat_le]
  omega

theorem Mantissa.exists_first {mantissa : List Char} (some_digit : Mantissa mantissa) :
    ∃ c rest, mantissa = c :: rest ∧ c.isAlpha = false := by
  cases some_digit with
  | @whole digits run =>
      obtain ⟨c, rest, rfl⟩ := List.exists_cons_of_ne_nil run.nonempty
      exact ⟨c, rest, rfl, isAlpha_of_isDigit (run.all c List.mem_cons_self)⟩
  | @point whole places run => cases whole with
    | nil => exact ⟨'.', places, rfl, rfl⟩
    | cons c whole => exact ⟨c, _, rfl, isAlpha_of_isDigit (run.all c List.mem_cons_self)⟩

/-- Nothing, or the letter of an exponent, a sign or none, and digits. -/
inductive OptionalExponent : List Char → Prop
  | none : OptionalExponent []
  | marked {mark : Char} {sign digits : List Char} : mark = 'e' ∨ mark = 'E' →
      OptionalSign sign → Digits digits → OptionalExponent (mark :: (sign ++ digits))

/-- Decimal numerals. -/
inductive IsNumeral : List Char → Prop
  | intro {sign mantissa exponent : List Char} : OptionalSign sign → Mantissa mantissa →
      OptionalExponent exponent → IsNumeral (sign ++ (mantissa ++ exponent))

/-- The words for floats that no numeral writes: infinities and NaN. -/
inductive IsFloatWord : List Char → Prop
  | intro {sign letters : List Char} (word : String) : OptionalSign sign →
      word ∈ ["inf", "infinity", "nan"] → letters.map Char.toLower = word.toList →
      IsFloatWord (sign ++ letters)

/-! ## The readers -/

variable {chars digits : List Char}

theorem exists_optionalSign (chars : List Char) :
    ∃ before, OptionalSign before ∧ chars = before ++ (sign chars).2 := by
  unfold sign
  split
  · exact ⟨['-'], .minus, rfl⟩
  · exact ⟨['+'], .plus, rfl⟩
  · exact ⟨[], .none, rfl⟩

theorem sign_append {before rest : List Char} (signed : OptionalSign before)
    (unsigned : ∀ c ∈ rest.head?, c ≠ '-' ∧ c ≠ '+') : (sign (before ++ rest)).2 = rest := by
  cases signed with
  | none =>
      rw [List.nil_append]
      unfold sign
      split
      · exact absurd rfl (unsigned '-' rfl).1
      · exact absurd rfl (unsigned '+' rfl).2
      · rfl
  | minus => rfl
  | plus => rfl

/-- What follows the sign of a text decides on it, if nothing that does so starts with a sign. -/
theorem sign_iff {p : List Char → Prop}
    (unsigned : ∀ rest, p rest → ∀ c ∈ rest.head?, c ≠ '-' ∧ c ≠ '+') :
    p (sign chars).2 ↔ ∃ before rest, OptionalSign before ∧ p rest ∧ chars = before ++ rest := by
  constructor
  · intro holds
    obtain ⟨before, signed, whole⟩ := exists_optionalSign chars
    exact ⟨before, _, signed, holds, whole⟩
  · rintro ⟨before, rest, signed, holds, rfl⟩
    rwa [sign_append signed (unsigned rest holds)]

theorem Digits.unsigned (all : ∀ c ∈ digits, c.isDigit = true) :
    ∀ c ∈ digits.head?, c ≠ '-' ∧ c ≠ '+' := by
  intro c first
  have digit := all c (List.mem_of_mem_head? first)
  constructor <;> rintro rfl <;> cases digit

theorem isSome_integer?_iff : (integer? chars).isSome ↔
    ∃ before digits, OptionalSign before ∧ Digits digits ∧ chars = before ++ digits := by
  have read : (integer? chars).isSome ↔ Digits (sign chars).2 := by
    simp only [integer?, Option.isSome_ite, List.all_eq_true]
    exact ⟨fun read => ⟨read.1, read.2⟩, fun read => ⟨read.nonempty, read.all⟩⟩
  exact read.trans (sign_iff fun digits read => Digits.unsigned read.all)

theorem isSome_exponent?_iff : (exponent? chars).isSome ↔ OptionalExponent chars := by
  cases chars with
  | nil => exact iff_of_true rfl .none
  | cons mark rest =>
      have read : (exponent? (mark :: rest)).isSome ↔
          (mark = 'e' ∨ mark = 'E') ∧ (integer? rest).isSome := by
        rw [exponent?]
        split <;> simp_all
      rw [read, isSome_integer?_iff]
      constructor
      · rintro ⟨marked, before, digits, signed, some_digit, rfl⟩
        exact .marked marked signed some_digit
      · intro exponent
        cases exponent with
        | marked marked signed some_digit => exact ⟨marked, _, _, signed, some_digit, rfl⟩

theorem isSome_decimal?_of_mantissa {mantissa exponent : List Char} (some_digit : Mantissa mantissa)
    (marked : OptionalExponent exponent) : (decimal? (mantissa ++ exponent)).isSome := by
  obtain ⟨power, read⟩ := Option.isSome_iff_exists.mp (isSome_exponent?_iff.mpr marked)
  cases some_digit with
  | whole digits => rw [decimal?_whole digits.nonempty digits.all read, Option.isSome_some]
  | @point whole places digits =>
      obtain ⟨all, others⟩ := List.forall_mem_append.mp digits.all
      rw [List.append_assoc, List.cons_append, decimal?_point places digits.nonempty all others read,
        Option.isSome_some]

theorem mantissa_of_isSome_decimal? (read : (decimal? chars).isSome) :
    ∃ mantissa exponent, Mantissa mantissa ∧ OptionalExponent exponent ∧
      chars = mantissa ++ exponent := by
  have digits (chars : List Char) : ∀ c ∈ chars.takeWhile Char.isDigit, c.isDigit = true :=
    fun c => List.mem_takeWhile_imp
  have parts (chars : List Char) :
      chars = chars.takeWhile Char.isDigit ++ chars.dropWhile Char.isDigit :=
    List.takeWhile_append_dropWhile.symm
  rw [decimal?] at read
  split at read
  rename_i places afterPlaces after_whole
  split at read
  · cases read
  · rename_i some_digit
    have marked : OptionalExponent afterPlaces := by
      rw [← isSome_exponent?_iff]
      cases exponent : exponent? afterPlaces with
      | none => simp [exponent] at read
      | some _ => rfl
    split at after_whole
    · rename_i rest pointed
      cases after_whole
      have all := List.forall_mem_append.mpr ⟨digits chars, digits rest⟩
      refine ⟨_, _, .point ⟨?_, all⟩, marked, ?_⟩
      · simpa using some_digit
      · rw [List.append_assoc, List.cons_append, ← parts rest, ← pointed, ← parts chars]
    · cases after_whole
      exact ⟨_, _, .whole ⟨by simpa using some_digit, digits chars⟩, marked, parts chars⟩

theorem isSome_decimal?_iff : (decimal? chars).isSome ↔
    ∃ mantissa exponent, Mantissa mantissa ∧ OptionalExponent exponent ∧
      chars = mantissa ++ exponent := by
  constructor
  · exact mantissa_of_isSome_decimal?
  · rintro ⟨mantissa, exponent, some_digit, marked, rfl⟩
    exact isSome_decimal?_of_mantissa some_digit marked

theorem unsigned_of_isSome_decimal? (read : (decimal? chars).isSome) :
    ∀ c ∈ chars.head?, c ≠ '-' ∧ c ≠ '+' := by
  intro c first
  obtain ⟨rest, rfl⟩ : ∃ rest, chars = c :: rest := List.head?_eq_some_iff.mp first
  by_contra signed
  have marked : c = '-' ∨ c = '+' := by
    rwa [not_and_or, not_not, not_not] at signed
  rw [decimal?_of_sign marked] at read
  cases read

theorem isNumeral_iff : IsNumeral chars ↔ (decimal? (sign chars).2).isSome := by
  rw [sign_iff fun rest => unsigned_of_isSome_decimal?]
  constructor
  · intro numeral
    cases numeral with
    | intro signed some_digit marked =>
        exact ⟨_, _, signed, isSome_decimal?_of_mantissa some_digit marked, rfl⟩
  · rintro ⟨before, rest, signed, read, rfl⟩
    obtain ⟨mantissa, exponent, some_digit, marked, rfl⟩ := isSome_decimal?_iff.mp read
    exact .intro signed some_digit marked

instance : DecidablePred IsNumeral :=
  fun _ => decidable_of_iff _ isNumeral_iff.symm

theorem isSome_namedFloat?_iff : (namedFloat? chars).isSome ↔
    ∃ word ∈ ["inf", "infinity", "nan"], chars.map Char.toLower = word.toList := by
  simp only [namedFloat?, spells, Bool.or_eq_true, beq_iff_eq, List.mem_cons, List.not_mem_nil,
    or_false, exists_eq_or_imp, exists_eq_left]
  split_ifs with infinite nan
  · exact iff_of_true rfl (or_assoc.mp (.inl infinite))
  · exact iff_of_true rfl (.inr (.inr nan))
  · exact iff_of_false Bool.false_ne_true fun spelled => (or_assoc.mpr spelled).elim infinite nan

theorem isAlpha_of_isAlpha_toLower {c : Char} (letter : c.toLower.isAlpha = true) :
    c.isAlpha = true := by
  unfold Char.toLower at letter
  split at letter
  · rename_i upper
    have capital : c.isUpper = true := by
      unfold Char.isUpper
      simpa using upper
    unfold Char.isAlpha
    rw [capital, Bool.true_or]
  · exact letter

theorem isAlpha_of_isSome_namedFloat? (named : (namedFloat? chars).isSome) :
    ∀ c ∈ chars.head?, c.isAlpha = true := by
  intro c first
  obtain ⟨word, listed, spelled⟩ := isSome_namedFloat?_iff.mp named
  have letters : ∀ word ∈ ["inf", "infinity", "nan"],
      word.toList.head?.all Char.isAlpha := by decide +kernel
  have lowered := letters word listed
  rw [← spelled, List.head?_map, Option.mem_def.mp first] at lowered
  exact isAlpha_of_isAlpha_toLower lowered

theorem isFloatWord_iff : IsFloatWord chars ↔ (namedFloat? (sign chars).2).isSome := by
  have unsigned (rest : List Char) (named : (namedFloat? rest).isSome) :
      ∀ c ∈ rest.head?, c ≠ '-' ∧ c ≠ '+' := by
    intro c first
    have letter := isAlpha_of_isSome_namedFloat? named c first
    constructor <;> rintro rfl <;> cases letter
  rw [sign_iff (p := fun rest => (namedFloat? rest).isSome) unsigned]
  constructor
  · intro named
    cases named with
    | intro word signed listed spelled =>
        exact ⟨_, _, signed, isSome_namedFloat?_iff.mpr ⟨word, listed, spelled⟩, rfl⟩
  · rintro ⟨before, rest, signed, named, rfl⟩
    obtain ⟨word, listed, spelled⟩ := isSome_namedFloat?_iff.mp named
    exact .intro word signed listed spelled

instance : DecidablePred IsFloatWord :=
  fun _ => decidable_of_iff _ isFloatWord_iff.symm

/-- The texts that are read as floats. -/
theorem isSome_float?_iff : (float? chars).isSome ↔ IsNumeral chars ∨ IsFloatWord chars := by
  rw [isNumeral_iff, isFloatWord_iff]
  simp [float?, or_comm]

theorem isNumeral_of_isSome_int64? (read : (int64? chars).isSome) : IsNumeral chars := by
  have integer : (integer? chars).isSome := by
    rw [int64?] at read
    exact Option.isSome_of_isSome_bind read
  obtain ⟨before, digits, signed, some_digit, rfl⟩ := isSome_integer?_iff.mp integer
  rw [← List.append_nil digits]
  exact .intro signed (.whole some_digit) .none

/-- The letter that a word begins with is no part of a mantissa. -/
theorem not_isNumeral_of_isFloatWord (named : IsFloatWord chars) : ¬ IsNumeral chars := by
  have letter := isAlpha_of_isSome_namedFloat? (isFloatWord_iff.mp named)
  rw [isNumeral_iff, isSome_decimal?_iff]
  rintro ⟨mantissa, exponent, some_digit, -, whole⟩
  obtain ⟨c, rest, rfl, other⟩ := some_digit.exists_first
  rw [whole] at letter
  exact absurd (letter c rfl) (by rw [other]; decide)

end RowQuery.Numeral
