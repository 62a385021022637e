/-!
Integers in 64 bits. Main statement: an integer has a word exactly if the word stands for it.
-/

namespace RowQuery.Integer64

/-- Whether 64 bits hold an integer. -/
def Fits (n : Int) : Prop :=
  -0x8000000000000000 ≤ n ∧ n < 0x8000000000000000

instance (n : Int) : Decidable (Fits n) := inferInstanceAs (Decidable (_ ∧ _))

/-- An integer in 64 bits, if they hold it. -/
def ofInt? (n : Int) : Option Int64 :=
  if Fits n then some (Int64.ofInt n) else none

/-- The integer of 64 bits that is nearest to an integer. -/
def nearest (n : Int) : Int64 :=
  if n < -0x8000000000000000 then Int64.minValue
  else if 0x8000000000000000 ≤ n then Int64.maxValue
  else Int64.ofInt n

theorem fits_toInt (word : Int64) : Fits word.toInt :=
  ⟨word.le_toInt, word.toInt_lt⟩

theorem toInt_ofInt {n : Int} (fits : Fits n) : (Int64.ofInt n).toInt = n :=
  Int64.toInt_ofInt_of_le fits.1 fits.2

theorem ofInt?_eq_some_iff {n : Int} {word : Int64} : ofInt? n = some word ↔ word.toInt = n := by
  unfold ofInt?
  split
  · rename_i fits
    rw [Option.some_inj]
    constructor
    · rintro rfl
      exact toInt_ofInt fits
    · rintro rfl
      exact Int64.toInt_inj.mp (toInt_ofInt fits)
  · rename_i beyond
    constructor
    · intro never
      cases never
    · rintro rfl
      exact (beyond (fits_toInt word)).elim

end RowQuery.Integer64
