import RowQuery.Proofs.Value.Exactness
import RowQuery.Value.Hash

/-!
# Values and their hashes

A set that is built on hashes takes one value for another exactly if they are the same and are not
two floats that are no number and have unlike hashes (`coincides_iff`). It is an equivalence, finer
than sameness.
-/

namespace RowQuery.Value

open Binary64 (Place)

theorem isNaN_of_place_eq {x y : Float} (here : Binary64.place x = Binary64.place y) :
    x.isNaN = y.isNaN := by
  rw [Bool.eq_iff_iff, Binary64.isNaN_iff, Binary64.isNaN_iff, Binary64.real?_eq_place, here,
    ← Binary64.real?_eq_place]

theorem isNaN_of_place_ofInt {x : Float} {n : Int} (here : Binary64.place x = Place.ofInt n) :
    x.isNaN = false := by
  rw [← Bool.not_eq_true, Binary64.isNaN_iff, Binary64.real?_eq_place, here, Place.real?_ofInt]
  exact Option.some_ne_none _

theorem hashKey_integer_float {n : Int64} {x : FloatBits}
    (here : Binary64.place x = Place.ofInt n.toInt) :
    (integer n).hashKey = (float x).hashKey := by
  have number : ¬ x.toFloat.isNaN = true := by
    rw [isNaN_of_place_ofInt here]
    decide
  rw [hashKey, hashKey, if_neg number, here, Binary64.round53_of_place here]

variable [Hashing] {a b c : Value}

/-- Two floats that are not a number, of unlike hashes. -/
def NaNsDiffer (a b : Value) : Prop :=
  ∃ x y, a = .float x ∧ b = .float y ∧ x.toFloat.isNaN = true ∧ y.toFloat.isNaN = true ∧
    Hashing.hash (.nan x) ≠ Hashing.hash (.nan y)

theorem NaNsDiffer.symm (differ : a.NaNsDiffer b) : b.NaNsDiffer a := by
  obtain ⟨x, y, rfl, rfl, nan, nan', unlike⟩ := differ
  exact ⟨y, x, rfl, rfl, nan', nan, unlike.symm⟩

theorem not_naNsDiffer_self (a : Value) : ¬ a.NaNsDiffer a := by
  rintro ⟨x, y, rfl, same, -, -, unlike⟩
  exact unlike (float.inj same ▸ rfl)

theorem NaNsDiffer.same (differ : a.NaNsDiffer b) : a.same b = true := by
  obtain ⟨x, y, rfl, rfl, nan, nan', -⟩ := differ
  rw [Binary64.isNaN_iff] at nan nan'
  exact (same_iff_real? rfl rfl).mpr (nan.trans nan'.symm)

theorem NaNsDiffer.hash_ne (differ : a.NaNsDiffer b) :
    Hashing.hash a.hashKey ≠ Hashing.hash b.hashKey := by
  obtain ⟨x, y, rfl, rfl, nan, nan', unlike⟩ := differ
  rwa [hashKey, hashKey, if_pos nan, if_pos nan']

theorem hash_floats {x y : FloatBits} (here : Binary64.place x = Binary64.place y)
    (one : ¬ (float x).NaNsDiffer (float y)) :
    Hashing.hash (float x).hashKey = Hashing.hash (float y).hashKey := by
  have kinds := isNaN_of_place_eq here
  rw [hashKey, hashKey]
  by_cases nan : y.toFloat.isNaN = true
  · rw [if_pos (kinds.trans nan), if_pos nan]
    by_contra unlike
    exact one ⟨x, y, rfl, rfl, kinds.trans nan, nan, unlike⟩
  · rw [if_neg (kinds ▸ nan), if_neg nan, here]

/-- Values that are the same have one hash, but for floats that are not a number. -/
theorem hash_eq_of_same (alike : a.same b = true) (one : ¬ a.NaNsDiffer b) :
    Hashing.hash a.hashKey = Hashing.hash b.hashKey := by
  cases a with
  | integer m =>
      cases b with
      | integer n =>
          have here := (same_of_numbers rfl rfl).mp alike
          rw [hashKey, hashKey, Place.ofInt_inj.mp here]
      | float y => rw [hashKey_integer_float ((same_of_numbers rfl rfl).mp alike).symm]
      | _ => cases eq_of_same rfl alike
  | float x =>
      cases b with
      | integer n => rw [hashKey_integer_float ((same_of_numbers rfl rfl).mp alike)]
      | float y => exact hash_floats ((same_of_numbers rfl rfl).mp alike) one
      | _ => cases eq_of_same rfl alike
  | _ =>
      rw [same_comm] at alike
      rw [eq_of_same rfl alike]

theorem coincides_iff : a.coincides b = true ↔ a.same b = true ∧ ¬ a.NaNsDiffer b := by
  rw [coincides, Bool.and_eq_true, decide_eq_true_eq]
  constructor
  · rintro ⟨hashes, alike⟩
    exact ⟨alike, fun differ => differ.hash_ne hashes⟩
  · rintro ⟨alike, one⟩
    exact ⟨hash_eq_of_same alike one, alike⟩

theorem same_of_coincides (one : a.coincides b = true) : a.same b = true :=
  (coincides_iff.mp one).1

theorem eq_of_coincides (other : b.place? = none) (one : a.coincides b = true) : a = b :=
  eq_of_same other (same_of_coincides one)

@[simp] theorem coincides_refl (a : Value) : a.coincides a = true := by
  simp [coincides, same_refl]

theorem coincides_comm (a b : Value) : a.coincides b = b.coincides a := by
  rw [coincides, coincides, same_comm, decide_eq_decide.mpr eq_comm]

theorem coincides_trans (first : a.coincides b = true) (second : b.coincides c = true) :
    a.coincides c = true := by
  simp only [coincides, Bool.and_eq_true, decide_eq_true_eq] at first second ⊢
  exact ⟨first.1.trans second.1, same_trans first.2 second.2⟩

theorem naNsDiffer_iff : a.NaNsDiffer b ↔ a.same b = true ∧ ¬ a.coincides b = true := by
  rw [coincides_iff]
  exact ⟨fun differ => ⟨differ.same, fun one => one.2 differ⟩,
    fun ⟨alike, apart⟩ => by_contra fun one => apart ⟨alike, one⟩⟩

instance : Decidable (a.NaNsDiffer b) := decidable_of_iff _ naNsDiffer_iff.symm

/-- What coincides with one of two such floats differs from the other. -/
theorem NaNsDiffer.of_coincides (differ : a.NaNsDiffer b) (one : c.coincides b = true) :
    a.NaNsDiffer c := by
  obtain ⟨alike, apart⟩ := naNsDiffer_iff.mp differ
  have alike' : c.same b = true := same_of_coincides one
  rw [same_comm] at alike'
  exact naNsDiffer_iff.mpr ⟨same_trans alike alike', fun met => apart (coincides_trans met one)⟩

/-- Values of which no two are floats that are not a number and have unlike hashes. -/
def OneNaN (values : List Value) : Prop :=
  ∀ a ∈ values, ∀ b ∈ values, ¬ a.NaNsDiffer b

instance (values : List Value) : Decidable (OneNaN values) :=
  inferInstanceAs (Decidable (∀ a ∈ values, ∀ b ∈ values, ¬ a.NaNsDiffer b))

end RowQuery.Value
