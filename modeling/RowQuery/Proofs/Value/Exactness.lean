import RowQuery.Proofs.Binary64.Real
import RowQuery.Proofs.FloatBits
import RowQuery.Proofs.Grouping.Ids
import RowQuery.Proofs.Value.Sameness

/-!
# Sameness is exact

Sameness of values is an equivalence, and two numbers are the same exactly if both are NaN or both
are one extended real (`same_exact`): an integer and a float are not compared after rounding.
-/

namespace RowQuery.Value

open Binary64 (Place)

def IsNaN (value : Value) : Prop :=
  ∃ x, value = .float x ∧ x.toFloat.isNaN = true

/-- The extended real that a number is. NaN and other values than numbers have none. -/
noncomputable def real? : Value → Option EReal
  | .integer n => some ((n.toInt : ℝ) : EReal)
  | .float x => Binary64.real? x
  | _ => none

section
variable {a b : Value} {p q : Place}

theorem place_stands (number : a.place? = some p) : p.Stands := by
  cases a with
  | integer n =>
      cases number
      exact Place.stands_ofInt n.toInt
  | float x =>
      cases number
      exact Binary64.stands_place x
  | _ => cases number

theorem real?_of_place (number : a.place? = some p) : a.real? = p.real? := by
  cases a with
  | integer n =>
      cases number
      exact (Place.real?_ofInt n.toInt).symm
  | float x =>
      cases number
      exact Binary64.real?_eq_place x
  | _ => cases number

theorem isNaN_float {x : FloatBits} : (float x).IsNaN ↔ x.toFloat.isNaN = true := by
  constructor
  · rintro ⟨_, ⟨⟩, nan⟩
    exact nan
  · exact fun nan => ⟨x, rfl, nan⟩

theorem isNaN_iff_real? (number : a.place? = some p) : a.IsNaN ↔ a.real? = none := by
  cases a with
  | integer n => simp [IsNaN, real?]
  | float x => rw [isNaN_float, Binary64.isNaN_iff, real?]
  | _ => cases number

theorem same_iff_real? (number : a.place? = some p) (number' : b.place? = some q) :
    a.same b = true ↔ a.real? = b.real? := by
  rw [same_of_numbers number number', real?_of_place number, real?_of_place number']
  exact ((place_stands number).real?_inj (place_stands number')).symm

theorem same_iff_isNaN_or_real? (number : a.place? = some p) (number' : b.place? = some q) :
    a.same b = true ↔
      a.IsNaN ∧ b.IsNaN ∨ ∃ r, a.real? = some r ∧ b.real? = some r := by
  rw [same_iff_real? number number', isNaN_iff_real? number, isNaN_iff_real? number']
  cases a.real? <;> simp [eq_comm]

end

/-- The integer of 64 bits that a float is, seen as an integer, is its real value. -/
theorem exactInteger?_float_iff {x : FloatBits} {n : Int} :
    (float x).exactInteger?.map Int64.toInt = some n ↔
      Binary64.real? x = some ((n : ℝ) : EReal) ∧ Integer64.Fits n := by
  rw [Option.map_eq_some_iff, Binary64.real?_eq_place, ← Place.real?_ofInt,
    (Binary64.stands_place x).real?_inj (Place.stands_ofInt n)]
  constructor
  · rintro ⟨word, exact, rfl⟩
    exact ⟨(exactInteger?_eq_some_iff rfl).mp exact, Integer64.fits_toInt word⟩
  · rintro ⟨here, fits⟩
    have word := Integer64.toInt_ofInt fits
    exact ⟨.ofInt n, (exactInteger?_eq_some_iff rfl).mpr (by rw [word, here]), word⟩

theorem same_infinity_iff {x : FloatBits} (infinite : x.toFloat.isInf = true) {a : Value} :
    (float x).same a = true ↔ a = .float x := by
  constructor
  · intro alike
    obtain ⟨negative, exact⟩ := Binary64.exact_of_isInf infinite
    have outside : (Binary64.exact x).place.region ≠ 0 := by
      rw [exact, Binary64.Exact.place]
      cases negative <;> decide
    cases a with
    | integer n =>
        have here := (same_of_numbers rfl rfl).mp alike
        exact (outside (congrArg Place.region here)).elim
    | float y =>
        have here := (same_of_numbers rfl rfl).mp alike
        have exact' := Binary64.Exact.eq_of_place_eq here outside
        have one := Binary64.eq_of_infinite exact (exact'.symm.trans exact)
        rw [FloatBits.eq_of_toFloat (Binary64.isNaN_of_isInf infinite) one]
    | _ => simp [same, place?] at alike
  · rintro rfl
    exact same_refl _

/-- Sameness is an equivalence. Two numbers are the same exactly if both are NaN or both are one
extended real: an infinity is the same as itself only, and both zeros are the integer 0. The exact
integer of a float is its real value, if that is an integer of 64 bits. -/
theorem same_exact :
    Equivalence (fun a b : Value => a.same b = true) ∧
    (∀ a b : Value, a.kind.isNumeric = true → b.kind.isNumeric = true →
      (a.same b = true ↔ a.IsNaN ∧ b.IsNaN ∨ ∃ r, a.real? = some r ∧ b.real? = some r)) ∧
    (∀ (x : FloatBits) (a : Value), x.toFloat.isInf = true →
      ((float x).same a = true ↔ a = .float x)) ∧
    ((float (.ofFloat (-0.0))).same (.float 0.0) = true ∧
      (float (.ofFloat (-0.0))).same (.integer 0) = true) ∧
    ∀ (x : FloatBits) (n : Int), (float x).exactInteger?.map Int64.toInt = some n ↔
      Binary64.real? x = some ((n : ℝ) : EReal) ∧ -2 ^ 63 ≤ n ∧ n < 2 ^ 63 := by
  refine ⟨⟨same_refl, ?_, same_trans⟩, ?_, fun x a infinite => same_infinity_iff infinite, ?_,
    fun x n => ?_⟩
  · intro a b alike
    rwa [same_comm]
  · intro a b left right
    rw [← isSome_place?, Option.isSome_iff_exists] at left right
    obtain ⟨p, number⟩ := left
    obtain ⟨q, number'⟩ := right
    exact same_iff_isNaN_or_real? number number'
  · decide +kernel
  · exact exactInteger?_float_iff

/-- The greatest integer of 64 bits, the float next to it and an infinity. -/
theorem same_exact_edges :
    let greatest : Value := .integer 9223372036854775807
    let edge : Value := .float 9223372036854775808
    let infinity : FloatBits := .ofFloat (1.0 / 0.0)
    (greatest.same edge = true ↔ greatest.IsNaN ∧ edge.IsNaN ∨
      ∃ r, greatest.real? = some r ∧ edge.real? = some r) ∧
      ((float infinity).same edge = true ↔ edge = .float infinity) := by
  intro greatest edge infinity
  obtain ⟨-, numbers, infinities, -⟩ := same_exact
  exact ⟨numbers greatest edge rfl rfl, infinities infinity edge (by decide +kernel)⟩

end RowQuery.Value
