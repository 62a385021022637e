import RowQuery.Value.Order

/-!
# Sameness of values

Sameness is an equivalence, and only numbers can be the same without being equal.
-/

namespace RowQuery.Value

theorem same_refl (a : Value) : a.same a = true := by
  cases place : a.place? <;> simp [same, place]

theorem same_comm (a b : Value) : a.same b = b.same a := by
  cases place : a.place? <;> cases place' : b.place? <;> simp [same, place, place', eq_comm]

theorem same_trans {a b c : Value} (first : a.same b = true) (second : b.same c = true) :
    a.same c = true := by
  cases place : a.place? <;> cases place' : b.place? <;> cases place'' : c.place? <;>
    simp_all [same]

theorem eq_of_same {a b : Value} (other : b.place? = none) (alike : a.same b = true) : a = b := by
  cases place : a.place? with
  | some p => simp [same, place, other] at alike
  | none => simpa [same, place, other] using alike

theorem isSome_place? (value : Value) : value.place?.isSome = value.kind.isNumeric := by
  cases value <;> rfl

end RowQuery.Value
