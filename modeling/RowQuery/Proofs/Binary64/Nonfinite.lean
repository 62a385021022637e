import RowQuery.Proofs.Decimal.Numeral

/-!
# Infinities and NaN in arithmetic

A sum with a float that is not finite is not finite, nor is a quotient of one. The words that are
read as floats are all of this kind.
-/

namespace RowQuery.Binary64

open Float.Model (Format UnpackedFloat)

/-! ## Unpacked floats -/

section
variable {spec : Format} {left right : UnpackedFloat}

theorem isFinite_unpacked_eq_false_iff :
    left.isFinite = false ↔ left.isNaN = true ∨ left.isInf = true := by
  cases left with
  | notANumber => exact ⟨fun _ => .inl rfl, fun _ => rfl⟩
  | infinity sign => exact ⟨fun _ => .inr rfl, fun _ => rfl⟩
  | _ => exact ⟨nofun, fun special => special.elim nofun nofun⟩

theorem isFinite_pack (special : left.isFinite = false) :
    (Float.Model.pack left).isFinite = false := by
  cases left with
  | notANumber => rfl
  | infinity sign => cases sign <;> rfl
  | zero sign => cases special
  | finite sign mantissa exponent positive => cases special

theorem isFinite_unpacked_neg (special : left.isFinite = false) : left.neg.isFinite = false := by
  cases left <;> first | rfl | cases special

theorem isFinite_unpacked_add (special : left.isFinite = false ∨ right.isFinite = false) :
    (left.add spec right).isFinite = false := by
  cases left with
  | notANumber => rfl
  | infinity sign =>
      cases right with
      | infinity sign' => cases sign <;> cases sign' <;> rfl
      | _ => rfl
  | _ =>
      have infinite := special.resolve_left fun finite => by cases finite
      cases right <;> first | rfl | cases infinite

theorem isFinite_unpacked_div (special : left.isFinite = false) :
    (left.div spec right).isFinite = false := by
  cases left with
  | notANumber => rfl
  | infinity sign => cases right <;> rfl
  | _ => cases special

end

/-! ## Floats -/

variable {x y : Float}

theorem isFinite_eq_false_iff : x.isFinite = false ↔ x.isNaN = true ∨ x.isInf = true :=
  isFinite_unpacked_eq_false_iff

theorem isFinite_iff : x.isFinite = true ↔ x.isNaN = false ∧ x.isInf = false := by
  rw [← Bool.not_eq_false, isFinite_eq_false_iff, not_or, Bool.not_eq_true, Bool.not_eq_true]

theorem isFinite_neg (special : x.isFinite = false) : (-x).isFinite = false :=
  isFinite_pack (isFinite_unpacked_neg special)

theorem isFinite_add (special : x.isFinite = false ∨ y.isFinite = false) :
    (x + y).isFinite = false :=
  isFinite_pack (isFinite_unpacked_add special)

theorem isFinite_div (special : x.isFinite = false) (y : Float) : (x / y).isFinite = false :=
  isFinite_pack (isFinite_unpacked_div special)

end RowQuery.Binary64

namespace RowQuery.Numeral

theorem isFinite_of_namedFloat? {chars : List Char} {x : Float}
    (named : namedFloat? chars = some x) : x.isFinite = false := by
  rw [namedFloat?] at named
  split at named
  · cases named
    rfl
  · split at named
    · cases named
      rfl
    · cases named

/-- A word is read as an infinity or NaN, whatever its sign. -/
theorem float?_of_isFloatWord {chars : List Char} (word : IsFloatWord chars) :
    ∃ x, float? chars = some x ∧ x.isFinite = false := by
  obtain ⟨x, named⟩ := Option.isSome_iff_exists.mp (isFloatWord_iff.mp word)
  have special := isFinite_of_namedFloat? named
  simp only [float?, named, Option.some_or, Option.map_some, Option.some_inj, exists_eq_left']
  split
  · exact Binary64.isFinite_neg special
  · exact special

end RowQuery.Numeral
