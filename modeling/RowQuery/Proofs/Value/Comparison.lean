import RowQuery.Fault
import RowQuery.Proofs.Value.Exactness
import RowQuery.Proofs.Value.Order

/-!
# Comparing values

Comparing two values the other way round gives the reverse, and what comes before a value comes
before or level with all that this value comes before (`compare_order`). NaN comes after all other
numbers.

Two values are level exactly if they are the same, with one exception: an integer that has no float
is level with the float it rounds to (`compare_eq_iff_same_iff`).
-/

namespace RowQuery

namespace Value

open Binary64 (Place)

variable {a b c : Value} {order : Ordering}

theorem compare_eq_ok_iff : a.compare b = .ok order ↔ a.compare? b = some order := by
  rw [compare]
  cases a.compare? b with
  | some found => simp
  | none =>
      simp only [reduceCtorEq, iff_false]
      split <;> exact nofun

theorem comparable_iff_ok : a.comparable b = true ↔ ∃ order, a.compare b = .ok order := by
  simp only [comparable, Option.isSome_iff_exists, compare_eq_ok_iff]

theorem not_comparable_iff_error :
    a.comparable b = false ↔ ∃ fault, a.compare b = .error fault := by
  rw [comparable, compare]
  cases a.compare? b with
  | some found => simp
  | none =>
      simp only [Option.isSome_none, true_iff]
      split <;> exact ⟨_, rfl⟩

theorem comparable_comm (a b : Value) : a.comparable b = b.comparable a := by
  rw [comparable, comparable, compare?_swap, Option.isSome_map]

theorem isNull_iff_kind : a.isNull = true ↔ a.kind = .null := by
  cases a <;> simp [isNull, kind]

theorem compare?_iff_swap (a b : Value) (order : Ordering) :
    a.compare? b = some order ↔ b.compare? a = some order.swap := by
  rw [compare?_swap a b]
  cases a.compare? b with
  | none => simp
  | some found => cases found <;> cases order <;> decide

/-- What is at most level with a value does not come after anything that the value comes before. -/
theorem compare?_of_level_of_lt (first : a.compare? b = some .lt ∨ a.compare? b = some .eq)
    (second : b.compare? c = some .lt) : a.compare? c = some .lt ∨ a.compare? c = some .eq := by
  have comparable : a.comparable b = true :=
    first.elim comparable_of_compare? comparable_of_compare?
  obtain ⟨order, compared⟩ :=
    Option.isSome_iff_exists.mp (comparable_trans comparable (comparable_of_compare? second))
  cases order with
  | lt => exact .inl compared
  | eq => exact .inr compared
  | gt =>
      have before : c.compare? a = some .lt := (compare?_iff_swap a c .gt).mp compared
      have after := (compare?_iff_swap b a .lt).mp (compare?_lt_trans second before)
      rw [after] at first
      rcases first with less | same
      · cases less
      · cases same

/-! ## NaN -/

theorem place_of_isNaN {x : Float} (nan : x.isNaN = true) : Binary64.place x = ⟨2, 0⟩ := by
  have nothing := Binary64.isNaN_iff.mp nan
  rw [Binary64.real?_eq_place] at nothing
  exact ((Binary64.stands_place x).real?_inj .nan).mp nothing

theorem gt_of_stands {p : Place} (stands : p.Stands) (number : p ≠ ⟨2, 0⟩) :
    Ord.compare ⟨2, 0⟩ p = .gt := by
  cases stands with
  | finite offset | above | below => rfl
  | nan => exact absurd rfl number

theorem compare?_float (x : FloatBits) {p : Place} (number : b.floatPlace? = some p) :
    (float x).compare? b = some (Ord.compare (Binary64.place x) p) := by
  cases b <;> cases number <;> rfl

theorem compare?_of_isNaN (left : a.IsNaN) (right : b.IsNaN) : a.compare? b = some .eq := by
  obtain ⟨x, rfl, nan⟩ := left
  obtain ⟨y, rfl, nan'⟩ := right
  rw [compare?_float x rfl, place_of_isNaN nan, place_of_isNaN nan']
  rfl

theorem compare?_of_isNaN_of_number (left : a.IsNaN) (number : b.kind.isNumeric = true)
    (right : ¬ b.IsNaN) : a.compare? b = some .gt := by
  obtain ⟨x, rfl, nan⟩ := left
  cases b with
  | integer n =>
      rw [compare?_float x rfl, place_of_isNaN nan,
        gt_of_stands (Place.stands_ofInt (Binary64.round53 n.toInt)) nofun]
  | float y =>
      rw [compare?_float x rfl, place_of_isNaN nan, gt_of_stands (Binary64.stands_place y)]
      intro nan'
      refine right ⟨y, rfl, ?_⟩
      rw [Binary64.isNaN_iff, Binary64.real?_eq_place, nan']
      rfl
  | _ => cases number

/-! ## Order -/

theorem compare_order (a b c : Value) :
    (∀ order, a.compare b = .ok order ↔ b.compare a = .ok order.swap) ∧
    ((∃ fault, a.compare b = .error fault) ↔ ∃ fault, b.compare a = .error fault) ∧
    ((∃ order, a.compare b = .ok order) ↔ a.isNull = true ∧ b.isNull = true ∨
      a.kind.isNumeric = true ∧ b.kind.isNumeric = true ∨ a.kind = b.kind) ∧
    (a.compare b = .ok .lt → b.compare c = .ok .lt → a.compare c = .ok .lt) ∧
    (a.compare b = .ok .lt ∨ a.compare b = .ok .eq → b.compare c = .ok .lt →
      a.compare c = .ok .lt ∨ a.compare c = .ok .eq) ∧
    (a.IsNaN → (b.IsNaN → a.compare b = .ok .eq) ∧
      (b.kind.isNumeric = true → ¬ b.IsNaN → a.compare b = .ok .gt)) := by
  have succeeds : (∃ order, a.compare b = .ok order) ↔ a.comparable b = true :=
    comparable_iff_ok.symm
  rw [succeeds, comparable_iff]
  simp only [compare_eq_ok_iff, isNull_iff_kind, ← not_comparable_iff_error]
  refine ⟨compare?_iff_swap a b, ?_, ?_, compare?_lt_trans, compare?_of_level_of_lt, ?_⟩
  · rw [comparable_comm]
  · constructor
    · rintro (kind | numbers)
      · exact .inr (.inr kind)
      · exact .inr (.inl numbers)
    · rintro (⟨null, null'⟩ | numbers | kind)
      · exact .inl (null.trans null'.symm)
      · exact .inr numbers
      · exact .inl kind
  · intro left
    exact ⟨compare?_of_isNaN left, compare?_of_isNaN_of_number left⟩

theorem compare_order_rounded :
    let level : Value := .integer 9007199254740993
    let float : Value := .float 9007199254740992
    let greater : Value := .integer 9007199254740995
    let nan : Value := .float (.ofFloat (0.0 / 0.0))
    level.compare float = .ok .eq ∧ float.compare greater = .ok .lt ∧
      (level.compare greater = .ok .lt ∨ level.compare greater = .ok .eq) ∧
      nan.compare greater = .ok .gt := by
  intro level float greater nan
  obtain ⟨-, -, -, -, trans, -⟩ := compare_order level float greater
  obtain ⟨-, -, -, -, -, last⟩ := compare_order nan greater greater
  have first : level.compare float = .ok .eq := compare_eq_ok_iff.mpr (by decide +kernel)
  have second : float.compare greater = .ok .lt := compare_eq_ok_iff.mpr (by decide +kernel)
  have isNaN : nan.IsNaN := ⟨_, rfl, by decide +kernel⟩
  have number : ¬ greater.IsNaN := by simp [greater, IsNaN]
  exact ⟨first, second, trans (.inr first) second, (last isNaN).2 rfl number⟩

/-! ## Level values -/

/-- An integer that is no float, and the float it is rounded to. -/
def RoundsTo (a b : Value) : Prop :=
  ∃ n x, a = .integer n ∧ b = .float x ∧ Binary64.round53 n.toInt ≠ n.toInt ∧
    Binary64.real? x = some ((Binary64.round53 n.toInt : ℝ) : EReal)

theorem not_same_of_roundsTo (rounds : a.RoundsTo b) : a.same b = false := by
  obtain ⟨n, x, rfl, rfl, rounded, real⟩ := rounds
  rw [Bool.eq_false_iff]
  intro alike
  have here := (same_of_numbers rfl rfl).mp alike
  exact rounded (Binary64.round53_of_place here.symm)

theorem compare?_integer_float_eq_iff {n : Int64} {x : FloatBits} :
    (integer n).compare? (.float x) = some .eq ↔
      (integer n).same (.float x) = true ∨ (integer n).RoundsTo (.float x) := by
  have level : (integer n).compare? (.float x) = some .eq ↔
      Place.ofInt (Binary64.round53 n.toInt) = Binary64.place x := by
    rw [compare?_iff_swap, compare?_float x rfl, Option.some_inj, Ordering.swap_eq,
      Std.LawfulEqOrd.compare_eq_iff_eq, eq_comm]
  have alike : (integer n).same (.float x) = true ↔ Place.ofInt n.toInt = Binary64.place x :=
    same_of_numbers rfl rfl
  rw [level, alike]
  constructor
  · intro here
    by_cases rounded : Binary64.round53 n.toInt = n.toInt
    · exact .inl (rounded ▸ here)
    · refine .inr ⟨n, x, rfl, rfl, rounded, ?_⟩
      rw [Binary64.real?_eq_place, ← here, Place.real?_ofInt]
  · rintro (here | ⟨m, y, same, same', -, real⟩)
    · rw [Binary64.round53_of_place here.symm, here]
    · cases same
      cases same'
      rw [Binary64.real?_eq_place, ← Place.real?_ofInt] at real
      exact (((Binary64.stands_place x).real?_inj (Place.stands_ofInt _)).mp real).symm

theorem RoundsTo.kind (rounds : a.RoundsTo b) : a.kind = .integer ∧ b.kind = .float := by
  obtain ⟨n, x, rfl, rfl, -⟩ := rounds
  exact ⟨rfl, rfl⟩

theorem RoundsTo.kind_ne (rounds : a.RoundsTo b) : a.kind ≠ b.kind := by
  rw [rounds.kind.1, rounds.kind.2]
  exact nofun

theorem not_roundsTo_of_float {x : FloatBits} : ¬ (float x).RoundsTo b :=
  fun rounds => nomatch rounds.kind.1

theorem comparable_of_same (alike : a.same b = true) : a.comparable b = true := by
  rw [comparable_iff]
  cases here : b.place? with
  | none => exact .inl (congrArg kind (eq_of_same here alike))
  | some q =>
      cases there : a.place? with
      | none => simp [same, here, there] at alike
      | some p => simp [← isSome_place?, here, there]

theorem compare?_eq_iff_same_or :
    a.compare? b = some .eq ↔ a.same b = true ∨ a.RoundsTo b ∨ b.RoundsTo a := by
  by_cases alike : a.kind = b.kind
  · have apart : ¬ (a.RoundsTo b ∨ b.RoundsTo a) := by
      rintro (rounds | rounds)
      · exact rounds.kind_ne alike
      · exact rounds.kind_ne alike.symm
    rw [compare?_eq_eq_iff alike, or_iff_left apart]
  by_cases numbers : a.kind.isNumeric = true ∧ b.kind.isNumeric = true
  · obtain ⟨number, number'⟩ := numbers
    cases a with
    | integer n =>
        cases b with
        | float x =>
            rw [compare?_integer_float_eq_iff, or_iff_left not_roundsTo_of_float]
        | integer m => exact absurd rfl alike
        | _ => cases number'
    | float x =>
        cases b with
        | integer n =>
            rw [compare?_iff_swap, same_comm, or_iff_right not_roundsTo_of_float]
            exact compare?_integer_float_eq_iff
        | float y => exact absurd rfl alike
        | _ => cases number'
    | _ => cases number
  · have unrelated : a.comparable b ≠ true := by
      rw [ne_eq, comparable_iff]
      exact not_or.mpr ⟨alike, numbers⟩
    refine iff_of_false (fun level => unrelated (comparable_of_compare? level)) ?_
    rintro (here | rounds | rounds)
    · exact unrelated (comparable_of_same here)
    · exact numbers ⟨by rw [rounds.kind.1]; rfl, by rw [rounds.kind.2]; rfl⟩
    · exact numbers ⟨by rw [rounds.kind.2]; rfl, by rw [rounds.kind.1]; rfl⟩

/-- Values that compare equal are the same values, except that an integer that is no float and the
float it is rounded to also compare equal. -/
theorem compare_eq_iff_same_iff (a b : Value) :
    (a.compare b = .ok .eq ↔ a.same b = true) ↔ ¬ (a.RoundsTo b ∨ b.RoundsTo a) := by
  rw [compare_eq_ok_iff, compare?_eq_iff_same_or]
  constructor
  · intro agree rounds
    have alike := agree.mp (.inr rounds)
    rcases rounds with rounds | rounds
    · rw [not_same_of_roundsTo rounds] at alike
      cases alike
    · rw [same_comm, not_same_of_roundsTo rounds] at alike
      cases alike
  · exact fun apart => or_iff_left apart

theorem compare_eq_of_rounded :
    (integer 9007199254740993).compare (.float 9007199254740992) = .ok .eq ∧
      (integer 9007199254740993).same (.float 9007199254740992) = false := by
  refine ⟨compare_eq_ok_iff.mpr ?_, ?_⟩ <;> decide +kernel

end Value

end RowQuery
