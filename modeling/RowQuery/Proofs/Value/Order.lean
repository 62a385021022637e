import RowQuery.Proofs.Binary64.Rounding
import RowQuery.Proofs.Binary64.Text
import RowQuery.Proofs.Value.Sameness

/-!
# Order of values

Two values turned around compare the other way (`compare?_swap`), and what comes before a value that
comes before a third comes before that (`compare?_lt_trans`), also where integers are rounded to
meet floats. Values of one kind are level exactly if they are the same (`compare?_eq_eq_iff`); an
integer and a float can be level without being the same. Being comparable is an equivalence: it
means to be of one kind, or to be numbers (`comparable_iff`).
-/

namespace RowQuery

namespace Binary64.Place

instance : Std.TransOrd Place :=
  inferInstanceAs (Std.TransCmp (compareLex (compareOn Place.region) (compareOn Place.offset)))

instance : Std.LawfulEqOrd Place where
  eq_of_compare {p q} same := by
    have parts : (compare p.region q.region).then (compare p.offset q.offset) = .eq := same
    obtain ⟨region, offset⟩ := Ordering.then_eq_eq.mp parts
    have regions := Std.LawfulEqOrd.eq_of_compare region
    have offsets := Std.LawfulEqOrd.eq_of_compare offset
    cases p
    cases q
    cases regions
    cases offsets
    rfl

theorem compare_ofInt_eq_lt_iff {m n : Int} :
    compare (Place.ofInt m) (Place.ofInt n) = .lt ↔ m < n := by
  have offsets : compare (Place.ofInt m) (Place.ofInt n) = compare (m * unit) (n * unit) := rfl
  have positive : 0 < unit := unit_eq ▸ Int.natCast_pos.mpr unitCount_pos
  rw [offsets, Int.compare_eq_lt, Int.mul_lt_mul_right positive]

end Binary64.Place

namespace Timestamp

instance : Std.TransOrd Timestamp :=
  inferInstanceAs (Std.TransCmp (compareLex (compareOn seconds) (compareOn nanos)))

instance : Std.LawfulEqOrd Timestamp where
  eq_of_compare {s t} same := by
    have parts : (compare s.seconds t.seconds).then (compare s.nanos t.nanos) = .eq := same
    obtain ⟨seconds, nanos⟩ := Ordering.then_eq_eq.mp parts
    have seconds' := Std.LawfulEqOrd.eq_of_compare seconds
    have nanos' := Std.LawfulEqOrd.eq_of_compare nanos
    cases s
    cases t
    cases seconds'
    cases nanos'
    rfl

end Timestamp

namespace Value

open Binary64 (Place round53 round53_mono)

variable {a b c : Value}

theorem compare?_swap (a b : Value) : b.compare? a = (a.compare? b).map Ordering.swap := by
  cases a <;> cases b <;>
    simp only [compare?, floatPlace?, Option.map_some, Option.map_none, Option.some_inj] <;>
    first | rfl | exact Std.OrientedCmp.eq_swap

theorem exists_compare? (kind : a.kind = b.kind) : ∃ order, a.compare? b = some order := by
  cases a <;> cases b <;> first | exact ⟨_, rfl⟩ | cases kind

theorem compare?_eq_eq_iff (kind : a.kind = b.kind) :
    a.compare? b = some .eq ↔ a.same b = true := by
  cases a <;> cases b <;> simp_all [compare?, floatPlace?, same, place?, Value.kind]
  case integer => exact Place.ofInt_inj.symm
  case boolean s t => cases s <;> cases t <;> decide

/-- A number comes before another exactly if it does as a float, or if both are integers and it does
as an integer. -/
theorem compare?_eq_lt_iff {p q : Place} (left : a.floatPlace? = some p)
    (right : b.floatPlace? = some q) : a.compare? b = some .lt ↔
      compare p q = .lt ∨ ∃ m n, a = .integer m ∧ b = .integer n ∧ m.toInt < n.toInt := by
  cases a <;> cases left <;> cases b <;> cases right
  case integer m n =>
    have rounded : round53 m.toInt < round53 n.toInt → m.toInt < n.toInt := by
      intro less
      by_contra later
      exact Int.not_le.mpr less (round53_mono (Int.not_lt.mp later))
    simpa [compare?, Int.compare_eq_lt, Place.compare_ofInt_eq_lt_iff] using rounded
  all_goals simp [compare?, floatPlace?]

theorem isLE_compare_round53 {m n : Int} (less : m < n) :
    (compare (Place.ofInt (round53 m)) (Place.ofInt (round53 n))).isLE := by
  rw [← Ordering.ne_gt_iff_isLE]
  intro later
  rw [Std.OrientedCmp.gt_iff_lt, Place.compare_ofInt_eq_lt_iff] at later
  exact Int.not_le.mpr later (round53_mono (Int.le_of_lt less))

theorem compare?_lt_trans_of_floatPlace {p q r : Place} (left : a.floatPlace? = some p)
    (middle : b.floatPlace? = some q) (right : c.floatPlace? = some r)
    (first : a.compare? b = some .lt) (second : b.compare? c = some .lt) :
    a.compare? c = some .lt := by
  rw [compare?_eq_lt_iff left middle] at first
  rw [compare?_eq_lt_iff middle right] at second
  rw [compare?_eq_lt_iff left right]
  -- Integers in order may round to one place; with a float among the three values one of the two
  -- comparisons is a strict one of places.
  rcases first with first | ⟨m, n, rfl, rfl, less⟩ <;>
    rcases second with second | ⟨n', k, same, rfl, less'⟩
  · exact .inl (Std.TransCmp.lt_trans first second)
  · subst same
    cases middle
    cases right
    exact .inl (Std.TransCmp.lt_of_lt_of_isLE first (isLE_compare_round53 less'))
  · cases left
    cases middle
    exact .inl (Std.TransCmp.lt_of_isLE_of_lt (isLE_compare_round53 less) second)
  · cases same
    exact .inr ⟨m, k, rfl, rfl, Int.lt_trans less less'⟩

theorem exists_floatPlace {q : Place} {order : Ordering} (number : b.floatPlace? = some q)
    (compared : a.compare? b = some order) : ∃ p, a.floatPlace? = some p := by
  cases a with
  | integer n | float x => exact ⟨_, rfl⟩
  | null | text s | boolean s | timestamp s =>
      cases b <;> simp [compare?, floatPlace?] at number compared

theorem compare?_lt_trans (first : a.compare? b = some .lt) (second : b.compare? c = some .lt) :
    a.compare? c = some .lt := by
  have back : c.compare? b = some .gt := by rw [compare?_swap, second]; rfl
  cases b with
  | null => cases c <;> simp [compare?, floatPlace?] at second
  | integer n | float x =>
      obtain ⟨p, left⟩ := exists_floatPlace rfl first
      obtain ⟨r, right⟩ := exists_floatPlace rfl back
      exact compare?_lt_trans_of_floatPlace left rfl right first second
  | text s | boolean s | timestamp s =>
      cases a <;> simp only [compare?, floatPlace?, reduceCtorEq, Option.some_inj] at first
      cases c <;> simp only [compare?, floatPlace?, reduceCtorEq, Option.some_inj] at second
      exact congrArg some (Std.TransCmp.lt_trans first second)

theorem compare?_trans {side : Ordering} (strict : side ≠ .eq) (first : a.compare? b = some side)
    (second : b.compare? c = some side) : a.compare? c = some side := by
  cases side with
  | lt => exact compare?_lt_trans first second
  | eq => exact (strict rfl).elim
  | gt =>
      have first' : b.compare? a = some .lt := by rw [compare?_swap, first]; rfl
      have second' : c.compare? b = some .lt := by rw [compare?_swap, second]; rfl
      rw [compare?_swap, compare?_lt_trans second' first']
      rfl

theorem compare?_self_ne {side : Ordering} (strict : side ≠ .eq) (a : Value) :
    a.compare? a ≠ some side := by
  rw [(compare?_eq_eq_iff rfl).mpr a.same_refl]
  exact fun level => strict (Option.some_inj.mp level).symm

/-! ## Comparable values -/

/-- Whether two values have an order. -/
def comparable (a b : Value) : Bool :=
  (a.compare? b).isSome

theorem comparable_iff : a.comparable b = true ↔
    a.kind = b.kind ∨ a.kind.isNumeric = true ∧ b.kind.isNumeric = true := by
  cases a <;> cases b <;> simp [comparable, compare?, floatPlace?, kind, Kind.isNumeric]

theorem comparable_of_compare? {order : Ordering} (compared : a.compare? b = some order) :
    a.comparable b = true := by
  rw [comparable, compared, Option.isSome_some]

theorem comparable_self (a : Value) : a.comparable a = true :=
  comparable_iff.mpr (.inl rfl)

theorem comparable_trans (first : a.comparable b = true) (second : b.comparable c = true) :
    a.comparable c = true := by
  rw [comparable_iff] at first second ⊢
  rcases first with kind | ⟨number, number'⟩
  · rwa [kind]
  · rcases second with kind | ⟨-, number''⟩
    · exact .inr ⟨number, kind ▸ number'⟩
    · exact .inr ⟨number, number''⟩

end Value

end RowQuery
