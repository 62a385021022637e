import RowQuery.Formats.Standard
import RowQuery.Proofs.SelectList.DistinctCount
import RowQuery.Proofs.SelectList.Faults

/-!
# COUNT does not depend on the order of rows

Which of several equal values is remembered and which row gives its key to a group depend on the
order of rows. What COUNT gives is a number of rows or of classes of values
(`AggregateCall.number`), over all rows or over those of each group, which an order does not change
(`count_of_perm`). The classes are those of a set built on hashes, so they are those of sameness
unless there are two floats that are no number and have unlike hashes (`Value.classes_coincides`).
-/

namespace RowQuery

/-! ## Classes of values -/

namespace Value

/-- Values that are the same. -/
def sameSetoid : Setoid Value where
  r a b := a.same b = true
  iseqv := {
    refl := same_refl
    symm := fun alike => (same_comm _ _).trans alike
    trans := same_trans }

/-- Values that a set built on hashes takes for one another. -/
def coincidesSetoid [Hashing] : Setoid Value where
  r a b := a.coincides b = true
  iseqv := {
    refl := coincides_refl
    symm := fun one => (coincides_comm _ _).trans one
    trans := coincides_trans }

instance (a b : Value) : Decidable (sameSetoid a b) :=
  inferInstanceAs (Decidable (a.same b = true))

instance [Hashing] (a b : Value) : Decidable (coincidesSetoid a b) :=
  inferInstanceAs (Decidable (a.coincides b = true))

section
variable (alike : Setoid Value) [∀ a b, Decidable (alike a b)]

instance : DecidableEq (Quotient alike) :=
  @Quotient.decidableEq Value alike fun a b => inferInstanceAs (Decidable (alike a b))

/-- The number of classes of values. -/
def classes (values : List Value) : Nat :=
  (values.map (Quotient.mk alike)).toFinset.card

theorem classes_of_perm {values values' : List Value} (perm : values.Perm values') :
    classes alike values = classes alike values' := by
  rw [classes, classes, List.toFinset_eq_of_perm _ _ (perm.map _)]

end

/-- A set that is built on hashes has at least as many classes as there are by sameness. It has just
as many exactly if no two of the values are floats that are no number and have unlike hashes. -/
theorem classes_coincides [Hashing] (values : List Value) :
    classes sameSetoid values ≤ classes coincidesSetoid values ∧
      (classes coincidesSetoid values = classes sameSetoid values ↔ OneNaN values) := by
  let merge : Quotient coincidesSetoid → Quotient sameSetoid :=
    Quotient.map' id fun _ _ => same_of_coincides
  have merged : (values.map (Quotient.mk sameSetoid)).toFinset =
      (values.map (Quotient.mk coincidesSetoid)).toFinset.image merge := by
    ext class_
    simp only [List.mem_toFinset, List.mem_map, Finset.mem_image, exists_exists_and_eq_and]
    rfl
  rw [classes, classes, merged]
  refine ⟨Finset.card_image_le, eq_comm.trans (Finset.card_image_iff.trans ?_)⟩
  constructor
  · intro injective a left b right differ
    have known {c : Value} (member : c ∈ values) : Quotient.mk coincidesSetoid c ∈
        (values.map (Quotient.mk coincidesSetoid)).toFinset := by
      rw [List.mem_toFinset]
      exact List.mem_map_of_mem member
    have met := injective (known left) (known right) (Quotient.sound differ.same)
    exact (naNsDiffer_iff.mp differ).2 (Quotient.exact met)
  · intro one class_ left class' right met
    rw [Finset.mem_coe, List.mem_toFinset, List.mem_map] at left right
    obtain ⟨a, left, rfl⟩ := left
    obtain ⟨b, right, rfl⟩ := right
    exact Quotient.sound (coincides_iff.mpr ⟨Quotient.exact met, one a left b right⟩)

end Value

theorem Seen.Of.size_eq_classes [Hashing] {values known : List Value} {seen : Seen}
    (seenOf : seen.Of values)
    (nonnull : ∀ value, value ∈ known ↔ value ∈ values ∧ value ≠ .null) :
    seen.size = Value.classes Value.coincidesSetoid known := by
  have apart : (seen.values.map (Quotient.mk Value.coincidesSetoid)).Nodup := by
    rw [List.Nodup, List.pairwise_map]
    apply seenOf.apart.imp
    intro a b other one
    cases other.symm.trans (Quotient.exact one)
  have same : (seen.values.map (Quotient.mk Value.coincidesSetoid)).toFinset =
      (known.map (Quotient.mk Value.coincidesSetoid)).toFinset := by
    ext class_
    rw [List.mem_toFinset, List.mem_toFinset, List.mem_map, List.mem_map]
    constructor
    · rintro ⟨value, member, rfl⟩
      exact ⟨value, (nonnull value).mpr (seenOf.source value member), rfl⟩
    · rintro ⟨value, member, rfl⟩
      obtain ⟨present, some⟩ := (nonnull value).mp member
      obtain ⟨earlier, there, met⟩ := seenOf.covers value present some
      exact ⟨earlier, there, Quotient.sound met⟩
  rw [Value.classes, ← same, List.toFinset_card_of_nodup apart, List.length_map, Seen.size]

/-! ## The number that COUNT gives -/

/-- The number of rows, of rows with a value in the column, or of classes of such values as a set
tells them apart. -/
def AggregateCall.number [Hashing] (call : AggregateCall) (rows : List Row) : Nat :=
  let values := rows.filterMap (Progress.operand? call)
  if call.isStar then rows.length
  else if call.distinct then Value.classes Value.coincidesSetoid values
  else values.length

theorem AggregateCall.number_of_perm [Hashing] (call : AggregateCall) {rows rows' : List Row}
    (perm : rows.Perm rows') : call.number rows = call.number rows' := by
  have values := perm.filterMap (Progress.operand? call)
  simp only [number, perm.length_eq, values.length_eq, Value.classes_of_perm _ values]

namespace Progress

variable {call : AggregateCall}

theorem add_count [Hashing] (counts : call.function = .count)
    (plain : call.isStar = true ∨ call.distinct = false) {p : Progress} {n : Nat}
    (counted : p.accumulated .count = .count n) (row : Row) :
    ∃ q, p.add call none row = (.ok (), q) ∧
      q.accumulated .count = .count (n + if call.heeds row then 1 else 0) := by
  rw [accumulated] at counted
  by_cases star : call.isStar = true
  · have heeded : call.heeds row = true := by rw [heeds_eq, star, Bool.true_or]
    rw [add, if_pos star, counts, update_none, if_pos heeded]
    refine ⟨_, rfl, ?_⟩
    rw [accumulated, Option.getD_some, Scope.addRow, counted]
    rfl
  · have tracks : call.tracksDistinct = false := by
      rw [AggregateCall.tracksDistinct, plain.resolve_left star, Bool.false_and]
    rw [add, if_neg star]
    cases operand : operand? call row with
    | none =>
        have unheeded : ¬ call.heeds row = true := by simp [heeds_eq, star, operand]
        rw [if_neg unheeded]
        exact ⟨p, rfl, counted⟩
    | some value =>
        have heeded : call.heeds row = true := by simp [heeds_eq, operand]
        have allowed : refusal? call value = none := refusal?_of_plain tracks value
        have scope : Scope.add call value (p.total.getD (.start .count)) =
            (.ok (), ⟨.count (n + 1), (p.total.getD (.start .count)).seen⟩) := by
          rw [Scope.add_of_plain tracks, Scope.pass_of_ok (by rw [counted]; rfl)]
        simp only [allowed]
        rw [counts, update_none, scope, if_pos heeded]
        exact ⟨_, rfl, rfl⟩

theorem addAll_count [Hashing] (counts : call.function = .count)
    (plain : call.isStar = true ∨ call.distinct = false) {p : Progress} {n : Nat}
    (counted : p.accumulated .count = .count n) (rows : List Row) :
    ∃ q, addAll call none rows p = (.ok (), q) ∧
      q.accumulated .count = .count (n + rows.countP call.heeds) := by
  induction rows generalizing p n with
  | nil => exact ⟨p, rfl, counted⟩
  | cons row rows ih =>
      obtain ⟨q, added, counted⟩ := add_count counts plain counted row
      obtain ⟨last, ran, total⟩ := ih counted
      refine ⟨last, ?_, ?_⟩
      · rw [addAll, added]
        exact ran
      · rw [total, List.countP_cons, Nat.add_right_comm, Nat.add_assoc]

theorem addAll_number [Hashing] (counts : call.function = .count) (rows : List Row) :
    ∃ q, addAll call none rows .start = (.ok (), q) ∧
      q.accumulated .count = .count (call.number rows) := by
  cases star : call.isStar with
  | true =>
      have all : rows.countP call.heeds = rows.length := by
        rw [List.countP_eq_length]
        intro row _
        rw [heeds_eq, star, Bool.true_or]
      have counted := addAll_count counts (.inl star) (p := .start) (n := 0) rfl rows
      rw [Nat.zero_add, all] at counted
      rwa [AggregateCall.number, if_pos star]
  | false =>
      cases distinct : call.distinct with
      | false =>
          have all : rows.countP call.heeds = (rows.filterMap (operand? call)).length := by
            rw [List.length_filterMap_eq_countP]
            exact List.countP_congr fun row _ => by rw [heeds_eq, star, Bool.false_or]
          have counted := addAll_count counts (.inr distinct) (p := .start) (n := 0) rfl rows
          rw [Nat.zero_add, all] at counted
          rw [AggregateCall.number, star, distinct]
          exact counted
      | true =>
          have counting : CountsDistinct call (Name.normalize call.column) :=
            ⟨counts, distinct, rfl, star⟩
          have started : Counted (Name.normalize call.column) [] .start :=
            ⟨.empty, rfl, Seen.of_nil⟩
          obtain ⟨q, ran, seen, scope, seenOf⟩ := started.addAll counting rows
          have nonnull (value : Value) : value ∈ rows.filterMap (operand? call) ↔
              value ∈ rows.map (fun row => Grouping.valueAt row (Name.normalize call.column)) ∧
                value ≠ .null := by
            rw [List.mem_filterMap, List.mem_map]
            simp only [operand?_eq_valueAt]
            constructor
            · rintro ⟨row, member, found⟩
              split at found
              · cases found
              · cases found
                exact ⟨⟨row, member, rfl⟩, ‹_›⟩
            · rintro ⟨⟨row, member, rfl⟩, some_value⟩
              exact ⟨row, member, if_neg some_value⟩
          refine ⟨q, ran, ?_⟩
          rw [accumulated, scope, AggregateCall.number, star, distinct,
            seenOf.size_eq_classes nonnull]
          rfl

end Progress

/-! ## Groups -/

/-- The groups that a call heeds, each with the number that COUNT gives for its rows. -/
def AggregateCall.groupNumbers [Hashing] (call : AggregateCall) (grouping : Grouping)
    (rows : List Row) : List (String × Nat) :=
  ((rows.filter call.heeds).map fun row => (grouping.keyOf row).id).eraseDups.map fun id =>
    (id, call.number (grouping.group id rows))

theorem AggregateCall.nodup_groupNumbers [Hashing] (call : AggregateCall) (grouping : Grouping)
    (rows : List Row) : ((call.groupNumbers grouping rows).map Prod.fst).Nodup := by
  rw [groupNumbers, List.map_map]
  simpa [Function.comp_def] using nodup_eraseDups _

theorem AggregateCall.groupNumbers_of_perm [Hashing] (call : AggregateCall) (grouping : Grouping)
    {rows rows' : List Row} (perm : rows.Perm rows') :
    (call.groupNumbers grouping rows).Perm (call.groupNumbers grouping rows') := by
  have numbers (id : String) :
      call.number (grouping.group id rows) = call.number (grouping.group id rows') :=
    call.number_of_perm (perm.filter _)
  have ids := (perm.filter call.heeds).map fun row => (grouping.keyOf row).id
  have groups : ((rows.filter call.heeds).map fun row => (grouping.keyOf row).id).eraseDups.Perm
      ((rows'.filter call.heeds).map fun row => (grouping.keyOf row).id).eraseDups := by
    apply (List.perm_ext_iff_of_nodup (nodup_eraseDups _) (nodup_eraseDups _)).mpr
    intro id
    rw [List.mem_eraseDups, List.mem_eraseDups, ids.mem_iff]
  simp only [groupNumbers, numbers]
  exact groups.map _

theorem AggregateCall.fault?_of_count {call : AggregateCall} (counts : call.function = .count)
    (row : Row) : call.fault? row = none := by
  rw [fault?, misfit?, counts]
  cases call.operands <;> rfl

namespace SelectList

variable {e : Expression} {call : AggregateCall}

/-- The row of a group: the key of one of its rows, and on it the number of the group. -/
def ShowsNumber (e : Expression) (grouping : Grouping) (rows : List Row) (group : String × Nat)
    (row : Row) : Prop :=
  ∃ founder ∈ grouping.group group.1 rows,
    row = (grouping.keyOf founder).row.set e.output (.integer (Int64.ofNat group.2))

theorem gives_number [Formats] [Hashing] (called : e.call? = some call)
    (counts : call.function = .count)
    (rows : List Row) : e.Gives rows (.integer (Int64.ofNat (call.number rows))) := by
  obtain ⟨q, ran, number⟩ := Progress.addAll_number counts rows
  have gives := Expression.gives_of_ran called ran
  rwa [counts, number] at gives

theorem execute_count_grouped [Formats] [Hashing] (called : e.call? = some call)
    (counts : call.function = .count)
    (fields : List String) (rows : List Row) : ∃ result : ResultSet,
      (((ofExpressions [e]).withGrouping (some (.byFields fields))).execute rows).1 = .ok result ∧
      List.Forall₂ (ShowsNumber e (.byFields fields) rows)
        (call.groupNumbers (.byFields fields) rows) result.rows := by
  have passes : firstFault? (ofExpressions [e]).expressions rows = none := by
    rw [firstFault?, List.findSome?_eq_none_iff]
    intro row _
    simp [expressions, ofExpressions, SelectItem.ofExpression, Expression.fault?, called,
      call.fault?_of_count counts]
  obtain ⟨result, succeeded⟩ : ∃ result,
      (((ofExpressions [e]).withGrouping (some (.byFields fields))).execute rows).1 = .ok result :=
    exists_execute_iff.mpr passes
  refine ⟨result, succeeded, ?_⟩
  rw [AggregateCall.groupNumbers, List.forall₂_map_left_iff]
  apply (forall₂_showsGroup_single called succeeded).imp
  rintro id row ⟨founder, first, rfl⟩
  let group := (Grouping.byFields fields).group id rows
  have found : group.find? call.heeds = some founder := by
    simpa [founder?, calls_single called] using first
  have member := List.mem_of_find?_eq_some found
  have heeded : group.any call.heeds = true :=
    List.any_eq_true.mpr ⟨founder, member, List.find?_some found⟩
  obtain ⟨q, ran, number⟩ := Progress.addAll_number counts group
  have written : (ofExpressions [e]).groupResults (.byFields fields) rows id =
      [(e.output, .integer (Int64.ofNat (call.number group)))] := by
    rw [Progress.accumulated] at number
    simp [groupResults, calls_single called, heeded, run, group, ran, counts, number,
      Accumulator.result]
  refine ⟨founder, member, ?_⟩
  rw [written]
  rfl

end SelectList

end RowQuery
