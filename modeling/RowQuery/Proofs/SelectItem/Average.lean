import RowQuery.Proofs.SelectItem.Fault
import RowQuery.Proofs.SelectItem.Sum

/-!
# SUM and AVG in step

A SUM and an AVG of one column that are built alike refuse the same rows, come to the same groups in
the same order, and gather the same quantities from them. Either is NULL exactly if there is none, so
that AVG divides by the number of what has contributed only if something has
(`sum_and_average_in_step`).
-/

namespace RowQuery

open Grouping (alongside)

/-! ## Keys of groups -/

namespace GroupTable

/-- The keys of the groups in order. -/
def keys (table : GroupTable) : List GroupKey :=
  table.groups.map Group.key

theorem ids_eq_map_keys (table : GroupTable) : table.ids = table.keys.map GroupKey.id := by
  rw [keys, List.map_map]
  rfl

variable {β : Type} {key : GroupKey} {fresh : Scope} {change : Scope → β × Scope}

/-- What is done to scopes does not show in the keys. -/
theorem keys_update (table : GroupTable) :
    (table.update key fresh change).2.keys =
      if key.id ∈ table.keys.map GroupKey.id then table.keys else table.keys ++ [key] := by
  rw [← ids_eq_map_keys, keys, groups_update]
  exact keys_updateGroups key fresh change table.groups

end GroupTable

namespace Progress

variable {call other : AggregateCall} {grouping : Option Grouping} {p q : Progress}

theorem keys_add [Hashing] {row : Row} (admits : other.admits row = call.admits row)
    (same : q.groups.keys = p.groups.keys) :
    (q.add other grouping row).2.groups.keys = (p.add call grouping row).2.groups.keys := by
  rcases admits_cases call row with ⟨refused, kept⟩ | ⟨admitted, change, updates⟩
  · rcases admits_cases other row with ⟨-, kept'⟩ | ⟨admitted', -⟩
    · rw [kept, kept', same]
    · rw [admitted', refused] at admits
      cases admits
  · rcases admits_cases other row with ⟨refused', -⟩ | ⟨-, change', updates'⟩
    · rw [refused', admitted] at admits
      cases admits
    · rw [updates, updates']
      cases grouping with
      | none => exact same
      | some grouping =>
          rw [update_some, update_some]
          simp only [GroupTable.keys_update, same]

theorem keys_addEach [Hashing] (admits : ∀ row, other.admits row = call.admits row)
    (same : q.groups.keys = p.groups.keys) (rows : List Row) :
    (q.addEach other grouping rows).groups.keys = (p.addEach call grouping rows).groups.keys := by
  induction rows generalizing p q with
  | nil => exact same
  | cons row rows ih => exact ih (keys_add (admits row) same)

end Progress

/-! ## The same data -/

theorem Value.toOption_contribution (function other : AggregateFunction) (rule : OperandRule)
    (value : Value) :
    (value.contribution function rule).toOption = (value.contribution other rule).toOption := by
  cases rule <;> cases value <;> rfl

namespace AggregateCall

open Progress (refusal?)

variable (column : String) (distinct : Bool) (rule : OperandRule)

theorem admits_avg (row : Row) :
    admits ⟨.avg, column, distinct, rule⟩ row = admits ⟨.sum, column, distinct, rule⟩ row := by
  have refusals (value : Value) : (refusal? ⟨.avg, column, distinct, rule⟩ value).isNone =
      (refusal? ⟨.sum, column, distinct, rule⟩ value).isNone := by
    cases distinct <;> cases rule <;> cases value <;> rfl
  simp only [admits, refusals]
  rfl

theorem contributions_avg (values : List Value) :
    contributions ⟨.avg, column, distinct, rule⟩ values =
      contributions ⟨.sum, column, distinct, rule⟩ values := by
  simp only [contributions, Value.toOption_contribution .avg .sum]

/-- The value of a row that the rule of a call over numbers refuses. -/
def refused? (call : AggregateCall) (row : Row) : Option Value :=
  match call.operands with
  | .coerce => none
  | .reject => call.misfit? row

theorem fault?_eq_map_refused? (call : AggregateCall) (row : Row) :
    call.fault? row = (call.refused? row).map fun value =>
      .type (.notNumeric call.function value) := by
  rw [fault?, refused?]
  cases call.operands <;> rfl

end AggregateCall

/-! ## AVG -/

/-- The sum of quantities, each as a float. -/
def Quantity.floatSum (quantities : List Quantity) : Float :=
  quantities.foldl (fun sum quantity => sum + quantity.toFloat) 0.0

namespace Accumulator

theorem take_average (rule : OperandRule) (sum : Float) (number : Nat) (value : Value) :
    (Accumulator.average sum number).take rule value =
      (value.contribution .avg rule).toOption.join.elim (.average sum number)
        fun quantity => .average (sum + quantity.toFloat) (number + 1) := by
  rw [take, add]
  rcases value.contribution .avg rule with fault | _ | quantity <;> rfl

theorem foldl_take_average {call : AggregateCall} (averages : call.function = .avg)
    (values : List Value) :
    let quantities := call.contributions values
    values.foldl (take call.operands) (.start .avg) =
      .average (Quantity.floatSum quantities) quantities.length := by
  intro quantities
  let state (s : Float × Nat) : Accumulator := .average s.1 s.2
  let more (s : Float × Nat) (quantity : Quantity) : Float × Nat :=
    (s.1 + quantity.toFloat, s.2 + 1)
  have takes (s : Float × Nat) (value : Value) : (state s).take call.operands value =
      state ((value.contribution call.function call.operands).toOption.join.elim s (more s)) := by
    rw [take_average, averages]
    cases (value.contribution .avg call.operands).toOption.join <;> rfl
  have counted (quantities : List Quantity) (sum : Float) (number : Nat) :
      quantities.foldl more (sum, number) =
        (quantities.foldl (fun sum quantity => sum + quantity.toFloat) sum,
          number + quantities.length) := by
    induction quantities generalizing sum number with
    | nil => rfl
    | cons quantity quantities ih =>
        rw [List.foldl_cons, ih, List.foldl_cons, List.length_cons, Nat.add_assoc, Nat.add_comm 1]
  have run := foldl_take_contributions takes values (0.0, 0)
  rw [counted, Nat.zero_add] at run
  exact run

end Accumulator

namespace SelectItem

section
variable {call : AggregateCall} {item : SelectItem}

/-- An item that starts again has forgotten all that was done to it. -/
theorem reached_start [Hashing] (called : item.expression.call? = some call) :
    Reached call item.start [] :=
  (Reached.made called).withGrouping item.grouping

theorem absorb_fst_absorbEach [Hashing] (called : item.expression.call? = some call)
    (rows : List Row) (row : Row) : ((item.start.absorbEach rows).absorb row).1 =
      (call.refused? row).elim (.ok ()) fun value =>
        .error (.type (.notNumeric call.function value)) := by
  rw [((reached_start called).absorbEach rows).absorb_fst, AggregateCall.fault?_eq_map_refused?]
  cases call.refused? row <;> rfl

theorem resultFor_average [Hashing] (called : item.expression.call? = some call)
    (averages : call.function = .avg) (rows : List Row) (row : Row) :
    let quantities :=
      call.contributions (call.passedOn (call.values (alongside item.grouping row rows)))
    (item.start.absorbEach rows).resultFor call row = if quantities = [] then .null
      else .float (.ofFloat (Quantity.floatSum quantities / Float.ofNat quantities.length)) := by
  intro quantities
  have unstarred : call.isStar = false :=
    Expression.unstarred_of_call? called (by rw [averages]; rfl)
  rw [resultFor_absorbEach called unstarred, averages, Accumulator.foldl_take_average averages,
    Accumulator.result]
  simp only [List.length_eq_zero_iff]
  rfl

end

variable {sum average : SelectItem} {column : String} {distinct : Bool} {rule : OperandRule}

theorem keys_absorbEach [Hashing]
    (sums : sum.expression.call? = some ⟨.sum, column, distinct, rule⟩)
    (averages : average.expression.call? = some ⟨.avg, column, distinct, rule⟩)
    (grouping : average.grouping = sum.grouping) (rows : List Row) :
    (average.start.absorbEach rows).progress.groups.keys =
      (sum.start.absorbEach rows).progress.groups.keys := by
  have started : sum.start.expression.call? = some _ := sums
  have started' : average.start.expression.call? = some _ := averages
  rw [absorbEach_of_call started, absorbEach_of_call started']
  have same : average.start.grouping = sum.start.grouping := grouping
  rw [same]
  exact Progress.keys_addEach (AggregateCall.admits_avg column distinct rule) rfl rows

/-- Whatever a SUM and an AVG that are built alike have been through, after a start and any rows they
have met the same groups and refuse the same rows, and of each scope either both give NULL, for want
of a contribution, or neither. -/
theorem sum_and_average_in_step [Hashing]
    (sums : sum.expression.call? = some ⟨.sum, column, distinct, rule⟩)
    (averages : average.expression.call? = some ⟨.avg, column, distinct, rule⟩)
    (grouping : average.grouping = sum.grouping) (rows : List Row) :
    let call : AggregateCall := ⟨.sum, column, distinct, rule⟩
    let call' : AggregateCall := ⟨.avg, column, distinct, rule⟩
    let summed := sum.start.absorbEach rows
    let averaged := average.start.absorbEach rows
    averaged.progress.groups.keys = summed.progress.groups.keys ∧
      ∀ row,
        let quantities :=
          call.contributions (call.passedOn (call.values (alongside sum.grouping row rows)))
        (∃ refused : Option Value,
          (summed.absorb row).1 =
            refused.elim (.ok ()) (fun value => .error (.type (.notNumeric .sum value))) ∧
          (averaged.absorb row).1 =
            refused.elim (.ok ()) (fun value => .error (.type (.notNumeric .avg value)))) ∧
        summed.Writes row (summed.resultFor call row) ∧
        averaged.Writes row (averaged.resultFor call' row) ∧
        (summed.resultFor call row = .null ↔ quantities = []) ∧
        (averaged.resultFor call' row = .null ↔ quantities = []) ∧
        (quantities ≠ [] → averaged.resultFor call' row =
          .float (.ofFloat (Quantity.floatSum quantities / Float.ofNat quantities.length))) := by
  intro call call' summed averaged
  refine ⟨keys_absorbEach sums averages grouping rows, fun row => ?_⟩
  intro quantities
  have quotient := resultFor_average averages rfl rows row
  have same : call'.contributions (call'.passedOn (call'.values
      (alongside average.grouping row rows))) = quantities := by
    rw [grouping]
    exact AggregateCall.contributions_avg column distinct rule _
  rw [same] at quotient
  have refusals : call'.refused? row = call.refused? row := rfl
  have outcome := absorb_fst_absorbEach averages rows row
  rw [refusals] at outcome
  refine ⟨⟨call.refused? row, absorb_fst_absorbEach sums rows row, outcome⟩,
    writes_absorbEach sums rows row, writes_absorbEach averages rows row,
    (resultFor_sum sums rfl rows row).2.1.null, ?_, ?_⟩
  · rw [quotient]
    split <;> simp_all
  · intro contributed
    rw [quotient, if_neg contributed]

open scoped Hashing in
/-- A number, its text and its repetition in one group; in the other a text that is skipped. -/
theorem sum_and_average_in_step_texts :
    let call : AggregateCall := ⟨.sum, "v", true, .coerce⟩
    let call' : AggregateCall := ⟨.avg, "v", true, .coerce⟩
    let grouping : Option Grouping := some (.byFields ["k"])
    let sum := (ofExpression ⟨.aggregate call, "", rfl⟩).withGrouping grouping
    let average := (ofExpression ⟨.aggregate call', "", rfl⟩).withGrouping grouping
    let row (k : String) (v : Value) := Row.ofFields [("k", .text k), ("v", v)]
    let rows := [row "a" (.integer 5), row "b" (.text "?"), row "a" (.text " 5 "),
      row "a" (.integer 5), row "a" .null]
    let fives : List Quantity := [.integer 5, .integer 5]
    (average.start.absorbEach rows).progress.groups.keys =
        (sum.start.absorbEach rows).progress.groups.keys ∧
      (sum.start.absorbEach rows).resultFor call (row "b" .null) = .null ∧
      (average.start.absorbEach rows).resultFor call' (row "b" .null) = .null ∧
      (sum.start.absorbEach rows).resultFor call (row "a" .null) ≠ .null ∧
      (average.start.absorbEach rows).resultFor call' (row "a" .null) =
        .float (.ofFloat (Quantity.floatSum fives / Float.ofNat fives.length)) := by
  intro call call' grouping sum average row rows fives
  have sums : sum.expression.call? = some call := rfl
  have averages : average.expression.call? = some call' := rfl
  obtain ⟨keys, scopes⟩ := sum_and_average_in_step sums averages rfl rows
  have skipped : call.contributions (call.passedOn
      (call.values (alongside sum.grouping (row "b" .null) rows))) = [] := by decide +kernel
  have twice : call.contributions (call.passedOn
      (call.values (alongside sum.grouping (row "a" .null) rows))) = fives := by decide +kernel
  obtain ⟨-, -, -, sum_null, average_null, -⟩ := scopes (row "b" .null)
  obtain ⟨-, -, -, sum_null', -, quotient⟩ := scopes (row "a" .null)
  rw [twice] at sum_null' quotient
  have contributed : fives ≠ [] := List.cons_ne_nil _ _
  exact ⟨keys, sum_null.mpr skipped, average_null.mpr skipped, fun null =>
    contributed (sum_null'.mp null), quotient contributed⟩

end SelectItem

end RowQuery
