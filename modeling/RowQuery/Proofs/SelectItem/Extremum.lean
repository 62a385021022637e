import RowQuery.Proofs.SelectItem.Result
import RowQuery.Proofs.SelectList.Extremum

/-!
# Which values MAX and MIN heed

The first value of a scope decides which values count: those that are comparable with it. MAX and
MIN give one of these that none of these lies beyond, and the others might as well not be there
(`resultFor_extremum`).
-/

namespace RowQuery

open Grouping (alongside)
open Value (comparable_of_compare? comparable_self comparable_trans)

/-! ## Values that count -/

namespace AggregateCall

open Progress (operand?)

variable {call : AggregateCall} {rows : List Row}

/-- The rows that have nothing for a call, or a value that is comparable with a first one. -/
def heeded (call : AggregateCall) (first : Value) (rows : List Row) : List Row :=
  rows.filter fun row => (operand? call row).all fun value => value.comparable first

theorem values_heeded (first : Value) : call.values (call.heeded first rows) =
    (call.values rows).filter fun value => value.comparable first := by
  rw [values, heeded, List.filterMap_filter, values, List.filter_filterMap]
  refine congrArg (List.filterMap · rows) (funext fun row => ?_)
  cases operand? call row with
  | none => rfl
  | some value => cases comparable : value.comparable first <;> simp [Option.filter, comparable]

theorem values_eq_nil_iff : call.values rows = [] ↔
    ∀ row ∈ rows, (row.get? (Name.normalize call.column)).getD .null = .null := by
  rw [values, List.filterMap_eq_nil_iff]
  refine forall₂_congr fun row _ => ?_
  rw [operand?]
  cases row.get? (Name.normalize call.column) with
  | none => exact iff_of_true rfl rfl
  | some value => cases value <;> simp [Value.isNull]

end AggregateCall

theorem Grouping.alongside_heeded {call : AggregateCall} (grouping : Option Grouping)
    (first : Value) (row : Row) (rows : List Row) :
    alongside grouping row (call.heeded first rows) =
      call.heeded first (alongside grouping row rows) :=
  List.filter_comm _ _ _

namespace Accumulator

variable {side : Ordering} {rule : OperandRule} {values : List Value}

theorem foldl_take_of_addAll {accumulator after : Accumulator}
    (ran : accumulator.addAll rule values = .ok after) :
    values.foldl (take rule) accumulator = after := by
  induction values generalizing accumulator with
  | nil => exact Except.ok.inj ran
  | cons value values ih =>
      rw [addAll] at ran
      cases added : accumulator.add rule value with
      | error fault => simp [added] at ran
      | ok next =>
          rw [added] at ran
          rw [List.foldl_cons, take, added]
          exact ih ran

/-- Once a value is there that is comparable with the first, one that is not has no effect. -/
theorem foldl_take_filter_comparable {first earlier : Value}
    (heeded : earlier.comparable first = true) :
    (values.filter fun value => value.comparable first).foldl (take rule)
        (.extremum side (some earlier)) =
      values.foldl (take rule) (.extremum side (some earlier)) := by
  induction values generalizing earlier with
  | nil => rfl
  | cons value values ih =>
      rw [List.filter_cons, List.foldl_cons]
      cases comparable : value.comparable first with
      | true =>
          have next : (further side (some earlier) value).comparable first = true := by
            rw [further]
            split
            · exact comparable
            · exact heeded
          exact ih next
      | false =>
          have within : value.compare? earlier ≠ some side := by
            intro beyond
            cases comparable.symm.trans (comparable_trans (comparable_of_compare? beyond) heeded)
          have kept : (extremum side (some earlier)).take rule value =
              .extremum side (some earlier) :=
            congrArg (fun best => extremum side (some best)) (if_neg within)
          rw [kept]
          exact ih heeded

end Accumulator

/-! ## MAX and MIN -/

namespace SelectItem

variable {call : AggregateCall} {item : SelectItem} {side : Ordering} {rows : List Row} {row : Row}

theorem resultFor_of_side? [Hashing] (called : item.expression.call? = some call)
    (looks : call.function.side? = some side) (rows : List Row) (row : Row) :
    (item.start.absorbEach rows).resultFor call row =
      ((call.values (alongside item.grouping row rows)).foldl (Accumulator.take call.operands)
        (.extremum side none)).result := by
  have unstarred := Expression.unstarred_of_call? called
    (AggregateFunction.takesStar_of_side? looks)
  rw [resultFor_absorbEach called unstarred, AggregateCall.passedOn,
    AggregateCall.tracksDistinct_of_side? looks, (AggregateFunction.start_of_side? looks).1]
  rfl

theorem exists_extremum [Hashing] (called : item.expression.call? = some call)
    (looks : call.function.side? = some side) (rows : List Row) (row : Row) :
    ∃ best, Value.Extremum side (call.values (alongside item.grouping row rows)) best ∧
      (item.start.absorbEach rows).resultFor call row = best.getD .null := by
  obtain ⟨-, strict⟩ := AggregateFunction.start_of_side? looks
  rw [resultFor_of_side? called looks]
  generalize call.values (alongside item.grouping row rows) = values
  obtain ⟨best, extremum, ran⟩ := Accumulator.addAll_extremum strict (.nothing rfl)
  refine ⟨best, extremum, ?_⟩
  rw [Accumulator.foldl_take_of_addAll ran]
  rfl

theorem resultFor_heeded [Hashing] {first : Value} {rest : List Value}
    (called : item.expression.call? = some call) (looks : call.function.side? = some side)
    (starts : call.values (alongside item.grouping row rows) = first :: rest) :
    (item.start.absorbEach (call.heeded first rows)).resultFor call row =
      (item.start.absorbEach rows).resultFor call row := by
  have here := comparable_self first
  rw [resultFor_of_side? called looks, resultFor_of_side? called looks,
    Grouping.alongside_heeded, AggregateCall.values_heeded, starts, List.filter_cons,
    if_pos here, List.foldl_cons, List.foldl_cons]
  exact congrArg Accumulator.result (Accumulator.foldl_take_filter_comparable here)

theorem extreme_resultFor [Hashing] {first : Value} {rest : List Value}
    (called : item.expression.call? = some call) (looks : call.function.side? = some side)
    (starts : call.values (alongside item.grouping row rows) = first :: rest) :
    Value.Extreme side ((call.values (alongside item.grouping row rows)).filter fun other =>
      other.comparable first) ((item.start.absorbEach rows).resultFor call row) := by
  obtain ⟨best, extremum, gives⟩ := exists_extremum called looks (call.heeded first rows) row
  rw [Grouping.alongside_heeded, AggregateCall.values_heeded] at extremum
  cases extremum with
  | nothing empty =>
      rw [starts, List.filter_cons, if_pos (comparable_self first)] at empty
      cases empty
  | reached extreme =>
      rw [← resultFor_heeded called looks starts, gives]
      exact extreme

/-- What MAX and MIN give for the scope of a row: NULL if it has no value, or else a value that is
comparable with the first and that none of these lies beyond. Values that are not comparable with
the first do not matter. -/
theorem resultFor_extremum [Hashing] (called : item.expression.call? = some call)
    (looks : call.function.side? = some side) (rows : List Row) (row : Row) :
    let run := item.start.absorbEach rows
    let scope := alongside item.grouping row rows
    let value := run.resultFor call row
    run.Writes row value ∧
      (value = .null ↔
        ∀ other ∈ scope, (other.get? (Name.normalize call.column)).getD .null = .null) ∧
      ∀ first rest, call.values scope = first :: rest →
        value ∈ call.values scope ∧ value.comparable first = true ∧
          (∀ other ∈ call.values scope, other.comparable first = true →
            other.compare? value ≠ some side) ∧
          (item.start.absorbEach (call.heeded first rows)).resultFor call row = value := by
  intro run scope value
  refine ⟨writes_absorbEach called rows row, ?_, ?_⟩
  · rw [← AggregateCall.values_eq_nil_iff]
    constructor
    · intro null
      cases starts : call.values scope with
      | nil => rfl
      | cons first rest =>
          have extreme := extreme_resultFor called looks starts
          have member := (List.mem_filter.mp extreme.member).1
          exact absurd null (AggregateCall.ne_null_of_mem_values member)
    · intro empty
      have same : value = _ := resultFor_of_side? called looks rows row
      rw [same, empty]
      rfl
  · intro first rest starts
    have extreme := extreme_resultFor called looks starts
    obtain ⟨member, comparable⟩ := List.mem_filter.mp extreme.member
    refine ⟨member, comparable, fun other among heeded => ?_, resultFor_heeded called looks starts⟩
    exact extreme.furthest other (List.mem_filter.mpr ⟨among, heeded⟩)

open scoped Hashing in
/-- The text and the boolean do not matter, and `2 ^ 53` is level with the integer after it. -/
theorem resultFor_extremum_mixed :
    let call : AggregateCall := ⟨.max, "v", false, .reject⟩
    let row (v : Value) := Row.ofFields [("v", v)]
    let item := ofExpression ⟨.aggregate call, "", rfl⟩
    let first : Value := .float 2.5
    let greatest : Value := .integer 9007199254740993
    let rows := [row .null, row first, row (.text "z"), row greatest,
      row (.float 9007199254740992), row (.boolean true)]
    let heeded := [row .null, row first, row greatest, row (.float 9007199254740992)]
    (item.start.absorbEach rows).Writes .empty greatest ∧
      greatest ∈ call.values rows ∧ greatest.comparable first = true ∧
      (∀ other ∈ call.values rows, other.comparable first = true →
        other.compare? greatest ≠ some .gt) ∧
      (item.start.absorbEach heeded).resultFor call .empty = greatest := by
  intro call row item first greatest rows heeded
  have called : item.expression.call? = some call := rfl
  have looks : call.function.side? = some .gt := rfl
  obtain ⟨writes, -, extremum⟩ := resultFor_extremum called looks rows .empty
  have scope : alongside item.grouping .empty rows = rows := rfl
  have starts : call.values rows = first :: [.text "z", greatest, .float 9007199254740992,
      .boolean true] := by decide +kernel
  have given : (item.start.absorbEach rows).resultFor call .empty = greatest := by decide +kernel
  have kept : call.heeded first rows = heeded := by decide +kernel
  rw [scope, given] at extremum
  rw [given] at writes
  rw [← kept]
  exact ⟨writes, extremum first _ starts⟩

end SelectItem

end RowQuery
