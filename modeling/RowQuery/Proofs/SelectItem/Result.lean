import RowQuery.Proofs.SelectItem.Finish
import RowQuery.Proofs.SelectList.Single

/-!
# What an item has for the rows of a scope

After any rows, an item gives for the scope of a row what its function makes of the values that the
call passes on from the rows of that scope (`resultFor_absorbEach`).
-/

namespace RowQuery

open Grouping (alongside)

namespace Expression

variable {e : Expression} {call : AggregateCall}

theorem term_of_call? (called : e.call? = some call) : e.term = .aggregate call := by
  rw [call?] at called
  split at called
  · rename_i term
    rw [term, Option.some_inj.mp called]
  · cases called

theorem unstarred_of_call? (called : e.call? = some call)
    (columns : call.function.takesStar = false) : call.isStar = false :=
  unstarred_of_term (term_of_call? called) columns

end Expression

namespace SelectItem

variable {call : AggregateCall} {item : SelectItem} {row : Row}

/-- What an item of a call gives for the scope of a row. -/
def resultFor (call : AggregateCall) (row : Row) (item : SelectItem) : Value :=
  (item.progress.scopeOf call.function item.grouping row).accumulator.result

/-- The end of an item writes a value for the scope of a row: into the first row, or for the group
of the row into one that was there or one that shows its key. -/
structure Writes (item : SelectItem) (row : Row) (value : Value) : Prop where
  alone : item.grouping = none →
    ∀ result, (item.finish result).1 = result.setFirst item.expression.output value
  grouped : ∀ grouping, item.grouping = some grouping → ∀ group ∈ item.progress.groups.groups,
    group.key.id = (grouping.keyOf row).id → ∀ result, ∃ earlier ∈ group.key.row :: result.rows,
      earlier.set item.expression.output value ∈ (item.finish result).1.rows

theorem writes_resultFor (called : item.expression.call? = some call) (row : Row) :
    item.Writes row (item.resultFor call row) where
  alone grouped result := by
    rw [finish_of_call called, resultFor, grouped]
    rfl
  grouped grouping grouped group member same result := by
    have value : group.scope.accumulator.result = item.resultFor call row := by
      rw [resultFor, grouped, Progress.scopeOf, ← same, GroupTable.scope?,
        GroupTable.group?_of_mem member]
      rfl
    have written : Progress.Written grouping item.expression.output _ _ result _ :=
      Progress.written_merge item.progress.groups result
    have here := List.mem_of_getElem? (written.settled group member)
    rw [Progress.settle, value] at here
    rw [finish_of_call called, grouped]
    refine ⟨_, ?_, here⟩
    cases old : result.rows[Progress.placeOf (result.ids grouping) item.progress.groups.groups
        group]? with
    | none => exact List.mem_cons_self
    | some row' => exact List.mem_cons_of_mem _ (List.mem_of_getElem? old)

theorem writes_absorbEach [Hashing] (called : item.expression.call? = some call) (rows : List Row)
    (row : Row) : (item.start.absorbEach rows).Writes row
      ((item.start.absorbEach rows).resultFor call row) := by
  have started : item.start.expression.call? = some call := called
  refine writes_resultFor ?_ row
  rw [absorbEach_of_call started]
  exact called

theorem resultFor_absorbEach [Hashing] (called : item.expression.call? = some call)
    (unstarred : call.isStar = false) (rows : List Row) (row : Row) :
    (item.start.absorbEach rows).resultFor call row =
      ((call.passedOn (call.values (alongside item.grouping row rows))).foldl
        (Accumulator.take call.operands) (.start call.function)).result := by
  have started : item.start.expression.call? = some call := called
  have grouping : item.start.grouping = item.grouping := rfl
  have fresh : item.start.progress = .start := rfl
  rw [resultFor, absorbEach_of_call started, Progress.scopeOf_addEach, grouping, fresh,
    Progress.scopeOf_start, Scope.foldl_absorb unstarred,
    Scope.accumulator_foldl_take fun value member => AggregateCall.ne_null_of_mem_values member]

end SelectItem

end RowQuery
