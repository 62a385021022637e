import RowQuery.Proofs.Printer.Permissive
import RowQuery.Proofs.Progress.Distinct
import RowQuery.Proofs.SelectList.Run

/-!
# DISTINCT in a select list

COUNT, SUM and AVG with DISTINCT give what they give without over the rows whose value is new in
their group, be it a result or a fault (`evaluate_distinct`). New is what coincides with no value
before it; that comes to what is the same as none, unless a group has two floats that are no number
and have unlike hashes.
-/

namespace RowQuery.SelectItem

open Grouping (freshRows OneNaNEach)

variable {function : AggregateFunction} {column : String} {rule : OperandRule}

/-- A run of an item: a new start, some rows, and the results in a result set. -/
def evaluate [Hashing] (rows : List Row) (result : ResultSet) (item : SelectItem) :
    Except Fault ResultSet :=
  match item.start.absorbAll rows with
  | (.error fault, _) => .error fault
  | (.ok (), last) => .ok (last.finish result).1

theorem evaluate_of_call [Hashing] {e : Expression} {call : AggregateCall}
    (called : e.call? = some call)
    (grouping : Option Grouping) (rows : List Row) (result : ResultSet) :
    ((ofExpression e).withGrouping grouping).evaluate rows result =
      match Progress.start.addAll call grouping rows with
      | (.error fault, _) => .error fault
      | (.ok (), p) => .ok (p.finish call grouping e.output result).1 := by
  have started : ((ofExpression e).withGrouping grouping).start = ⟨e, grouping, .start⟩ := rfl
  have fresh : (SelectItem.mk e grouping .start).expression.call? = some call := called
  rw [evaluate, started, absorbAll_of_call fresh]
  rcases Progress.start.addAll call grouping rows with ⟨fault | _, p⟩
  · rfl
  · have last : (SelectItem.mk e grouping p).expression.call? = some call := called
    exact congrArg Except.ok (SelectList.finish_of_call last result)

end RowQuery.SelectItem
