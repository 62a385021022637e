import RowQuery.Expression
import RowQuery.Grouping.Index
import RowQuery.GroupTable

/-!
How far an aggregate call has come: one scope for all rows, or one for each group in the order in
which the groups were first met.
-/

namespace RowQuery

/-- How far an aggregate call has come. -/
structure Progress where
  /-- The scope of all rows; `none` before the first. -/
  total : Option Scope
  groups : GroupTable
deriving DecidableEq

namespace Progress

/-- A call before any row. -/
def start : Progress := ⟨none, .empty⟩

instance : Inhabited Progress := ⟨start⟩

/-- Changes the scope that a row belongs to. -/
def update {β : Type} (function : AggregateFunction) (grouping : Option Grouping) (row : Row)
    (change : Scope → β × Scope) (progress : Progress) : β × Progress :=
  match grouping with
  | none =>
    let (result, scope) := change (progress.total.getD (.start function))
    (result, { progress with total := some scope })
  | some grouping =>
    let (result, groups) := progress.groups.update (grouping.keyOf row) (.start function) change
    (result, { progress with groups })

/-- What a call is over in a row: the value of its column, unless that is missing or NULL. -/
def operand? (call : AggregateCall) (row : Row) : Option Value :=
  (row.get? (Name.normalize call.column)).filter fun value => !value.isNull

/-- The fault of a value that must not be remembered as seen. -/
def refusal? (call : AggregateCall) (value : Value) : Option Fault :=
  if call.function.isNumeric && call.tracksDistinct then
    match value.contribution call.function call.operands with
    | .error fault => some fault
    | .ok _ => none
  else none

/-- A call after one more row. -/
def add [Hashing] (call : AggregateCall) (grouping : Option Grouping) (row : Row)
    (progress : Progress) : Except Fault Unit × Progress :=
  if call.isStar then
    progress.update call.function grouping row fun scope => (.ok (), scope.addRow)
  else match operand? call row with
    | none => (.ok (), progress)
    | some value =>
      match refusal? call value with
      | some fault => (.error fault, progress)
      | none => progress.update call.function grouping row (Scope.add call value)

/-- A row with the result of a group. -/
def settle (field : String) (group : Group) (row : Row) : Row :=
  row.set field group.scope.accumulator.result

/-- A result set that results of groups are written into, and an index of the rows by their ids. -/
structure Merging where
  result : ResultSet
  place? : String → Option Nat

/-- Writes the result of a group into the row of its id; without one, into a new row that shows the
key, which the index then has as well. -/
def Merging.write (field : String) (merging : Merging) (group : Group) : Merging :=
  match merging.place? group.key.id with
  | some index => { merging with result := merging.result.modify index (settle field group) }
  | none =>
    { result := merging.result.push (settle field group group.key.row)
      place? := fun id =>
        if id = group.key.id then some merging.result.size else merging.place? id }

/-- Writes the results of groups in order. At first the index has the first row of each id. -/
def merge (grouping : Grouping) (field : String) (groups : List Group) (result : ResultSet) :
    ResultSet :=
  let indexed : Merging := ⟨result, fun id => (result.groupIndex grouping).lookup id⟩
  (groups.foldl (Merging.write field) indexed).result

/-- Writes what a call gives under a field. The groups are used up by it. -/
def finish (call : AggregateCall) (grouping : Option Grouping) (field : String)
    (result : ResultSet) (progress : Progress) : ResultSet × Progress :=
  match grouping with
  | none =>
    let scope := progress.total.getD (.start call.function)
    (result.setFirst field scope.accumulator.result, progress)
  | some grouping =>
    (merge grouping field progress.groups.groups result, { progress with groups := .empty })

end Progress

end RowQuery
