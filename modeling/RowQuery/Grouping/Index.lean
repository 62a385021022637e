import RowQuery.Grouping
import RowQuery.ResultSet

/-!
The groups of the rows of a result set.
-/

namespace RowQuery.ResultSet

/-- The id of each row. -/
def ids (grouping : Grouping) (result : ResultSet) : List String :=
  result.rows.map fun row => (grouping.keyOf row).id

/-- The ids of all rows, each with its first row. -/
def groupIndex (grouping : Grouping) (result : ResultSet) : List (String × Nat) :=
  let ids := result.ids grouping
  ids.zipIdx.filter fun (id, index) => ids.idxOf? id == some index

end RowQuery.ResultSet
