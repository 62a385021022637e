import RowQuery.Row

/-!
Result sets: rows in order.
-/

namespace RowQuery

/-- The rows that a query has produced so far. -/
structure ResultSet where
  rows : List Row
deriving DecidableEq

namespace ResultSet

/-- The result set without rows. -/
def empty : ResultSet := ⟨[]⟩

instance : Inhabited ResultSet := ⟨empty⟩

/-- The number of rows. -/
def size (result : ResultSet) : Nat :=
  result.rows.length

/-- Whether there are no rows. -/
def isEmpty (result : ResultSet) : Bool :=
  result.rows.isEmpty

/-- The row at an index. -/
def get? (result : ResultSet) (index : Nat) : Option Row :=
  result.rows[index]?

/-- Adds a row at the end. -/
def push (result : ResultSet) (row : Row) : ResultSet :=
  ⟨result.rows ++ [row]⟩

/-- Changes the row at an index, if there is one. -/
def modify (result : ResultSet) (index : Nat) (change : Row → Row) : ResultSet :=
  ⟨result.rows.modify index change⟩

/-- Changes every row. -/
def map (change : Row → Row) (result : ResultSet) : ResultSet :=
  ⟨result.rows.map change⟩

/-- Sets a field of the first row, which is made if there is none. -/
def setFirst (result : ResultSet) (name : String) (value : Value) : ResultSet :=
  match result.rows with
  | [] => ⟨[Row.empty.set name value]⟩
  | first :: others => ⟨first.set name value :: others⟩

/-- Whether two result sets have the same rows in the same order. -/
def same (left right : ResultSet) : Bool :=
  left.size == right.size && (left.rows.zip right.rows).all fun (l, r) => l.same r

/-- The names of all fields in the order of their first appearance. -/
def columns (result : ResultSet) : List String :=
  (result.rows.flatMap Row.names).foldl
    (fun seen name => if seen.contains name then seen else seen ++ [name]) []

end ResultSet

end RowQuery
