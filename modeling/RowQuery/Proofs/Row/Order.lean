import RowQuery.Json.Rows
import RowQuery.Proofs.Row

/-!
# Rows as maps in the order of insertion

A row is searched field by field, and no two of its fields have one name. So after any calls a
look-up, a test for a name, the names, their number and the fields one after the other all tell the
same; a name keeps its place when it is set again, and loses it when it is taken out
(`insertion_ordered`).
-/

namespace RowQuery

namespace Row

/-! ## Look-ups, names and fields -/

/-- All that can be asked of a row agrees with its look-ups. -/
structure Coherent (row : Row) : Prop where
  distinct : row.names.Nodup
  mem_names : ∀ name, name ∈ row.names ↔ (row.get? name).isSome = true
  contains_eq : ∀ name, row.contains name = (row.get? name).isSome
  size_eq : row.size = row.names.length
  fields_eq : (row.fields.map fun field => (field.1, some field.2)) =
    row.names.map fun name => (name, row.get? name)

theorem mem_names_iff (row : Row) (name : String) :
    name ∈ row.names ↔ (row.get? name).isSome = true := by
  rw [Option.isSome_iff_ne_none, Ne, get?_eq_none_iff, Classical.not_not]

theorem contains_eq_isSome (row : Row) (name : String) :
    row.contains name = (row.get? name).isSome := by
  rw [contains, get?, Option.isSome_map, List.isSome_find?]

/-- The fields one after the other are the names in order, each with what a look-up finds. -/
theorem fields_eq_map_names (row : Row) :
    (row.fields.map fun field => (field.1, some field.2)) =
      row.names.map fun name => (name, row.get? name) := by
  rw [names, List.map_map]
  refine List.map_congr_left fun field member => ?_
  have found : row.get? field.1 = some field.2 := (get?_eq_some_iff row field.1 field.2).mpr member
  exact Prod.ext rfl found.symm

theorem coherent (row : Row) : row.Coherent where
  distinct := row.distinct
  mem_names := row.mem_names_iff
  contains_eq := row.contains_eq_isSome
  size_eq := (List.length_map _).symm
  fields_eq := row.fields_eq_map_names

/-! ## One call -/

theorem names_set_take (row : Row) (name : String) (value : Value) :
    ((row.take name).2.set name value).names = row.names.filter (· != name) ++ [name] := by
  have absent : name ∉ row.names.filter (· != name) := by
    intro member
    exact bne_iff_ne.mp (List.mem_filter.mp member).2 rfl
  rw [take_eq, names_set, names_remove, if_neg absent]

/-- A call that changes a row, or puts another in its place. -/
inductive Call where
  | set (name : String) (value : Value)
  | take (name : String)
  | collect (fields : List Field)
  | read (json : Json)

variable [Formats]

/-- The row after a call. What is no object is not read, and leaves the row as it is. -/
def Call.apply (row : Row) : Call → Row
  | .set name value => row.set name value
  | .take name => (row.take name).2
  | .collect fields => ofFields fields
  | .read json => (ofJson json).toOption.getD row

/-! ## Runs -/

/-- The row after some calls, the first of them on the row without fields. -/
def ofCalls (calls : List Call) : Row :=
  calls.foldl Call.apply empty

/-- After any calls a row is coherent. To set a field gives it its value and leaves the others and
the order of the names alone, but for a new name, which comes last. To take a field out returns its
value and leaves the others in their order; if it is set again it comes last. -/
theorem insertion_ordered (calls : List Call) :
    let row := ofCalls calls
    row.Coherent ∧
    (∀ name value,
      (∀ other, (row.set name value).get? other =
        if name = other then some value else row.get? other) ∧
      (row.set name value).names =
        if name ∈ row.names then row.names else row.names ++ [name]) ∧
    (∀ name,
      (row.take name).1 = row.get? name ∧
      (∀ other, (row.take name).2.get? other = if name = other then none else row.get? other) ∧
      (row.take name).2.names = row.names.filter (· != name)) ∧
    ∀ name value,
      ((row.take name).2.set name value).names = row.names.filter (· != name) ++ [name] := by
  intro row
  have taken (name : String) := row.take_eq name
  refine ⟨row.coherent, fun name value => ⟨fun other => row.get?_set name other value,
    row.names_set name value⟩, fun name => ?_, row.names_set_take⟩
  rw [taken]
  exact ⟨rfl, row.get?_remove name, row.names_remove name⟩

end Row

end RowQuery
