import RowQuery.Value.Order
import RowQuery.Value.Text

/-!
Rows: records of named values that keep the order in which their fields were first set. Main
statements: what `set` and `remove` do to the names of a row and to every look-up, and that `take`
gives what is removed.
-/

namespace RowQuery

/-- A named value. -/
abbrev Field := String × Value

/-- A row: fields in order, no two of one name. -/
structure Row where
  fields : List Field
  distinct : (fields.map Prod.fst).Nodup
deriving DecidableEq

namespace Row

theorem ext_of {left right : Row} (fields : left.fields = right.fields) : left = right := by
  cases left
  cases right
  cases fields
  rfl

/-- The row without fields. -/
def empty : Row := ⟨[], List.nodup_nil⟩

instance : Inhabited Row := ⟨empty⟩

/-- The names of the fields in order. -/
def names (row : Row) : List String :=
  row.fields.map Prod.fst

/-- The number of fields. -/
def size (row : Row) : Nat :=
  row.fields.length

/-- Whether a row has no fields. -/
def isEmpty (row : Row) : Bool :=
  row.fields.isEmpty

/-- The value of a field; `none` if there is no such field. -/
def get? (row : Row) (name : String) : Option Value :=
  (row.fields.find? fun field => field.1 == name).map Prod.snd

/-- Whether there is a field of a name, be it NULL. -/
def contains (row : Row) (name : String) : Bool :=
  row.fields.any fun field => field.1 == name

/-- Replaces the first field of a name, or appends one. -/
def setFields (name : String) (value : Value) : List Field → List Field
  | [] => [(name, value)]
  | field :: rest =>
    if field.1 = name then (name, value) :: rest else field :: setFields name value rest

theorem names_setFields (name : String) (value : Value) (fields : List Field) :
    (setFields name value fields).map Prod.fst =
      if name ∈ fields.map Prod.fst then fields.map Prod.fst
      else fields.map Prod.fst ++ [name] := by
  induction fields with
  | nil => rfl
  | cons field rest ih =>
    by_cases here : field.1 = name
    · simp [setFields, here]
    · have other : ¬ name = field.1 := fun same => here same.symm
      simp only [setFields, if_neg here, List.map_cons, ih, List.mem_cons, other, false_or]
      split <;> simp

/-- Sets a field: in place if the row has it, at the end otherwise. -/
def set (row : Row) (name : String) (value : Value) : Row where
  fields := setFields name value row.fields
  distinct := by
    rw [names_setFields]
    split
    · exact row.distinct
    · rename_i fresh
      refine List.nodup_append.mpr ⟨row.distinct, List.pairwise_singleton _ name, ?_⟩
      rintro earlier found last only rfl
      exact fresh (List.mem_singleton.mp only ▸ found)

theorem names_set (row : Row) (name : String) (value : Value) :
    (row.set name value).names = if name ∈ row.names then row.names else row.names ++ [name] :=
  names_setFields name value row.fields

theorem find?_setFields (name other : String) (value : Value) (fields : List Field) :
    (setFields name value fields).find? (fun field => field.1 == other) =
      if name = other then some (name, value)
      else fields.find? fun field => field.1 == other := by
  induction fields with
  | nil => by_cases same : name = other <;> simp [setFields, same]
  | cons field rest ih =>
    by_cases here : field.1 = name
    · by_cases same : name = other <;> simp [setFields, here, same]
    · rw [setFields, if_neg here, List.find?_cons, List.find?_cons]
      by_cases found : field.1 = other
      · have distinct : ¬ name = other := fun same => here (found.trans same.symm)
        simp [found, distinct]
      · have differs : (field.1 == other) = false := beq_false_of_ne found
        simp only [differs, ih]

theorem get?_set (row : Row) (name other : String) (value : Value) :
    (row.set name value).get? other = if name = other then some value else row.get? other := by
  simp only [get?, set, find?_setFields]
  split <;> rfl

/-- Removes a field; the others keep their order. -/
def remove (row : Row) (name : String) : Row where
  fields := row.fields.filter fun field => field.1 != name
  distinct := row.distinct.sublist (List.filter_sublist.map Prod.fst)

theorem names_remove (row : Row) (name : String) :
    (row.remove name).names = row.names.filter (· != name) := by
  simp [names, remove, List.filter_map, Function.comp_def]

theorem get?_remove (row : Row) (name other : String) :
    (row.remove name).get? other = if name = other then none else row.get? other := by
  simp only [get?, remove, List.find?_filter]
  by_cases same : name = other
  · subst same
    simp
  · rw [if_neg same]
    congr 2
    funext field
    by_cases found : field.1 = other
    · have distinct : ¬ other = name := fun back => same back.symm
      simp [found, distinct]
    · simp [found]

theorem eraseP_eq_filter {fields : List Field} (distinct : (fields.map Prod.fst).Nodup)
    (name : String) : fields.eraseP (fun field => field.1 == name) =
      fields.filter fun field => field.1 != name := by
  induction fields with
  | nil => rfl
  | cons field rest ih =>
    rw [List.map_cons, List.nodup_cons] at distinct
    obtain ⟨new, distinct⟩ := distinct
    by_cases here : field.1 = name
    · have others : rest.filter (fun field => field.1 != name) = rest := by
        rw [List.filter_eq_self]
        intro other member
        rw [bne_iff_ne]
        rintro rfl
        exact new (here ▸ List.mem_map_of_mem member)
      rw [List.eraseP_cons_of_pos (by simpa using here),
        List.filter_cons_of_neg (by simpa using here), others]
    · rw [List.eraseP_cons_of_neg (by simpa using here),
        List.filter_cons_of_pos (by simpa using here), ih distinct]

/-- Takes a field out of a row, if it has the field: the value, and the row without it. -/
def take (row : Row) (name : String) : Option Value × Row :=
  match row.fields.findIdx? fun field => field.1 == name with
  | none => (none, row)
  | some index =>
    (row.fields[index]?.map Prod.snd,
      ⟨row.fields.eraseIdx index, row.distinct.sublist ((List.eraseIdx_sublist _ _).map Prod.fst)⟩)

theorem take_eq (row : Row) (name : String) : row.take name = (row.get? name, row.remove name) := by
  have value : row.get? name = ((row.fields.findIdx? fun field => field.1 == name).bind
      fun index => row.fields[index]?).map Prod.snd := by
    rw [get?, List.find?_eq_bind_findIdx?_getElem?]
  have fields := (eraseP_eq_filter row.distinct name).symm.trans List.eraseP_eq_eraseIdx
  unfold take
  split <;> rename_i found
  all_goals
    rw [found] at value fields
    rw [value]
    exact Prod.ext rfl (ext_of fields.symm)

/-- The row of a list of fields set one after the other. -/
def ofFields (fields : List Field) : Row :=
  fields.foldl (fun row field => row.set field.1 field.2) empty

/-- Whether two rows have the same names and values in the same order. -/
def same (left right : Row) : Bool :=
  left.names == right.names &&
    (left.fields.zip right.fields).all fun (l, r) => l.2.same r.2

/-- A row as text. -/
def render [Formats] (row : Row) : String :=
  "\x7b" ++ ", ".intercalate (row.fields.map fun field => field.1 ++ ": " ++ field.2.render) ++
    "\x7d"

end Row

end RowQuery
