import RowQuery.Grouping
import RowQuery.Proofs.Row

/-!
# Groups

The rows of a group, and when the group of a key can be told from the row that shows the key.
-/

namespace RowQuery

namespace Grouping

/-- The rows of a group. -/
def group (grouping : Grouping) (id : String) (rows : List Row) : List Row :=
  rows.filter fun row => (grouping.keyOf row).id == id

theorem group_append (grouping : Grouping) (id : String) (rows : List Row) (row : Row) :
    grouping.group id (rows ++ [row]) =
      grouping.group id rows ++ if (grouping.keyOf row).id = id then [row] else [] := by
  rw [group, List.filter_append]
  by_cases here : (grouping.keyOf row).id = id <;> simp [group, here]

/-- The group of a key can be told from its row, whatever is written into the given fields. -/
def Stable (grouping : Grouping) (outputs : List String) (rows : List Row) : Prop :=
  ∀ row ∈ rows, ∀ written : List Field, (∀ field ∈ written, field.1 ∈ outputs) →
    (grouping.keyOf ((grouping.keyOf row).row.setAll written)).id = (grouping.keyOf row).id

/-! ## Keys by fields -/

section
variable {fields : List String} {row : Row}

theorem get?_row_fieldsKey {field : String} (member : field ∈ fields) :
    (fieldsKey fields row).row.get? field = some ((row.get? field).getD .null) := by
  refine Row.get?_setAll_of_mem ?_ ?_
  · simpa [fieldsKey] using member
  · intro entry there same
    obtain ⟨name, -, rfl⟩ := List.mem_map.mp there
    rw [← same]

/-- A row that shows the fields of another as a key does has the key of the other. -/
theorem fieldsKey_of_shown {shown : Row}
    (shows : ∀ field ∈ fields, shown.get? field = (fieldsKey fields row).row.get? field) :
    fieldsKey fields shown = fieldsKey fields row := by
  have values : (fields.map fun field => (field, (shown.get? field).getD .null)) =
      fields.map fun field => (field, (row.get? field).getD .null) := by
    apply List.map_congr_left
    intro field member
    rw [shows field member, get?_row_fieldsKey member, Option.getD_some]
  rw [fieldsKey, values]
  rfl

theorem fieldsKey_setAll {written : List Field} (apart : ∀ field ∈ written, field.1 ∉ fields) :
    fieldsKey fields ((fieldsKey fields row).row.setAll written) = fieldsKey fields row := by
  apply fieldsKey_of_shown
  intro field member
  apply Row.get?_setAll_of_not_mem
  intro found
  obtain ⟨entry, there, rfl⟩ := List.mem_map.mp found
  exact apart entry there member

end

/-- The key of a row by fields is also that of the row that shows it, whatever happens to the other
fields of that row. -/
theorem keyOf_edited_row (fields : List String) (row : Row) (edits : List Row.Edit)
    (apart : ∀ edit ∈ edits, edit.field ∉ fields) :
    (byFields fields).keyOf (edits.foldl Row.Edit.apply ((byFields fields).keyOf row).row) =
      (byFields fields).keyOf row := by
  refine fieldsKey_of_shown fun field member => Row.get?_edits _ ?_
  rintro edit listed rfl
  exact apart edit listed member

/-- A field twice, a field that is missing and reads as NULL, and edits of other fields. -/
theorem keyOf_edited_row_repeated :
    let grouping := byFields ["k", "d", "k"]
    let row := Row.ofFields [("n", .integer 1), ("k", .text "a")]
    let shown := Row.ofFields [("k", .text "a"), ("d", .null)]
    let edits : List Row.Edit := [.set "k2" (.integer 1), .remove "n", .set "K" .null, .remove "k2"]
    (grouping.keyOf row).row = shown ∧
      edits.foldl Row.Edit.apply shown = Row.ofFields [("k", .text "a"), ("d", .null), ("K", .null)] ∧
      (∀ edit ∈ edits, edit.field ∉ ["k", "d", "k"]) ∧
      grouping.keyOf (edits.foldl Row.Edit.apply (grouping.keyOf row).row) = grouping.keyOf row := by
  intro grouping row shown edits
  have apart : ∀ edit ∈ edits, edit.field ∉ ["k", "d", "k"] := by
    simp [edits, Row.Edit.field]
  exact ⟨by decide +kernel, by decide +kernel, apart,
    keyOf_edited_row ["k", "d", "k"] row edits apart⟩

/-- Grouping by fields is stable as long as none of them is written into. -/
theorem stable_byFields {fields outputs : List String} (rows : List Row)
    (apart : ∀ output ∈ outputs, output ∉ fields) : (byFields fields).Stable outputs rows := by
  intro row _ written into
  have same : fieldsKey fields ((fieldsKey fields row).row.setAll written) = fieldsKey fields row :=
    fieldsKey_setAll fun field member => apart _ (into field member)
  exact congrArg GroupKey.id same

end Grouping

end RowQuery
