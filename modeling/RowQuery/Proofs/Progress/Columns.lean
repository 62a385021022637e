import RowQuery.Proofs.Progress.Merge
import RowQuery.Proofs.Row

/-!
# The results of several calls in one result set

Each grouped call writes a column: a field, and a value for each of its groups. After some columns
there is one row for each group of any of them, in the order in which the groups appear. It shows
the key from the first column that has the group, and the value from each that has it (`Merged`).
The step is `Merged.merge`; it asks of the rows that their groups can be told from them.
-/

namespace RowQuery

/-! ## First appearances -/

theorem eraseDups_append_singleton (ids : List String) (id : String) :
    (ids ++ [id]).eraseDups = if id ∈ ids then ids.eraseDups else ids.eraseDups ++ [id] := by
  rw [List.eraseDups_append]
  by_cases known : id ∈ ids
  · simp [List.removeAll, known]
  · simp [List.removeAll, known, List.eraseDups_cons]

theorem nodup_eraseDups (ids : List String) : ids.eraseDups.Nodup := by
  induction size : ids.length using Nat.strongRecOn generalizing ids with
  | ind n ih =>
      cases ids with
      | nil => exact List.nodup_nil
      | cons id ids =>
          have shorter : (ids.filter fun other => !other == id).length < n := by
            have bound := List.length_filter_le (fun other => !other == id) ids
            simp only [List.length_cons] at size
            omega
          rw [List.eraseDups_cons, List.nodup_cons]
          exact ⟨by simp, ih _ shorter _ rfl⟩

theorem eraseDups_filter (test : String → Bool) (ids : List String) :
    (ids.filter test).eraseDups = ids.eraseDups.filter test := by
  induction size : ids.length using Nat.strongRecOn generalizing ids with
  | ind n ih =>
      cases ids with
      | nil => rfl
      | cons id ids =>
          have shorter : (ids.filter fun other => !other == id).length < n := by
            have bound := List.length_filter_le (fun other => !other == id) ids
            simp only [List.length_cons] at size
            omega
          have others := ih _ shorter _ rfl
          rw [List.eraseDups_cons]
          by_cases kept : test id = true
          · rw [List.filter_cons_of_pos kept, List.filter_cons_of_pos kept, List.eraseDups_cons,
              ← others, List.filter_filter, List.filter_filter]
            simp only [Bool.and_comm]
          · rw [List.filter_cons_of_neg kept, List.filter_cons_of_neg kept, ← others,
              List.filter_filter]
            congr 1
            apply List.filter_congr
            intro other _
            by_cases same : other = id
            · simp [same, kept]
            · simp [same]

theorem eraseDups_flatMap {α : Type} (list : List α) (ids : α → List String) :
    (list.flatMap fun x => (ids x).eraseDups).eraseDups = (list.flatMap ids).eraseDups := by
  induction list with
  | nil => rfl
  | cons x rest ih =>
      rw [List.flatMap_cons, List.flatMap_cons, List.eraseDups_append, List.eraseDups_append,
        eraseDups_of_nodup (nodup_eraseDups _)]
      simp only [List.removeAll, eraseDups_filter, ih, List.elem_eq_mem, List.mem_eraseDups]

namespace Progress

variable {grouping : Grouping} {result : ResultSet}

/-! ## Columns -/

section
variable (columns : List (String × GroupTable)) (id : String)

/-- The ids of all groups in the order of their first appearances. -/
def idsOf : List String :=
  (columns.flatMap fun column => column.2.ids).eraseDups

/-- The key of a group, from the first column that has the group. -/
def keyOf? : Option GroupKey :=
  columns.findSome? fun column => (column.2.group? id).map Group.key

/-- The results of a group, one from each column that has the group. -/
def resultsOf : List Field :=
  columns.filterMap fun column =>
    (column.2.scope? id).map fun scope => (column.1, scope.accumulator.result)

/-- The row of a group. -/
def rowOf? : Option Row :=
  (keyOf? columns id).map fun key => key.row.setAll (resultsOf columns id)

end

/-- A result set with the results of some columns. -/
structure Merged (grouping : Grouping) (columns : List (String × GroupTable))
    (result : ResultSet) : Prop where
  ids : result.ids grouping = idsOf columns
  rows : result.rows.map some = (idsOf columns).map (rowOf? columns)

section
variable {columns : List (String × GroupTable)} {field : String} {table : GroupTable} {id : String}

theorem isSome_keyOf? : (keyOf? columns id).isSome ↔ id ∈ idsOf columns := by
  simp only [keyOf?, List.findSome?_isSome_iff, Option.isSome_map, GroupTable.isSome_group?, idsOf,
    List.mem_eraseDups, List.mem_flatMap]

theorem isSome_rowOf? : (rowOf? columns id).isSome ↔ id ∈ idsOf columns := by
  rw [rowOf?, Option.isSome_map, isSome_keyOf?]

theorem idsOf_append : idsOf (columns ++ [(field, table)]) =
    idsOf columns ++ (table.ids.filter fun id => id ∉ idsOf columns) := by
  have others : table.ids.removeAll (columns.flatMap fun column => column.2.ids) =
      table.ids.filter fun id => id ∉ idsOf columns := by
    simp only [List.removeAll, idsOf, List.mem_eraseDups, List.elem_eq_mem, decide_not]
  have distinct : (table.ids.filter fun id => id ∉ idsOf columns).Nodup :=
    List.Nodup.sublist List.filter_sublist table.distinct
  rw [idsOf, List.flatMap_append, List.eraseDups_append]
  simp only [List.flatMap_cons, List.flatMap_nil, List.append_nil]
  rw [others, eraseDups_of_nodup distinct, idsOf]

theorem resultsOf_eq_nil (new : keyOf? columns id = none) : resultsOf columns id = [] := by
  rw [keyOf?, List.findSome?_eq_none_iff] at new
  rw [resultsOf, List.filterMap_eq_nil_iff]
  intro column member
  have missing := new column member
  rw [Option.map_eq_none_iff] at missing
  rw [GroupTable.scope?, missing]
  rfl

theorem rowOf?_append : rowOf? (columns ++ [(field, table)]) id =
    ((rowOf? columns id).map fun row => (table.group? id).elim row (settle field · row)).or
      ((table.group? id).map fun group => settle field group group.key.row) := by
  have keys : keyOf? (columns ++ [(field, table)]) id =
      (keyOf? columns id).or ((table.group? id).map Group.key) := by
    simp [keyOf?, List.findSome?_append]
  have results : resultsOf (columns ++ [(field, table)]) id = resultsOf columns id ++
      ((table.group? id).map fun group => (field, group.scope.accumulator.result)).toList := by
    cases found : table.group? id <;> simp [resultsOf, GroupTable.scope?, found]
  rw [rowOf?, rowOf?, keys, results]
  cases known : keyOf? columns id with
  | none => cases table.group? id <;> simp [resultsOf_eq_nil known, settle, Row.setAll]
  | some key => cases table.group? id <;> simp [settle, Row.setAll]

theorem merged_empty : Merged grouping [] .empty :=
  ⟨rfl, rfl⟩

theorem ids_of_rows {ids : List String} {rows : List Row} {rowAt : String → Option Row}
    (aligned : rows.map some = ids.map rowAt)
    (tell : ∀ id row, rowAt id = some row → (grouping.keyOf row).id = id) :
    rows.map (fun row => (grouping.keyOf row).id) = ids := by
  induction rows generalizing ids with
  | nil => exact (List.map_eq_nil_iff.mp aligned.symm).symm
  | cons row rows ih =>
      obtain ⟨id, ids, rfl, first, others⟩ := List.map_eq_cons_iff.mp aligned.symm
      rw [List.map_cons, tell id row first, ih others.symm]

theorem Merged.rows_merge (merged : Merged grouping columns result) :
    (merge grouping field table.groups result).rows.map some =
      (idsOf (columns ++ [(field, table)])).map (rowOf? (columns ++ [(field, table)])) := by
  rw [Progress.rows_merge, merged.ids, List.map_append, idsOf_append, List.map_append]
  congr 1
  · apply List.ext_getElem?
    intro j
    have aligned := congrArg (·[j]?) merged.rows
    simp only [List.getElem?_map, List.getElem?_mapIdx] at aligned ⊢
    cases at_id : (idsOf columns)[j]? with
    | none =>
        rw [at_id] at aligned
        rw [Option.map_eq_none_iff.mp aligned]
        rfl
    | some id =>
        rw [at_id] at aligned
        obtain ⟨row, at_row, same⟩ := Option.map_eq_some_iff.mp aligned
        have group : groupAt? (idsOf columns) table.groups j = table.group? id :=
          groupAt?_eq_find (nodup_eraseDups _) at_id
        rw [at_row]
        simp only [Option.map_some, rowOf?_append, ← same, Option.some_or, group]
  · have of_ids : (table.ids.filter fun id => id ∉ idsOf columns) =
        (table.groups.filter fun group => group.key.id ∉ idsOf columns).map
          fun group => group.key.id := by
      rw [GroupTable.ids, List.filter_map]
      rfl
    rw [of_ids, List.map_map, List.map_map]
    apply List.map_congr_left
    intro group member
    obtain ⟨member, new⟩ := List.mem_filter.mp member
    have unknown : rowOf? columns group.key.id = none := by
      rw [← Option.not_isSome_iff_eq_none, isSome_rowOf?]
      simpa using new
    simp [rowOf?_append, unknown, GroupTable.group?_of_mem member]

theorem Merged.merge (merged : Merged grouping columns result)
    (tell : ∀ id row, rowOf? (columns ++ [(field, table)]) id = some row →
      (grouping.keyOf row).id = id) :
    Merged grouping (columns ++ [(field, table)]) (merge grouping field table.groups result) where
  ids := ids_of_rows merged.rows_merge tell
  rows := merged.rows_merge

end

end Progress

end RowQuery
