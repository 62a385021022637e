import RowQuery.Formats.Standard
import RowQuery.Proofs.SelectList.Grouped

/-!
# One row for each group

Every aggregate call but the first finds the row of a group by the key that the row shows. A call
that writes into a grouping field hides the key from the calls after it, so the rows are those of
the groups as long as only the last call does so (`execute_byFields_rows`).
-/

namespace RowQuery.SelectList

open Progress (Gathered Merged rowOf? idsOf keyOf? resultsOf)

variable {list : SelectList} {grouping : Grouping} {rows : List Row} {id : String}

/-! ## The last call -/

theorem finishItems_of_no_columns {items : List SelectItem} (plain : columnsOf items = [])
    (result : ResultSet) : (finishItems items result).1 = result := by
  induction items generalizing result with
  | nil => rfl
  | cons item rest ih =>
      rw [finishItems_cons]
      cases called : item.expression.call? with
      | none =>
          rw [finish_of_no_call called]
          apply ih
          simpa [columnsOf, called] using plain
      | some call => simp [columnsOf, called] at plain

/-- What the last call writes is not looked at by any other. -/
theorem finishItems_rows (sound : String × GroupTable → Prop)
    (tell : ∀ columns, (∀ column ∈ columns, sound column) → ∀ id row,
      rowOf? columns id = some row → (grouping.keyOf row).id = id)
    {items : List SelectItem} {columns : List (String × GroupTable)} {result : ResultSet}
    (grouped : ∀ item ∈ items, item.grouping = some grouping)
    (all : ∀ column ∈ columns ++ (columnsOf items).dropLast, sound column)
    (merged : Merged grouping columns result) :
    (finishItems items result).1.rows.map some =
      (idsOf (columns ++ columnsOf items)).map (rowOf? (columns ++ columnsOf items)) := by
  induction items generalizing columns result with
  | nil => simpa [columnsOf, finishItems] using merged.rows
  | cons item rest ih =>
      obtain ⟨here, later⟩ := List.forall_mem_cons.mp grouped
      rw [finishItems_cons]
      cases called : item.expression.call? with
      | none =>
          have skip : columnsOf (item :: rest) = columnsOf rest := by simp [columnsOf, called]
          rw [skip] at all ⊢
          rw [finish_of_no_call called]
          exact ih later all merged
      | some call =>
          have added : columnsOf (item :: rest) =
              (item.expression.output, item.progress.groups) :: columnsOf rest := by
            simp [columnsOf, called]
          rw [added] at all ⊢
          rw [finish_of_call called, here]
          by_cases last : columnsOf rest = []
          · rw [finishItems_of_no_columns last, last]
            exact merged.rows_merge
          · rw [List.dropLast_cons_of_ne_nil last, List.append_cons] at all
            rw [List.append_cons]
            apply ih later all
            apply merged.merge
            intro id row
            apply tell
            intro column member
            exact all column (List.mem_append_left _ member)

/-! ## The rows of a list -/

/-- What the calls that heed a group give for its rows. -/
def groupResults [Hashing] (list : SelectList) (grouping : Grouping) (rows : List Row)
    (id : String) : List Field :=
  let group := grouping.group id rows
  (list.calls.filter fun call => group.any call.1.heeds).map fun call =>
    (call.2, ((run none group call.1).total.getD (.start call.1.function)).accumulator.result)

/-- The row of a group: its key, and on it the results of the calls that heed the group, those with
one field over each other. -/
def ShowsGroup [Hashing] (list : SelectList) (grouping : Grouping) (rows : List Row) (id : String)
    (row : Row) : Prop :=
  ∃ founder, list.founder? grouping rows id = some founder ∧
    row = (grouping.keyOf founder).row.setAll (list.groupResults grouping rows id)

theorem resultsOf_columns_eq_groupResults [Hashing] (gathered : ∀ call ∈ list.calls,
      Gathered call.1 grouping rows (run (some grouping) rows call.1)) :
    resultsOf (list.columns grouping rows) id = list.groupResults grouping rows id := by
  rw [resultsOf, columns, List.filterMap_map, groupResults, ← List.filterMap_eq_filter,
    List.map_filterMap]
  apply List.filterMap_congr
  intro call listed
  obtain ⟨alone, ran, same⟩ := (gathered call listed).scope id
  have key := (gathered call listed).key id
  have heeded : (grouping.group id rows).any call.1.heeds = alone.total.isSome := by
    rw [same, GroupTable.scope?, Option.isSome_map, ← Option.isSome_map (f := Group.key), key,
      Option.isSome_map, Bool.eq_iff_iff, List.find?_isSome, List.any_eq_true]
  have after : run none (grouping.group id rows) call.1 = alone := by rw [run, ran]
  simp only [Function.comp_apply, Option.guard, heeded]
  rw [← same]
  cases total : alone.total <;> simp [after, total]

theorem showsGroup_of_rowOf? [Hashing] (gathered : ∀ call ∈ list.calls,
      Gathered call.1 grouping rows (run (some grouping) rows call.1)) {row : Row}
    (found : rowOf? (list.columns grouping rows) id = some row) :
    list.ShowsGroup grouping rows id row := by
  obtain ⟨key, shown, rfl⟩ := Option.map_eq_some_iff.mp found
  rw [keyOf?_columns gathered] at shown
  obtain ⟨founder, first, rfl⟩ := Option.map_eq_some_iff.mp shown
  refine ⟨founder, first, ?_⟩
  rw [resultsOf_columns_eq_groupResults gathered]

/-- The rows of a list whose calls but the last leave the key alone. -/
theorem forall₂_showsGroup [Formats] [Hashing] {result : ResultSet}
    (aggregate : list.hasAggregates = true)
    (succeeded : ((list.withGrouping (some grouping)).execute rows).1 = .ok result)
    (stable : grouping.Stable list.outputs.dropLast rows) :
    List.Forall₂ (list.ShowsGroup grouping rows) (list.groupIds grouping rows) result.rows := by
  obtain ⟨all, rfl⟩ := (execute_eq_ok_iff aggregate _).mp succeeded
  have passed := (absorbAll_eq_ok_iff _).mp all
  have gathered : ∀ call ∈ list.calls,
      Gathered call.1 grouping rows (run (some grouping) rows call.1) :=
    fun call listed => gathered_run (passed call listed)
  let sound (column : String × GroupTable) : Prop :=
    column.1 ∈ list.outputs.dropLast ∧
      ∀ group ∈ column.2.groups, ∃ row ∈ rows, group.key = grouping.keyOf row
  have outputs : (list.columns grouping rows).map Prod.fst = list.outputs := by
    rw [columns, SelectList.outputs, List.map_map]
    rfl
  have earlier : ∀ column ∈ (list.columns grouping rows).dropLast, sound column := by
    intro column member
    constructor
    · rw [← outputs, ← List.map_dropLast]
      exact List.mem_map_of_mem member
    · exact (tells_columns gathered column (List.dropLast_subset _ member)).2
  have written := finishItems_rows sound
    (fun columns told id row => id_of_rowOf?_of_stable stable
      (fun column member => (told column member).1) fun column member => (told column member).2)
    (fun item => mem_itemsAfter) (by rwa [List.nil_append, columnsOf_itemsAfter])
    Progress.merged_empty
  rw [List.nil_append, columnsOf_itemsAfter] at written
  have aligned : (list.groupIds grouping rows).map (rowOf? (list.columns grouping rows)) =
      (finishItems (list.itemsAfter (some grouping) rows) .empty).1.rows.map some := by
    rw [← idsOf_columns gathered]
    exact written.symm
  have equal := List.forall₂_eq_eq_eq ▸ aligned
  have related := List.forall₂_map_left_iff.mp (List.forall₂_map_right_iff.mp equal)
  exact related.imp fun id row => showsGroup_of_rowOf? gathered

/-- The rows of a call alone in its list. -/
theorem forall₂_showsGroup_single [Formats] [Hashing] {e : Expression} {call : AggregateCall}
    (called : e.call? = some call) {fields : List String} {result : ResultSet}
    (succeeded : (((ofExpressions [e]).withGrouping (some (.byFields fields))).execute rows).1 =
      .ok result) :
    List.Forall₂ ((ofExpressions [e]).ShowsGroup (.byFields fields) rows)
      ((rows.filter call.heeds).map fun row => ((Grouping.byFields fields).keyOf row).id).eraseDups
      result.rows := by
  have last : (ofExpressions [e]).outputs.dropLast = [] := by
    rw [outputs, calls_single called]
    rfl
  have shown := forall₂_showsGroup (hasAggregates_single called) succeeded
    (Grouping.stable_byFields rows (by simp [last]))
  rwa [groupIds, calls_single called, List.flatMap_singleton] at shown

theorem execute_byFields_rows [Formats] [Hashing] {fields : List String} {result : ResultSet}
    (aggregate : list.hasAggregates = true)
    (succeeded : ((list.withGrouping (some (.byFields fields))).execute rows).1 = .ok result)
    (apart : ∀ output ∈ list.outputs.dropLast, output ∉ fields) :
    result.rows.length = (list.groupIds (.byFields fields) rows).length ∧
      List.Forall₂ (list.ShowsGroup (.byFields fields) rows)
        (list.groupIds (.byFields fields) rows) result.rows := by
  have shown := forall₂_showsGroup aggregate succeeded (Grouping.stable_byFields rows apart)
  exact ⟨shown.length_eq.symm, shown⟩

open scoped Formats Hashing in
/-- The last call may write over the key, here of two groups with one count. -/
theorem execute_byFields_rows_last_over_key :
    let list := ofExpressions [⟨.aggregate ⟨.sum, "v", false, .coerce⟩, "", rfl⟩,
      ⟨.aggregate ⟨.count, "*", false, .coerce⟩, "k", rfl⟩]
    let rows := [Row.ofFields [("k", .text "a"), ("v", .integer 3)],
      Row.ofFields [("k", .text "b"), ("v", .null)]]
    let result : ResultSet := ⟨[Row.ofFields [("k", .integer 1), ("sum_v", .integer 3)],
      Row.ofFields [("k", .integer 1)]]⟩
    ((list.withGrouping (some (.byFields ["k"]))).execute rows).1 = .ok result ∧
      result.rows.length = (list.groupIds (.byFields ["k"]) rows).length ∧
      List.Forall₂ (list.ShowsGroup (.byFields ["k"]) rows)
        (list.groupIds (.byFields ["k"]) rows) result.rows := by
  intro list rows result
  have succeeded : ((list.withGrouping (some (.byFields ["k"]))).execute rows).1 = .ok result := rfl
  have apart : ∀ output ∈ list.outputs.dropLast, output ∉ ["k"] := by decide +kernel
  exact ⟨succeeded, execute_byFields_rows rfl succeeded apart⟩

open scoped Formats Hashing in
/-- A call before the last one may not: after `COUNT(*) AS k` the row of the group is not found. -/
theorem two_rows_for_one_group :
    let list := ofExpressions [⟨.aggregate ⟨.count, "*", false, .coerce⟩, "k", rfl⟩,
      ⟨.aggregate ⟨.sum, "v", false, .coerce⟩, "", rfl⟩]
    let rows := [Row.ofFields [("k", .text "a"), ("v", .integer 1)]]
    list.groupIds (.byFields ["k"]) rows = ["s1:a|"] ∧
      ((list.withGrouping (some (.byFields ["k"]))).execute rows).1 =
        .ok ⟨[Row.ofFields [("k", .integer 1)],
          Row.ofFields [("k", .text "a"), ("sum_v", .integer 1)]]⟩ :=
  ⟨by decide +kernel, rfl⟩

end RowQuery.SelectList
