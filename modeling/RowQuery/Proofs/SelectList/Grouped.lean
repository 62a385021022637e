import Mathlib.Data.List.Forall2
import Mathlib.Data.List.Nodup
import RowQuery.Formats.Standard
import RowQuery.Proofs.SelectList.Run

/-!
# Grouped evaluation is ungrouped evaluation, group by group

A grouped list gives one row for each group that one of its aggregate calls heeds. The row shows the
key of the group and, of the one row that the list gives without grouping for the rows of the group
alone, the results of the calls that heed the group (`execute_withGrouping_some`).
-/

namespace RowQuery.SelectList

open Progress (Gathered Merged keyOf? resultsOf rowOf? idsOf)

section
variable (list : SelectList) (grouping : Grouping) (rows : List Row) (id : String)

/-- The groups that some call heeds, by the first such call and the first such row. -/
def groupIds : List String :=
  ((list.calls.flatMap fun call => rows.filter call.1.heeds).map fun row =>
    (grouping.keyOf row).id).eraseDups

/-- The row that a group has its key from: the first that the earliest call heeds. -/
def founder? : Option Row :=
  list.calls.findSome? fun call => (grouping.group id rows).find? call.1.heeds

/-- The fields of the calls that heed a group. -/
def groupOutputs : List String :=
  (list.calls.filter fun call => (grouping.group id rows).any call.1.heeds).map Prod.snd

end

section
variable [Formats] [Hashing] (list : SelectList) (grouping : Grouping) (rows : List Row)
  (id : String)

/-- The row that a list gives without grouping. It has a field for each aggregate call, with what
the call gives in a list of its own. -/
def GivesAlone (alone : Row) : Prop :=
  ((list.withGrouping none).execute rows).1 = .ok ⟨[alone]⟩ ∧ alone.names = list.outputs ∧
    ∀ e ∈ list.expressions, e.isAggregate = true → ∃ single : Row,
      ((ofExpressions [e]).execute rows).1 = .ok ⟨[single]⟩ ∧
        single.fields = alone.fields.filter fun field => field.1 = e.output

/-- The row of a group: the key, and what the calls that heed the group give for its rows alone. -/
def IsGroupRow (row : Row) : Prop :=
  ∃ founder alone, list.founder? grouping rows id = some founder ∧
    list.GivesAlone (grouping.group id rows) alone ∧
    row.fields = (grouping.keyOf founder).row.fields ++
      alone.fields.filter fun field => field.1 ∈ list.groupOutputs grouping rows id

end

section
variable {list : SelectList} {grouping : Grouping} {rows : List Row} {id : String}

/-- The columns of a grouped list. -/
def columns [Hashing] (list : SelectList) (grouping : Grouping) (rows : List Row) :
    List (String × GroupTable) :=
  list.calls.map fun call => (call.2, (run (some grouping) rows call.1).groups)

/-- The results that an ungrouped list gives. -/
def totals [Hashing] (list : SelectList) (rows : List Row) : List Field :=
  list.calls.map fun call => (call.2,
    ((run none rows call.1).total.getD (.start call.1.function)).accumulator.result)

theorem gathered_run [Hashing] {call : AggregateCall}
    (passed : (Progress.start.addAll call (some grouping) rows).1 = .ok ()) :
    Gathered call grouping rows (run (some grouping) rows call) := by
  have ran : Progress.start.addAll call (some grouping) rows =
      (.ok (), run (some grouping) rows call) := Prod.ext passed rfl
  exact Progress.gathered_start.addAll ran

/-- What is needed of a column for the groups of its rows to be told. -/
def Tells (list : SelectList) (grouping : Grouping) (rows : List Row)
    (column : String × GroupTable) : Prop :=
  column.1 ∈ list.outputs ∧
    ∀ group ∈ column.2.groups, ∃ row ∈ rows, group.key = grouping.keyOf row

theorem tells_columns [Hashing] (gathered : ∀ call ∈ list.calls,
      Gathered call.1 grouping rows (run (some grouping) rows call.1)) :
    ∀ column ∈ list.columns grouping rows, Tells list grouping rows column := by
  intro column member
  obtain ⟨call, listed, rfl⟩ := List.mem_map.mp member
  refine ⟨List.mem_map_of_mem listed, fun group here => ?_⟩
  have key := (gathered call listed).key group.key.id
  rw [GroupTable.group?_of_mem here] at key
  obtain ⟨row, found, same⟩ := Option.map_eq_some_iff.mp key.symm
  have of_group := List.mem_of_find?_eq_some found
  exact ⟨row, (List.mem_filter.mp of_group).1, same.symm⟩

theorem id_of_rowOf?_of_stable {outputs : List String} (stable : grouping.Stable outputs rows)
    {columns : List (String × GroupTable)} (written : ∀ column ∈ columns, column.1 ∈ outputs)
    (keys : ∀ column ∈ columns, ∀ group ∈ column.2.groups, ∃ row ∈ rows,
      group.key = grouping.keyOf row) {row : Row}
    (found : rowOf? columns id = some row) : (grouping.keyOf row).id = id := by
  obtain ⟨key, shown, rfl⟩ := Option.map_eq_some_iff.mp found
  obtain ⟨column, member, first⟩ := List.exists_of_findSome?_eq_some shown
  obtain ⟨group, here, rfl⟩ := Option.map_eq_some_iff.mp first
  obtain ⟨source, listed, same⟩ := keys column member group (List.mem_of_find?_eq_some here)
  have into : ∀ field ∈ resultsOf columns id, field.1 ∈ outputs := by
    intro field result
    obtain ⟨other, there, shown⟩ := List.mem_filterMap.mp result
    obtain ⟨_, _, rfl⟩ := Option.map_eq_some_iff.mp shown
    exact written other there
  rw [same, stable source listed _ into, ← same]
  exact GroupTable.id_of_find here

theorem id_of_rowOf? (stable : grouping.Stable list.outputs rows)
    {columns : List (String × GroupTable)}
    (tells : ∀ column ∈ columns, Tells list grouping rows column) {row : Row}
    (found : rowOf? columns id = some row) : (grouping.keyOf row).id = id :=
  id_of_rowOf?_of_stable stable (fun column member => (tells column member).1)
    (fun column member => (tells column member).2) found

theorem idsOf_columns [Hashing] (gathered : ∀ call ∈ list.calls,
      Gathered call.1 grouping rows (run (some grouping) rows call.1)) :
    idsOf (list.columns grouping rows) = list.groupIds grouping rows := by
  rw [idsOf, columns, groupIds, List.flatMap_map, List.map_flatMap]
  refine Eq.trans ?_ (eraseDups_flatMap _ _)
  exact congrArg List.eraseDups (List.flatMap_congr fun call listed => (gathered call listed).ids)

theorem keyOf?_columns [Hashing] (gathered : ∀ call ∈ list.calls,
      Gathered call.1 grouping rows (run (some grouping) rows call.1)) :
    keyOf? (list.columns grouping rows) id =
      (list.founder? grouping rows id).map grouping.keyOf := by
  rw [keyOf?, columns, founder?, List.findSome?_map, List.map_findSome?, ← List.head?_filterMap,
    ← List.head?_filterMap]
  exact congrArg List.head? (List.filterMap_congr fun call listed => (gathered call listed).key id)

theorem mem_groupOutputs {call : AggregateCall × String} (distinct : list.outputs.Nodup)
    (listed : call ∈ list.calls) : call.2 ∈ list.groupOutputs grouping rows id ↔
      ((grouping.group id rows).find? call.1.heeds).isSome := by
  rw [List.find?_isSome, ← List.any_eq_true]
  constructor
  · intro written
    obtain ⟨other, member, same⟩ := List.mem_map.mp written
    obtain ⟨there, heeds⟩ := List.mem_filter.mp member
    rwa [List.inj_on_of_nodup_map distinct there listed same] at heeds
  · intro heeds
    exact List.mem_map_of_mem (List.mem_filter.mpr ⟨listed, heeds⟩)

theorem resultsOf_columns [Hashing] (gathered : ∀ call ∈ list.calls,
      Gathered call.1 grouping rows (run (some grouping) rows call.1))
    (distinct : list.outputs.Nodup) :
    resultsOf (list.columns grouping rows) id =
      (list.totals (grouping.group id rows)).filter fun field =>
        field.1 ∈ list.groupOutputs grouping rows id := by
  rw [resultsOf, columns, List.filterMap_map, totals, ← List.filterMap_eq_filter,
    List.filterMap_map]
  apply List.filterMap_congr
  intro call listed
  obtain ⟨alone, ran, same⟩ := (gathered call listed).scope id
  have key := (gathered call listed).key id
  have written : call.2 ∈ list.groupOutputs grouping rows id ↔ alone.total.isSome := by
    rw [mem_groupOutputs distinct listed, same, GroupTable.scope?, Option.isSome_map,
      ← Option.isSome_map (f := grouping.keyOf), ← key, Option.isSome_map]
  have after : run none (grouping.group id rows) call.1 = alone := by rw [run, ran]
  simp only [Function.comp_apply, after, Option.guard, written]
  rw [← same]
  cases alone.total <;> simp

theorem execute_withGrouping_none [Formats] [Hashing] (aggregate : list.hasAggregates = true)
    (passed : ∀ call ∈ list.calls, (Progress.start.addAll call.1 none rows).1 = .ok ()) :
    ((list.withGrouping none).execute rows).1 =
      .ok ⟨[Row.empty.setAll (list.totals rows)]⟩ := by
  refine (execute_eq_ok_iff aggregate none).mpr ⟨(absorbAll_eq_ok_iff none).mpr passed, ?_⟩
  rw [finishItems_empty (fun item => mem_itemsAfter)
    (exists_aggregate_itemsAfter aggregate none rows), totalsOf_itemsAfter, totals]

theorem names_totals [Hashing] : (list.totals rows).map Prod.fst = list.outputs := by
  rw [totals, outputs, List.map_map]
  rfl

theorem fields_totals [Hashing] (distinct : list.outputs.Nodup) :
    (Row.empty.setAll (list.totals rows)).fields = list.totals rows := by
  apply Row.fields_setAll
  rw [names_totals]
  exact distinct

theorem filter_eq_singleton {calls : List (AggregateCall × String)}
    {call : AggregateCall × String} (distinct : (calls.map Prod.snd).Nodup)
    (listed : call ∈ calls) : calls.filter (fun other => other.2 = call.2) = [call] := by
  induction calls with
  | nil => cases listed
  | cons first others ih =>
      obtain ⟨new, distinct⟩ := List.nodup_cons.mp distinct
      cases listed with
      | head =>
          have gone : others.filter (fun other => other.2 = call.2) = [] := by
            rw [List.filter_eq_nil_iff]
            intro other later same
            exact new (List.mem_map.mpr ⟨other, later, by simpa using same⟩)
          rw [List.filter_cons_of_pos (by simp), gone]
      | tail _ later =>
          have other : ¬ first.2 = call.2 := by
            intro same
            exact new (List.mem_map.mpr ⟨call, later, same.symm⟩)
          rw [List.filter_cons_of_neg (by simpa using other), ih distinct later]

theorem calls_single {e : Expression} {call : AggregateCall} (called : e.call? = some call) :
    (ofExpressions [e]).calls = [(call, e.output)] := by
  simp [calls, expressions, ofExpressions, SelectItem.ofExpression, called]

theorem hasAggregates_single {e : Expression} {call : AggregateCall}
    (called : e.call? = some call) : (ofExpressions [e]).hasAggregates = true := by
  simp [hasAggregates, ofExpressions, SelectItem.ofExpression, SelectItem.isAggregate,
    Expression.isAggregate, called]

theorem givesAlone_totals [Formats] [Hashing] (aggregate : list.hasAggregates = true)
    (passed : ∀ call ∈ list.calls, (Progress.start.addAll call.1 none rows).1 = .ok ())
    (distinct : list.outputs.Nodup) :
    list.GivesAlone rows (Row.empty.setAll (list.totals rows)) := by
  refine ⟨execute_withGrouping_none aggregate passed, ?_, fun e listed aggregates => ?_⟩
  · rw [Row.names, fields_totals distinct, names_totals]
  · obtain ⟨call, called⟩ := Option.isSome_iff_exists.mp aggregates
    have member : (call, e.output) ∈ list.calls := by
      refine List.mem_filterMap.mpr ⟨e, listed, ?_⟩
      rw [called]
      rfl
    have single_calls := calls_single called
    have single_aggregate := hasAggregates_single called
    have single_passed : ∀ call ∈ (ofExpressions [e]).calls,
        (Progress.start.addAll call.1 none rows).1 = .ok () := by
      rw [single_calls, List.forall_mem_singleton]
      exact passed _ member
    have single_distinct : (ofExpressions [e]).outputs.Nodup := by
      simp [outputs, single_calls]
    refine ⟨_, execute_withGrouping_none single_aggregate single_passed, ?_⟩
    rw [fields_totals distinct, fields_totals single_distinct, totals, totals, single_calls,
      List.filter_map]
    have only := filter_eq_singleton distinct member
    simp only [Function.comp_def, only]

theorem isGroupRow_of_rowOf? [Formats] [Hashing] (aggregate : list.hasAggregates = true)
    (gathered : ∀ call ∈ list.calls,
      Gathered call.1 grouping rows (run (some grouping) rows call.1))
    (distinct : list.outputs.Nodup)
    (apart : ∀ row ∈ rows, ∀ output ∈ list.outputs, output ∉ (grouping.keyOf row).row.names)
    {row : Row} (found : rowOf? (list.columns grouping rows) id = some row) :
    list.IsGroupRow grouping rows id row := by
  obtain ⟨key, shown, rfl⟩ := Option.map_eq_some_iff.mp found
  rw [keyOf?_columns gathered] at shown
  obtain ⟨founder, first, rfl⟩ := Option.map_eq_some_iff.mp shown
  have passed : ∀ call ∈ list.calls,
      (Progress.start.addAll call.1 none (grouping.group id rows)).1 = .ok () := by
    intro call listed
    obtain ⟨alone, ran, -⟩ := (gathered call listed).scope id
    rw [ran]
  refine ⟨founder, _, first, givesAlone_totals aggregate passed distinct, ?_⟩
  · rw [fields_totals distinct, ← resultsOf_columns gathered distinct]
    have names : List.Sublist (((list.totals (grouping.group id rows)).filter fun field =>
        field.1 ∈ list.groupOutputs grouping rows id).map Prod.fst) list.outputs := by
      exact names_totals ▸ List.filter_sublist.map Prod.fst
    have source : founder ∈ rows := by
      obtain ⟨call, -, found⟩ := List.exists_of_findSome?_eq_some first
      exact (List.mem_filter.mp (List.mem_of_find?_eq_some found)).1
    have shown := (grouping.keyOf founder).row.distinct
    refine Row.fields_setAll (List.nodup_append.mpr ⟨shown, ?_, ?_⟩)
    · rw [resultsOf_columns gathered distinct]
      exact List.Nodup.sublist names distinct
    · rw [resultsOf_columns gathered distinct]
      rintro name known output written rfl
      exact apart founder source name (names.subset written) known

theorem execute_withGrouping_some [Formats] [Hashing] {result : ResultSet}
    (aggregate : list.hasAggregates = true)
    (succeeded : ((list.withGrouping (some grouping)).execute rows).1 = .ok result)
    (stable : grouping.Stable list.outputs rows) (distinct : list.outputs.Nodup)
    (apart : ∀ row ∈ rows, ∀ output ∈ list.outputs, output ∉ (grouping.keyOf row).row.names) :
    List.Forall₂ (list.IsGroupRow grouping rows) (list.groupIds grouping rows) result.rows ∧
      ∀ fields, (∀ output ∈ list.outputs, output ∉ fields) →
        (Grouping.byFields fields).Stable list.outputs rows := by
  obtain ⟨all, rfl⟩ := (execute_eq_ok_iff aggregate (some grouping)).mp succeeded
  have passed := (absorbAll_eq_ok_iff (some grouping)).mp all
  have gathered : ∀ call ∈ list.calls,
      Gathered call.1 grouping rows (run (some grouping) rows call.1) :=
    fun call listed => gathered_run (passed call listed)
  have sound : ∀ column ∈ [] ++ columnsOf (list.itemsAfter (some grouping) rows),
      Tells list grouping rows column := by
    rw [List.nil_append, columnsOf_itemsAfter]
    exact tells_columns gathered
  -- Each call ends on the result of those before it; `Merged` is what every end keeps.
  have merged := finishItems_merged (fun columns tells id row => id_of_rowOf? stable tells)
    (fun item => mem_itemsAfter) sound Progress.merged_empty
  rw [List.nil_append, columnsOf_itemsAfter] at merged
  have aligned : (list.groupIds grouping rows).map (rowOf? (list.columns grouping rows)) =
      (finishItems (list.itemsAfter (some grouping) rows) .empty).1.rows.map some := by
    rw [← idsOf_columns gathered]
    exact merged.rows.symm
  have equal := List.forall₂_eq_eq_eq ▸ aligned
  have related := List.forall₂_map_left_iff.mp (List.forall₂_map_right_iff.mp equal)
  refine ⟨?_, fun fields => Grouping.stable_byFields rows⟩
  exact related.imp fun id row => isGroupRow_of_rowOf? aggregate gathered distinct apart

end

open scoped Formats Hashing in
/-- One group is met first by the second row, one only by the call over whole rows. -/
theorem execute_withGrouping_some_teams :
    let list := ofExpressions [⟨.aggregate ⟨.max, "n", false, .coerce⟩, "top", rfl⟩,
      ⟨.aggregate ⟨.count, "*", false, .coerce⟩, "", rfl⟩]
    let rows := [Row.ofFields [("team", .text "a"), ("n", .null)],
      Row.ofFields [("team", .text "b"), ("n", .integer 5)], Row.ofFields [("team", .text "c")],
      Row.ofFields [("team", .text "a"), ("n", .integer 7)]]
    let grouped := [Row.ofFields [("team", .text "b"), ("top", .integer 5), ("count", .integer 1)],
      Row.ofFields [("team", .text "a"), ("top", .integer 7), ("count", .integer 2)],
      Row.ofFields [("team", .text "c"), ("count", .integer 1)]]
    List.Forall₂ (list.IsGroupRow (.byFields ["team"]) rows) ["s1:b|", "s1:a|", "s1:c|"]
      grouped := by
  intro list rows grouped
  have succeeded : ((list.withGrouping (some (.byFields ["team"]))).execute rows).1 =
      .ok ⟨grouped⟩ := rfl
  have apart : ∀ output ∈ list.outputs, output ∉ ["team"] := by decide +kernel
  exact (execute_withGrouping_some rfl succeeded (Grouping.stable_byFields rows apart)
    (by decide +kernel) (by decide +kernel)).1

end RowQuery.SelectList
