import Mathlib.Data.List.Nodup
import RowQuery.Proofs.Progress.Merge
import RowQuery.Proofs.SelectItem.Reached

/-!
# What the end of a grouped call writes

The result of each group goes into one row, and no two into the same: into the first row that had
the id of the group before anything was written, or into a row of its own after all others. Nothing
else changes (`written_merge`). The groups come in the order in which their first rows came, and
none of them is left (`finish_written`).
-/

namespace RowQuery

namespace Progress

variable {grouping : Grouping} {field : String} {ids : List String} {groups : List Group}
  {group : Group} {index : Nat}

/-- The groups that no row has the id of. -/
def newGroups (ids : List String) (groups : List Group) : List Group :=
  groups.filter fun group => group.key.id ∉ ids

/-- Each of some groups has its result written into one row, and nothing else is written. -/
structure Written (grouping : Grouping) (field : String) (groups : List Group)
    (place : Group → Nat) (before after : ResultSet) : Prop where
  /-- After the rows that were there come those of new groups in order. -/
  appended : ∃ kept, kept.length = before.size ∧ after.rows =
    kept ++ (newGroups (before.ids grouping) groups).map fun group =>
      settle field group group.key.row
  /-- A group that is not new has its place at the first row with its id. -/
  first : ∀ group ∈ groups, group.key.id ∈ before.ids grouping →
    (before.ids grouping).idxOf? group.key.id = some (place group)
  /-- No row is written twice. -/
  apart : ∀ group ∈ groups, ∀ other ∈ groups, place group = place other → group = other
  /-- No result is lost. -/
  settled : ∀ group ∈ groups, after.rows[place group]? =
    some (settle field group (before.rows[place group]?.getD group.key.row))
  /-- A row that is not the place of a group stays. -/
  untouched : ∀ index, (∀ group ∈ groups, place group ≠ index) →
    after.rows[index]? = before.rows[index]?

/-! ## Places -/

/-- The index of the row of a group. -/
def placeOf (ids : List String) (groups : List Group) (group : Group) : Nat :=
  (ids.idxOf? group.key.id).getD (ids.length + (newGroups ids groups).idxOf group)

theorem placeOf_of_known (known : ids.idxOf? group.key.id = some index) :
    placeOf ids groups group = index := by
  rw [placeOf, known, Option.getD_some]

theorem placeOf_of_new (new : group.key.id ∉ ids) :
    placeOf ids groups group = ids.length + (newGroups ids groups).idxOf group := by
  rw [placeOf, List.idxOf?_eq_none_iff.mpr new, Option.getD_none]

theorem mem_newGroups (member : group ∈ groups) (new : group.key.id ∉ ids) :
    group ∈ newGroups ids groups :=
  List.mem_filter.mpr ⟨member, decide_eq_true new⟩

theorem lt_of_idxOf? {id : String} (known : ids.idxOf? id = some index) :
    ∃ within : index < ids.length, ids[index] = id := by
  obtain ⟨within, same, -⟩ := List.idxOf?_eq_some_iff.mp known
  exact ⟨within, same⟩

section
variable (distinct : (groups.map fun group => group.key.id).Nodup)
include distinct

theorem eq_of_id {other : Group} (member : group ∈ groups) (member' : other ∈ groups)
    (same : group.key.id = other.key.id) : group = other := by
  have found := GroupTable.find_of_mem member distinct
  rw [same, GroupTable.find_of_mem member' distinct] at found
  exact (Option.some_inj.mp found).symm

theorem groupAt?_of_known (member : group ∈ groups)
    (known : ids.idxOf? group.key.id = some index) : groupAt? ids groups index = some group := by
  have here : ids.idxOf? group.key.id == some index := by rw [known, beq_self_eq_true]
  cases found : groupAt? ids groups index with
  | none => exact absurd here (List.find?_eq_none.mp found group member)
  | some other =>
      have test := List.find?_some found
      have there : ids.idxOf? other.key.id = some index := beq_iff_eq.mp test
      obtain ⟨_, same⟩ := lt_of_idxOf? known
      obtain ⟨_, same'⟩ := lt_of_idxOf? there
      rw [eq_of_id distinct (List.mem_of_find?_eq_some found) member (same'.symm.trans same)]

theorem placeOf_inj {other : Group} (member : group ∈ groups) (member' : other ∈ groups)
    (same : placeOf ids groups group = placeOf ids groups other) : group = other := by
  cases known : ids.idxOf? group.key.id with
  | some index =>
      obtain ⟨within, at_index⟩ := lt_of_idxOf? known
      rw [placeOf_of_known known] at same
      cases known' : ids.idxOf? other.key.id with
      | some index' =>
          rw [placeOf_of_known known'] at same
          subst same
          obtain ⟨_, at_index'⟩ := lt_of_idxOf? known'
          exact eq_of_id distinct member member' (at_index.symm.trans at_index')
      | none =>
          rw [placeOf_of_new (List.idxOf?_eq_none_iff.mp known')] at same
          omega
  | none =>
      have new := List.idxOf?_eq_none_iff.mp known
      rw [placeOf_of_new new] at same
      cases known' : ids.idxOf? other.key.id with
      | some index =>
          obtain ⟨within, -⟩ := lt_of_idxOf? known'
          rw [placeOf_of_known known'] at same
          omega
      | none =>
          rw [placeOf_of_new (List.idxOf?_eq_none_iff.mp known')] at same
          exact (List.idxOf_inj (mem_newGroups member new)).mp (Nat.add_left_cancel same)

theorem placeOf_getElem_newGroups (within : index < (newGroups ids groups).length) :
    placeOf ids groups (newGroups ids groups)[index] = ids.length + index := by
  have member := List.getElem_mem within
  have new := of_decide_eq_true (List.mem_filter.mp member).2
  have nodup : (newGroups ids groups).Nodup :=
    List.Nodup.sublist List.filter_sublist (List.Nodup.of_map _ distinct)
  rw [placeOf_of_new new, nodup.idxOf_getElem]

end

/-! ## Rows -/

section
variable {result : ResultSet} (table : GroupTable)

theorem getElem?_rows_merge_of_lt (inside : index < result.size) :
    (merge grouping field table.groups result).rows[index]? = some
      ((groupAt? (result.ids grouping) table.groups index).elim result.rows[index]
        (settle field · result.rows[index])) := by
  rw [rows_merge, List.getElem?_append_left (by rwa [List.length_mapIdx]), List.getElem?_mapIdx,
    List.getElem?_eq_getElem inside]
  rfl

theorem getElem?_rows_merge_of_le (beyond : result.size ≤ index) :
    (merge grouping field table.groups result).rows[index]? =
      (newGroups (result.ids grouping) table.groups)[index - result.size]?.map fun group =>
        settle field group group.key.row := by
  rw [rows_merge, List.getElem?_append_right (by rwa [List.length_mapIdx]), List.length_mapIdx,
    ← newGroups, List.getElem?_map]
  rfl

end

theorem written_merge (table : GroupTable) (result : ResultSet) :
    Written grouping field table.groups (placeOf (result.ids grouping) table.groups) result
      (merge grouping field table.groups result) := by
  have sized : (result.ids grouping).length = result.size := List.length_map _
  constructor
  case appended =>
    exact ⟨_, List.length_mapIdx, rows_merge table⟩
  case first =>
    intro group _ known
    cases found : (result.ids grouping).idxOf? group.key.id with
    | none => exact absurd known (List.idxOf?_eq_none_iff.mp found)
    | some index => rw [placeOf_of_known found]
  case apart =>
    exact fun group member other member' => placeOf_inj table.distinct member member'
  case settled =>
    intro group member
    cases known : (result.ids grouping).idxOf? group.key.id with
    | some index =>
        obtain ⟨inside, -⟩ := lt_of_idxOf? known
        rw [sized] at inside
        rw [placeOf_of_known known, getElem?_rows_merge_of_lt table inside,
          groupAt?_of_known table.distinct member known, List.getElem?_eq_getElem inside]
        rfl
    | none =>
        have new := List.idxOf?_eq_none_iff.mp known
        have beyond := Nat.le_add_right result.size
          ((newGroups (result.ids grouping) table.groups).idxOf group)
        rw [placeOf_of_new new, sized, getElem?_rows_merge_of_le table beyond,
          Nat.add_sub_cancel_left, List.getElem?_idxOf (mem_newGroups member new),
          List.getElem?_eq_none beyond]
        rfl
  case untouched =>
    intro index free
    by_cases inside : index < result.size
    · have none_here : groupAt? (result.ids grouping) table.groups index = none := by
        rw [groupAt?, List.find?_eq_none]
        intro group member here
        exact free group member (placeOf_of_known (beq_iff_eq.mp here))
      rw [getElem?_rows_merge_of_lt table inside, none_here, List.getElem?_eq_getElem inside]
      rfl
    · have beyond := Nat.not_lt.mp inside
      rw [getElem?_rows_merge_of_le table beyond, List.getElem?_eq_none beyond,
        Option.map_eq_none_iff, List.getElem?_eq_none_iff]
      by_contra within
      have fresh := List.getElem_mem (Nat.not_le.mp within)
      refine free _ (List.mem_filter.mp fresh).1 ?_
      rw [placeOf_getElem_newGroups table.distinct, sized, Nat.add_sub_cancel' beyond]

end Progress

namespace SelectItem

variable {call : AggregateCall} {item : SelectItem} {grouping : Grouping}

/-- What a grouped call writes at its end, and that it is used up by that. -/
theorem finish_written [Hashing] (called : item.expression.call? = some call)
    (grouped : item.grouping = some grouping) (result : ResultSet) :
    (∃ place, Progress.Written grouping item.expression.output item.progress.groups.groups place
        result (item.finish result).1) ∧
      (item.finish result).2.groupCount? = some 0 ∧
      ∀ met, item.Reached call met → item.progress.groups.ids = met.eraseDups := by
  have finished := finish_of_call called result
  rw [grouped] at finished
  refine ⟨⟨Progress.placeOf (result.ids grouping) item.progress.groups.groups, ?_⟩, ?_,
    fun met reached => reached.ids⟩
  · rw [finished]
    exact Progress.written_merge item.progress.groups result
  · rw [finished, groupCount?]
    simp only [called]
    rfl

open scoped Hashing in
/-- Three groups, of which `a` and `b` have rows already, `b` two of them. -/
theorem finish_written_twins :
    let call : AggregateCall := ⟨.sum, "v", false, .coerce⟩
    let row (k : String) (v : Int64) := Row.ofFields [("k", .text k), ("v", .integer v)]
    let rows := [row "c" 1, row "b" 2, row "a" 3, row "b" 4]
    let item := ((ofExpression ⟨.aggregate call, "", rfl⟩).withGrouping
      (some (.byFields ["k"]))).absorbEach rows
    let result : ResultSet := ⟨[Row.ofFields [("k", .text "b"), ("n", .integer 1)],
      Row.ofFields [("k", .text "a")], Row.ofFields [("k", .text "b"), ("n", .integer 2)]]⟩
    (∃ place, Progress.Written (.byFields ["k"]) item.expression.output
        item.progress.groups.groups place result (item.finish result).1) ∧
      (item.finish result).2.groupCount? = some 0 ∧
      item.progress.groups.ids = ["s1:c|", "s1:b|", "s1:a|"] ∧
      (item.finish result).1 = ⟨[
        Row.ofFields [("k", .text "b"), ("n", .integer 1), ("sum_v", .integer 6)],
        Row.ofFields [("k", .text "a"), ("sum_v", .integer 3)],
        Row.ofFields [("k", .text "b"), ("n", .integer 2)],
        Row.ofFields [("k", .text "c"), ("sum_v", .integer 1)]]⟩ := by
  intro call row rows item result
  have made : Reached call (ofExpression ⟨.aggregate call, "", rfl⟩) [] := .made rfl
  have reached : item.Reached call _ := (made.withGrouping (some (.byFields ["k"]))).absorbEach rows
  have grouped : item.grouping = some (.byFields ["k"]) :=
    congrArg SelectItem.grouping (absorbEach_of_call rfl rows)
  obtain ⟨written, used_up, order⟩ := finish_written reached.called grouped result
  have ids : item.progress.groups.ids = ["s1:c|", "s1:b|", "s1:a|"] :=
    (order _ reached).trans (by decide +kernel)
  have rows_after : (item.finish result).1 = ⟨[
      Row.ofFields [("k", .text "b"), ("n", .integer 1), ("sum_v", .integer 6)],
      Row.ofFields [("k", .text "a"), ("sum_v", .integer 3)],
      Row.ofFields [("k", .text "b"), ("n", .integer 2)],
      Row.ofFields [("k", .text "c"), ("sum_v", .integer 1)]]⟩ := by decide +kernel
  exact ⟨written, used_up, ids, rows_after⟩

end SelectItem

end RowQuery
