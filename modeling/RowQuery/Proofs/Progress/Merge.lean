import RowQuery.Proofs.Progress.Table

/-!
# Results of groups in a result set

Where the result of each group goes: into the first row with the id of the group, or into a new row
after the others (`rows_merge`).
-/

namespace RowQuery.Progress

variable {grouping : Grouping} {field : String} {result : ResultSet} {ids : List String}

/-- The result of one group goes into rows that had the given ids at first. -/
def mergeGroup (ids : List String) (field : String) (merged : ResultSet) (group : Group) :
    ResultSet :=
  match ids.idxOf? group.key.id with
  | some index => merged.modify index (settle field group)
  | none => merged.push (settle field group group.key.row)

/-! ## The index -/

/-- The index has the place of the first row of each id. -/
theorem lookup_groupIndex (grouping : Grouping) (result : ResultSet) (id : String) :
    (result.groupIndex grouping).lookup id = (result.ids grouping).idxOf? id := by
  have entry_iff (index : Nat) : (id, index) ∈ result.groupIndex grouping ↔
      (result.ids grouping).idxOf? id = some index := by
    rw [ResultSet.groupIndex, List.mem_filter, List.mk_mem_zipIdx_iff_getElem?, beq_iff_eq]
    refine and_iff_right_of_imp fun here => ?_
    obtain ⟨within, same, -⟩ := List.idxOf?_eq_some_iff.mp here
    exact List.getElem?_eq_some_iff.mpr ⟨within, same⟩
  have found_iff (index : Nat) : (result.groupIndex grouping).lookup id = some index →
      (result.ids grouping).idxOf? id = some index := by
    intro found
    obtain ⟨before, after, split, -⟩ := List.lookup_eq_some_iff.mp found
    exact (entry_iff index).mp (by simp [split])
  cases found : (result.groupIndex grouping).lookup id with
  | some index => exact (found_iff index found).symm
  | none =>
      symm
      rw [Option.eq_none_iff_forall_ne_some]
      intro index here
      have missing := List.lookup_eq_none_iff.mp found _ ((entry_iff index).mpr here)
      simp at missing

/-- The rows that are added need not be found again: no other group has their ids. So the groups can
all be told by the ids at the start. -/
theorem foldl_write {groups : List Group} (distinct : (groups.map fun group => group.key.id).Nodup)
    (merging : Merging)
    (known : ∀ group ∈ groups, merging.place? group.key.id = ids.idxOf? group.key.id) :
    (groups.foldl (Merging.write field) merging).result =
      groups.foldl (mergeGroup ids field) merging.result := by
  induction groups generalizing merging with
  | nil => rfl
  | cons group rest ih =>
      obtain ⟨new, later⟩ := List.nodup_cons.mp distinct
      obtain ⟨here, others⟩ := List.forall_mem_cons.mp known
      have written : (merging.write field group).result =
          mergeGroup ids field merging.result group := by
        rw [Merging.write, mergeGroup, here]
        cases ids.idxOf? group.key.id <;> rfl
      have index (other : Group) (member : other ∈ rest) :
          (merging.write field group).place? other.key.id = merging.place? other.key.id := by
        have unlike : ¬ other.key.id = group.key.id := fun same =>
          new (List.mem_map.mpr ⟨other, member, same⟩)
        rw [Merging.write]
        cases merging.place? group.key.id <;> simp [unlike]
      rw [List.foldl_cons, List.foldl_cons, ← written]
      exact ih later _ fun other member => (index other member).trans (others other member)

/-- The results of a table go where the ids at the start say; it makes no difference that the index
has the new rows as well. -/
theorem merge_eq (table : GroupTable) : merge grouping field table.groups result =
    table.groups.foldl (mergeGroup (result.ids grouping) field) result :=
  foldl_write table.distinct _ fun group _ => lookup_groupIndex grouping result group.key.id

/-! ## Rows -/

/-- The group whose result goes into the row at an index. -/
def groupAt? (ids : List String) (groups : List Group) (index : Nat) : Option Group :=
  groups.find? fun group => ids.idxOf? group.key.id == some index

theorem groupAt?_eq_none {group : Group} {rest : List Group} {index : Nat}
    (distinct : ((group :: rest).map fun group => group.key.id).Nodup)
    (here : ids.idxOf? group.key.id = some index) : groupAt? ids rest index = none := by
  rw [groupAt?, List.find?_eq_none]
  intro other member
  rw [beq_iff_eq]
  intro there
  obtain ⟨_, same, -⟩ := List.idxOf?_eq_some_iff.mp here
  obtain ⟨_, same', -⟩ := List.idxOf?_eq_some_iff.mp there
  have found : group.key.id ∈ rest.map fun group => group.key.id :=
    List.mem_map.mpr ⟨other, member, same'.symm.trans same⟩
  exact (List.nodup_cons.mp distinct).1 found

theorem groupAt?_eq_find {groups : List Group} {id : String} {index : Nat} (distinct : ids.Nodup)
    (here : ids[index]? = some id) : groupAt? ids groups index = GroupTable.find id groups := by
  obtain ⟨within, rfl⟩ := List.getElem?_eq_some_iff.mp here
  have place (other : String) : ids.idxOf? other = some index ↔ other = ids[index] := by
    rw [List.idxOf?_eq_some_iff]
    constructor
    · rintro ⟨_, same, -⟩
      exact same.symm
    · rintro rfl
      refine ⟨within, rfl, fun earlier before same => ?_⟩
      exact List.pairwise_iff_getElem.mp distinct earlier index _ within before same
  rw [groupAt?, GroupTable.find]
  congr 1
  funext group
  rw [Bool.eq_iff_iff, beq_iff_eq, beq_iff_eq, place]

theorem modify_append {rows fresh : List Row} {index : Nat} {change : Row → Row}
    (within : index < rows.length) :
    (rows ++ fresh).modify index change = rows.modify index change ++ fresh := by
  apply List.ext_getElem?
  intro j
  rw [List.getElem?_modify, List.getElem?_append, List.getElem?_append, List.length_modify,
    List.getElem?_modify]
  by_cases inside : j < rows.length
  · rw [if_pos inside, if_pos inside]
  · have other : ¬ index = j := by omega
    simp [if_neg inside, if_neg other]

theorem rows_foldl_mergeGroup (field : String) {groups : List Group} {rows : List Row}
    (fresh : List Row) (distinct : (groups.map fun group => group.key.id).Nodup)
    (sized : rows.length = ids.length) :
    (groups.foldl (mergeGroup ids field) ⟨rows ++ fresh⟩).rows =
      (rows.mapIdx fun index row => (groupAt? ids groups index).elim row (settle field · row)) ++
        (fresh ++ (groups.filter fun group => group.key.id ∉ ids).map fun group =>
          settle field group group.key.row) := by
  -- The places are those of the ids at the start, so rows that are new stay out of reach.
  induction groups generalizing rows fresh with
  | nil =>
      have kept : (rows.mapIdx fun _ row => row) = rows := by
        apply List.ext_getElem?
        intro j
        simp
      simp [groupAt?, kept]
  | cons group rest ih =>
      have later := (List.nodup_cons.mp distinct).2
      rw [List.foldl_cons]
      cases here : ids.idxOf? group.key.id with
      | none =>
          have new : group.key.id ∉ ids := List.idxOf?_eq_none_iff.mp here
          have step : mergeGroup ids field ⟨rows ++ fresh⟩ group =
              ⟨rows ++ (fresh ++ [settle field group group.key.row])⟩ := by
            simp [mergeGroup, here, ResultSet.push]
          have skip (index : Nat) :
              groupAt? ids (group :: rest) index = groupAt? ids rest index := by
            simp [groupAt?, here]
          rw [step, ih _ later sized]
          simp [skip, new]
      | some place =>
          obtain ⟨within, same, -⟩ := List.idxOf?_eq_some_iff.mp here
          have known : group.key.id ∈ ids := same ▸ List.getElem_mem within
          have step : mergeGroup ids field ⟨rows ++ fresh⟩ group =
              ⟨rows.modify place (settle field group) ++ fresh⟩ := by
            simp only [mergeGroup, here, ResultSet.modify]
            rw [modify_append (by omega)]
          rw [step, ih _ later (by rw [List.length_modify, sized])]
          congr 1
          · apply List.ext_getElem?
            intro j
            rw [List.getElem?_mapIdx, List.getElem?_mapIdx, List.getElem?_modify]
            by_cases at_place : place = j
            · subst at_place
              have found : groupAt? ids (group :: rest) place = some group := by
                simp [groupAt?, here]
              simp [groupAt?_eq_none distinct here, found, Function.comp_def]
            · have skip : groupAt? ids (group :: rest) j = groupAt? ids rest j := by
                simp [groupAt?, here, at_place]
              simp [skip, at_place]
          · simp [known]

theorem rows_merge (table : GroupTable) :
    (merge grouping field table.groups result).rows =
      (result.rows.mapIdx fun index row =>
        (groupAt? (result.ids grouping) table.groups index).elim row (settle field · row)) ++
        (table.groups.filter fun group => group.key.id ∉ result.ids grouping).map fun group =>
          settle field group group.key.row := by
  have sized : result.rows.length = (result.ids grouping).length := by
    rw [ResultSet.ids, List.length_map]
  have whole := rows_foldl_mergeGroup field [] table.distinct sized
  rw [List.append_nil, List.nil_append] at whole
  rw [merge_eq]
  exact whole

end RowQuery.Progress
