import RowQuery.Progress

/-!
# Look-ups in a table of groups

What an update does to the group with the id of its key, and that it does nothing to the others. An
update goes by the index; it does to the groups what a search through them would (`groups_update`).
-/

namespace RowQuery.GroupTable

/-- The ids of the groups in order. -/
def ids (table : GroupTable) : List String :=
  table.groups.map fun group => group.key.id

/-- The first of some groups with an id. -/
def find (id : String) (groups : List Group) : Option Group :=
  groups.find? fun group => group.key.id == id

/-- The group with an id. -/
def group? (table : GroupTable) (id : String) : Option Group :=
  find id table.groups

/-- The scope of the group with an id. -/
def scope? (table : GroupTable) (id : String) : Option Scope :=
  (table.group? id).map Group.scope

theorem id_of_find {id : String} {groups : List Group} {group : Group}
    (found : find id groups = some group) : group.key.id = id := by
  unfold find at found
  simpa using List.find?_some found

theorem isSome_group? {table : GroupTable} {id : String} :
    (table.group? id).isSome ↔ id ∈ table.ids := by
  simp [group?, find, ids]

theorem find_of_mem {groups : List Group} {group : Group} (member : group ∈ groups)
    (distinct : (groups.map fun group => group.key.id).Nodup) :
    find group.key.id groups = some group := by
  induction groups with
  | nil => cases member
  | cons first rest ih =>
      obtain ⟨new, distinct⟩ := List.nodup_cons.mp distinct
      cases member with
      | head => simp [find]
      | tail _ later =>
          have other : ¬ first.key.id = group.key.id := by
            intro same
            exact new (List.mem_map.mpr ⟨group, later, same.symm⟩)
          have skip : find group.key.id (first :: rest) = find group.key.id rest := by
            simp [find, other]
          rw [skip, ih later distinct]

theorem group?_of_mem {table : GroupTable} {group : Group} (member : group ∈ table.groups) :
    table.group? group.key.id = some group :=
  find_of_mem member table.distinct

/-! ## Updates -/

/-- Changes the scope of the first group with the id of a key, as a search finds it; a group that is
not there is added. -/
def updateGroups {β : Type} (key : GroupKey) (fresh : Scope) (change : Scope → β × Scope) :
    List Group → β × List Group
  | [] =>
    let (result, scope) := change fresh
    (result, [⟨key, scope⟩])
  | group :: rest =>
    if group.key.id = key.id then
      let (result, scope) := change group.scope
      (result, ⟨group.key, scope⟩ :: rest)
    else
      let (result, rest) := updateGroups key fresh change rest
      (result, group :: rest)

theorem keys_updateGroups {β : Type} (key : GroupKey) (fresh : Scope) (change : Scope → β × Scope)
    (groups : List Group) :
    (updateGroups key fresh change groups).2.map Group.key =
      if key.id ∈ groups.map (fun group => group.key.id) then groups.map Group.key
      else groups.map Group.key ++ [key] := by
  induction groups with
  | nil => rfl
  | cons group rest ih =>
    by_cases here : group.key.id = key.id
    · simp [updateGroups, here]
    · have other : ¬ key.id = group.key.id := fun same => here same.symm
      simp only [updateGroups, if_neg here, List.map_cons, ih, List.mem_cons, other, false_or]
      split <;> simp

theorem ids_updateGroups {β : Type} (key : GroupKey) (fresh : Scope) (change : Scope → β × Scope)
    (groups : List Group) :
    (updateGroups key fresh change groups).2.map (fun group => group.key.id) =
      if key.id ∈ groups.map (fun group => group.key.id) then
        groups.map fun group => group.key.id
      else (groups.map fun group => group.key.id) ++ [key.id] := by
  have keys := congrArg (List.map GroupKey.id) (keys_updateGroups key fresh change groups)
  rw [List.map_map] at keys
  refine keys.trans ?_
  split <;> simp

theorem updateGroups_of_new {β : Type} {key : GroupKey} {fresh : Scope}
    {change : Scope → β × Scope} {groups : List Group}
    (new : key.id ∉ groups.map fun group => group.key.id) :
    updateGroups key fresh change groups =
      ((change fresh).1, groups ++ [⟨key, (change fresh).2⟩]) := by
  induction groups with
  | nil => rfl
  | cons group rest ih =>
      rw [List.map_cons, List.mem_cons, not_or] at new
      rw [updateGroups, if_neg (Ne.symm new.1), ih new.2]
      rfl

theorem updateGroups_of_place {β : Type} {key : GroupKey} {fresh : Scope}
    {change : Scope → β × Scope} {groups : List Group} {place : Nat} {group : Group}
    (distinct : (groups.map fun group => group.key.id).Nodup)
    (there : groups[place]? = some group) (same : group.key.id = key.id) :
    updateGroups key fresh change groups =
      ((change group.scope).1, groups.set place ⟨group.key, (change group.scope).2⟩) := by
  induction groups generalizing place with
  | nil => cases there
  | cons first rest ih =>
      obtain ⟨new, distinct⟩ := List.nodup_cons.mp distinct
      cases place with
      | zero =>
          obtain rfl : first = group := Option.some_inj.mp there
          rw [updateGroups, if_pos same]
          rfl
      | succ place =>
          have other : ¬ first.key.id = key.id := by
            intro here
            exact new (List.mem_map.mpr ⟨group, List.mem_of_getElem? there, same.trans here.symm⟩)
          rw [updateGroups, if_neg other, ih distinct there]
          rfl

section
variable {β : Type} (key : GroupKey) (fresh : Scope) (change : Scope → β × Scope)

theorem visit_eq {store : GroupStore} (indexed : store.Indexed) :
    ∃ place?, store.visit key fresh change =
      some ((updateGroups key fresh change store.groups).1,
        ⟨(updateGroups key fresh change store.groups).2, place?⟩) := by
  cases known : store.place? key.id with
  | some place =>
      obtain ⟨group, there, same⟩ := indexed.place?_eq_some_iff.mp known
      rw [updateGroups_of_place indexed.distinct there same]
      refine ⟨store.place?, ?_⟩
      simp [GroupStore.visit, GroupStore.locate, known, GroupStore.changeAt, there]
  | none =>
      rw [updateGroups_of_new (List.idxOf?_eq_none_iff.mp ((indexed.found key.id).symm.trans known))]
      refine ⟨(store.push key fresh).place?, ?_⟩
      simp [GroupStore.visit, GroupStore.locate, known, GroupStore.changeAt, GroupStore.push]

theorem update_eq (table : GroupTable) :
    (table.update key fresh change).1 = (updateGroups key fresh change table.groups).1 ∧
      (table.update key fresh change).2.groups = (updateGroups key fresh change table.groups).2 := by
  obtain ⟨place?, visited⟩ := visit_eq key fresh change table.indexed
  have done := Option.get_of_eq_some table.indexed.isSome_visit visited
  exact ⟨congrArg Prod.fst done, congrArg (fun visited => visited.2.groups) done⟩

theorem groups_update (table : GroupTable) :
    (table.update key fresh change).2.groups = (updateGroups key fresh change table.groups).2 :=
  (update_eq key fresh change table).2

theorem groups_update_of_new {table : GroupTable} (new : key.id ∉ table.ids) :
    (table.update key fresh change).2.groups = table.groups ++ [⟨key, (change fresh).2⟩] := by
  rw [groups_update, updateGroups_of_new new]

theorem updateGroups_fst (groups : List Group) :
    (updateGroups key fresh change groups).1 =
      (change (((find key.id groups).map Group.scope).getD fresh)).1 := by
  induction groups with
  | nil => rfl
  | cons group rest ih =>
      by_cases here : group.key.id = key.id
      · have found : find key.id (group :: rest) = some group := by simp [find, here]
        simp [updateGroups, here, found]
      · have found : find key.id (group :: rest) = find key.id rest := by simp [find, here]
        simp only [updateGroups, if_neg here, found, ih]

theorem find_updateGroups (id : String) (groups : List Group) :
    find id (updateGroups key fresh change groups).2 =
      if id = key.id then
        some ⟨((find id groups).map Group.key).getD key,
          (change (((find id groups).map Group.scope).getD fresh)).2⟩
      else find id groups := by
  induction groups with
  | nil =>
      by_cases same : id = key.id
      · simp [updateGroups, find, same]
      · have other : ¬ key.id = id := fun back => same back.symm
        simp [updateGroups, find, same, other]
  | cons group rest ih =>
      by_cases here : group.key.id = key.id
      · by_cases same : id = key.id
        · simp [updateGroups, find, here, same]
        · have other : ¬ key.id = id := fun back => same back.symm
          simp [updateGroups, find, here, same, other]
      · by_cases there : group.key.id = id
        · have other : ¬ id = key.id := fun same => here (there.trans same)
          simp only [updateGroups, if_neg here, if_neg other]
          simp [find, there]
        · have skip (groups : List Group) : find id (group :: groups) = find id groups := by
            simp [find, there]
          simp only [updateGroups, if_neg here, skip, ih]

theorem update_fst (table : GroupTable) :
    (table.update key fresh change).1 = (change ((table.scope? key.id).getD fresh)).1 :=
  (update_eq key fresh change table).1.trans (updateGroups_fst key fresh change table.groups)

theorem group?_update (table : GroupTable) (id : String) :
    (table.update key fresh change).2.group? id =
      if id = key.id then
        some ⟨((table.group? id).map Group.key).getD key,
          (change ((table.scope? id).getD fresh)).2⟩
      else table.group? id := by
  rw [group?, groups_update]
  exact find_updateGroups key fresh change id table.groups

theorem ids_update (table : GroupTable) :
    (table.update key fresh change).2.ids =
      if key.id ∈ table.ids then table.ids else table.ids ++ [key.id] := by
  rw [ids, groups_update]
  exact ids_updateGroups key fresh change table.groups

end

end RowQuery.GroupTable
