import RowQuery.Accumulator
import RowQuery.Expression
import RowQuery.Grouping

/-!
Groups in the order of their first rows, with an index that tells the place of the group of an id.
Main statement: the index and the groups stay in agreement (`Indexed.visit`).
-/

namespace RowQuery

/-- What a call has gathered from some rows. -/
structure Scope where
  accumulator : Accumulator
  seen : Seen
deriving DecidableEq

namespace Scope

/-- A scope before any row. -/
def start (function : AggregateFunction) : Scope :=
  ⟨.start function, .empty⟩

/-- A scope after one more row, for a call over whole rows. -/
def addRow (scope : Scope) : Scope :=
  { scope with accumulator := scope.accumulator.addRow }

/-- A scope after one more value that is not NULL. Under DISTINCT only a new value is passed on. -/
def add [Hashing] (call : AggregateCall) (value : Value) (scope : Scope) :
    Except Fault Unit × Scope :=
  let (fresh, seen) := if call.tracksDistinct then scope.seen.add value else (true, scope.seen)
  if fresh then
    match scope.accumulator.add call.operands value with
    | .ok accumulator => (.ok (), ⟨accumulator, seen⟩)
    | .error fault => (.error fault, ⟨scope.accumulator, seen⟩)
  else (.ok (), scope)

end Scope

/-- A group and what was gathered from its rows. -/
structure Group where
  key : GroupKey
  scope : Scope
deriving DecidableEq

/-- Groups in the order of their first rows, and an index of their ids. -/
structure GroupStore where
  groups : List Group
  /-- The place of the group of an id, as the index has it. -/
  place? : String → Option Nat

namespace GroupStore

/-- No groups. -/
def empty : GroupStore := ⟨[], fun _ => none⟩

/-- The ids of the groups in order. -/
def ids (store : GroupStore) : List String :=
  store.groups.map fun group => group.key.id

/-- Adds a group at the end. -/
def push (key : GroupKey) (scope : Scope) (store : GroupStore) : GroupStore where
  groups := store.groups ++ [⟨key, scope⟩]
  place? id := if id = key.id then some store.groups.length else store.place? id

/-- The place of the group of a key; one that the index does not know is added. -/
def locate (key : GroupKey) (fresh : Scope) (store : GroupStore) : Nat × GroupStore :=
  match store.place? key.id with
  | some place => (place, store)
  | none => (store.groups.length, store.push key fresh)

/-- Changes the scope of the group at a place; `none` if there is no group there. -/
def changeAt {β : Type} (place : Nat) (change : Scope → β × Scope) (store : GroupStore) :
    Option (β × GroupStore) :=
  store.groups[place]?.map fun group =>
    let (result, scope) := change group.scope
    (result, { store with groups := store.groups.set place ⟨group.key, scope⟩ })

/-- Changes the scope of the group of a key; a group that is not there is added. -/
def visit {β : Type} (key : GroupKey) (fresh : Scope) (change : Scope → β × Scope)
    (store : GroupStore) : Option (β × GroupStore) :=
  let (place, located) := store.locate key fresh
  located.changeAt place change

/-- No two groups have one id, and the index has the place of each. -/
structure Indexed (store : GroupStore) : Prop where
  distinct : store.ids.Nodup
  found : ∀ id, store.place? id = store.ids.idxOf? id

theorem indexed_empty : empty.Indexed :=
  ⟨List.nodup_nil, fun _ => rfl⟩

namespace Indexed

variable {store : GroupStore} {key : GroupKey}

/-- The index has a place for an id exactly if the group at that place has the id. -/
theorem place?_eq_some_iff (indexed : store.Indexed) {id : String} {place : Nat} :
    store.place? id = some place ↔
      ∃ group, store.groups[place]? = some group ∧ group.key.id = id := by
  have group_iff : (∃ group, store.groups[place]? = some group ∧ group.key.id = id) ↔
      store.ids[place]? = some id := by
    simp [GroupStore.ids, Option.map_eq_some_iff]
  rw [group_iff, indexed.found, List.idxOf?_eq_some_iff, List.getElem?_eq_some_iff]
  refine exists_congr fun inside => ⟨And.left, fun here => ⟨here, fun earlier before same => ?_⟩⟩
  exact List.pairwise_iff_getElem.mp indexed.distinct earlier place _ inside before
    (same.trans here.symm)

theorem push (indexed : store.Indexed) (new : store.place? key.id = none) (scope : Scope) :
    (store.push key scope).Indexed := by
  have ids : (store.push key scope).ids = store.ids ++ [key.id] := by
    simp [GroupStore.push, GroupStore.ids]
  have length : store.ids.length = store.groups.length := List.length_map _
  rw [indexed.found] at new
  refine ⟨?_, fun id => ?_⟩
  · rw [ids]
    refine List.nodup_append.mpr ⟨indexed.distinct, List.pairwise_singleton _ key.id, ?_⟩
    rintro earlier known last only rfl
    exact List.idxOf?_eq_none_iff.mp new (List.mem_singleton.mp only ▸ known)
  · rw [ids, List.idxOf?, List.findIdx?_append]
    by_cases same : id = key.id
    · subst same
      rw [← List.idxOf?, new]
      simp [GroupStore.push, length]
    · have other : ¬ key.id = id := fun back => same back.symm
      rw [← List.idxOf?, ← indexed.found]
      simp [GroupStore.push, same, other]

/-- The group of a key is where it is said to be. -/
theorem locate (indexed : store.Indexed) (key : GroupKey) (fresh : Scope) :
    (store.locate key fresh).2.Indexed ∧
      ∃ group, (store.locate key fresh).2.groups[(store.locate key fresh).1]? = some group ∧
        group.key.id = key.id := by
  unfold GroupStore.locate
  cases known : store.place? key.id with
  | some place => exact ⟨indexed, indexed.place?_eq_some_iff.mp known⟩
  | none => exact ⟨indexed.push known fresh, ⟨key, fresh⟩, List.getElem?_concat_length, rfl⟩

theorem changeAt {β : Type} {place : Nat} {change : Scope → β × Scope} {changed : β × GroupStore}
    (indexed : store.Indexed) (done : store.changeAt place change = some changed) :
    changed.2.Indexed := by
  obtain ⟨group, there, rfl⟩ := Option.map_eq_some_iff.mp done
  obtain ⟨inside, here⟩ := List.getElem?_eq_some_iff.mp there
  let after := store.groups.set place ⟨group.key, (change group.scope).2⟩
  have ids : (after.map fun group => group.key.id) = store.ids := by
    have bound : place < store.ids.length := (List.length_map _).symm ▸ inside
    have id : group.key.id = store.ids[place] := by simp [GroupStore.ids, here]
    rw [List.map_set, id]
    exact List.set_getElem_self bound
  refine ⟨?_, fun id => ?_⟩
  · exact (ids.symm ▸ indexed.distinct : (after.map fun group => group.key.id).Nodup)
  · exact (indexed.found id).trans (congrArg (List.idxOf? id) ids.symm)

section
variable {β : Type} {fresh : Scope} {change : Scope → β × Scope}

theorem visit {visited : β × GroupStore} (indexed : store.Indexed)
    (done : store.visit key fresh change = some visited) : visited.2.Indexed :=
  (indexed.locate key fresh).1.changeAt done

theorem isSome_visit (indexed : store.Indexed) : (store.visit key fresh change).isSome := by
  obtain ⟨-, group, there, -⟩ := indexed.locate key fresh
  simp [GroupStore.visit, GroupStore.changeAt, there]

end

end Indexed

end GroupStore

/-- A store whose index agrees with its groups. -/
structure GroupTable extends GroupStore where
  indexed : toGroupStore.Indexed

namespace GroupTable

/-- No groups. -/
def empty : GroupTable := ⟨.empty, GroupStore.indexed_empty⟩

/-- The number of groups. -/
def size (table : GroupTable) : Nat :=
  table.groups.length

theorem distinct (table : GroupTable) : (table.groups.map fun group => group.key.id).Nodup :=
  table.indexed.distinct

/-- Tables of the same groups have the same index. -/
theorem eq_of_groups {table other : GroupTable} (same : table.groups = other.groups) :
    table = other := by
  obtain ⟨⟨groups, place?⟩, indexed⟩ := table
  obtain ⟨⟨groups', place?'⟩, indexed'⟩ := other
  obtain rfl : groups = groups' := same
  obtain rfl : place? = place?' := funext fun id => (indexed.found id).trans (indexed'.found id).symm
  rfl

instance : DecidableEq GroupTable := fun table other =>
  decidable_of_iff (table.groups = other.groups) ⟨eq_of_groups, fun same => same ▸ rfl⟩

/-- Changes the scope of the group of a key; a group that is not there is added. -/
def update {β : Type} (key : GroupKey) (fresh : Scope) (change : Scope → β × Scope)
    (table : GroupTable) : β × GroupTable :=
  let visited := (table.visit key fresh change).get table.indexed.isSome_visit
  (visited.1, ⟨visited.2, table.indexed.visit (Option.some_get _).symm⟩)

end GroupTable

end RowQuery
