import RowQuery.Proofs.SelectItem.Reached

/-!
# The places of groups

The groups of an aggregate call and their index are changed apart, by rows, by the end of a call and
by a new start. In every state they are inverse to each other, so that a group is never looked for
beyond the end, and an id keeps its place until the groups are given away: rows under one id are
gathered in one scope, whichever grouping has given it to them (`reached_indexed`).
-/

namespace RowQuery

open Grouping (idOf?)

namespace GroupTable

variable {β : Type}

/-- An update changes the group at one place, where the index finds the id from then on. -/
theorem update_at (key : GroupKey) (fresh : Scope) (change : Scope → β × Scope)
    (table : GroupTable) :
    ∃ place shown, (table.update key fresh change).2.place? key.id = some place ∧
      shown.id = key.id ∧
      (table.update key fresh change).2.groups[place]? =
        some ⟨shown, (change ((table.groups[place]?.map Group.scope).getD fresh)).2⟩ ∧
      ∀ other, other ≠ place →
        (table.update key fresh change).2.groups[other]? = table.groups[other]? := by
  have found {place : Nat} {group : Group}
      (here : (table.update key fresh change).2.groups[place]? = some group)
      (same : group.key.id = key.id) :
      (table.update key fresh change).2.place? key.id = some place :=
    (table.update key fresh change).2.indexed.place?_eq_some_iff.mpr ⟨group, here, same⟩
  cases known : table.place? key.id with
  | some place =>
      obtain ⟨group, there, same⟩ := table.indexed.place?_eq_some_iff.mp known
      obtain ⟨inside, -⟩ := List.getElem?_eq_some_iff.mp there
      have groups := groups_update key fresh change table
      rw [updateGroups_of_place table.distinct there same] at groups
      have here : (table.update key fresh change).2.groups[place]? =
          some ⟨group.key, (change group.scope).2⟩ := by
        rw [groups, List.getElem?_set_self inside]
      refine ⟨place, group.key, found here same, same, ?_, fun other apart => ?_⟩
      · rw [here, there]
        rfl
      · rw [groups, List.getElem?_set_ne (Ne.symm apart)]
  | none =>
      have groups := groups_update_of_new key fresh change
        (List.idxOf?_eq_none_iff.mp ((table.indexed.found key.id).symm.trans known))
      have here : (table.update key fresh change).2.groups[table.groups.length]? =
          some ⟨key, (change fresh).2⟩ := by
        rw [groups, List.getElem?_concat_length]
      refine ⟨table.groups.length, key, found here rfl, rfl, ?_, fun other apart => ?_⟩
      · rw [here, List.getElem?_eq_none (Nat.le_refl _)]
        rfl
      · rw [groups]
        rcases Nat.lt_or_gt_of_ne apart with before | beyond
        · exact List.getElem?_append_left before
        · have past : (table.groups ++ [(⟨key, (change fresh).2⟩ : Group)]).length ≤ other := by
            rwa [List.length_append]
          rw [List.getElem?_eq_none past, List.getElem?_eq_none (Nat.le_of_lt beyond)]

end GroupTable

namespace SelectItem

variable {call : AggregateCall} {item later : SelectItem} {met more : List String} {row : Row}
  {id : String}

/-- A row is gathered in the scope of the group at a place, which the index has for its id: what the
row does is done to that scope, or to a new one, and to no other. -/
structure GathersAt [Hashing] (call : AggregateCall) (item : SelectItem) (row : Row) (id : String)
    (place : Nat) : Prop where
  index : (item.absorb row).2.progress.groups.place? id = some place
  scope : ∃ key, key.id = id ∧ (item.absorb row).2.progress.groups.groups[place]? =
    some ⟨key, (call.effect row
      ((item.progress.groups.groups[place]?.map Group.scope).getD (.start call.function))).2⟩
  others : ∀ other, other ≠ place →
    (item.absorb row).2.progress.groups.groups[other]? = item.progress.groups.groups[other]?

/-- The index has the ids in the order in which rows have come to them. -/
theorem Reached.place?_eq [Hashing] (reached : Reached call item met) (id : String) :
    item.progress.groups.place? id = met.eraseDups.idxOf? id := by
  rw [item.progress.groups.indexed.found, ← reached.ids]
  rfl

/-- An id keeps its place. -/
theorem Reached.place?_later [Hashing] (reached : Reached call item met)
    (after : Reached call later (met ++ more)) (known : id ∈ met) :
    later.progress.groups.place? id = item.progress.groups.place? id := by
  rw [reached.place?_eq, after.place?_eq, List.eraseDups_append, List.idxOf?, List.findIdx?_append,
    ← List.idxOf?]
  cases place : met.eraseDups.idxOf? id with
  | none => exact (List.idxOf?_eq_none_iff.mp place (List.mem_eraseDups.mpr known)).elim
  | some place => rfl

theorem Reached.exists_gathersAt [Hashing] (reached : Reached call item met)
    (comes : call.reachedId? item.grouping row = some id) :
    ∃ place, GathersAt call item row id place := by
  unfold AggregateCall.reachedId? at comes
  split at comes
  · rename_i admitted
    obtain ⟨given, grouped, rfl⟩ := Option.map_eq_some_iff.mp comes
    obtain ⟨place, shown, index, same, scope, others⟩ :=
      item.progress.groups.update_at (given.keyOf row) (.start call.function) (call.effect row)
    have groups : (item.absorb row).2.progress.groups =
        (item.progress.groups.update (given.keyOf row) (.start call.function)
          (call.effect row)).2 := by
      rw [absorb_of_call reached.called, Progress.add_of_admits admitted, grouped,
        Progress.update_some]
    exact ⟨place, groups ▸ index, ⟨shown, same, groups ▸ scope⟩, groups ▸ others⟩
  · cases comes

/-- Rows under one id are gathered at one place until the groups are given away. -/
theorem Reached.gathersAt_later [Hashing] {row' : Row} {place : Nat}
    (reached : Reached call item met)
    (comes : call.reachedId? item.grouping row = some id)
    (gathers : GathersAt call item row id place)
    (after : Reached call later (met ++ id :: more))
    (comes' : call.reachedId? later.grouping row' = some id) :
    GathersAt call later row' id place := by
  obtain ⟨place', gathers'⟩ := after.exists_gathersAt comes'
  have first : Reached call (item.absorb row).2 (met ++ [id]) := by
    have absorbed := reached.absorb row
    rwa [comes] at absorbed
  have second : Reached call (later.absorb row').2 (met ++ [id] ++ (more ++ [id])) := by
    have absorbed := after.absorb row'
    rw [comes'] at absorbed
    simpa using absorbed
  have kept := first.place?_later second (List.mem_append_right met List.mem_cons_self)
  rw [gathers.index, gathers'.index] at kept
  exact Option.some_inj.mp kept ▸ gathers'

/-- In every state the index and the groups are inverse. No two groups have one id, the group of a
key is found or made within bounds, and rows under one id are gathered in one scope as long as the
groups are not given away in between. -/
theorem reached_indexed [Hashing] (reached : Reached call item met) :
    let table := item.progress.groups
    (∀ id place, table.place? id = some place ↔
      ∃ inside : place < table.groups.length, table.groups[place].key.id = id) ∧
    (table.groups.map fun group => group.key.id).Nodup ∧
    (∀ key fresh, (table.locate key fresh).1 < (table.locate key fresh).2.groups.length) ∧
    ∀ row id, call.reachedId? item.grouping row = some id →
      ∃ place, GathersAt call item row id place ∧
        ∀ later more row', Reached call later (met ++ id :: more) →
          call.reachedId? later.grouping row' = some id → GathersAt call later row' id place := by
  intro table
  refine ⟨fun id place => ?_, table.distinct, fun key fresh => ?_, fun row id comes => ?_⟩
  · rw [table.indexed.place?_eq_some_iff]
    simp only [List.getElem?_eq_some_iff]
    constructor
    · rintro ⟨group, ⟨inside, rfl⟩, same⟩
      exact ⟨inside, same⟩
    · rintro ⟨inside, same⟩
      exact ⟨_, ⟨inside, rfl⟩, same⟩
  · obtain ⟨-, group, there, -⟩ := table.indexed.locate key fresh
    exact (List.getElem?_eq_some_iff.mp there).1
  · obtain ⟨place, gathers⟩ := reached.exists_gathersAt comes
    exact ⟨place, gathers, fun later more row' after comes' =>
      reached.gathersAt_later comes gathers after comes'⟩

open scoped Hashing in
/-- Two rows under one id, the second after the grouping was switched to another field. -/
theorem reached_indexed_regrouped :
    let call : AggregateCall := ⟨.sum, "v", false, .coerce⟩
    let row (k j : String) := Row.ofFields [("k", .text k), ("j", .text j), ("v", .integer 1)]
    let item := (((ofExpression ⟨.aggregate call, "", rfl⟩).withGrouping
      (some (.byFields ["k"]))).absorb (row "a" "c")).2
    let later := (item.absorb (row "b" "c")).2.withGrouping (some (.byFields ["j"]))
    item.Reached call ["s1:a|"] ∧ call.reachedId? item.grouping (row "b" "c") = some "s1:b|" ∧
      later.Reached call ["s1:a|", "s1:b|"] ∧
      call.reachedId? later.grouping (row "a" "b") = some "s1:b|" ∧
      GathersAt call item (row "b" "c") "s1:b|" 1 ∧ GathersAt call later (row "a" "b") "s1:b|" 1 := by
  intro call row item later
  have made : Reached call (ofExpression ⟨.aggregate call, "", rfl⟩) [] := .made rfl
  have met : [] ++ (call.reachedId? (some (.byFields ["k"])) (row "a" "c")).toList = ["s1:a|"] := by
    decide +kernel
  have reached : item.Reached call ["s1:a|"] := met ▸ (made.withGrouping _).absorb (row "a" "c")
  have comes : call.reachedId? item.grouping (row "b" "c") = some "s1:b|" := by decide +kernel
  have comes' : call.reachedId? later.grouping (row "a" "b") = some "s1:b|" := by decide +kernel
  have after : later.Reached call (["s1:a|"] ++ "s1:b|" :: []) := by
    have absorbed := reached.absorb (row "b" "c")
    rw [comes] at absorbed
    exact absorbed.withGrouping _
  obtain ⟨place, gathers, again⟩ := (reached_indexed reached).2.2.2 (row "b" "c") "s1:b|" comes
  have second : (item.absorb (row "b" "c")).2.progress.groups.place? "s1:b|" = some 1 := by
    decide +kernel
  obtain rfl : place = 1 := Option.some_inj.mp (gathers.index.symm.trans second)
  exact ⟨reached, comes, after, comes', gathers, again later [] (row "a" "b") after comes'⟩

end SelectItem

end RowQuery
