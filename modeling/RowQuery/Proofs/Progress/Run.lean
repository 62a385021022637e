import RowQuery.Proofs.Grouping
import RowQuery.Proofs.Progress.Columns

/-!
# One call over many rows

A grouped run and the ungrouped runs over the rows of each group go in step: a row changes the scope
of its group as it would change the only scope of an ungrouped run, and no other scope. What a
grouped run has gathered from some rows is said by `Gathered`, which each row keeps.
-/

namespace RowQuery

/-- Whether a call gathers anything from a row. -/
def AggregateCall.heeds (call : AggregateCall) (row : Row) : Bool :=
  call.isStar || (row.get? (Name.normalize call.column)).any fun value => !value.isNull

namespace Progress

variable {call : AggregateCall} {grouping : Grouping} {row : Row} {rows : List Row}

theorem heeds_eq (call : AggregateCall) (row : Row) :
    call.heeds row = (call.isStar || (operand? call row).isSome) := by
  rw [AggregateCall.heeds, operand?, Option.isSome_filter]

/-- All that one row can do to a call: nothing, a fault, or a change of the scope it belongs to. -/
theorem add_cases [Hashing] (call : AggregateCall) (row : Row) :
    (call.heeds row = false ∧ ∀ grouping p, add call grouping row p = (.ok (), p)) ∨
    (call.heeds row = true ∧ ∃ fault, ∀ grouping p, add call grouping row p = (.error fault, p)) ∨
    (call.heeds row = true ∧ ∃ change : Scope → Except Fault Unit × Scope,
      ∀ grouping p, add call grouping row p = update call.function grouping row change p) := by
  by_cases star : call.isStar = true
  · have heeded : call.heeds row = true := by simp [AggregateCall.heeds, star]
    refine .inr (.inr ⟨heeded, fun scope => (.ok (), scope.addRow), fun grouping p => ?_⟩)
    rw [add, if_pos star]
  · have heeds : call.heeds row = (operand? call row).isSome := by simp [heeds_eq, star]
    cases operand : operand? call row with
    | none =>
        refine .inl ⟨by rw [heeds, operand]; rfl, fun grouping p => ?_⟩
        simp only [add, if_neg star, operand]
    | some value =>
        have heeded : call.heeds row = true := by rw [heeds, operand]; rfl
        cases refused : refusal? call value with
        | some fault =>
            refine .inr (.inl ⟨heeded, fault, fun grouping p => ?_⟩)
            simp only [add, if_neg star, operand, refused]
        | none =>
            refine .inr (.inr ⟨heeded, Scope.add call value, fun grouping p => ?_⟩)
            simp only [add, if_neg star, operand, refused]

/-- A call after more rows, up to the first fault. -/
def addAll [Hashing] (call : AggregateCall) (grouping : Option Grouping) :
    List Row → Progress → Except Fault Unit × Progress
  | [], p => (.ok (), p)
  | row :: rows, p =>
    match p.add call grouping row with
    | (.error fault, p) => (.error fault, p)
    | (.ok (), p) => addAll call grouping rows p

theorem addAll_append [Hashing] {grouping : Option Grouping} {more : List Row} {p q last : Progress}
    (first : addAll call grouping rows p = (.ok (), q))
    (second : addAll call grouping more q = (.ok (), last)) :
    addAll call grouping (rows ++ more) p = (.ok (), last) := by
  induction rows generalizing p with
  | nil =>
      cases first
      exact second
  | cons row rows ih =>
      rw [addAll] at first
      rw [List.cons_append, addAll]
      split at first
      · cases first
      · rename_i added
        simp only [ih first]

/-- What a grouped call has gathered from rows: its groups are those of the rows that it heeds, in
the order of the first such rows, which give the keys; the scope of each is that of an ungrouped
call over all rows of the group. -/
structure Gathered [Hashing] (call : AggregateCall) (grouping : Grouping) (rows : List Row)
    (p : Progress) : Prop where
  ids : p.groups.ids =
    ((rows.filter call.heeds).map fun row => (grouping.keyOf row).id).eraseDups
  key (id : String) : (p.groups.group? id).map Group.key =
    ((grouping.group id rows).find? call.heeds).map grouping.keyOf
  scope (id : String) : ∃ alone,
    addAll call none (grouping.group id rows) .start = (.ok (), alone) ∧
      alone.total = p.groups.scope? id

theorem gathered_start [Hashing] : Gathered call grouping [] .start where
  ids := rfl
  key _ := rfl
  scope _ := ⟨.start, rfl, rfl⟩

theorem update_none {β : Type} (function : AggregateFunction) (row : Row)
    (change : Scope → β × Scope) (p : Progress) : p.update function none row change =
      ((change (p.total.getD (.start function))).1,
        { p with total := some (change (p.total.getD (.start function))).2 }) :=
  rfl

theorem update_some {β : Type} (function : AggregateFunction) (grouping : Grouping) (row : Row)
    (change : Scope → β × Scope) (p : Progress) : p.update function (some grouping) row change =
      ((p.groups.update (grouping.keyOf row) (.start function) change).1,
        { p with groups := (p.groups.update (grouping.keyOf row) (.start function) change).2 }) :=
  rfl

theorem Gathered.add_unheeded [Hashing] {p : Progress} (gathered : Gathered call grouping rows p)
    (unheeded : call.heeds row = false) (kept : ∀ p : Progress, p.add call none row = (.ok (), p)) :
    Gathered call grouping (rows ++ [row]) p where
  ids := by
    rw [gathered.ids, List.filter_append]
    simp [unheeded]
  key id := by
    rw [gathered.key, Grouping.group_append, List.find?_append]
    split <;> simp [unheeded]
  scope id := by
    obtain ⟨alone, ran, same⟩ := gathered.scope id
    refine ⟨alone, ?_, same⟩
    rw [Grouping.group_append]
    apply addAll_append ran
    split
    · simp [Progress.addAll, kept]
    · rfl

theorem Gathered.add_heeded [Hashing] {p q : Progress} (gathered : Gathered call grouping rows p)
    (heeded : call.heeds row = true) {change : Scope → Except Fault Unit × Scope}
    (updates : ∀ p : Progress, p.add call none row = p.update call.function none row change)
    (updated : p.update call.function (some grouping) row change = (.ok (), q)) :
    Gathered call grouping (rows ++ [row]) q := by
  rw [update_some] at updated
  obtain ⟨passed, rfl⟩ := Prod.mk.inj updated
  rw [GroupTable.update_fst] at passed
  constructor
  case ids =>
    rw [GroupTable.ids_update, gathered.ids, List.filter_append, List.map_append]
    simp only [List.filter_cons, if_pos heeded, List.filter_nil, List.map_cons, List.map_nil,
      eraseDups_append_singleton, List.mem_eraseDups]
  case key =>
    intro id
    have founder := gathered.key id
    rw [Grouping.group_append, GroupTable.group?_update, List.find?_append,
      apply_ite (Option.map _), founder]
    by_cases here : (grouping.keyOf row).id = id
    · rw [if_pos here.symm, if_pos here]
      cases (grouping.group id rows).find? call.heeds with
      | none => simp [heeded]
      | some first => simp
    · have other : ¬ id = (grouping.keyOf row).id := fun back => here back.symm
      simp [if_neg other, if_neg here]
  case scope =>
    intro id
    obtain ⟨alone, ran, same⟩ := gathered.scope id
    rw [Grouping.group_append, GroupTable.scope?, GroupTable.group?_update]
    by_cases here : (grouping.keyOf row).id = id
    · rw [if_pos here, if_pos here.symm, ← same]
      rw [here, ← same] at passed
      let after := { alone with
        total := some (change (alone.total.getD (.start call.function))).2 }
      refine ⟨after, addAll_append ran ?_, rfl⟩
      rw [Progress.addAll, updates, update_none, passed]
      rfl
    · have other : ¬ id = (grouping.keyOf row).id := fun back => here back.symm
      rw [if_neg here, if_neg other, List.append_nil]
      exact ⟨alone, ran, same⟩

theorem Gathered.add [Hashing] {p q : Progress} (gathered : Gathered call grouping rows p)
    (added : p.add call (some grouping) row = (.ok (), q)) :
    Gathered call grouping (rows ++ [row]) q := by
  rcases add_cases call row with
    ⟨unheeded, kept⟩ | ⟨-, fault, failed⟩ | ⟨heeded, change, updates⟩
  · rw [kept] at added
    cases added
    exact gathered.add_unheeded unheeded (kept none)
  · rw [failed] at added
    cases added
  · rw [updates] at added
    exact gathered.add_heeded heeded (updates none) added

theorem Gathered.addAll [Hashing] {more : List Row} {p q : Progress}
    (gathered : Gathered call grouping rows p)
    (added : p.addAll call (some grouping) more = (.ok (), q)) :
    Gathered call grouping (rows ++ more) q := by
  induction more generalizing rows p with
  | nil =>
      cases added
      rwa [List.append_nil]
  | cons row more ih =>
      rw [Progress.addAll] at added
      split at added
      · cases added
      · rename_i first
        rw [List.append_cons]
        exact ih (gathered.add first) added

end Progress

end RowQuery
