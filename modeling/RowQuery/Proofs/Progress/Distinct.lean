import RowQuery.Proofs.Grouping.Ids
import RowQuery.Proofs.Progress.Scope
import RowQuery.Proofs.Value.Hash

/-!
# DISTINCT

With DISTINCT a call does over all rows what it does without over the rows whose value is new in
their group (`Paired.addAll`). The two runs go in step: they have the same groups with the same
accumulators, and the seen values of a scope are those of its rows so far. A value is new if it
coincides with none before it. Whether it is the same as one makes a difference exactly if a group
has two floats that are no number and have unlike hashes (`freshRows_eq_iff`).
-/

namespace RowQuery

/-! ## Rows with a new value -/

namespace Grouping

section
variable (alike : Value → Value → Bool) (grouping : Option Grouping) (field : String)

/-- Whether an earlier row of the group of a row has a value like its own. -/
def repeats (earlier : List Row) (row : Row) : Bool :=
  earlier.any fun other =>
    idOf? grouping other == idOf? grouping row && alike (valueAt other field) (valueAt row field)

/-- What is left of rows that follow some others without those that have no value, and without
those that repeat the value of an earlier row of their group. -/
def freshRows (earlier : List Row) : List Row → List Row
  | [] => []
  | row :: rows =>
    if valueAt row field = .null || repeats alike grouping field earlier row then
      freshRows (earlier ++ [row]) rows
    else row :: freshRows (earlier ++ [row]) rows

end

section
variable {grouping : Option Grouping} {field : String} {earlier rows : List Row} {row : Row}

theorem repeats_iff {alike : Value → Value → Bool} :
    repeats alike grouping field earlier row = true ↔
    ∃ other ∈ earlier, idOf? grouping other = idOf? grouping row ∧
      alike (valueAt other field) (valueAt row field) = true := by
  simp [repeats]

/-- In no group are there two floats that are no number and have unlike hashes. -/
def OneNaNEach [Hashing] (grouping : Option Grouping) (field : String) (rows : List Row) : Prop :=
  ∀ row ∈ rows, ∀ other ∈ rows, idOf? grouping row = idOf? grouping other →
    ¬ (valueAt row field).NaNsDiffer (valueAt other field)

instance [Hashing] : Decidable (OneNaNEach grouping field rows) :=
  inferInstanceAs (Decidable (∀ row ∈ rows, ∀ other ∈ rows,
    idOf? grouping row = idOf? grouping other →
      ¬ (valueAt row field).NaNsDiffer (valueAt other field)))

theorem repeats_same_of_coincides [Hashing]
    (repeated : repeats Value.coincides grouping field earlier row) :
    repeats Value.same grouping field earlier row := by
  obtain ⟨other, member, group, one⟩ := repeats_iff.mp repeated
  exact repeats_iff.mpr ⟨other, member, group, Value.same_of_coincides one⟩

theorem length_freshRows_le [Hashing] (grouping : Option Grouping) (field : String)
    (earlier rows : List Row) : (freshRows Value.same grouping field earlier rows).length ≤
      (freshRows Value.coincides grouping field earlier rows).length := by
  induction rows generalizing earlier with
  | nil => rfl
  | cons row rows ih =>
      have later := ih (earlier ++ [row])
      have finer : repeats Value.coincides grouping field earlier row = true →
          repeats Value.same grouping field earlier row = true := repeats_same_of_coincides
      simp only [freshRows, Bool.or_eq_true]
      split <;> split <;> simp_all [Nat.le_succ_of_le]

theorem oneNaNEach_append_singleton [Hashing] : OneNaNEach grouping field (earlier ++ [row]) ↔
    OneNaNEach grouping field earlier ∧
      ∀ other ∈ earlier, idOf? grouping other = idOf? grouping row →
        ¬ (valueAt other field).NaNsDiffer (valueAt row field) := by
  simp only [OneNaNEach, List.forall_mem_append, List.forall_mem_singleton]
  constructor
  · rintro ⟨before, -⟩
    exact ⟨fun other member => (before other member).1, fun other member => (before other member).2⟩
  · rintro ⟨before, last⟩
    exact ⟨fun other member => ⟨before other member, last other member⟩,
      fun other member group differ => last other member group.symm differ.symm,
      fun _ => Value.not_naNsDiffer_self _⟩

/-- A row whose float has another hash than one before it, where those before it have one hash,
repeats a value that is the same and none that coincides. -/
theorem repeats_of_differs [Hashing] (one : OneNaNEach grouping field earlier) {other : Row}
    (member : other ∈ earlier) (group : idOf? grouping other = idOf? grouping row)
    (differ : (valueAt other field).NaNsDiffer (valueAt row field)) :
    repeats Value.same grouping field earlier row = true ∧
      repeats Value.coincides grouping field earlier row = false := by
  refine ⟨repeats_iff.mpr ⟨other, member, group, differ.same⟩, ?_⟩
  rw [← Bool.not_eq_true, repeats_iff]
  rintro ⟨before, known, group', coincide⟩
  exact one other member before known (group.trans group'.symm) (differ.of_coincides coincide)

/-- Which rows are new is a matter of sameness exactly if no group has two floats that are no number
and have unlike hashes. -/
theorem freshRows_eq_iff [Hashing] (one : OneNaNEach grouping field earlier) :
    freshRows Value.coincides grouping field earlier rows =
      freshRows Value.same grouping field earlier rows ↔
      OneNaNEach grouping field (earlier ++ rows) := by
  induction rows generalizing earlier with
  | nil => simpa [freshRows] using one
  | cons row rows ih =>
      by_cases more : OneNaNEach grouping field (earlier ++ [row])
      · have repeated : repeats Value.coincides grouping field earlier row =
            repeats Value.same grouping field earlier row := by
          rw [Bool.eq_iff_iff]
          refine ⟨repeats_same_of_coincides, fun known => ?_⟩
          obtain ⟨other, member, group, alike⟩ := repeats_iff.mp known
          refine repeats_iff.mpr ⟨other, member, group, Value.coincides_iff.mpr ⟨alike, ?_⟩⟩
          exact more other (List.mem_append_left _ member) row (by simp) group
        rw [List.append_cons, ← ih more, freshRows, freshRows, repeated]
        split <;> simp
      · have differs := mt oneNaNEach_append_singleton.mpr more
        push Not at differs
        obtain ⟨other, member, group, differ⟩ := differs one
        obtain ⟨known, new⟩ := repeats_of_differs one member group differ
        apply iff_of_false
        · intro same
          have nonnull : valueAt row field ≠ .null := by
            obtain ⟨-, y, -, here, -⟩ := differ
            simp [here]
          have longer := length_freshRows_le grouping field (earlier ++ [row]) rows
          have lengths := congrArg List.length same
          simp [freshRows, known, new, nonnull] at lengths
          omega
        · intro all
          refine more fun first member second member' => all first ?_ second ?_
          · rw [List.append_cons]
            exact List.mem_append_left _ member
          · rw [List.append_cons]
            exact List.mem_append_left _ member'

end

end Grouping

/-! ## Seen values left aside -/

/-- The scope without its seen values. -/
def Scope.forget (scope : Scope) : Scope :=
  { scope with seen := .empty }

def Group.forget (group : Group) : Group :=
  { group with scope := group.scope.forget }

namespace GroupTable

def forget (table : GroupTable) : GroupTable where
  groups := table.groups.map Group.forget
  place? := table.place?
  indexed := by
    have ids : ((table.groups.map Group.forget).map fun group => group.key.id) =
        table.toGroupStore.ids := by
      rw [List.map_map]
      rfl
    exact ⟨(congrArg List.Nodup ids).mpr table.distinct,
      fun id => (table.indexed.found id).trans (congrArg (List.idxOf? id) ids.symm)⟩

theorem find_forget (id : String) (groups : List Group) :
    find id (groups.map Group.forget) = (find id groups).map Group.forget := by
  rw [find, find, List.find?_map]
  rfl

section
variable {β : Type} {key : GroupKey} {fresh : Scope} {change change' : Scope → β × Scope}

theorem updateGroups_forget {groups : List Group} (unseen : fresh.forget = fresh)
    (agree : change' (((find key.id groups).map Group.scope).getD fresh).forget =
      ((change (((find key.id groups).map Group.scope).getD fresh)).1,
        (change (((find key.id groups).map Group.scope).getD fresh)).2.forget)) :
    updateGroups key fresh change' (groups.map Group.forget) =
      ((updateGroups key fresh change groups).1,
        (updateGroups key fresh change groups).2.map Group.forget) := by
  induction groups with
  | nil =>
      have start : change' fresh = ((change fresh).1, (change fresh).2.forget) := by
        simpa [find, unseen] using agree
      simp only [updateGroups, List.map_nil, start]
      rfl
  | cons group rest ih =>
      by_cases here : group.key.id = key.id
      · have found : find key.id (group :: rest) = some group := by simp [find, here]
        have same : change' group.scope.forget =
            ((change group.scope).1, (change group.scope).2.forget) := by
          simpa [found] using agree
        have here' : group.forget.key.id = key.id := here
        have scope : group.forget.scope = group.scope.forget := rfl
        simp only [updateGroups, List.map_cons, if_pos here, if_pos here', scope, same]
        rfl
      · have found : find key.id (group :: rest) = find key.id rest := by simp [find, here]
        have here' : ¬ group.forget.key.id = key.id := here
        rw [found] at agree
        simp only [updateGroups, List.map_cons, if_neg here, if_neg here', ih agree]

theorem updateGroups_of_fixed {groups : List Group} {group : Group} {result : β}
    (found : find key.id groups = some group) (fixed : change group.scope = (result, group.scope)) :
    updateGroups key fresh change groups = (result, groups) := by
  induction groups with
  | nil => cases found
  | cons first rest ih =>
      by_cases here : first.key.id = key.id
      · have same : first = group := by simpa [find, here] using found
        subst same
        simp only [updateGroups, if_pos here, fixed]
      · have later : find key.id rest = some group := by simpa [find, here] using found
        simp only [updateGroups, if_neg here, ih later]

theorem update_forget {table : GroupTable} (unseen : fresh.forget = fresh)
    (agree : change' ((table.scope? key.id).getD fresh).forget =
      ((change ((table.scope? key.id).getD fresh)).1,
        (change ((table.scope? key.id).getD fresh)).2.forget)) :
    table.forget.update key fresh change' =
      ((table.update key fresh change).1, (table.update key fresh change).2.forget) := by
  have groups := updateGroups_forget unseen agree
  obtain ⟨result, after⟩ := update_eq key fresh change table
  obtain ⟨result', after'⟩ := update_eq key fresh change' table.forget
  have results := congrArg Prod.fst groups
  have scopes := congrArg Prod.snd groups
  refine Prod.ext (result'.trans (results.trans result.symm)) (eq_of_groups (after'.trans ?_))
  exact scopes.trans (congrArg (List.map Group.forget) after.symm)

theorem update_of_fixed {table : GroupTable} {group : Group} {result : β}
    (found : table.group? key.id = some group)
    (fixed : change group.scope = (result, group.scope)) :
    table.update key fresh change = (result, table) := by
  have groups : updateGroups key fresh change table.groups = (result, table.groups) :=
    updateGroups_of_fixed found fixed
  obtain ⟨result, after⟩ := update_eq key fresh change table
  rw [groups] at result after
  exact Prod.ext result (eq_of_groups after)

end

end GroupTable

namespace Progress

def forget (p : Progress) : Progress :=
  ⟨p.total.map Scope.forget, p.groups.forget⟩

open Grouping (idOf? valueAt repeats repeats_iff freshRows)

section
variable {β : Type} {function : AggregateFunction} {grouping : Option Grouping} {row : Row}
  {change change' : Scope → β × Scope}

theorem scopeOf_forget (p : Progress) : p.forget.scopeOf function grouping row =
    (p.scopeOf function grouping row).forget := by
  cases grouping with
  | none =>
      rw [scopeOf, scopeOf, forget]
      cases p.total <;> rfl
  | some grouping =>
      rw [scopeOf, scopeOf, GroupTable.scope?, GroupTable.scope?, GroupTable.group?,
        GroupTable.group?, forget, GroupTable.forget, GroupTable.find_forget]
      cases GroupTable.find (grouping.keyOf row).id p.groups.groups <;> rfl

/-- Changes that agree on the scope of a row agree on the whole. -/
theorem update_forget (p : Progress)
    (agree : change' (p.scopeOf function grouping row).forget =
      ((change (p.scopeOf function grouping row)).1,
        (change (p.scopeOf function grouping row)).2.forget)) :
    p.forget.update function grouping row change' =
      ((p.update function grouping row change).1,
        (p.update function grouping row change).2.forget) := by
  cases grouping with
  | none =>
      have scope : p.forget.total.getD (.start function) =
          (p.total.getD (.start function)).forget := by
        cases p with
        | mk total groups => cases total <;> rfl
      have same : change' (p.total.getD (.start function)).forget =
          ((change (p.total.getD (.start function))).1,
            (change (p.total.getD (.start function))).2.forget) := agree
      rw [update_none, update_none, scope, same]
      rfl
  | some grouping =>
      rw [update_some, update_some]
      have groups : p.groups.forget.update (grouping.keyOf row) (.start function) change' =
          ((p.groups.update (grouping.keyOf row) (.start function) change).1,
            (p.groups.update (grouping.keyOf row) (.start function) change).2.forget) :=
        GroupTable.update_forget rfl agree
      simp only [forget, groups]

/-- A change of nothing, in a scope that is there. -/
theorem update_of_fixed {p : Progress} {result : β}
    (there : p.scopeOf function grouping row ≠ .start function)
    (fixed : change (p.scopeOf function grouping row) =
      (result, p.scopeOf function grouping row)) :
    p.update function grouping row change = (result, p) := by
  cases grouping with
  | none =>
      cases total : p.total with
      | none => simp [scopeOf, total] at there
      | some scope =>
          simp only [scopeOf, total, Option.getD_some] at fixed
          rw [update_none, total, Option.getD_some, fixed]
          simp only [← total]
  | some grouping =>
      cases found : p.groups.group? (grouping.keyOf row).id with
      | none => simp [scopeOf, GroupTable.scope?, found] at there
      | some group =>
          simp only [scopeOf, GroupTable.scope?, found, Option.map_some, Option.getD_some] at fixed
          rw [update_some, GroupTable.update_of_fixed found fixed]

end

theorem finish_forget (call : AggregateCall) (distinct : Bool) (grouping : Option Grouping)
    (field : String) (result : ResultSet) (p : Progress) :
    (p.forget.finish call grouping field result).1 =
      (p.finish { call with distinct } grouping field result).1 := by
  cases grouping with
  | none =>
      rw [finish, finish, forget]
      cases p.total <;> rfl
  | some grouping =>
      rw [finish, finish, merge, merge, forget, GroupTable.forget, List.foldl_map]
      rfl

/-! ## In step -/

section
variable {call : AggregateCall} {grouping : Option Grouping} {earlier rows : List Row} {row : Row}
  {field : String} {p q : Progress}

def withDistinct (call : AggregateCall) : AggregateCall :=
  { call with distinct := true }

theorem operand?_eq_valueAt (call : AggregateCall) (row : Row) :
    operand? call row = if valueAt row (Name.normalize call.column) = .null then none
      else some (valueAt row (Name.normalize call.column)) := by
  rw [operand?, valueAt]
  cases row.get? (Name.normalize call.column) with
  | none => rfl
  | some value => cases value <;> rfl

/-- A call that DISTINCT makes a difference to. -/
structure Countable (call : AggregateCall) (field : String) : Prop where
  plain : call.distinct = false
  heeds : call.function.heedsDistinct = true
  unstarred : call.isStar = false
  field : Name.normalize call.column = field

/-- An earlier row of the group of a row has a value. -/
def Known [Hashing] (grouping : Option Grouping) (field : String) (earlier : List Row) (row : Row)
    (value : Value) : Prop :=
  ∃ other ∈ earlier, idOf? grouping other = idOf? grouping row ∧
    (valueAt other field).coincides value = true

theorem repeats_iff_known [Hashing] : repeats Value.coincides grouping field earlier row = true ↔
    Known grouping field earlier row (valueAt row field) :=
  repeats_iff

theorem known_append_singleton [Hashing] {other : Row} {value : Value} :
    Known grouping field (earlier ++ [row]) other value ↔ Known grouping field earlier other value ∨
      idOf? grouping row = idOf? grouping other ∧ (valueAt row field).coincides value = true := by
  constructor
  · rintro ⟨known, member, group, same⟩
    rcases List.mem_append.mp member with before | last
    · exact .inl ⟨known, before, group, same⟩
    · rw [List.mem_singleton] at last
      exact .inr (last ▸ ⟨group, same⟩)
  · rintro (⟨known, member, group, same⟩ | ⟨group, same⟩)
    · exact ⟨known, List.mem_append_left _ member, group, same⟩
    · exact ⟨row, List.mem_append_right _ (List.mem_singleton.mpr rfl), group, same⟩

theorem Known.of_group [Hashing] {other : Row} {value : Value}
    (known : Known grouping field earlier row value)
    (group : idOf? grouping row = idOf? grouping other) :
    Known grouping field earlier other value := by
  obtain ⟨before, member, group', same⟩ := known
  exact ⟨before, member, group'.trans group, same⟩

/-- A run with DISTINCT over some rows, and one without over those with a new value. -/
structure Paired [Hashing] (call : AggregateCall) (grouping : Option Grouping) (field : String)
    (earlier : List Row) (p q : Progress) : Prop where
  forget : q = p.forget
  serves : p.Serves call.function grouping
  seen (row : Row) (value : Value) : value ≠ .null →
    ((p.scopeOf call.function grouping row).seen.contains value = true ↔
      Known grouping field earlier row value)
  accepted : ∀ other ∈ earlier, call.fault? other = none

theorem paired_start [Hashing] : Paired call grouping field [] .start .start where
  forget := rfl
  serves := serves_start call.function grouping
  seen row value _ := by
    rw [scopeOf_start]
    simp [Scope.start, Seen.contains, Seen.empty, Known]
  accepted _ member := by cases member

theorem Paired.accepted_append [Hashing] (paired : Paired call grouping field earlier p q)
    (accepted : call.fault? row = none) : ∀ other ∈ earlier ++ [row], call.fault? other = none :=
  List.forall_mem_append.mpr ⟨paired.accepted, List.forall_mem_singleton.mpr accepted⟩

theorem Paired.keep [Hashing] (paired : Paired call grouping field earlier p q)
    (accepted : call.fault? row = none)
    (known : ∀ value, value ≠ .null → (valueAt row field).coincides value = true →
      Known grouping field earlier row value) :
    Paired call grouping field (earlier ++ [row]) p q where
  forget := paired.forget
  serves := paired.serves
  seen other value nonnull := by
    rw [paired.seen other value nonnull, known_append_singleton]
    constructor
    · exact .inl
    · rintro (before | ⟨group, same⟩)
      · exact before
      · exact (known value nonnull same).of_group group
  accepted := paired.accepted_append accepted

theorem fault?_of_coincides [Hashing] {other : Row} (countable : Countable call field)
    (same : (valueAt other field).coincides (valueAt row field) = true)
    (accepted : call.fault? other = none) : call.fault? row = none := by
  have operand (row : Row) : operand? call row =
      if valueAt row field = .null then none else some (valueAt row field) := by
    rw [operand?_eq_valueAt, countable.field]
  cases number : (valueAt row field).kind.isNumeric with
  | true =>
      have nonnull : valueAt row field ≠ .null := by
        intro null
        rw [null] at number
        cases number
      have fits : call.misfit? row = none := by
        simp [AggregateCall.misfit?, operand, nonnull, number]
      rw [AggregateCall.fault?, fits]
      cases call.operands <;> rfl
  | false =>
      have place : (valueAt row field).place? = none := by
        rwa [← Option.not_isSome_iff_eq_none, Value.isSome_place?, Bool.not_eq_true]
      have operands : operand? call row = operand? call other := by
        rw [operand, operand, Value.eq_of_coincides place same]
      rw [AggregateCall.fault?, AggregateCall.misfit?, operands]
      exact accepted

theorem add_withDistinct [Hashing] (countable : Countable call field)
    (nonnull : valueAt row field ≠ .null)
    (accepted : call.fault? row = none) (distinct : Bool) (p : Progress) :
    p.add { call with distinct } grouping row =
      p.update call.function grouping row
        (Scope.add { call with distinct } (valueAt row field)) := by
  have star : AggregateCall.isStar { call with distinct } = false := countable.unstarred
  have operand : operand? { call with distinct } row = some (valueAt row field) := by
    rw [operand?_eq_valueAt]
    simp only [countable.field, if_neg nonnull]
  have allowed : refusal? { call with distinct } (valueAt row field) = none := by
    apply refusal?_of_accepted
    rcases fault?_of_operand operand with ⟨-, accepted⟩ | ⟨-, fault, faulty, -⟩
    · exact accepted
    · cases accepted.symm.trans faulty
  rw [add, if_neg (by rw [star]; decide), operand]
  simp only [allowed]

theorem Countable.tracks (countable : Countable call field) :
    (withDistinct call).tracksDistinct = true :=
  countable.heeds

theorem scope_add_of_new [Hashing] (countable : Countable call field) {value : Value}
    {scope : Scope} (nonnull : value ≠ .null) (new : scope.seen.contains value = false) :
    Scope.add call value scope.forget = ((Scope.add (withDistinct call) value scope).1,
      (Scope.add (withDistinct call) value scope).2.forget) := by
  have plain : call.tracksDistinct = false := by
    rw [AggregateCall.tracksDistinct, countable.plain, Bool.false_and]
  have operands : (withDistinct call).operands = call.operands := rfl
  have accumulator : scope.forget.accumulator = scope.accumulator := rfl
  rw [Scope.add_of_plain plain, Scope.add_of_new countable.tracks nonnull new, Scope.pass,
    Scope.pass, operands, accumulator]
  cases scope.accumulator.add call.operands value <;> rfl

theorem Paired.add_known [Hashing] (countable : Countable call field)
    (paired : Paired call grouping field earlier p q)
    (known : valueAt row field = .null ∨
      repeats Value.coincides grouping field earlier row = true) :
    p.add (withDistinct call) grouping row = (.ok (), p) ∧
      Paired call grouping field (earlier ++ [row]) p q := by
  by_cases null : valueAt row field = .null
  · have missing : operand? call row = none := by
      rw [operand?_eq_valueAt, countable.field, if_pos null]
    have missing' : operand? (withDistinct call) row = none := missing
    have star : (withDistinct call).isStar = false := countable.unstarred
    refine ⟨?_, paired.keep (fault?_of_no_operand missing) fun value nonnull same => ?_⟩
    · rw [add, if_neg (by rw [star]; decide), missing']
    · rw [null, Value.coincides_comm] at same
      exact absurd (Value.eq_of_coincides rfl same) nonnull
  · obtain ⟨other, member, group, same⟩ := repeats_iff.mp (known.resolve_left null)
    have accepted := fault?_of_coincides countable same (paired.accepted other member)
    have seen := (paired.seen row _ null).mpr ⟨other, member, group, same⟩
    have there : p.scopeOf call.function grouping row ≠ .start call.function := by
      intro fresh
      rw [fresh] at seen
      cases seen
    refine ⟨?_, paired.keep accepted fun value _ same' => ?_⟩
    · exact (add_withDistinct countable null accepted true p).trans
        (update_of_fixed there (Scope.add_of_seen countable.tracks seen))
    · exact ⟨other, member, group, Value.coincides_trans same same'⟩

theorem Paired.add_new [Hashing] (countable : Countable call field)
    (paired : Paired call grouping field earlier p q) (nonnull : valueAt row field ≠ .null)
    (new : repeats Value.coincides grouping field earlier row = false) :
    (p.add (withDistinct call) grouping row).1 = (q.add call grouping row).1 ∧
      ((q.add call grouping row).1 = .ok () →
        Paired call grouping field (earlier ++ [row]) (p.add (withDistinct call) grouping row).2
          (q.add call grouping row).2) := by
  have takes : call.TakesItsColumn := by
    intro star
    rw [countable.unstarred] at star
    cases star
  have takes' : (withDistinct call).TakesItsColumn := takes
  have serves : q.Serves call.function grouping := by
    intro other
    rw [paired.forget, scopeOf_forget]
    exact paired.serves other
  obtain ⟨outcome, kept⟩ := Serves.add takes' paired.serves row
  obtain ⟨outcome', -⟩ := serves.add takes row
  refine ⟨outcome.trans outcome'.symm, fun passed => ?_⟩
  have accepted : call.fault? row = none := by
    rw [outcome'] at passed
    cases faulty : call.fault? row with
    | none => rfl
    | some fault =>
        rw [faulty] at passed
        cases passed
  have unseen :
      (p.scopeOf call.function grouping row).seen.contains (valueAt row field) = false := by
    rw [← Bool.not_eq_true, paired.seen row _ nonnull, ← repeats_iff_known, new]
    decide
  have agree := scope_add_of_new countable nonnull unseen
  have plain : q.add call grouping row =
      q.update call.function grouping row (Scope.add call (valueAt row field)) :=
    add_withDistinct countable nonnull accepted call.distinct q
  have distinct : p.add (withDistinct call) grouping row =
      p.update call.function grouping row (Scope.add (withDistinct call) (valueAt row field)) :=
    add_withDistinct countable nonnull accepted true p
  constructor
  case forget =>
    rw [plain, distinct, paired.forget, update_forget p agree]
  case serves => exact kept
  case seen =>
    intro other value some_value
    rw [distinct, scopeOf_update]
    rw [known_append_singleton]
    by_cases group : idOf? grouping row = idOf? grouping other
    · rw [if_pos group.symm, Scope.add_of_new countable.tracks nonnull unseen, Scope.seen_pass,
        Seen.contains, List.any_append, Bool.or_eq_true, ← Seen.contains,
        paired.seen row value some_value, and_iff_right group]
      refine or_congr ⟨fun known => known.of_group group, fun known => known.of_group group.symm⟩ ?_
      simp
    · rw [if_neg (Ne.symm group), paired.seen other value some_value]
      simp [group]
  case accepted => exact paired.accepted_append accepted

theorem Paired.addAll [Hashing] (countable : Countable call field)
    (paired : Paired call grouping field earlier p q) (rows : List Row) :
    (p.addAll (withDistinct call) grouping rows).1 =
        (q.addAll call grouping (freshRows Value.coincides grouping field earlier rows)).1 ∧
      ((p.addAll (withDistinct call) grouping rows).1 = .ok () →
        (q.addAll call grouping (freshRows Value.coincides grouping field earlier rows)).2 =
          (p.addAll (withDistinct call) grouping rows).2.forget) := by
  -- Each row extends `earlier`: `freshRows` and `Paired` look back at all rows so far, not only at
  -- those that were passed on.
  induction rows generalizing earlier p q with
  | nil => exact ⟨rfl, fun _ => paired.forget⟩
  | cons row rows ih =>
      rw [freshRows]
      split
      · rename_i known
        have known' : valueAt row field = .null ∨
            repeats Value.coincides grouping field earlier row = true := by
          simpa using known
        obtain ⟨added, paired⟩ := paired.add_known countable known'
        rw [Progress.addAll, added]
        exact ih paired
      · rename_i unknown
        have unknown' : valueAt row field ≠ .null ∧
            repeats Value.coincides grouping field earlier row = false := by
          simpa using unknown
        obtain ⟨same, later⟩ := paired.add_new countable unknown'.1 unknown'.2
        rw [Progress.addAll, Progress.addAll]
        rcases added : p.add (withDistinct call) grouping row with ⟨fault | _, p'⟩ <;>
          rcases added' : q.add call grouping row with ⟨fault' | _, q'⟩ <;>
          rw [added, added'] at same later
        · cases same
          exact ⟨rfl, fun never => by cases never⟩
        · cases same
        · cases same
        · exact ih (later rfl)

end

end Progress

end RowQuery
