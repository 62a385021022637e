import RowQuery.Proofs.Progress.Columns
import RowQuery.Proofs.Progress.Each
import RowQuery.SelectList

/-!
# The states of an item

`Reached` follows an aggregate call through whatever is done to it, and keeps the ids of the groups
that its rows have come to since the groups were last given away. The groups of the item are these,
each once, in the order of their first rows (`Reached.ids`), and all of its accumulators are those
of the function of the call (`Reached.serves`).
-/

namespace RowQuery

open Grouping (idOf?)

namespace AggregateCall

open Progress (operand? refusal?)

/-- Whether a row comes to a scope. One that is refused before it does not. -/
def admits (call : AggregateCall) (row : Row) : Bool :=
  call.isStar || (operand? call row).any fun value => (refusal? call value).isNone

/-- The id of the group that a row comes to. -/
def reachedId? (call : AggregateCall) (grouping : Option Grouping) (row : Row) : Option String :=
  if call.admits row then idOf? grouping row else none

/-- What a row does to the scope that it comes to. -/
def effect [Hashing] (call : AggregateCall) (row : Row) (scope : Scope) :
    Except Fault Unit × Scope :=
  if call.isStar then (.ok (), scope.addRow)
  else match operand? call row with
    | some value => scope.add call value
    | none => (.ok (), scope)

end AggregateCall

namespace Progress

variable {call : AggregateCall} {grouping : Option Grouping} {row : Row} {p : Progress}

theorem add_of_admits [Hashing] (admitted : call.admits row = true) (grouping : Option Grouping)
    (p : Progress) :
    add call grouping row p = update call.function grouping row (call.effect row) p := by
  by_cases star : call.isStar = true
  · have effect : call.effect row = fun scope => (.ok (), scope.addRow) := by
      funext scope
      rw [AggregateCall.effect, if_pos star]
    rw [add, if_pos star, effect]
  · simp only [AggregateCall.admits, star, Bool.false_or, Option.any_eq_true,
      Option.isNone_iff_eq_none] at admitted
    obtain ⟨value, operand, passes⟩ := admitted
    have effect : call.effect row = Scope.add call value := by
      funext scope
      simp only [AggregateCall.effect, if_neg star, operand]
    simp only [add, if_neg star, operand, passes, effect]

theorem admits_cases [Hashing] (call : AggregateCall) (row : Row) :
    (call.admits row = false ∧ ∀ grouping p, (add call grouping row p).2 = p) ∨
      (call.admits row = true ∧ ∃ change : Scope → Except Fault Unit × Scope,
        ∀ grouping p, add call grouping row p = update call.function grouping row change p) := by
  cases admitted : call.admits row with
  | true => exact .inr ⟨rfl, call.effect row, add_of_admits admitted⟩
  | false =>
      refine .inl ⟨rfl, fun grouping p => ?_⟩
      simp only [AggregateCall.admits, Bool.or_eq_false_iff] at admitted
      obtain ⟨unstarred, refused⟩ := admitted
      cases operand : operand? call row with
      | none => simp [add, unstarred, operand]
      | some value =>
          cases fault : refusal? call value with
          | none => simp [operand, fault] at refused
          | some fault => simp [add, unstarred, operand, fault]

/-! ## Ids -/

theorem ids_add [Hashing] {met : List String} (ids : p.groups.ids = met.eraseDups) :
    (p.add call grouping row).2.groups.ids =
      (met ++ (call.reachedId? grouping row).toList).eraseDups := by
  rcases admits_cases call row with ⟨refused, kept⟩ | ⟨admitted, change, updates⟩
  · simp [AggregateCall.reachedId?, refused, kept, ids]
  · rw [updates, AggregateCall.reachedId?, if_pos admitted]
    cases grouping with
    | none => simp [update_none, idOf?, ids]
    | some grouping =>
        rw [update_some, idOf?, Option.map_some, Option.toList_some, eraseDups_append_singleton,
          GroupTable.ids_update, ids]
        simp only [List.mem_eraseDups]

/-! ## Accumulators -/

/-- A row changes one scope, whatever grouping the scopes are looked up by. -/
theorem scopeOf_add_or [Hashing] (p : Progress) (grouping : Option Grouping) (row other : Row)
    (lookup : Option Grouping) :
    (p.add call grouping row).2.scopeOf call.function lookup other =
        p.scopeOf call.function lookup other ∨
      (p.add call grouping row).2.scopeOf call.function lookup other =
        (p.add call grouping row).2.scopeOf call.function grouping row := by
  rcases admits_cases call row with ⟨-, kept⟩ | ⟨-, change, updates⟩
  · exact .inl (by rw [kept])
  · rw [updates]
    cases grouping with
    | none => cases lookup with
      | none => exact .inr rfl
      | some lookup => exact .inl rfl
    | some grouping => cases lookup with
      | none => exact .inl rfl
      | some lookup =>
          simp only [update_some, scopeOf, GroupTable.scope?, GroupTable.group?_update]
          by_cases same : (lookup.keyOf other).id = (grouping.keyOf row).id
          · exact .inr (by simp [same])
          · exact .inl (by simp [same])

theorem serves_add [Hashing] (takes : call.TakesItsColumn)
    (serves : ∀ lookup, p.Serves call.function lookup) (row : Row) (lookup : Option Grouping) :
    (p.add call grouping row).2.Serves call.function lookup := by
  intro other
  rcases p.scopeOf_add_or grouping row other lookup with same | same
  · rw [same]
    exact serves lookup other
  · rw [same]
    exact ((serves grouping).add takes row).2 row

end Progress

namespace SelectItem

variable {call : AggregateCall} {item : SelectItem}

theorem absorb_of_call [Hashing] (called : item.expression.call? = some call) (row : Row) :
    item.absorb row = ((item.progress.add call item.grouping row).1,
      { item with progress := (item.progress.add call item.grouping row).2 }) := by
  simp only [absorb, called]

theorem finish_of_call (called : item.expression.call? = some call) (result : ResultSet) :
    item.finish result =
      let finished := item.progress.finish call item.grouping item.expression.output result
      (finished.1, { item with progress := finished.2 }) := by
  simp only [finish, called]

/-- An item after more rows, whatever faults there are. -/
def absorbEach [Hashing] (rows : List Row) (item : SelectItem) : SelectItem :=
  rows.foldl (fun item row => (item.absorb row).2) item

theorem absorbEach_of_call [Hashing] (called : item.expression.call? = some call)
    (rows : List Row) : item.absorbEach rows =
      { item with progress := item.progress.addEach call item.grouping rows } := by
  induction rows generalizing item with
  | nil => rfl
  | cons row rows ih =>
      have step : item.absorbEach (row :: rows) = (item.absorb row).2.absorbEach rows := rfl
      rw [step, absorb_of_call called]
      exact ih called

/-! ## States -/

/-- An item of a call after some operations, with the ids of the groups that its rows have come to
since the groups were last given away. -/
inductive Reached [Hashing] (call : AggregateCall) : SelectItem → List String → Prop
  | made {e : Expression} (called : e.call? = some call) : Reached call (ofExpression e) []
  | start {item : SelectItem} {met : List String} (reached : Reached call item met) :
      Reached call item.start []
  | absorb {item : SelectItem} {met : List String} (reached : Reached call item met) (row : Row) :
      Reached call (item.absorb row).2 (met ++ (call.reachedId? item.grouping row).toList)
  | finish {item : SelectItem} {met : List String} (reached : Reached call item met)
      (result : ResultSet) :
      Reached call (item.finish result).2 (if item.grouping.isSome then [] else met)
  | withLabel {item : SelectItem} {met : List String} (reached : Reached call item met)
      (label : String) : Reached call (item.withLabel label) met
  | withGrouping {item : SelectItem} {met : List String} (reached : Reached call item met)
      (grouping : Option Grouping) : Reached call (item.withGrouping grouping) met

namespace Reached

variable {met : List String}

theorem called [Hashing] (reached : Reached call item met) : item.expression.call? = some call := by
  induction reached with
  | made called => exact called
  | start _ ih => exact ih
  | absorb _ row ih =>
      rw [absorb_of_call ih]
      exact ih
  | finish _ result ih =>
      rw [finish_of_call ih]
      exact ih
  | withLabel _ label ih => exact ih
  | withGrouping _ grouping ih => exact ih

theorem ids [Hashing] (reached : Reached call item met) :
    item.progress.groups.ids = met.eraseDups := by
  induction reached with
  | made called => rfl
  | start _ ih => rfl
  | absorb reached row ih =>
      rw [absorb_of_call reached.called]
      exact Progress.ids_add ih
  | @finish item met reached result ih =>
      rw [finish_of_call reached.called]
      cases item.grouping with
      | none => exact ih
      | some grouping => rfl
  | withLabel _ label ih => exact ih
  | withGrouping _ grouping ih => exact ih

theorem serves [Hashing] (reached : Reached call item met) (lookup : Option Grouping) :
    item.progress.Serves call.function lookup := by
  induction reached generalizing lookup with
  | made called => exact Progress.serves_start call.function lookup
  | start _ ih => exact Progress.serves_start call.function lookup
  | absorb reached row ih =>
      rw [absorb_of_call reached.called]
      exact Progress.serves_add (Expression.takesItsColumn reached.called) ih row lookup
  | @finish item met reached result ih =>
      rw [finish_of_call reached.called]
      cases item.grouping with
      | none => exact ih lookup
      | some grouping => cases lookup with
        | none => exact ih none
        | some lookup => exact Progress.serves_start call.function (some lookup)
  | withLabel _ label ih => exact ih lookup
  | withGrouping _ grouping ih => exact ih lookup

/-- The ids of the groups that rows come to are added in the order of the rows. -/
theorem absorbEach [Hashing] (reached : Reached call item met) (rows : List Row) :
    Reached call (item.absorbEach rows)
      (met ++ rows.filterMap (call.reachedId? item.grouping)) := by
  induction rows generalizing item met with
  | nil => rwa [List.filterMap_nil, List.append_nil]
  | cons row rows ih =>
      have grouping : (item.absorb row).2.grouping = item.grouping := by
        rw [absorb_of_call reached.called]
      have ran := ih (reached.absorb row)
      rw [grouping, List.append_assoc] at ran
      cases id : call.reachedId? item.grouping row with
      | none =>
          rw [List.filterMap_cons_none id]
          rwa [id] at ran
      | some _ =>
          rw [List.filterMap_cons_some id]
          rwa [id] at ran

end Reached

end SelectItem

end RowQuery
