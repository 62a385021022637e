import RowQuery.Proofs.Progress.Scope
import RowQuery.Proofs.Value.Hash

/-!
# Many rows, faults passed over

A caller may go on after a fault. A scope is then what its rows make of it, each in its turn
(`scopeOf_addEach`), and its accumulator is what the function makes of the values that the call
passes on: all values that are not NULL, or one of each under DISTINCT (`accumulator_foldl_take`).
-/

namespace RowQuery

/-! ## One of each value -/

/-- What is left of values that follow some others without those that an earlier one coincides
with. -/
def Value.firsts [Hashing] (earlier : List Value) : List Value → List Value
  | [] => []
  | value :: values =>
    if earlier.any fun other => other.coincides value then firsts earlier values
    else value :: firsts (earlier ++ [value]) values

namespace AggregateCall

open Progress (operand?)

/-- The values that a call meets in some rows. -/
def values (call : AggregateCall) (rows : List Row) : List Value :=
  rows.filterMap (operand? call)

/-- The values that a call passes on to its function: under DISTINCT, one of each. -/
def passedOn [Hashing] (call : AggregateCall) (values : List Value) : List Value :=
  if call.tracksDistinct then Value.firsts [] values else values

theorem ne_null_of_mem_values {call : AggregateCall} {rows : List Row} {value : Value}
    (member : value ∈ call.values rows) : value ≠ .null := by
  obtain ⟨row, -, operand⟩ := List.mem_filterMap.mp member
  rintro rfl
  simp [operand?, Option.filter_eq_some_iff, Value.isNull] at operand

end AggregateCall

/-! ## One scope -/

/-- The state after one more value; a value that is refused leaves it as it was. -/
def Accumulator.take (rule : OperandRule) (accumulator : Accumulator) (value : Value) :
    Accumulator :=
  match accumulator.add rule value with
  | .ok after => after
  | .error _ => accumulator

namespace Scope

open Progress (operand? refusal?)

/-- A scope after one more value, which may be refused. -/
def take [Hashing] (call : AggregateCall) (scope : Scope) (value : Value) : Scope :=
  if (refusal? call value).isSome then scope else (add call value scope).2

/-- A scope after one more of its rows. -/
def absorb [Hashing] (call : AggregateCall) (scope : Scope) (row : Row) : Scope :=
  if call.isStar then scope.addRow else (operand? call row).elim scope (scope.take call)

variable {call : AggregateCall} {scope : Scope} {value : Value}

theorem foldl_absorb [Hashing] (unstarred : call.isStar = false) (rows : List Row) (scope : Scope) :
    rows.foldl (absorb call) scope = (call.values rows).foldl (take call) scope := by
  induction rows generalizing scope with
  | nil => rfl
  | cons row rows ih =>
      have absorbed : scope.absorb call row = (operand? call row).elim scope (scope.take call) := by
        simp [absorb, unstarred]
      rw [List.foldl_cons, absorbed, ih, AggregateCall.values, AggregateCall.values]
      cases operand : operand? call row with
      | none => rw [List.filterMap_cons_none operand, Option.elim_none]
      | some value => rw [List.filterMap_cons_some operand, Option.elim_some, List.foldl_cons]

/-! ### Without DISTINCT -/

theorem snd_pass {seen : Seen} : (scope.pass call value seen).2 =
    ⟨scope.accumulator.take call.operands value, seen⟩ := by
  rw [pass, Accumulator.take]
  cases scope.accumulator.add call.operands value <;> rfl

theorem take_of_allowed [Hashing] (allowed : refusal? call value = none) :
    scope.take call value = (scope.add call value).2 := by
  rw [take, allowed]
  rfl

theorem accumulator_take_of_plain [Hashing] (plain : call.tracksDistinct = false) (scope : Scope)
    (value : Value) :
    (scope.take call value).accumulator = scope.accumulator.take call.operands value := by
  rw [take_of_allowed (Progress.refusal?_of_plain plain value), add_of_plain plain, snd_pass]

/-! ### With DISTINCT -/

/-- The seen values are those that were met before, refused ones aside. -/
def Remembers [Hashing] (call : AggregateCall) (earlier : List Value) (scope : Scope) : Prop :=
  ∀ value, value ≠ .null → refusal? call value = none →
    scope.seen.contains value = earlier.any fun other => other.coincides value

theorem accepted_or_refused (tracks : call.tracksDistinct = true) (value : Value) :
    (refusal? call value = none ∧ (call.function.isNumeric = true →
        ∃ quantity, value.contribution call.function call.operands = .ok quantity)) ∨
      (call.function.isNumeric = true ∧ ∃ fault, refusal? call value = some fault ∧
        value.contribution call.function call.operands = .error fault) := by
  rw [refusal?, tracks, Bool.and_true]
  cases numeric : call.function.isNumeric with
  | false => exact .inl ⟨rfl, fun never => by cases never⟩
  | true => cases contributed : value.contribution call.function call.operands with
    | ok quantity => exact .inl ⟨rfl, fun _ => ⟨quantity, rfl⟩⟩
    | error fault => exact .inr ⟨rfl, fault, rfl, rfl⟩

/-- A number is never refused, and only numbers can be the same without being equal. -/
theorem refusal?_eq_none_of_coincides [Hashing] {other : Value}
    (same : other.coincides value = true)
    (accepted : refusal? call other = none) : refusal? call value = none := by
  cases number : value.kind.isNumeric with
  | true =>
      exact Progress.refusal?_of_accepted fun _ => Value.exists_contribution (.inr number)
  | false =>
      have place : value.place? = none := by
        rwa [← Option.not_isSome_iff_eq_none, Value.isSome_place?, Bool.not_eq_true]
      exact Value.eq_of_coincides place same ▸ accepted

theorem Remembers.refused [Hashing] {earlier : List Value} {fault : Fault}
    (remembers : scope.Remembers call earlier) (refused : refusal? call value = some fault) :
    scope.Remembers call (earlier ++ [value]) := by
  intro other nonnull accepted
  have apart : value.coincides other = false := by
    rw [← Bool.not_eq_true, Value.coincides_comm]
    intro same
    cases (refusal?_eq_none_of_coincides same accepted).symm.trans refused
  rw [remembers other nonnull accepted, List.any_append, List.any_cons, List.any_nil, apart,
    Bool.or_self, Bool.or_false]

theorem Remembers.accepted [Hashing] {earlier : List Value} {accumulator : Accumulator}
    (remembers : scope.Remembers call earlier) (value : Value) :
    Remembers call (earlier ++ [value]) ⟨accumulator, ⟨scope.seen.values ++ [value]⟩⟩ := by
  intro other nonnull accepted
  rw [Seen.contains, List.any_append, List.any_append, ← Seen.contains,
    remembers other nonnull accepted]

theorem take_of_seen [Hashing] (tracks : call.tracksDistinct = true)
    (seen : scope.seen.contains value = true) : scope.take call value = scope := by
  rw [take, add_of_seen tracks seen, ite_self]

theorem take_of_new [Hashing] (tracks : call.tracksDistinct = true) (nonnull : value ≠ .null)
    (new : scope.seen.contains value = false) (allowed : refusal? call value = none) :
    scope.take call value =
      ⟨scope.accumulator.take call.operands value, ⟨scope.seen.values ++ [value]⟩⟩ := by
  rw [take_of_allowed allowed, add_of_new tracks nonnull new, snd_pass]

theorem accumulator_foldl_take_of_distinct [Hashing] {earlier values : List Value}
    (tracks : call.tracksDistinct = true) (serves : scope.accumulator.function = call.function)
    (remembers : scope.Remembers call earlier) (nonnull : ∀ value ∈ values, value ≠ .null) :
    (values.foldl (take call) scope).accumulator =
      (Value.firsts earlier values).foldl (Accumulator.take call.operands) scope.accumulator := by
  induction values generalizing earlier scope with
  | nil => rfl
  | cons value values ih =>
      obtain ⟨here, later⟩ := List.forall_mem_cons.mp nonnull
      rw [List.foldl_cons, Value.firsts]
      rcases accepted_or_refused tracks value with
        ⟨allowed, accepted⟩ | ⟨numeric, fault, refused, contributed⟩
      · rw [← remembers value here allowed]
        cases seen : scope.seen.contains value with
        | true =>
            rw [take_of_seen tracks seen, if_pos rfl]
            exact ih serves remembers later
        | false =>
            rw [take_of_new tracks here seen allowed, if_neg Bool.false_ne_true, List.foldl_cons]
            rw [← serves] at accepted
            obtain ⟨after, added, kept⟩ := Accumulator.exists_add accepted
            have taken : scope.accumulator.take call.operands value = after := by
              simp only [Accumulator.take, added]
            rw [taken]
            exact ih (kept.trans serves) (remembers.accepted value) later
      · have untouched : scope.take call value = scope := by simp [take, refused]
        rw [untouched]
        split
        · exact ih serves remembers later
        · -- The value is kept among the first ones, but the function refuses it as well.
          rw [← serves] at numeric contributed
          have kept : scope.accumulator.take call.operands value = scope.accumulator := by
            simp only [Accumulator.take, Accumulator.add_of_error numeric contributed]
          rw [List.foldl_cons, kept]
          exact ih serves (remembers.refused refused) later

/-- What a new scope has of some values. -/
theorem accumulator_foldl_take [Hashing] {values : List Value}
    (nonnull : ∀ value ∈ values, value ≠ .null) :
    (values.foldl (take call) (.start call.function)).accumulator =
      (call.passedOn values).foldl (Accumulator.take call.operands) (.start call.function) := by
  rw [AggregateCall.passedOn]
  cases tracks : call.tracksDistinct with
  | true =>
      have remembers : (start call.function).Remembers call [] := fun value _ _ => rfl
      exact accumulator_foldl_take_of_distinct tracks (Accumulator.function_start _) remembers
        nonnull
  | false =>
      have kept (values : List Value) (scope : Scope) : (values.foldl (take call) scope).accumulator
          = values.foldl (Accumulator.take call.operands) scope.accumulator := by
        induction values generalizing scope with
        | nil => rfl
        | cons value values ih =>
            rw [List.foldl_cons, List.foldl_cons, ih, accumulator_take_of_plain tracks]
      exact kept values _

end Scope

/-! ## A run -/

namespace Grouping

/-- The rows of the scope of a row. -/
def alongside (grouping : Option Grouping) (row : Row) (rows : List Row) : List Row :=
  rows.filter fun other => idOf? grouping other == idOf? grouping row

end Grouping

namespace Progress

open Grouping (idOf? alongside)

variable {call : AggregateCall} {grouping : Option Grouping} {row other : Row} {p : Progress}

/-- A call after more rows, whatever faults there are. -/
def addEach [Hashing] (call : AggregateCall) (grouping : Option Grouping) (rows : List Row)
    (p : Progress) : Progress :=
  rows.foldl (fun p row => (p.add call grouping row).2) p

theorem scopeOf_of_idOf? {function : AggregateFunction}
    (same : idOf? grouping other = idOf? grouping row) (p : Progress) :
    p.scopeOf function grouping other = p.scopeOf function grouping row := by
  cases grouping with
  | none => rfl
  | some grouping =>
      have ids : (grouping.keyOf other).id = (grouping.keyOf row).id := Option.some_inj.mp same
      rw [scopeOf, scopeOf, ids]

theorem scopeOf_add [Hashing] (p : Progress) (row other : Row) :
    (p.add call grouping row).2.scopeOf call.function grouping other =
      if idOf? grouping other = idOf? grouping row then
        (p.scopeOf call.function grouping row).absorb call row
      else p.scopeOf call.function grouping other := by
  have unchanged (kept : (p.scopeOf call.function grouping row).absorb call row =
      p.scopeOf call.function grouping row) : p.scopeOf call.function grouping other =
        if idOf? grouping other = idOf? grouping row then
          (p.scopeOf call.function grouping row).absorb call row
        else p.scopeOf call.function grouping other := by
    split
    · rename_i same
      rw [kept, scopeOf_of_idOf? same]
    · rfl
  rw [add]
  split
  · rename_i star
    rw [scopeOf_update, Scope.absorb, if_pos star]
  · rename_i star
    cases operand : operand? call row with
    | none => exact unchanged (by simp [Scope.absorb, star, operand])
    | some value =>
        have absorbed : (p.scopeOf call.function grouping row).absorb call row =
            (p.scopeOf call.function grouping row).take call value := by
          simp [Scope.absorb, star, operand]
        cases refused : refusal? call value with
        | some fault =>
            simp only [refused]
            exact unchanged (by simp [absorbed, Scope.take, refused])
        | none =>
            have taken : (p.scopeOf call.function grouping row).take call value =
                (Scope.add call value (p.scopeOf call.function grouping row)).2 := by
              simp [Scope.take, refused]
            simp only [refused]
            rw [scopeOf_update, absorbed, taken]

theorem scopeOf_addEach [Hashing] (rows : List Row) (p : Progress) (row : Row) :
    (p.addEach call grouping rows).scopeOf call.function grouping row =
      (alongside grouping row rows).foldl (Scope.absorb call)
        (p.scopeOf call.function grouping row) := by
  induction rows generalizing p with
  | nil => rfl
  | cons first rows ih =>
      have step : p.addEach call grouping (first :: rows) =
          (p.add call grouping first).2.addEach call grouping rows := rfl
      rw [step, ih, scopeOf_add, alongside, alongside, List.filter_cons]
      by_cases same : idOf? grouping first = idOf? grouping row
      · rw [if_pos same.symm, if_pos (beq_iff_eq.mpr same), List.foldl_cons,
          scopeOf_of_idOf? same]
      · rw [if_neg (Ne.symm same), if_neg (by simpa using same)]

/-- A run without faults has none to pass over. -/
theorem addAll_of_faultless [Hashing] (takes : call.TakesItsColumn) {p : Progress}
    (serves : p.Serves call.function grouping) {rows : List Row}
    (faultless : ∀ row ∈ rows, call.fault? row = none) :
    p.addAll call grouping rows = (.ok (), p.addEach call grouping rows) := by
  induction rows generalizing p with
  | nil => rfl
  | cons row rows ih =>
      obtain ⟨here, later⟩ := List.forall_mem_cons.mp faultless
      obtain ⟨outcome, kept⟩ := serves.add takes row
      rw [here] at outcome
      have added : p.add call grouping row = (.ok (), (p.add call grouping row).2) :=
        Prod.ext outcome rfl
      rw [addAll, added]
      exact ih kept later

end Progress

end RowQuery
