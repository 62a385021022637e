import RowQuery.Proofs.Progress.Run

/-!
# The scope of a row, and faults

A call takes a row into one scope: that of all rows, or that of the group of the row. Whatever the
call has gathered before, it fails on a row exactly if its rule refuses the value there, and the
accumulator of each scope stays one of the function of the call (`Serves.add`).
-/

namespace RowQuery

/-! ## Values that are no numbers -/

namespace Value

theorem contribution_of_reject {function : AggregateFunction} {value : Value}
    (other : value.kind.isNumeric = false) :
    value.contribution function .reject = .error (.type (.notNumeric function value)) := by
  cases value <;> first | rfl | cases other

theorem exists_contribution {function : AggregateFunction} {rule : OperandRule} {value : Value}
    (allowed : rule = .coerce ∨ value.kind.isNumeric = true) :
    ∃ quantity, value.contribution function rule = .ok quantity := by
  rcases allowed with rfl | numeric
  · cases value <;> exact ⟨_, rfl⟩
  · cases value <;> first | exact ⟨_, rfl⟩ | cases numeric

theorem contribution_of_numeric {function : AggregateFunction} {value : Value}
    (numeric : value.kind.isNumeric = true) (rule rule' : OperandRule) :
    value.contribution function rule = value.contribution function rule' := by
  cases value <;> first | rfl | cases numeric

end Value

namespace AggregateCall

open Progress (operand?)

/-- The value of a row that a call over numbers has no use for. -/
def misfit? (call : AggregateCall) (row : Row) : Option Value :=
  if call.function.isNumeric then (operand? call row).filter fun value => !value.kind.isNumeric
  else none

/-- The fault of a row: a value that the rule of the call refuses. -/
def fault? (call : AggregateCall) (row : Row) : Option Fault :=
  match call.operands with
  | .coerce => none
  | .reject => (call.misfit? row).map fun value => .type (.notNumeric call.function value)

/-- Functions that take numbers only do not take whole rows. -/
def TakesItsColumn (call : AggregateCall) : Prop :=
  call.isStar = true → call.function.isNumeric = false

end AggregateCall

theorem Expression.takesItsColumn {e : Expression} {call : AggregateCall}
    (called : e.call? = some call) : call.TakesItsColumn := by
  intro star
  obtain ⟨term, label, sound⟩ := e
  cases term with
  | aggregate other =>
      cases called
      simp only [Term.flaw?, star] at sound
      split at sound
      · cases sound
      · cases function : call.function with
        | count => rfl
        | avg | max | min | sum => simp [function, AggregateFunction.takesStar] at sound
  | column name => cases called
  | concat operands => cases called

/-! ## Accumulators -/

namespace Accumulator

def function : Accumulator → AggregateFunction
  | .average _ _ => .avg
  | .count _ => .count
  | .extremum .lt _ => .min
  | .extremum _ _ => .max
  | .total _ => .sum

@[simp]
theorem function_start (f : AggregateFunction) : (start f).function = f := by
  cases f <;> rfl

@[simp]
theorem function_addRow (accumulator : Accumulator) :
    accumulator.addRow.function = accumulator.function := by
  cases accumulator <;> rfl

variable {accumulator : Accumulator} {rule : OperandRule} {value : Value}

theorem add_of_error {fault : Fault} (numeric : accumulator.function.isNumeric = true)
    (refused : value.contribution accumulator.function rule = .error fault) :
    accumulator.add rule value = .error fault := by
  cases accumulator with
  | average sum number =>
      rw [function] at refused
      rw [add, refused]
      rfl
  | total sum =>
      rw [function] at refused
      rw [add, refused]
      rfl
  | count n => cases numeric
  | extremum side best => cases side <;> cases numeric

theorem exists_add (accepted : accumulator.function.isNumeric = true →
      ∃ quantity, value.contribution accumulator.function rule = .ok quantity) :
    ∃ next, accumulator.add rule value = .ok next ∧ next.function = accumulator.function := by
  cases accumulator with
  | average sum number =>
      obtain ⟨quantity, contributed⟩ := accepted rfl
      rw [function] at contributed
      rw [add, contributed]
      cases quantity <;> exact ⟨_, rfl, rfl⟩
  | total sum =>
      obtain ⟨quantity, contributed⟩ := accepted rfl
      rw [function] at contributed
      rw [add, contributed]
      cases quantity <;> exact ⟨_, rfl, rfl⟩
  | count n => exact ⟨_, rfl, rfl⟩
  | extremum side best => exact ⟨_, rfl, by cases side <;> rfl⟩

theorem add_of_numeric (numeric : value.kind.isNumeric = true) (rule rule' : OperandRule) :
    accumulator.add rule value = accumulator.add rule' value := by
  cases accumulator <;> simp only [add, value.contribution_of_numeric numeric rule rule']

end Accumulator

/-! ## Values passed on -/

namespace Scope

variable {call : AggregateCall} {value : Value} {scope : Scope} {seen : Seen}

/-- A scope after a value that the function gets; these are the values seen then. -/
def pass (call : AggregateCall) (value : Value) (seen : Seen) (scope : Scope) :
    Except Fault Unit × Scope :=
  match scope.accumulator.add call.operands value with
  | .ok accumulator => (.ok (), ⟨accumulator, seen⟩)
  | .error fault => (.error fault, ⟨scope.accumulator, seen⟩)

@[simp]
theorem seen_pass : (scope.pass call value seen).2.seen = seen := by
  rw [pass]
  cases scope.accumulator.add call.operands value <;> rfl

theorem pass_of_ok {after : Accumulator}
    (added : scope.accumulator.add call.operands value = .ok after) :
    scope.pass call value seen = (.ok (), ⟨after, seen⟩) := by
  rw [pass, added]

theorem add_of_plain [Hashing] (plain : call.tracksDistinct = false) :
    scope.add call value = scope.pass call value scope.seen := by
  rw [add, plain]
  rfl

theorem add_of_seen [Hashing] (tracks : call.tracksDistinct = true)
    (known : scope.seen.contains value = true) : scope.add call value = (.ok (), scope) := by
  rw [add, if_pos tracks, Seen.add, known, Bool.or_true]
  rfl

theorem add_of_new [Hashing] (tracks : call.tracksDistinct = true) (nonnull : value ≠ .null)
    (new : scope.seen.contains value = false) :
    scope.add call value = scope.pass call value ⟨scope.seen.values ++ [value]⟩ := by
  have some_value : value.isNull = false := by cases value <;> first | rfl | contradiction
  rw [add, if_pos tracks, Seen.add, new, some_value]
  rfl

end Scope

/-! ## The scope of a row -/

/-- The id of the group of a row; `none` for all rows if they are not grouped. -/
def Grouping.idOf? (grouping : Option Grouping) (row : Row) : Option String :=
  grouping.map fun grouping => (grouping.keyOf row).id

namespace Progress

open Grouping (idOf?)

section
variable {β : Type} {function : AggregateFunction} {grouping : Option Grouping} {row : Row}
  {change : Scope → β × Scope}

def scopeOf (function : AggregateFunction) (grouping : Option Grouping) (row : Row)
    (p : Progress) : Scope :=
  match grouping with
  | none => p.total.getD (.start function)
  | some grouping => (p.groups.scope? (grouping.keyOf row).id).getD (.start function)

theorem scopeOf_start : start.scopeOf function grouping row = .start function := by
  cases grouping <;> rfl

theorem update_fst (p : Progress) : (p.update function grouping row change).1 =
    (change (p.scopeOf function grouping row)).1 := by
  cases grouping with
  | none => rfl
  | some grouping => rw [update_some, GroupTable.update_fst, scopeOf]

theorem scopeOf_update (p : Progress) (other : Row) :
    (p.update function grouping row change).2.scopeOf function grouping other =
      if idOf? grouping other = idOf? grouping row then
        (change (p.scopeOf function grouping row)).2
      else p.scopeOf function grouping other := by
  cases grouping with
  | none => rfl
  | some grouping =>
      simp only [update_some, scopeOf, GroupTable.scope?, GroupTable.group?_update, idOf?,
        Option.map_some, Option.some_inj]
      by_cases same : (grouping.keyOf other).id = (grouping.keyOf row).id
      · simp [same]
      · simp [same]

end

/-! ## Faults of a row -/

section
variable {call : AggregateCall} {grouping : Option Grouping} {row : Row} {p : Progress}

/-- All accumulators belong to a function. -/
def Serves (function : AggregateFunction) (grouping : Option Grouping) (p : Progress) : Prop :=
  ∀ row, (p.scopeOf function grouping row).accumulator.function = function

theorem serves_start (function : AggregateFunction) (grouping : Option Grouping) :
    start.Serves function grouping := by
  intro row
  rw [scopeOf_start]
  exact Accumulator.function_start function

theorem Serves.update {β : Type} {function : AggregateFunction} {change : Scope → β × Scope}
    (serves : p.Serves function grouping)
    (kept : (change (p.scopeOf function grouping row)).2.accumulator.function = function) :
    (p.update function grouping row change).2.Serves function grouping := by
  intro other
  rw [scopeOf_update]
  split
  · exact kept
  · exact serves other

theorem scope_add_of_accepted [Hashing] {value : Value} {scope : Scope}
    (serves : scope.accumulator.function = call.function)
    (accepted : call.function.isNumeric = true →
      ∃ quantity, value.contribution call.function call.operands = .ok quantity) :
    ∃ next, Scope.add call value scope = (.ok (), next) ∧
      next.accumulator.function = call.function := by
  rw [← serves] at accepted
  obtain ⟨next, added, same⟩ := Accumulator.exists_add accepted
  rw [Scope.add]
  rcases (if call.tracksDistinct then scope.seen.add value else (true, scope.seen))
    with ⟨_ | _, seen⟩
  · exact ⟨scope, rfl, serves⟩
  · simp only [added]
    exact ⟨_, rfl, same.trans serves⟩

theorem scope_add_of_refused [Hashing] {value : Value} {scope : Scope} {fault : Fault}
    (serves : scope.accumulator.function = call.function)
    (numeric : call.function.isNumeric = true) (plain : call.tracksDistinct = false)
    (refused : value.contribution call.function call.operands = .error fault) :
    Scope.add call value scope = (.error fault, scope) := by
  rw [← serves] at numeric refused
  rw [Scope.add_of_plain plain, Scope.pass, Accumulator.add_of_error numeric refused]

theorem fault?_of_operand {value : Value} (operand : operand? call row = some value) :
    (call.fault? row = none ∧ (call.function.isNumeric = true →
        ∃ quantity, value.contribution call.function call.operands = .ok quantity)) ∨
      (call.function.isNumeric = true ∧ ∃ fault, call.fault? row = some fault ∧
        value.contribution call.function call.operands = .error fault) := by
  rw [AggregateCall.fault?, AggregateCall.misfit?, operand]
  cases rule : call.operands with
  | coerce => exact .inl ⟨rfl, fun _ => Value.exists_contribution (.inl rfl)⟩
  | reject =>
      cases function : call.function.isNumeric with
      | false => exact .inl ⟨rfl, fun never => by cases never⟩
      | true =>
          cases number : value.kind.isNumeric with
          | true => exact .inl ⟨by simp [number], fun _ => Value.exists_contribution (.inr number)⟩
          | false => exact .inr ⟨rfl, _, by simp [number], Value.contribution_of_reject number⟩

theorem fault?_of_no_operand (missing : operand? call row = none) : call.fault? row = none := by
  rw [AggregateCall.fault?, AggregateCall.misfit?, missing]
  cases call.operands with
  | coerce => rfl
  | reject => simp

theorem fault?_of_star (takes : call.TakesItsColumn) (star : call.isStar = true) :
    call.fault? row = none := by
  rw [AggregateCall.fault?, AggregateCall.misfit?, takes star]
  cases call.operands <;> rfl

theorem refusal?_of_accepted {value : Value} (accepted : call.function.isNumeric = true →
      ∃ quantity, value.contribution call.function call.operands = .ok quantity) :
    refusal? call value = none := by
  cases numeric : call.function.isNumeric with
  | false => simp [refusal?, numeric]
  | true =>
      obtain ⟨quantity, contributed⟩ := accepted numeric
      simp [refusal?, contributed]

theorem refusal?_of_plain (plain : call.tracksDistinct = false) (value : Value) :
    refusal? call value = none := by
  rw [refusal?, plain, Bool.and_false]
  rfl

/-- What a row does to a call: it fails exactly if the row has a fault for the call, and all
accumulators stay those of its function. -/
theorem Serves.add [Hashing] (takes : call.TakesItsColumn)
    (serves : p.Serves call.function grouping)
    (row : Row) : (p.add call grouping row).1 = (call.fault? row).elim (.ok ()) .error ∧
      (p.add call grouping row).2.Serves call.function grouping := by
  by_cases star : call.isStar = true
  · rw [Progress.add, if_pos star, fault?_of_star takes star, update_fst]
    exact ⟨rfl, serves.update ((Accumulator.function_addRow _).trans (serves row))⟩
  · rw [Progress.add, if_neg star]
    cases operand : operand? call row with
    | none => exact ⟨by rw [fault?_of_no_operand operand]; rfl, serves⟩
    | some value =>
        rcases fault?_of_operand operand with
          ⟨passes, accepted⟩ | ⟨numeric, fault, fails, refused⟩
        · obtain ⟨next, added, kept⟩ := scope_add_of_accepted (serves row) accepted
          simp only [refusal?_of_accepted accepted]
          rw [passes, update_fst, added]
          exact ⟨rfl, serves.update (by rwa [added])⟩
        · rw [fails]
          cases tracks : call.tracksDistinct with
          | true =>
              -- Under DISTINCT the value is looked at before any scope is.
              have early : refusal? call value = some fault := by
                simp [refusal?, numeric, tracks, refused]
              simp only [early]
              exact ⟨rfl, serves⟩
          | false =>
              have late : refusal? call value = none := refusal?_of_plain tracks value
              have failed := scope_add_of_refused (serves row) numeric tracks refused
              simp only [late]
              rw [update_fst, failed]
              exact ⟨rfl, serves.update (by rw [failed]; exact serves row)⟩

end

end Progress

end RowQuery
