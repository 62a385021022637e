import RowQuery.Proofs.Parser.Sequence
import RowQuery.Proofs.Progress.Each
import RowQuery.Proofs.SelectList.Grouped

/-!
# A call alone in its list

Without grouping and DISTINCT a call over a column gives what its accumulator makes of the values of
the column in order (`gives_of_addAll`). With DISTINCT it is what the accumulator makes of one of
each value, if no row has a fault (`gives_of_faultless`).
-/

namespace RowQuery

/-- Rows that hold some values in a field, one after the other. -/
def Row.Hold (field : String) (values : List Value) (rows : List Row) : Prop :=
  rows.map (fun row => row.get? field) = values.map some

instance (field : String) (values : List Value) (rows : List Row) :
    Decidable (Row.Hold field values rows) :=
  inferInstanceAs (Decidable (_ = _))

theorem Row.get?_ofFields_singleton (name : String) (value : Value) :
    (Row.ofFields [(name, value)]).get? name = some value := by
  rw [ofFields, List.foldl_cons, List.foldl_nil, get?_set, if_pos rfl]

theorem Row.hold_map_ofFields (field : String) (values : List Value) :
    Row.Hold field values (values.map fun value => Row.ofFields [(field, value)]) := by
  rw [Row.Hold, List.map_map]
  exact List.map_congr_left fun value _ => get?_ofFields_singleton field value

namespace Accumulator

/-- The state after more values, up to the first fault. -/
def addAll (rule : OperandRule) : List Value → Accumulator → Except Fault Accumulator
  | [], accumulator => .ok accumulator
  | value :: values, accumulator =>
    match accumulator.add rule value with
    | .error fault => .error fault
    | .ok accumulator => addAll rule values accumulator

end Accumulator

/-- What a call gathers from some values, those that it refuses passed over. -/
def AggregateCall.gather [Hashing] (call : AggregateCall) (values : List Value) : Accumulator :=
  (call.passedOn (values.filter fun value => !value.isNull)).foldl
    (Accumulator.take call.operands) (.start call.function)

namespace Progress

variable {call : AggregateCall} {values : List Value} {rows : List Row}

/-- What a call without grouping has gathered. -/
def accumulated (function : AggregateFunction) (p : Progress) : Accumulator :=
  (p.total.getD (.start function)).accumulator

theorem add_of_value [Hashing] (unstarred : call.isStar = false)
    (plain : call.tracksDistinct = false)
    {row : Row} {value : Value} (held : row.get? (Name.normalize call.column) = some value)
    (nonnull : value ≠ .null) {p : Progress} {after : Accumulator}
    (added : (p.accumulated call.function).add call.operands value = .ok after) :
    ∃ q, p.add call none row = (.ok (), q) ∧ q.accumulated call.function = after := by
  have operand : operand? call row = some value := by
    rw [operand?, held]
    cases value <;> first | rfl | contradiction
  have allowed : refusal? call value = none := refusal?_of_plain plain value
  have scope : Scope.add call value (p.total.getD (.start call.function)) =
      (.ok (), ⟨after, (p.total.getD (.start call.function)).seen⟩) := by
    rw [accumulated] at added
    rw [Scope.add_of_plain plain, Scope.pass_of_ok added]
  refine ⟨(p.update call.function none row (Scope.add call value)).2, ?_, ?_⟩
  · rw [add, if_neg (by rw [unstarred]; decide), operand]
    simp only [allowed]
    rw [update_none, scope]
  · rw [update_none, scope]
    rfl

theorem addAll_of_values [Hashing] (unstarred : call.isStar = false)
    (plain : call.tracksDistinct = false) (held : Row.Hold (Name.normalize call.column) values rows)
    (nonnull : ∀ value ∈ values, value ≠ .null) {p : Progress} {last : Accumulator}
    (ran : (p.accumulated call.function).addAll call.operands values = .ok last) :
    ∃ q, addAll call none rows p = (.ok (), q) ∧ q.accumulated call.function = last := by
  induction rows generalizing values p with
  | nil =>
      have none_left : values = [] := by simpa [Row.Hold] using held.symm
      subst none_left
      cases ran
      exact ⟨p, rfl, rfl⟩
  | cons row rows ih =>
      obtain ⟨value, others, rfl, here, later⟩ := List.map_eq_cons_iff.mp held.symm
      obtain ⟨first, rest⟩ := List.forall_mem_cons.mp nonnull
      rw [Accumulator.addAll] at ran
      split at ran
      · cases ran
      · rename_i added
        obtain ⟨q, taken, gathers⟩ := add_of_value unstarred plain here.symm first added
        rw [addAll, taken]
        exact ih later.symm rest (gathers ▸ ran)

theorem values_of_hold (held : Row.Hold (Name.normalize call.column) values rows) :
    call.values rows = values.filter fun value => !value.isNull := by
  have operands : call.values rows =
      (rows.map fun row => row.get? (Name.normalize call.column)).filterMap fun value =>
        value.filter fun value => !value.isNull := by
    rw [List.filterMap_map]
    rfl
  rw [operands, held, List.filterMap_map, ← List.filterMap_eq_filter]
  exact List.filterMap_congr fun value _ => by cases value <;> rfl

theorem accumulated_addEach [Hashing] (unstarred : call.isStar = false)
    (held : Row.Hold (Name.normalize call.column) values rows) :
    (start.addEach call none rows).accumulated call.function = call.gather values := by
  have all : Grouping.alongside none (Row.ofFields []) rows = rows :=
    List.filter_eq_self.mpr fun _ _ => rfl
  have scope : (start.addEach call none rows).scopeOf call.function none (Row.ofFields []) =
      rows.foldl (Scope.absorb call) (.start call.function) := by
    rw [scopeOf_addEach, all]
    rfl
  rw [AggregateCall.gather, ← values_of_hold held, ← Scope.accumulator_foldl_take
    fun value member => AggregateCall.ne_null_of_mem_values member, ← Scope.foldl_absorb unstarred,
    ← scope]
  rfl

end Progress

namespace Expression

/-- Rows give a value for an expression alone in a list. -/
def Gives [Formats] [Hashing] (e : Expression) (rows : List Row) (value : Value) : Prop :=
  ((SelectList.ofExpressions [e]).execute rows).1 = .ok ⟨[Row.ofFields [(e.output, value)]]⟩

variable {e : Expression} {rows : List Row} {values : List Value} {last : Accumulator}

theorem gives_of_toOption [Formats] [Hashing] {value : Value}
    (ran : ((SelectList.ofExpressions [e]).execute rows).1.toOption =
      some ⟨[Row.ofFields [(e.output, value)]]⟩) : e.Gives rows value :=
  Parser.eq_ok_of_toOption ran

theorem Gives.unique [Formats] [Hashing] {value value' : Value} (gives : e.Gives rows value)
    (gives' : e.Gives rows value') : value = value' := by
  have results := gives.symm.trans gives'
  simp only [Except.ok.injEq, ResultSet.mk.injEq, List.cons.injEq, and_true] at results
  have read := congrArg (fun row => row.get? e.output) results
  simpa only [Row.get?_ofFields_singleton, Option.some_inj] using read

theorem unstarred_of_term {call : AggregateCall} (term : e.term = .aggregate call)
    (columns : call.function.takesStar = false) : call.isStar = false := by
  have sound := e.sound
  rw [term] at sound
  rw [← Bool.not_eq_true]
  intro star
  by_cases empty : call.column = "" <;> simp [Term.flaw?, empty, star, columns] at sound

theorem gives_of_ran [Formats] [Hashing] {call : AggregateCall} {q : Progress}
    (called : e.call? = some call) (ran : Progress.start.addAll call none rows = (.ok (), q)) :
    e.Gives rows (q.accumulated call.function).result := by
  have passed : ∀ call ∈ (SelectList.ofExpressions [e]).calls,
      (Progress.start.addAll call.1 none rows).1 = .ok () := by
    rw [SelectList.calls_single called, List.forall_mem_singleton]
    exact congrArg Prod.fst ran
  have executed :=
    SelectList.execute_withGrouping_none (SelectList.hasAggregates_single called) passed
  have result : (SelectList.ofExpressions [e]).totals rows =
      [(e.output, (q.accumulated call.function).result)] := by
    rw [SelectList.totals, SelectList.calls_single called]
    simp only [List.map_cons, List.map_nil, SelectList.run, ran]
    rfl
  rw [result] at executed
  exact executed

theorem gives_of_addAll [Formats] [Hashing] {call : AggregateCall} (term : e.term = .aggregate call)
    (columns : call.function.takesStar = false) (plain : call.tracksDistinct = false)
    (held : Row.Hold (Name.normalize call.column) values rows)
    (nonnull : ∀ value ∈ values, value ≠ .null)
    (ran : (Accumulator.start call.function).addAll call.operands values = .ok last) :
    e.Gives rows last.result := by
  have called : e.call? = some call := by rw [call?, term]
  have started :
      (Progress.start.accumulated call.function).addAll call.operands values = .ok last := ran
  obtain ⟨q, taken, rfl⟩ :=
    Progress.addAll_of_values (unstarred_of_term term columns) plain held nonnull started
  exact gives_of_ran called taken

theorem gives_of_faultless [Formats] [Hashing] {call : AggregateCall}
    (term : e.term = .aggregate call) (columns : call.function.takesStar = false)
    (held : Row.Hold (Name.normalize call.column) values rows)
    (faultless : ∀ row ∈ rows, call.fault? row = none) :
    e.Gives rows (call.gather values).result := by
  have called : e.call? = some call := by rw [call?, term]
  have gives := gives_of_ran called (Progress.addAll_of_faultless (takesItsColumn called)
    (Progress.serves_start call.function none) faultless)
  rwa [Progress.accumulated_addEach (unstarred_of_term term columns) held] at gives

end Expression

end RowQuery
