import RowQuery.Formats.Standard
import RowQuery.Proofs.Parser.Operands
import RowQuery.Proofs.Progress.Scope
import RowQuery.Proofs.SelectList.Run

/-!
# When evaluation fails

Whether a call fails on a row does not depend on the rows before it, so a list fails at the first
row with a value that one of its calls refuses, and there at the first such call
(`execute_eq_error_iff`). What is left of the rule for operands in a run without a fault is nothing
(`execute_withRule`).
-/

namespace RowQuery

/-! ## Items -/

namespace Expression

/-- The fault of a row: a value that the call of the expression refuses. -/
def fault? (row : Row) (e : Expression) : Option Fault :=
  e.call?.bind fun call => call.fault? row

/-- A function over numbers and the value of a row that it has no use for. -/
def misfit? (row : Row) (e : Expression) : Option (AggregateFunction × Value) :=
  e.call?.bind fun call => (call.misfit? row).map fun value => (call.function, value)

end Expression

namespace SelectItem

variable {item : SelectItem} {row : Row}

def Serves (item : SelectItem) : Prop :=
  ∀ call, item.expression.call? = some call → item.progress.Serves call.function item.grouping

theorem serves_start (item : SelectItem) : item.start.Serves :=
  fun call _ => Progress.serves_start call.function item.grouping

theorem expression_absorb [Hashing] (item : SelectItem) (row : Row) :
    (item.absorb row).2.expression = item.expression := by
  rw [absorb]
  split <;> rfl

theorem Serves.absorb [Hashing] (serves : item.Serves) (row : Row) :
    (item.absorb row).1 = (item.expression.fault? row).elim (.ok ()) .error ∧
      (item.absorb row).2.Serves := by
  rw [SelectItem.absorb, Expression.fault?]
  cases called : item.expression.call? with
  | none => exact ⟨rfl, serves⟩
  | some call =>
      obtain ⟨outcome, kept⟩ :=
        (serves call called).add (Expression.takesItsColumn called) row
      refine ⟨outcome, fun other again => ?_⟩
      cases called.symm.trans again
      exact kept

end SelectItem

/-! ## The first fault -/

namespace SelectList

variable {items : List SelectItem} {row : Row}

/-- The fault of the first row that has one, and there of the first expression. -/
def firstFault? (expressions : List Expression) (rows : List Row) : Option Fault :=
  rows.findSome? fun row => expressions.findSome? (Expression.fault? row)

theorem expressions_absorbRow [Hashing] (row : Row) (items : List SelectItem) :
    (absorbRow row items).2.map SelectItem.expression = items.map SelectItem.expression := by
  induction items with
  | nil => rfl
  | cons item rest ih =>
      have same := item.expression_absorb row
      rw [absorbRow]
      rcases absorbed : item.absorb row with ⟨fault | _, after⟩
      · simpa [absorbed] using same
      · simpa [absorbed, ih] using same

theorem absorbRow_of_serves [Hashing] (serves : ∀ item ∈ items, item.Serves) (row : Row) :
    (absorbRow row items).1 =
        ((items.map SelectItem.expression).findSome? (Expression.fault? row)).elim (.ok ()) .error ∧
      ∀ item ∈ (absorbRow row items).2, item.Serves := by
  induction items with
  | nil => exact ⟨rfl, serves⟩
  | cons item rest ih =>
      obtain ⟨here, later⟩ := List.forall_mem_cons.mp serves
      obtain ⟨others, kept⟩ := ih later
      obtain ⟨outcome, after⟩ := here.absorb row
      rw [List.map_cons, List.findSome?_cons]
      cases found : item.expression.fault? row with
      | some fault =>
          have absorbed : item.absorb row = (.error fault, (item.absorb row).2) :=
            Prod.ext (by rw [outcome, found]; rfl) rfl
          rw [absorbRow, absorbed]
          exact ⟨rfl, List.forall_mem_cons.mpr ⟨after, later⟩⟩
      | none =>
          have absorbed : item.absorb row = (.ok (), (item.absorb row).2) :=
            Prod.ext (by rw [outcome, found]; rfl) rfl
          rw [absorbRow, absorbed]
          exact ⟨others, List.forall_mem_cons.mpr ⟨after, kept⟩⟩

theorem absorbRows_of_serves [Hashing] (serves : ∀ item ∈ items, item.Serves) (rows : List Row) :
    (absorbRows rows items).1 =
      (firstFault? (items.map SelectItem.expression) rows).elim (.ok ()) .error := by
  induction rows generalizing items with
  | nil => rfl
  | cons row rows ih =>
      obtain ⟨outcome, kept⟩ := absorbRow_of_serves serves row
      rw [firstFault?, List.findSome?_cons]
      cases found : (items.map SelectItem.expression).findSome? (Expression.fault? row) with
      | some fault =>
          have absorbed : absorbRow row items = (.error fault, (absorbRow row items).2) :=
            Prod.ext (by rw [outcome, found]; rfl) rfl
          rw [absorbRows, absorbed]
          rfl
      | none =>
          have absorbed : absorbRow row items = (.ok (), (absorbRow row items).2) :=
            Prod.ext (by rw [outcome, found]; rfl) rfl
          rw [absorbRows, absorbed]
          exact (ih kept).trans (by rw [expressions_absorbRow, firstFault?])

section
variable {list : SelectList} {grouping : Option Grouping} {rows : List Row}

theorem hasAggregates_withGrouping (grouping : Option Grouping) (list : SelectList) :
    (list.withGrouping grouping).hasAggregates = list.hasAggregates := by
  rw [hasAggregates, withGrouping, List.any_map]
  rfl

theorem firstFault?_of_no_aggregates (plain : list.hasAggregates = false) (rows : List Row) :
    firstFault? list.expressions rows = none := by
  rw [hasAggregates, List.any_eq_false] at plain
  rw [firstFault?, List.findSome?_eq_none_iff]
  intro row _
  rw [List.findSome?_eq_none_iff]
  intro e listed
  obtain ⟨item, member, rfl⟩ := List.mem_map.mp listed
  have none : item.expression.call? = none := by
    simpa [SelectItem.isAggregate, Expression.isAggregate] using plain item member
  rw [Expression.fault?, none]
  rfl

theorem execute_eq_error_iff [Formats] [Hashing] {fault : Fault} :
    ((list.withGrouping grouping).execute rows).1 = .error fault ↔
      firstFault? list.expressions rows = some fault := by
  rw [execute, hasAggregates_withGrouping]
  cases aggregate : list.hasAggregates with
  | false => simp [firstFault?_of_no_aggregates aggregate]
  | true =>
      let started := (list.withGrouping grouping).items.map SelectItem.start
      have serves : ∀ item ∈ started, item.Serves := by
        intro item member
        obtain ⟨source, -, rfl⟩ := List.mem_map.mp member
        exact source.serves_start
      have expressions : started.map SelectItem.expression = list.expressions := by
        simp only [started, withGrouping, SelectList.expressions, List.map_map]
        rfl
      have outcome := absorbRows_of_serves serves rows
      rw [expressions] at outcome
      simp only [if_true]
      cases found : firstFault? list.expressions rows with
      | none =>
          have absorbed : absorbRows rows started = (.ok (), (absorbRows rows started).2) :=
            Prod.ext (by rw [outcome, found]; rfl) rfl
          rw [absorbed]
          simp
      | some first =>
          have absorbed : absorbRows rows started = (.error first, (absorbRows rows started).2) :=
            Prod.ext (by rw [outcome, found]; rfl) rfl
          rw [absorbed]
          simp

theorem exists_execute_iff [Formats] [Hashing] :
    (∃ result, ((list.withGrouping grouping).execute rows).1 = .ok result) ↔
      firstFault? list.expressions rows = none := by
  have faults (fault : Fault) : firstFault? list.expressions rows = some fault ↔
      ((list.withGrouping grouping).execute rows).1 = .error fault := execute_eq_error_iff.symm
  rw [← Option.not_isSome_iff_eq_none, Option.isSome_iff_exists]
  simp only [faults]
  cases ((list.withGrouping grouping).execute rows).1 <;> simp

end

end SelectList

/-! ## The rule for operands -/

theorem Progress.add_of_rule [Hashing] {call : AggregateCall} {row : Row}
    (numeric : call.function.isNumeric = true) (fits : call.misfit? row = none)
    (rule : OperandRule) (grouping : Option Grouping) (p : Progress) :
    p.add { call with operands := rule } grouping row = p.add call grouping row := by
  have operand : operand? { call with operands := rule } row = operand? call row := rfl
  have star : AggregateCall.isStar { call with operands := rule } = call.isStar := rfl
  rw [add, add, operand, star]
  cases here : operand? call row with
  | none => rfl
  | some value =>
      have number : value.kind.isNumeric = true := by
        simpa [AggregateCall.misfit?, numeric, here] using fits
      have refusals : refusal? { call with operands := rule } value = refusal? call value := by
        simp only [refusal?, AggregateCall.tracksDistinct,
          value.contribution_of_numeric number rule call.operands]
        rfl
      have scopes : Scope.add { call with operands := rule } value = Scope.add call value := by
        funext scope
        simp only [Scope.add, AggregateCall.tracksDistinct,
          Accumulator.add_of_numeric number rule call.operands]
        rfl
      simp only [refusals, scopes]

namespace SelectItem

variable {item : SelectItem} {rule : OperandRule} {row : Row} {rows : List Row}

theorem add_withRule [Hashing] {call : AggregateCall}
    (own : item.expression.withRule rule = item.expression)
    (called : item.expression.call? = some call) (fits : item.expression.misfit? row = none)
    (rule' : OperandRule) (p : Progress) :
    p.add (.of call.function call.column call.distinct rule') item.grouping row =
      p.add call item.grouping row := by
  rw [Expression.misfit?, called, Option.bind_some, Option.map_eq_none_iff] at fits
  cases numeric : call.function.isNumeric with
  | true =>
      rw [AggregateCall.of, if_pos numeric]
      exact Progress.add_of_rule numeric fits rule' item.grouping p
  | false =>
      have same := item.expression.call?_withRule rule
      rw [own, called, Option.map_some, Option.some_inj] at same
      have calls : AggregateCall.of call.function call.column call.distinct rule' = call := by
        rw [same]
        simp [AggregateCall.of, numeric]
      rw [calls]

theorem absorb_withRule [Hashing] (own : item.expression.withRule rule = item.expression)
    (fits : item.expression.misfit? row = none) (rule' : OperandRule) :
    (item.withRule rule').absorb row =
      ((item.absorb row).1, (item.absorb row).2.withRule rule') := by
  have calls : (item.withRule rule').expression.call? = item.expression.call?.map fun call =>
    .of call.function call.column call.distinct rule' := item.expression.call?_withRule rule'
  rw [absorb, absorb, calls]
  cases called : item.expression.call? with
  | none => rfl
  | some call =>
      have added := add_withRule own called fits rule' item.progress
      simp only [Option.map_some]
      rw [← added]
      rfl

theorem absorbAll_withRule [Hashing] (own : item.expression.withRule rule = item.expression)
    (fits : ∀ row ∈ rows, item.expression.misfit? row = none) (rule' : OperandRule) :
    (item.withRule rule').absorbAll rows =
      ((item.absorbAll rows).1, (item.absorbAll rows).2.withRule rule') := by
  induction rows generalizing item with
  | nil => rfl
  | cons row rows ih =>
      obtain ⟨here, later⟩ := List.forall_mem_cons.mp fits
      have same := item.expression_absorb row
      rw [absorbAll, absorbAll, absorb_withRule own here]
      rcases absorbed : item.absorb row with ⟨fault | _, next⟩
      · rfl
      · rw [absorbed] at same
        exact ih (same ▸ own) (same ▸ later)

theorem finish_withRule (rule : OperandRule) (item : SelectItem) (result : ResultSet) :
    ((item.withRule rule).finish result).1 = (item.finish result).1 := by
  have calls : (item.withRule rule).expression.call? = item.expression.call?.map fun call =>
    .of call.function call.column call.distinct rule := item.expression.call?_withRule rule
  have output : (item.withRule rule).expression.output = item.expression.output :=
    item.expression.output_withRule rule
  rw [finish, finish, calls, output]
  cases item.expression.call? <;> rfl

end SelectItem

namespace SelectList

variable {list : SelectList} {grouping : Option Grouping} {rows : List Row} {result : ResultSet}
  {rule : OperandRule}

theorem finishItems_withRule (rule : OperandRule) (items : List SelectItem) (result : ResultSet) :
    (finishItems (items.map (SelectItem.withRule rule)) result).1 =
      (finishItems items result).1 := by
  induction items generalizing result with
  | nil => rfl
  | cons item rest ih =>
      rw [List.map_cons, finishItems_cons, finishItems_cons, SelectItem.finish_withRule, ih]

theorem hasAggregates_withRule (rule : OperandRule) (list : SelectList) :
    (list.withRule rule).hasAggregates = list.hasAggregates := by
  rw [hasAggregates, hasAggregates, withRule, List.any_map]
  exact congrArg list.items.any (funext fun item => item.expression.isAggregate_withRule rule)

theorem execute_of_no_aggregates [Formats] [Hashing] (plain : list.hasAggregates = false) :
    (list.execute rows).1 = .ok ⟨rows.map (project list.expressions)⟩ := by
  rw [execute, if_neg (by rw [plain]; decide)]

theorem project_withRule [Formats] (rule : OperandRule) (expressions : List Expression) :
    project (expressions.map (Expression.withRule rule)) = project expressions := by
  funext row
  rw [project, project, List.foldl_map]
  simp only [Expression.project_withRule]

theorem execute_withRule [Formats] [Hashing] (own : ∀ e ∈ list.expressions, e.withRule rule = e)
    (fits : ∀ row ∈ rows, ∀ e ∈ list.expressions, e.misfit? row = none) (rule' : OperandRule)
    (succeeded : ((list.withGrouping grouping).execute rows).1 = .ok result) :
    (((list.withRule rule').withGrouping grouping).execute rows).1 = .ok result := by
  cases aggregate : list.hasAggregates with
  | true =>
      have aggregate' := (hasAggregates_withRule rule' list).trans aggregate
      have ran : ∀ item ∈ list.items,
          ((item.withRule rule').withGrouping grouping).start.absorbAll rows =
            (((item.withGrouping grouping).start.absorbAll rows).1,
              ((item.withGrouping grouping).start.absorbAll rows).2.withRule rule') := by
        intro item member
        have listed : item.expression ∈ list.expressions := List.mem_map_of_mem member
        have own' : (item.withGrouping grouping).start.expression.withRule rule =
          (item.withGrouping grouping).start.expression := own _ listed
        exact SelectItem.absorbAll_withRule own' (fun row here => fits row here _ listed) rule'
      obtain ⟨all, rfl⟩ := (execute_eq_ok_iff aggregate grouping).mp succeeded
      have after : (list.withRule rule').itemsAfter grouping rows =
          (list.itemsAfter grouping rows).map (SelectItem.withRule rule') := by
        rw [itemsAfter, itemsAfter, withRule, List.map_map, List.map_map]
        exact List.map_congr_left fun item member => congrArg Prod.snd (ran item member)
      refine (execute_eq_ok_iff aggregate' grouping).mpr ⟨?_, ?_⟩
      · rw [withRule, List.forall_mem_map]
        intro item member
        rw [ran item member]
        exact all item member
      · rw [after, finishItems_withRule]
  | false =>
      have plain := (hasAggregates_withGrouping grouping list).trans aggregate
      have plain' : ((list.withRule rule').withGrouping grouping).hasAggregates = false := by
        rw [hasAggregates_withGrouping, hasAggregates_withRule, aggregate]
      have expressions : ((list.withRule rule').withGrouping grouping).expressions =
          (list.withGrouping grouping).expressions.map (Expression.withRule rule') := by
        simp only [SelectList.expressions, withGrouping, withRule, List.map_map]
        rfl
      rw [execute_of_no_aggregates plain] at succeeded
      rw [execute_of_no_aggregates plain', expressions, project_withRule, succeeded]

/-! ## Lists that are read from a text -/

/-- The misfit of the first row that has one, and there of the first expression. -/
def firstMisfit? (expressions : List Expression) (rows : List Row) :
    Option (AggregateFunction × Value) :=
  rows.findSome? fun row => expressions.findSome? (Expression.misfit? row)

theorem isSome_misfit?_iff {e : Expression} {row : Row} : (e.misfit? row).isSome ↔
    ∃ call value, e.term = .aggregate call ∧ (call.function = .sum ∨ call.function = .avg) ∧
      row.get? (Name.normalize call.column) = some value ∧ value ≠ .null ∧
      (∀ n, value ≠ .integer n) ∧ ∀ x, value ≠ .float x := by
  have misfit (value : Value) : (value.isNull = false ∧ value.kind.isNumeric = false) ↔
      value ≠ .null ∧ (∀ n, value ≠ .integer n) ∧ ∀ x, value ≠ .float x := by
    cases value <;> simp [Value.isNull, Value.kind, Kind.isNumeric]
  have numeric (function : AggregateFunction) :
      function.isNumeric = true ↔ function = .sum ∨ function = .avg := by
    cases function <;> simp [AggregateFunction.isNumeric]
  obtain ⟨term, label, sound⟩ := e
  cases term with
  | column name => simp [Expression.misfit?, Expression.call?]
  | concat operands => simp [Expression.misfit?, Expression.call?]
  | aggregate call =>
      simp only [Expression.misfit?, Expression.call?, AggregateCall.misfit?, Progress.operand?,
        Option.bind_some, Option.isSome_map, Term.aggregate.injEq, exists_and_left,
        exists_eq_left', ← misfit, ← numeric]
      cases function : call.function.isNumeric with
      | false => simp
      | true =>
          cases row.get? (Name.normalize call.column) with
          | none => simp
          | some value =>
              cases null : value.isNull <;> cases number : value.kind.isNumeric <;>
                simp [Option.filter, null, number]

theorem fault?_of_coerce {e : Expression} (own : e.withRule .coerce = e) (row : Row) :
    e.fault? row = none := by
  rw [Expression.fault?]
  cases called : e.call? with
  | none => rfl
  | some call =>
      have same := e.call?_withRule .coerce
      rw [own, called, Option.map_some, Option.some_inj] at same
      have coerce : call.operands = .coerce := by rw [same]; simp [AggregateCall.of]
      rw [Option.bind_some, AggregateCall.fault?, coerce]

theorem fault?_of_reject {e : Expression} (own : e.withRule .reject = e) (row : Row) :
    e.fault? row = (e.misfit? row).map fun misfit => .type (.notNumeric misfit.1 misfit.2) := by
  rw [Expression.fault?, Expression.misfit?]
  cases called : e.call? with
  | none => rfl
  | some call =>
      rw [Option.bind_some, Option.bind_some, Option.map_map, AggregateCall.fault?]
      cases numeric : call.function.isNumeric with
      | true =>
          rw [Expression.operands_of_withRule own called numeric]
          rfl
      | false =>
          have fits : call.misfit? row = none := by simp [AggregateCall.misfit?, numeric]
          rw [fits]
          cases call.operands <;> rfl

theorem firstFault?_of_reject {expressions : List Expression}
    (own : ∀ e ∈ expressions, e.withRule .reject = e) (rows : List Row) :
    firstFault? expressions rows = (firstMisfit? expressions rows).map fun misfit =>
      .type (.notNumeric misfit.1 misfit.2) := by
  have faults (row : Row) : expressions.filterMap (Expression.fault? row) =
      expressions.filterMap (Option.map (fun misfit => .type (.notNumeric misfit.1 misfit.2)) ∘
        Expression.misfit? row) :=
    List.filterMap_congr fun e listed => fault?_of_reject (own e listed) row
  rw [firstFault?, firstMisfit?, List.map_findSome?]
  congr 1
  funext row
  rw [Function.comp_apply, List.map_findSome?, ← List.head?_filterMap, ← List.head?_filterMap,
    faults]

theorem isSome_firstMisfit?_iff {expressions : List Expression} {rows : List Row} :
    (firstMisfit? expressions rows).isSome ↔
      ∃ row ∈ rows, ∃ e ∈ expressions, (e.misfit? row).isSome := by
  simp only [firstMisfit?, List.findSome?_isSome_iff]

theorem withRule_of_ofText {settings : Settings} {text : String}
    (read : ofText settings text = .ok list) :
    ∀ e ∈ list.expressions, e.withRule settings.operands = e := by
  rw [ofText] at read
  cases parsed : Expression.parseList settings text with
  | error fault =>
      rw [parsed] at read
      cases read
  | ok expressions =>
      rw [parsed] at read
      cases read
      have own := Parser.map_withRule_eq_of_drain (Parser.parseList_eq_ok.mp parsed)
      have same : (ofExpressions expressions).expressions = expressions := by
        simp [SelectList.expressions, ofExpressions, Function.comp_def, SelectItem.ofExpression]
      rw [same]
      exact List.map_inj_left.mp (own.trans (List.map_id expressions).symm)

/-- A list that was read under the rule that coerces never fails. One that was read under the rule
that rejects fails exactly if SUM or AVG meets a value that is neither NULL nor a number, with the
fault of the first such row and the first such call in it; if it does not fail, it gives what the
list of the same text gives under the rule that coerces. -/
theorem execute_ofText [Formats] [Hashing] {settings : Settings} {text : String}
    (read : ofText settings text = .ok list) (grouping : Option Grouping) (rows : List Row) :
    (settings.operands = .coerce →
      ∃ result, ((list.withGrouping grouping).execute rows).1 = .ok result) ∧
    (settings.operands = .reject →
      ((∃ fault, ((list.withGrouping grouping).execute rows).1 = .error fault) ↔
        ∃ row ∈ rows, ∃ e ∈ list.expressions, ∃ call value, e.term = .aggregate call ∧
          (call.function = .sum ∨ call.function = .avg) ∧
          row.get? (Name.normalize call.column) = some value ∧ value ≠ .null ∧
          (∀ n, value ≠ .integer n) ∧ ∀ x, value ≠ .float x) ∧
      (∀ fault, ((list.withGrouping grouping).execute rows).1 = .error fault ↔
        ∃ function value, firstMisfit? list.expressions rows = some (function, value) ∧
          fault = .type (.notNumeric function value)) ∧
      ∃ coerced, ofText (settings.withOperands .coerce) text = .ok coerced ∧
        ∀ result, ((list.withGrouping grouping).execute rows).1 = .ok result →
          ((coerced.withGrouping grouping).execute rows).1 = .ok result) := by
  have own := withRule_of_ofText read
  constructor
  · intro coerce
    rw [coerce] at own
    rw [exists_execute_iff, firstFault?, List.findSome?_eq_none_iff]
    intro row _
    rw [List.findSome?_eq_none_iff]
    exact fun e listed => fault?_of_coerce (own e listed) row
  · intro reject
    rw [reject] at own
    have first := firstFault?_of_reject own rows
    refine ⟨?_, ?_, _, by rw [ofText_withOperands, read]; rfl, ?_⟩
    · simp only [execute_eq_error_iff, ← Option.isSome_iff_exists, first, Option.isSome_map,
        isSome_firstMisfit?_iff, isSome_misfit?_iff]
    · intro fault
      rw [execute_eq_error_iff, first, Option.map_eq_some_iff]
      constructor
      · rintro ⟨⟨function, value⟩, found, rfl⟩
        exact ⟨function, value, found, rfl⟩
      · rintro ⟨function, value, found, rfl⟩
        exact ⟨(function, value), found, rfl⟩
    · intro result succeeded
      apply execute_withRule own _ .coerce succeeded
      have passed := exists_execute_iff.mp ⟨result, succeeded⟩
      rw [first, Option.map_eq_none_iff, firstMisfit?, List.findSome?_eq_none_iff] at passed
      intro row here
      exact List.findSome?_eq_none_iff.mp (passed row here)

open scoped Formats Hashing in
/-- The third row has a misfit for both calls over numbers, and SUM comes first. -/
theorem execute_ofText_two_misfits :
    let rows := [Row.ofFields [("k", .text "a"), ("v", .integer 1)],
      Row.ofFields [("k", .text "b"), ("v", .integer 1), ("w", .float 2.5)],
      Row.ofFields [("k", .text "a"), ("v", .text "1"), ("w", .boolean true)]]
    ∃ list, ofText ⟨true, .reject⟩ "COUNT(*), SUM(DISTINCT v), AVG(w)" = .ok list ∧
      ((list.withGrouping (some (.byFields ["k"]))).execute rows).1 =
        .error (.type (.notNumeric .sum (.text "1"))) := by
  intro rows
  let expressions : List Expression := [⟨.aggregate ⟨.count, "*", false, .coerce⟩, "", rfl⟩,
    ⟨.aggregate ⟨.sum, "v", true, .reject⟩, "", rfl⟩,
    ⟨.aggregate ⟨.avg, "w", false, .reject⟩, "", rfl⟩]
  have parsed : (Expression.parseList ⟨true, .reject⟩
      "COUNT(*), SUM(DISTINCT v), AVG(w)").toOption = some expressions := by decide +kernel
  have read : ofText ⟨true, .reject⟩ "COUNT(*), SUM(DISTINCT v), AVG(w)" =
      .ok (ofExpressions expressions) := by
    rw [ofText, Parser.eq_ok_of_toOption parsed]
    rfl
  have first : firstMisfit? (ofExpressions expressions).expressions rows =
      some (.sum, .text "1") := by decide +kernel
  have faults := ((execute_ofText read (some (.byFields ["k"])) rows).2 rfl).2.1
  exact ⟨_, read, (faults _).mpr ⟨_, _, first, rfl⟩⟩

end SelectList

end RowQuery
