import RowQuery.Proofs.Printer.RoundTrip
import RowQuery.SelectList

/-!
# Reading under another rule for operands

The rule for operands has no part in reading. A text has the same items or the same fault under
every rule, but for the rule that its calls are given (`ofText_withOperands`).
-/

namespace RowQuery

namespace Expression

variable {rule : OperandRule} {e : Expression}

theorem output_withRule (rule : OperandRule) (e : Expression) :
    (e.withRule rule).output = e.output := by
  obtain ⟨term, label, sound⟩ := e
  cases term <;> rfl

theorem call?_withRule (rule : OperandRule) (e : Expression) :
    (e.withRule rule).call? =
      e.call?.map fun call => .of call.function call.column call.distinct rule := by
  obtain ⟨term, label, sound⟩ := e
  cases term <;> rfl

theorem isAggregate_withRule (rule : OperandRule) (e : Expression) :
    (e.withRule rule).isAggregate = e.isAggregate := by
  rw [isAggregate, isAggregate, call?_withRule, Option.isSome_map]

theorem project_withRule [Formats] (rule : OperandRule) (e : Expression) :
    (e.withRule rule).project = e.project := by
  obtain ⟨term, label, sound⟩ := e
  cases term <;> rfl

theorem operands_of_withRule {call : AggregateCall} (own : e.withRule rule = e)
    (called : e.call? = some call) (numeric : call.function.isNumeric = true) :
    call.operands = rule := by
  have same := e.call?_withRule rule
  rw [own, called, Option.map_some, Option.some_inj] at same
  rw [same, AggregateCall.of, if_pos numeric]

end Expression

namespace Scan

variable {strict : Bool} {rule rule' : OperandRule}

theorem build_withRule (rule : OperandRule) (t : Term) :
    build (t.withRule rule) = Expression.withRule rule <$> build t := by
  cases made : Expression.ofTerm t with
  | ok e =>
      obtain ⟨rfl, unlabelled⟩ := ofTerm_eq_ok_iff.mp made
      have made' : Expression.ofTerm (e.term.withRule rule) = .ok (e.withRule rule) :=
        ofTerm_eq_ok_iff.mpr ⟨rfl, unlabelled⟩
      simp only [build, made, made', map_pure]
  | error fault =>
      obtain ⟨cause, flawed, rfl⟩ := ofTerm_eq_error made
      have made' : Expression.ofTerm (t.withRule rule) = .error (.argument cause) := by
        have flawed' := (t.flaw?_withRule rule).trans flawed
        unfold Expression.ofTerm
        split <;> rename_i found <;> rw [flawed'] at found <;> cases found
        rfl
      simp only [build, made, made']
      rfl

theorem build_concat_withRule (rule : OperandRule) (reading : Scan (List Operand)) :
    (reading >>= fun read => build (.concat read)) =
      Expression.withRule rule <$> (reading >>= fun read => build (.concat read)) := by
  simp only [map_bind, ← build_withRule, Term.withRule]

theorem call_withRule (keyword : Lookahead.Keyword) :
    call ⟨strict, rule'⟩ keyword = Expression.withRule rule' <$> call ⟨strict, rule⟩ keyword := by
  cases keyword with
  | aggregate function =>
      simp only [call, map_bind, ← build_withRule, Term.withRule, AggregateCall.of]
  | concat =>
      simp only [call, map_bind]
      refine congrArg _ (funext fun _ => congrArg _ (funext fun opening => ?_))
      exact congrArg _ (funext fun _ => build_concat_withRule rule' (operands strict opening false))

theorem term_withRule :
    term ⟨strict, rule'⟩ = Expression.withRule rule' <$> term ⟨strict, rule⟩ := by
  simp only [term, map_bind]
  congr 1
  funext chars
  split
  · simp only [map_bind, ← build_withRule, Term.withRule]
  · split
    · exact call_withRule _
    · simp only [map_bind, ← build_withRule, Term.withRule]

theorem item_withRule : item ⟨strict, rule'⟩ =
    (fun read => (read.1.withRule rule', read.2)) <$> item ⟨strict, rule⟩ := by
  have read : term ⟨strict, rule'⟩ = Expression.withRule rule' <$> term ⟨strict, rule⟩ :=
    term_withRule
  rw [item, read]
  simp only [item, map_bind, bind_map_left, map_pure]
  rfl

end Scan

namespace Parser

def withRule (rule : OperandRule) (p : Parser) : Parser :=
  { p with settings := p.settings.withOperands rule }

theorem next_withRule (rule : OperandRule) (p : Parser) :
    (p.withRule rule).next =
      (p.next.1.map (Option.map (Expression.withRule rule)), p.next.2.withRule rule) := by
  have cursor : (p.withRule rule).atNext = p.atNext := rfl
  have read : Scan.item (p.withRule rule).settings p.atNext =
      ((fun read => (read.1.withRule rule, read.2)) <$> Scan.item p.settings) p.atNext :=
    congrFun Scan.item_withRule p.atNext
  rw [next, next, cursor]
  cases p.atNext.rest with
  | nil =>
      have strict : (p.withRule rule).settings.strict = p.settings.strict := rfl
      have pending : (p.withRule rule).pendingComma = p.pendingComma := rfl
      rw [pending, strict]
      cases p.pendingComma with
      | none => rfl
      | some comma => cases p.settings.strict <;> rfl
  | cons first others =>
      by_cases comma : first = ','
      · simp only [if_pos comma]
        rfl
      · simp only [if_neg comma, read]
        cases at_item : Scan.item p.settings p.atNext with
        | ok result last =>
            have mapped : ((fun read => (read.1.withRule rule, read.2)) <$> Scan.item p.settings)
                p.atNext = .ok (result.1.withRule rule, result.2) last := by
              rw [map_eq_pure_bind, Scan.bind_of_ok at_item]
              rfl
            simp only [mapped]
            rfl
        | error fault last =>
            have mapped : ((fun read => (read.1.withRule rule, read.2)) <$> Scan.item p.settings)
                p.atNext = .error fault last := by
              rw [map_eq_pure_bind, Scan.bind_of_error at_item]
            simp only [mapped]
            rfl

theorem drain_withRule (rule : OperandRule) (p : Parser) :
    (p.withRule rule).drain.1 = p.drain.1.map (Except.map (Expression.withRule rule)) := by
  have step := next_withRule rule p
  fun_induction drain p with
  | case1 p failed => exact drain_of_failed (p := p.withRule rule) failed
  | case2 p alive last reached =>
      rw [reached] at step
      exact drain_of_next_none (Bool.eq_false_iff.mpr alive) step
  | case3 p alive fault last reached =>
      rw [reached] at step
      exact drain_of_next_error (Bool.eq_false_iff.mpr alive) step
  | case4 p alive e q reached others last rest ih =>
      rw [reached] at step
      have later := ih (next_withRule rule q)
      rw [rest] at later
      rw [drain_of_next_ok (p := p.withRule rule) (Bool.eq_false_iff.mpr alive) step, later]
      rfl

theorem mapM_map {α β : Type} (change : α → β) (items : List (Except Fault α)) :
    (items.map (Except.map change)).mapM id = (items.mapM id).map (List.map change) := by
  induction items with
  | nil => rfl
  | cons item items ih =>
      rw [List.map_cons, List.mapM_cons, List.mapM_cons, ih]
      cases item with
      | error fault => rfl
      | ok value => cases items.mapM id <;> rfl

theorem parseList_withOperands (settings : Settings) (rule : OperandRule) (text : String) :
    Expression.parseList (settings.withOperands rule) text =
      (Expression.parseList settings text).map (List.map (Expression.withRule rule)) := by
  rw [Expression.parseList, Expression.parseList, ← mapM_map, ← drain_withRule]
  rfl

end Parser

namespace SelectItem

def withRule (rule : OperandRule) (item : SelectItem) : SelectItem :=
  { item with expression := item.expression.withRule rule }

end SelectItem

namespace SelectList

def withRule (rule : OperandRule) (list : SelectList) : SelectList :=
  ⟨list.items.map (SelectItem.withRule rule)⟩

theorem ofText_withOperands (settings : Settings) (rule : OperandRule) (text : String) :
    ofText (settings.withOperands rule) text = (ofText settings text).map (withRule rule) := by
  rw [ofText, ofText, Parser.parseList_withOperands]
  cases Expression.parseList settings text with
  | error fault => rfl
  | ok expressions =>
      simp [Except.map, ofExpressions, withRule, Function.comp_def, SelectItem.ofExpression,
        SelectItem.withRule]

end SelectList

end RowQuery
