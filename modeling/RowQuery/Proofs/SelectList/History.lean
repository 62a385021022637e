import RowQuery.SelectList

/-!
# A list evaluated many times

An evaluation starts from the expressions and the groupings of a list alone, and whatever it comes
to, it leaves them as they were. So after any history the next one is that of a list built anew
(`execute_after_history`).
-/

namespace RowQuery

namespace SelectItem

variable {item : SelectItem}

/-- An item built anew, with the expression and the grouping of another. -/
def renew (item : SelectItem) : SelectItem :=
  (ofExpression item.expression).withGrouping item.grouping

theorem renew_absorb [Hashing] (row : Row) (item : SelectItem) :
    (item.absorb row).2.renew = item.renew := by
  unfold absorb
  cases item.expression.call? <;> rfl

theorem renew_finish (result : ResultSet) (item : SelectItem) :
    (item.finish result).2.renew = item.renew := by
  unfold finish
  cases item.expression.call? <;> rfl

end SelectItem

namespace SelectList

/-- A list built anew, with the expressions and the groupings of another. -/
def renew (list : SelectList) : SelectList :=
  ⟨list.items.map SelectItem.renew⟩

/-! ## Evaluation -/

theorem renew_absorbRow [Hashing] (row : Row) (items : List SelectItem) :
    (absorbRow row items).2.map SelectItem.renew = items.map SelectItem.renew := by
  induction items with
  | nil => rfl
  | cons item rest ih =>
      have kept := item.renew_absorb row
      unfold absorbRow
      rcases absorbed : item.absorb row with ⟨fault | _, after⟩ <;> rw [absorbed] at kept
      · rw [List.map_cons, List.map_cons, kept]
      · rw [List.map_cons, List.map_cons, kept, ih]

theorem renew_absorbRows [Hashing] (rows : List Row) (items : List SelectItem) :
    (absorbRows rows items).2.map SelectItem.renew = items.map SelectItem.renew := by
  induction rows generalizing items with
  | nil => rfl
  | cons row rows ih =>
      have kept := renew_absorbRow row items
      unfold absorbRows
      rcases absorbed : absorbRow row items with ⟨fault | _, after⟩ <;> rw [absorbed] at kept
      · exact kept
      · exact (ih after).trans kept

theorem renew_finishItems (items : List SelectItem) (result : ResultSet) :
    (finishItems items result).2.map SelectItem.renew = items.map SelectItem.renew := by
  induction items generalizing result with
  | nil => rfl
  | cons item rest ih =>
      unfold finishItems
      rw [List.map_cons, List.map_cons, ih, item.renew_finish]

theorem renew_renew (list : SelectList) : list.renew.renew = list.renew := by
  unfold renew
  rw [List.map_map]
  rfl

/-- An evaluation keeps the expressions and the groupings, also when it fails midway. -/
theorem renew_execute [Formats] [Hashing] (rows : List Row) (list : SelectList) :
    (list.execute rows).2.renew = list.renew := by
  have started : (list.items.map SelectItem.start).map SelectItem.renew =
      list.items.map SelectItem.renew := congrArg items list.renew_renew
  have taken := renew_absorbRows rows (list.items.map SelectItem.start)
  unfold execute
  cases list.hasAggregates with
  | false => exact congrArg mk started
  | true =>
      rcases absorbed : absorbRows rows (list.items.map SelectItem.start) with ⟨fault | _, last⟩ <;>
        rw [absorbed] at taken <;> simp only [if_true, absorbed]
      · exact congrArg mk (taken.trans started)
      · exact congrArg mk ((renew_finishItems last .empty).trans (taken.trans started))

/-- An evaluation reads nothing of a list but its expressions and groupings. -/
theorem execute_renew [Formats] [Hashing] (rows : List Row) (list : SelectList) :
    list.renew.execute rows = list.execute rows := by
  have started : list.renew.items.map SelectItem.start = list.items.map SelectItem.start :=
    congrArg items list.renew_renew
  have aggregates : list.renew.hasAggregates = list.hasAggregates := by
    unfold hasAggregates renew
    rw [List.any_map]
    rfl
  have expressions : list.renew.expressions = list.expressions := by
    unfold SelectList.expressions renew
    rw [List.map_map]
    rfl
  unfold execute
  rw [started, aggregates, expressions]

/-! ## Histories -/

/-- What is done to a list between two evaluations, and an evaluation. -/
inductive Operation where
  | execute (rows : List Row)
  | group (grouping : Grouping)
  | ungroup
  | label (index : Nat) (text : String)

namespace Operation

def apply [Formats] [Hashing] (list : SelectList) : Operation → SelectList
  | .execute rows => (list.execute rows).2
  | .group grouping => list.withGrouping (some grouping)
  | .ungroup => list.withGrouping none
  | .label index text => list.withLabel index text

/-- Whether an operation is about what a list says, and not an evaluation. -/
def isSetting : Operation → Bool
  | .execute _ => false
  | _ => true

end Operation

theorem renew_withGrouping (grouping : Option Grouping) (list : SelectList) :
    (list.withGrouping grouping).renew = list.renew.withGrouping grouping := by
  unfold renew withGrouping
  rw [List.map_map, List.map_map]
  rfl

theorem renew_withLabel (index : Nat) (label : String) (list : SelectList) :
    (list.withLabel index label).renew = list.renew.withLabel index label := by
  unfold renew withLabel
  apply congrArg mk
  apply List.ext_getElem?
  intro j
  simp only [List.getElem?_map, List.getElem?_modify]
  cases list.items[j]? with
  | none => rfl
  | some item =>
      by_cases here : index = j
      · simp only [if_pos here]
        rfl
      · simp only [if_neg here]
        rfl

theorem renew_apply [Formats] [Hashing] (list : SelectList) (operation : Operation) :
    (operation.apply list).renew =
      if operation.isSetting then operation.apply list.renew else list.renew := by
  cases operation with
  | execute rows => exact list.renew_execute rows
  | group grouping => exact list.renew_withGrouping (some grouping)
  | ungroup => exact list.renew_withGrouping none
  | label index text => exact list.renew_withLabel index text

theorem renew_history [Formats] [Hashing] (history : List Operation) (list : SelectList) :
    (history.foldl Operation.apply list).renew =
      (history.filter Operation.isSetting).foldl Operation.apply list.renew := by
  induction history generalizing list with
  | nil => rfl
  | cons operation history ih =>
      rw [List.foldl_cons, ih, renew_apply, List.filter_cons]
      cases operation.isSetting <;> rfl

/-- After any history the next evaluation is that of a list built anew, which has the expressions
and groupings that the settings of the history alone have given it. -/
theorem execute_after_history [Formats] [Hashing] (list : SelectList) (history : List Operation)
    (rows : List Row) :
    let last := history.foldl Operation.apply list
    last.execute rows = last.renew.execute rows ∧
      last.renew = (history.filter Operation.isSetting).foldl Operation.apply list.renew := by
  intro last
  exact ⟨(last.execute_renew rows).symm, renew_history history list⟩

end SelectList

end RowQuery
