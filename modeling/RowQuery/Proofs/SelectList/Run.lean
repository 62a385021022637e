import RowQuery.Proofs.Progress.Run
import RowQuery.SelectList

/-!
# A select list over many rows, item by item

A list takes each row into all of its items before it takes the next one. As long as there is no
fault, that is the same as taking all rows into each item for itself (`absorbRows_eq_ok_iff`). At
the end the items write their columns if they are grouped, and one row if they are not.
-/

namespace RowQuery

namespace SelectItem

/-- An item after more rows, up to the first fault. -/
def absorbAll [Hashing] : List Row → SelectItem → Except Fault Unit × SelectItem
  | [], item => (.ok (), item)
  | row :: rows, item =>
    match item.absorb row with
    | (.error fault, item) => (.error fault, item)
    | (.ok (), item) => absorbAll rows item

theorem absorbAll_cons_of_ok [Hashing] {item : SelectItem} {row : Row} (rows : List Row)
    (absorbed : (item.absorb row).1 = .ok ()) :
    item.absorbAll (row :: rows) = (item.absorb row).2.absorbAll rows := by
  rw [absorbAll]
  split <;> rename_i reached <;> rw [reached] at absorbed
  · cases absorbed
  · rw [reached]

theorem absorb_ok_of_absorbAll [Hashing] {item : SelectItem} {row : Row} {rows : List Row}
    (absorbed : (item.absorbAll (row :: rows)).1 = .ok ()) : (item.absorb row).1 = .ok () := by
  rw [absorbAll] at absorbed
  split at absorbed <;> rename_i reached
  · cases absorbed
  · rw [reached]

theorem absorbAll_of_no_call [Hashing] {item : SelectItem} (plain : item.expression.call? = none)
    (rows : List Row) : item.absorbAll rows = (.ok (), item) := by
  induction rows with
  | nil => rfl
  | cons row rows ih => simp only [absorbAll, absorb, plain, ih]

theorem absorbAll_of_call [Hashing] {item : SelectItem} {call : AggregateCall}
    (called : item.expression.call? = some call) (rows : List Row) :
    item.absorbAll rows = ((item.progress.addAll call item.grouping rows).1,
      { item with progress := (item.progress.addAll call item.grouping rows).2 }) := by
  induction rows generalizing item with
  | nil => rfl
  | cons row rows ih =>
      rw [absorbAll, absorb, Progress.addAll]
      simp only [called]
      rcases added : item.progress.add call item.grouping row with ⟨fault | _, progress⟩
      · rfl
      · exact ih called

end SelectItem

namespace SelectList

open Progress (Merged rowOf?)

variable {row : Row} {rows : List Row} {items last : List SelectItem}

theorem absorbRow_eq_ok_iff [Hashing] : absorbRow row items = (.ok (), last) ↔
    (∀ item ∈ items, (item.absorb row).1 = .ok ()) ∧
      last = items.map fun item => (item.absorb row).2 := by
  induction items generalizing last with
  | nil => simp [absorbRow, eq_comm]
  | cons item rest ih =>
      rw [absorbRow]
      rcases absorbed : item.absorb row with ⟨fault | _, after⟩
      · simp [absorbed]
      · simp only [Prod.mk.injEq, List.forall_mem_cons, absorbed, true_and, List.map_cons]
        constructor
        · rintro ⟨passed, rfl⟩
          have others : absorbRow row rest = (.ok (), (absorbRow row rest).2) :=
            Prod.ext passed rfl
          obtain ⟨all, same⟩ := ih.mp others
          exact ⟨all, by rw [← same]⟩
        · rintro ⟨all, rfl⟩
          rw [ih.mpr ⟨all, rfl⟩]
          exact ⟨rfl, rfl⟩

theorem absorbRows_eq_ok_iff [Hashing] : absorbRows rows items = (.ok (), last) ↔
    (∀ item ∈ items, (item.absorbAll rows).1 = .ok ()) ∧
      last = items.map fun item => (item.absorbAll rows).2 := by
  induction rows generalizing items with
  | nil => simp [absorbRows, SelectItem.absorbAll, eq_comm]
  | cons row rows ih =>
      rw [absorbRows]
      rcases absorbed : absorbRow row items with ⟨fault | _, middle⟩
      · apply iff_of_false (by simp)
        rintro ⟨all, -⟩
        have passed := absorbRow_eq_ok_iff.mpr
          ⟨fun item member => SelectItem.absorb_ok_of_absorbAll (all item member), rfl⟩
        rw [absorbed] at passed
        cases passed
      · obtain ⟨all, rfl⟩ := absorbRow_eq_ok_iff.mp absorbed
        have later : ∀ item ∈ items,
            item.absorbAll (row :: rows) = (item.absorb row).2.absorbAll rows :=
          fun item member => SelectItem.absorbAll_cons_of_ok rows (all item member)
        have ends : (items.map fun item => (item.absorbAll (row :: rows)).2) =
            (items.map fun item => (item.absorb row).2).map fun item =>
              (item.absorbAll rows).2 := by
          rw [List.map_map]
          exact List.map_congr_left fun item member => congrArg Prod.snd (later item member)
        simp only [ih, ends, List.forall_mem_map]
        refine and_congr_left fun _ => forall₂_congr fun item member => ?_
        rw [later item member]

/-! ## Results -/

theorem finish_of_call {item : SelectItem} {call : AggregateCall}
    (called : item.expression.call? = some call) (result : ResultSet) :
    (item.finish result).1 =
      (item.progress.finish call item.grouping item.expression.output result).1 := by
  simp only [SelectItem.finish, called]

theorem finish_of_no_call {item : SelectItem} (plain : item.expression.call? = none)
    (result : ResultSet) : (item.finish result).1 = result := by
  simp only [SelectItem.finish, plain]

theorem finishItems_cons (item : SelectItem) (rest : List SelectItem) (result : ResultSet) :
    (finishItems (item :: rest) result).1 = (finishItems rest (item.finish result).1).1 :=
  rfl

/-- The columns of grouped items. -/
def columnsOf (items : List SelectItem) : List (String × GroupTable) :=
  items.filterMap fun item =>
    item.expression.call?.map fun _ => (item.expression.output, item.progress.groups)

theorem finishItems_merged {grouping : Grouping} {sound : String × GroupTable → Prop}
    (tell : ∀ columns, (∀ column ∈ columns, sound column) → ∀ id row,
      rowOf? columns id = some row → (grouping.keyOf row).id = id)
    {columns : List (String × GroupTable)} {result : ResultSet}
    (grouped : ∀ item ∈ items, item.grouping = some grouping)
    (all : ∀ column ∈ columns ++ columnsOf items, sound column)
    (merged : Merged grouping columns result) :
    Merged grouping (columns ++ columnsOf items) (finishItems items result).1 := by
  induction items generalizing columns result with
  | nil => simpa [columnsOf, finishItems] using merged
  | cons item rest ih =>
      obtain ⟨here, later⟩ := List.forall_mem_cons.mp grouped
      rw [finishItems_cons]
      cases called : item.expression.call? with
      | none =>
          have skip : columnsOf (item :: rest) = columnsOf rest := by simp [columnsOf, called]
          rw [skip] at all ⊢
          rw [finish_of_no_call called]
          exact ih later all merged
      | some call =>
          have added : columnsOf (item :: rest) =
              (item.expression.output, item.progress.groups) :: columnsOf rest := by
            simp [columnsOf, called]
          rw [added, List.append_cons] at all ⊢
          rw [finish_of_call called, here]
          refine ih later all (merged.merge fun id row => tell _ (fun column member => ?_) id row)
          exact all column (List.mem_append_left _ member)

/-- The results of ungrouped items. -/
def totalsOf (items : List SelectItem) : List Field :=
  items.filterMap fun item => item.expression.call?.map fun call =>
    (item.expression.output, (item.progress.total.getD (.start call.function)).accumulator.result)

theorem finishItems_single (ungrouped : ∀ item ∈ items, item.grouping = none) (row : Row) :
    (finishItems items ⟨[row]⟩).1 = ⟨[row.setAll (totalsOf items)]⟩ := by
  induction items generalizing row with
  | nil => rfl
  | cons item rest ih =>
      obtain ⟨here, later⟩ := List.forall_mem_cons.mp ungrouped
      rw [finishItems_cons]
      cases called : item.expression.call? with
      | none =>
          have skip : totalsOf (item :: rest) = totalsOf rest := by simp [totalsOf, called]
          rw [skip, finish_of_no_call called, ih later]
      | some call =>
          rw [finish_of_call called, here]
          simp only [Progress.finish, ResultSet.setFirst, ih later]
          simp [totalsOf, called, Row.setAll_cons]

theorem finishItems_empty (ungrouped : ∀ item ∈ items, item.grouping = none)
    (aggregate : ∃ item ∈ items, item.isAggregate) :
    (finishItems items .empty).1 = ⟨[Row.empty.setAll (totalsOf items)]⟩ := by
  induction items with
  | nil => simp at aggregate
  | cons item rest ih =>
      obtain ⟨here, later⟩ := List.forall_mem_cons.mp ungrouped
      rw [finishItems_cons]
      cases called : item.expression.call? with
      | none =>
          have skip : totalsOf (item :: rest) = totalsOf rest := by simp [totalsOf, called]
          rw [skip, finish_of_no_call called, ih later]
          simpa [SelectItem.isAggregate, Expression.isAggregate, called] using aggregate
      | some call =>
          rw [finish_of_call called, here]
          simp only [Progress.finish, ResultSet.empty, ResultSet.setFirst]
          rw [finishItems_single later]
          simp [totalsOf, called, Row.setAll_cons]

/-! ## Execution -/

/-- The aggregate calls of a list with the fields that they write. -/
def calls (list : SelectList) : List (AggregateCall × String) :=
  list.expressions.filterMap fun e => e.call?.map fun call => (call, e.output)

/-- The fields that the aggregate calls of a list write. -/
def outputs (list : SelectList) : List String :=
  list.calls.map Prod.snd

/-- How far a call comes over rows. -/
def run [Hashing] (grouping : Option Grouping) (rows : List Row) (call : AggregateCall) :
    Progress :=
  (Progress.start.addAll call grouping rows).2

/-- The items of a list after rows. -/
def itemsAfter [Hashing] (grouping : Option Grouping) (rows : List Row) (list : SelectList) :
    List SelectItem :=
  list.items.map fun item => ((item.withGrouping grouping).start.absorbAll rows).2

variable {list : SelectList} {result : ResultSet}

theorem execute_eq_ok_iff [Formats] [Hashing] (aggregate : list.hasAggregates = true)
    (grouping : Option Grouping) :
    ((list.withGrouping grouping).execute rows).1 = .ok result ↔
      (∀ item ∈ list.items, ((item.withGrouping grouping).start.absorbAll rows).1 = .ok ()) ∧
      result = (finishItems (list.itemsAfter grouping rows) .empty).1 := by
  have same : (list.withGrouping grouping).hasAggregates = true := by
    rw [hasAggregates, withGrouping, List.any_map]
    exact aggregate
  have started : (list.withGrouping grouping).items.map SelectItem.start =
      list.items.map fun item => (item.withGrouping grouping).start := by
    rw [withGrouping, List.map_map]
    rfl
  have ran (last : List SelectItem) : absorbRows rows
        (list.items.map fun item => (item.withGrouping grouping).start) = (.ok (), last) ↔
      (∀ item ∈ list.items, ((item.withGrouping grouping).start.absorbAll rows).1 = .ok ()) ∧
        last = list.itemsAfter grouping rows := by
    rw [absorbRows_eq_ok_iff, List.forall_mem_map, List.map_map]
    rfl
  rw [execute, if_pos same, started]
  rcases reached : absorbRows rows (list.items.map fun item => (item.withGrouping grouping).start)
    with ⟨fault | _, last⟩
  · apply iff_of_false (by simp [reached])
    rintro ⟨all, -⟩
    rw [(ran _).mpr ⟨all, rfl⟩] at reached
    cases reached
  · obtain ⟨all, rfl⟩ := (ran _).mp reached
    simp only [reached, Except.ok.injEq]
    rw [eq_comm, and_iff_right all]

theorem absorbAll_restarted_of_call [Hashing] {item : SelectItem} {call : AggregateCall}
    (called : item.expression.call? = some call) (grouping : Option Grouping) (rows : List Row) :
    (item.withGrouping grouping).start.absorbAll rows =
      ((Progress.start.addAll call grouping rows).1,
        ⟨item.expression, grouping, run grouping rows call⟩) := by
  have here : (item.withGrouping grouping).start.expression.call? = some call := called
  exact SelectItem.absorbAll_of_call here rows

theorem absorbAll_restarted_of_no_call [Hashing] {item : SelectItem}
    (plain : item.expression.call? = none) (grouping : Option Grouping) (rows : List Row) :
    (item.withGrouping grouping).start.absorbAll rows =
      (.ok (), ⟨item.expression, grouping, .start⟩) := by
  have here : (item.withGrouping grouping).start.expression.call? = none := plain
  exact SelectItem.absorbAll_of_no_call here rows

theorem mem_itemsAfter [Hashing] {grouping : Option Grouping} {item : SelectItem}
    (member : item ∈ list.itemsAfter grouping rows) : item.grouping = grouping := by
  obtain ⟨source, -, rfl⟩ := List.mem_map.mp member
  cases called : source.expression.call? with
  | none => rw [absorbAll_restarted_of_no_call called]
  | some call => rw [absorbAll_restarted_of_call called]

theorem exists_aggregate_itemsAfter [Hashing] (aggregate : list.hasAggregates = true)
    (grouping : Option Grouping) (rows : List Row) :
    ∃ item ∈ list.itemsAfter grouping rows, item.isAggregate := by
  obtain ⟨item, member, call⟩ := List.any_eq_true.mp aggregate
  refine ⟨_, List.mem_map_of_mem member, ?_⟩
  cases called : item.expression.call? with
  | none => simp [SelectItem.isAggregate, Expression.isAggregate, called] at call
  | some call =>
      rw [absorbAll_restarted_of_call called]
      simp [SelectItem.isAggregate, Expression.isAggregate, called]

theorem absorbAll_eq_ok_iff [Hashing] (grouping : Option Grouping) :
    (∀ item ∈ list.items, ((item.withGrouping grouping).start.absorbAll rows).1 = .ok ()) ↔
      ∀ call ∈ list.calls, (Progress.start.addAll call.1 grouping rows).1 = .ok () := by
  constructor
  · intro all call member
    obtain ⟨e, listed, found⟩ := List.mem_filterMap.mp member
    obtain ⟨item, here, rfl⟩ := List.mem_map.mp listed
    obtain ⟨_, called, rfl⟩ := Option.map_eq_some_iff.mp found
    have absorbed := all item here
    rwa [absorbAll_restarted_of_call called] at absorbed
  · intro all item here
    cases called : item.expression.call? with
    | none => rw [absorbAll_restarted_of_no_call called]
    | some call =>
        rw [absorbAll_restarted_of_call called]
        refine all (call, item.expression.output) (List.mem_filterMap.mpr ?_)
        exact ⟨item.expression, List.mem_map_of_mem here, by rw [called]; rfl⟩

/-- What is read off the items after a run is read off the runs of their calls. -/
theorem filterMap_itemsAfter [Hashing] {β : Type} (grouping : Option Grouping)
    (read : AggregateCall → String → Progress → β) :
    ((list.itemsAfter grouping rows).filterMap fun item => item.expression.call?.map fun call =>
        read call item.expression.output item.progress) =
      list.calls.map fun call => read call.1 call.2 (run grouping rows call.1) := by
  rw [itemsAfter, calls, expressions]
  induction list.items with
  | nil => rfl
  | cons item rest ih =>
      simp only [List.map_cons, List.filterMap_cons]
      cases called : item.expression.call? with
      | none =>
          rw [absorbAll_restarted_of_no_call called]
          simpa only [called, Option.map_none] using ih
      | some call =>
          rw [absorbAll_restarted_of_call called]
          simpa only [called, Option.map_some, List.map_cons, List.cons.injEq, true_and] using ih

theorem columnsOf_itemsAfter [Hashing] (grouping : Option Grouping) :
    columnsOf (list.itemsAfter grouping rows) =
      list.calls.map fun call => (call.2, (run grouping rows call.1).groups) :=
  filterMap_itemsAfter grouping fun _ output progress => (output, progress.groups)

theorem totalsOf_itemsAfter [Hashing] (grouping : Option Grouping) :
    totalsOf (list.itemsAfter grouping rows) =
      list.calls.map fun call => (call.2,
        ((run grouping rows call.1).total.getD (.start call.1.function)).accumulator.result) :=
  filterMap_itemsAfter grouping fun call output progress =>
    (output, (progress.total.getD (.start call.function)).accumulator.result)

end SelectList

end RowQuery
