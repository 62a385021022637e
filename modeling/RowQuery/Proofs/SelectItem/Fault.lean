import RowQuery.Proofs.Progress.Distinct
import RowQuery.Proofs.SelectItem.Reached

/-!
# Rows that a call refuses

A fault leaves an item as it was, so that whatever follows is what would follow without the row. The
one exception is the first row of a group in a call without DISTINCT: the group is there from then
on, and nothing was gathered from it (`absorb_of_error`).
-/

namespace RowQuery

namespace Progress

/-! ## States that nothing tells apart -/

/-- The same groups, and the same scope of all rows; before any row that is one that has just
started. -/
structure Alike (function : AggregateFunction) (p q : Progress) : Prop where
  total : p.total.getD (.start function) = q.total.getD (.start function)
  groups : p.groups = q.groups

namespace Alike

variable {call : AggregateCall} {grouping : Option Grouping} {p q : Progress}

theorem update {β : Type} {function : AggregateFunction} (alike : p.Alike function q) (row : Row)
    (change : Scope → β × Scope) :
    (p.update function grouping row change).2.Alike function
      (q.update function grouping row change).2 := by
  cases grouping with
  | none =>
      rw [update_none, update_none, alike.total]
      exact ⟨rfl, alike.groups⟩
  | some grouping =>
      rw [update_some, update_some, alike.groups]
      exact ⟨alike.total, rfl⟩

theorem add [Hashing] (alike : p.Alike call.function q) (row : Row) :
    (p.add call grouping row).2.Alike call.function (q.add call grouping row).2 := by
  rcases admits_cases call row with ⟨-, kept⟩ | ⟨-, change, updates⟩
  · rwa [kept, kept]
  · rw [updates, updates]
    exact alike.update row change

theorem addEach [Hashing] (alike : p.Alike call.function q) (rows : List Row) :
    (p.addEach call grouping rows).Alike call.function (q.addEach call grouping rows) := by
  induction rows generalizing p q with
  | nil => exact alike
  | cons row rows ih => exact ih (alike.add row)

theorem finish (alike : p.Alike call.function q) (field : String) (result : ResultSet) :
    (p.finish call grouping field result).1 = (q.finish call grouping field result).1 := by
  cases grouping with
  | none => exact congrArg (fun scope => result.setFirst field scope.accumulator.result) alike.total
  | some grouping =>
      exact congrArg (fun table => merge grouping field table.groups result) alike.groups

end Alike

/-! ## What a fault leaves behind -/

variable {call : AggregateCall} {grouping : Option Grouping} {row : Row} {p : Progress}
  {fault : Fault}

/-- Under DISTINCT a value is refused before a scope is looked for; without, by the scope. -/
theorem add_of_error [Hashing] (takes : call.TakesItsColumn)
    (serves : p.Serves call.function grouping)
    (failed : (p.add call grouping row).1 = .error fault) :
    (call.tracksDistinct = true ∧ (p.add call grouping row).2 = p) ∨
      (call.tracksDistinct = false ∧ ∃ change : Scope → Except Fault Unit × Scope,
        p.add call grouping row = p.update call.function grouping row change ∧
          change (p.scopeOf call.function grouping row) =
            (.error fault, p.scopeOf call.function grouping row)) := by
  have faulty : call.fault? row = some fault := by
    have outcome := (serves.add takes row).1.symm.trans failed
    cases found : call.fault? row with
    | none => simp [found] at outcome
    | some first => simpa [found] using outcome
  have unstarred : call.isStar = false := by
    rw [← Bool.not_eq_true]
    intro star
    cases (fault?_of_star takes star).symm.trans faulty
  cases operand : operand? call row with
  | none => cases (fault?_of_no_operand operand).symm.trans faulty
  | some value =>
      rcases fault?_of_operand operand with ⟨passes, -⟩ | ⟨numeric, _, fails, refused⟩
      · cases passes.symm.trans faulty
      · cases fails.symm.trans faulty
        cases tracks : call.tracksDistinct with
        | true =>
            have early : refusal? call value = some fault := by
              simp [refusal?, numeric, tracks, refused]
            refine .inl ⟨rfl, ?_⟩
            simp only [Progress.add, unstarred, operand, early]
            rfl
        | false =>
            have late : refusal? call value = none := refusal?_of_plain tracks value
            refine .inr ⟨rfl, Scope.add call value, ?_,
              scope_add_of_refused (serves row) numeric tracks refused⟩
            simp only [Progress.add, unstarred, operand, late]
            rfl

/-- A row is the first of its group, for a call without DISTINCT. -/
def Founds (call : AggregateCall) (grouping : Option Grouping) (row : Row) (p : Progress) : Prop :=
  ∃ given, grouping = some given ∧ call.tracksDistinct = false ∧
    (given.keyOf row).id ∉ p.groups.ids

theorem alike_add_of_error [Hashing] (takes : call.TakesItsColumn)
    (serves : p.Serves call.function grouping)
    (failed : (p.add call grouping row).1 = .error fault) (spared : ¬ p.Founds call grouping row) :
    (p.add call grouping row).2.Alike call.function p := by
  rcases add_of_error takes serves failed with ⟨-, kept⟩ | ⟨plain, change, updates, fixed⟩
  · rw [kept]
    exact ⟨rfl, rfl⟩
  · rw [updates]
    cases grouping with
    | none =>
        have total : change (p.total.getD (.start call.function)) =
            (.error fault, p.total.getD (.start call.function)) := fixed
        rw [update_none, total]
        exact ⟨rfl, rfl⟩
    | some given =>
        have known : (given.keyOf row).id ∈ p.groups.ids := by
          by_contra new
          exact spared ⟨given, rfl, plain, new⟩
        obtain ⟨group, found⟩ :=
          Option.isSome_iff_exists.mp (GroupTable.isSome_group?.mpr known)
        have scope : p.scopeOf call.function (some given) row = group.scope := by
          simp [scopeOf, GroupTable.scope?, found]
        rw [scope] at fixed
        rw [update_some, GroupTable.update_of_fixed found fixed]
        exact ⟨rfl, rfl⟩

theorem add_of_error_of_founds [Hashing] {given : Grouping} (takes : call.TakesItsColumn)
    (serves : p.Serves call.function (some given))
    (failed : (p.add call (some given) row).1 = .error fault)
    (plain : call.tracksDistinct = false) (new : (given.keyOf row).id ∉ p.groups.ids) :
    (p.add call (some given) row).2.total = p.total ∧
      (p.add call (some given) row).2.groups.groups =
        p.groups.groups ++ [⟨given.keyOf row, .start call.function⟩] := by
  rcases add_of_error takes serves failed with ⟨tracks, -⟩ | ⟨-, change, updates, fixed⟩
  · cases plain.symm.trans tracks
  · have missing : p.groups.group? (given.keyOf row).id = none := by
      rwa [← Option.not_isSome_iff_eq_none, GroupTable.isSome_group?]
    have scope : p.scopeOf call.function (some given) row = .start call.function := by
      simp [scopeOf, GroupTable.scope?, missing]
    rw [scope] at fixed
    rw [updates, update_some, GroupTable.groups_update_of_new _ _ _ new, fixed]
    exact ⟨rfl, rfl⟩

end Progress

namespace SelectItem

variable {call : AggregateCall} {item other : SelectItem} {met : List String} {row : Row}
  {fault : Fault}

/-- Two items of a call that nothing tells apart. -/
structure Alike (call : AggregateCall) (item other : SelectItem) : Prop where
  expression : item.expression = other.expression
  grouping : item.grouping = other.grouping
  progress : item.progress.Alike call.function other.progress

theorem groupCount?_of_call (called : item.expression.call? = some call) :
    item.groupCount? = some item.progress.groups.size := by
  rw [groupCount?, called]
  rfl

theorem Alike.absorbEach [Hashing] (alike : item.Alike call other)
    (called : other.expression.call? = some call) (rows : List Row) :
    (item.absorbEach rows).Alike call (other.absorbEach rows) := by
  have called' : item.expression.call? = some call := by rw [alike.expression, called]
  rw [absorbEach_of_call called, absorbEach_of_call called', alike.grouping]
  exact ⟨alike.expression, rfl, alike.progress.addEach rows⟩

theorem Alike.groupCount?_eq (alike : item.Alike call other) :
    item.groupCount? = other.groupCount? := by
  rw [groupCount?, groupCount?, alike.expression, alike.progress.groups]

theorem Alike.finish_eq (alike : item.Alike call other)
    (called : other.expression.call? = some call) (result : ResultSet) :
    (item.finish result).1 = (other.finish result).1 := by
  have called' : item.expression.call? = some call := by rw [alike.expression, called]
  rw [finish_of_call called, finish_of_call called', alike.expression, alike.grouping]
  exact alike.progress.finish _ result

theorem Alike.later [Hashing] (alike : item.Alike call other)
    (called : other.expression.call? = some call) (more : List Row) (result : ResultSet) :
    (item.absorbEach more).groupCount? = (other.absorbEach more).groupCount? ∧
      ((item.absorbEach more).finish result).1 = ((other.absorbEach more).finish result).1 := by
  have after := alike.absorbEach called more
  refine ⟨after.groupCount?_eq, after.finish_eq ?_ result⟩
  rw [absorbEach_of_call called]
  exact called

/-- What an item has gathered has no part in whether a row is a fault. -/
theorem Reached.absorb_fst [Hashing] (reached : item.Reached call met) (row : Row) :
    (item.absorb row).1 = (call.fault? row).elim (.ok ()) .error := by
  rw [absorb_of_call reached.called]
  exact ((reached.serves item.grouping).add (Expression.takesItsColumn reached.called) row).1

/-- After a row with a fault an item is as it was, and gives what it would give without the row
after all that may follow, unless the row is the first of its group and DISTINCT is not given. In
that case the group is added as one that nothing was gathered from. -/
theorem absorb_of_error [Hashing] (reached : item.Reached call met)
    (failed : (item.absorb row).1 = .error fault) :
    let after := (item.absorb row).2
    (¬ item.progress.Founds call item.grouping row →
      after.Alike call item ∧ ∀ more result,
        (after.absorbEach more).groupCount? = (item.absorbEach more).groupCount? ∧
          ((after.absorbEach more).finish result).1 = ((item.absorbEach more).finish result).1) ∧
    (item.progress.Founds call item.grouping row →
      ∃ grouping, item.grouping = some grouping ∧ after.progress.total = item.progress.total ∧
        after.progress.groups.groups =
          item.progress.groups.groups ++ [⟨grouping.keyOf row, .start call.function⟩] ∧
        after.groupCount? = item.groupCount?.map (· + 1)) := by
  intro after
  have called := reached.called
  have takes := Expression.takesItsColumn called
  have serves := reached.serves item.grouping
  have absorbed := absorb_of_call called row
  have refused : (item.progress.add call item.grouping row).1 = .error fault := by
    rwa [absorbed] at failed
  constructor
  · intro spared
    have alike : after.Alike call item := by
      refine ⟨?_, ?_, ?_⟩ <;> simp only [after, absorbed]
      exact Progress.alike_add_of_error takes serves refused spared
    exact ⟨alike, alike.later called⟩
  · rintro ⟨grouping, grouped, plain, new⟩
    rw [grouped] at serves refused
    obtain ⟨total, groups⟩ :=
      Progress.add_of_error_of_founds takes serves refused plain new
    have progress : after.progress = (item.progress.add call (some grouping) row).2 := by
      simp only [after, absorbed, grouped]
    have called' : after.expression.call? = some call := by
      simp only [after, absorbed]
      exact called
    refine ⟨grouping, grouped, by rw [progress, total], by rw [progress, groups], ?_⟩
    rw [groupCount?_of_call called, groupCount?_of_call called', progress, GroupTable.size, groups,
      List.length_append]
    rfl

open scoped Hashing in
/-- A text in a group that has a sum already, and one in a group that is not there yet. -/
theorem absorb_of_error_texts :
    let call : AggregateCall := ⟨.sum, "v", false, .reject⟩
    let row (k : String) (v : Value) := Row.ofFields [("k", .text k), ("v", v)]
    let fault : Fault := .type (.notNumeric .sum (.text "x"))
    let item := (((ofExpression ⟨.aggregate call, "", rfl⟩).withGrouping
      (some (.byFields ["k"]))).absorb (row "a" (.integer 1))).2
    item.Reached call ["s1:a|"] ∧
      ((item.absorb (row "a" (.text "x"))).1 = .error fault ∧
        ¬ item.progress.Founds call item.grouping (row "a" (.text "x")) ∧
        (item.absorb (row "a" (.text "x"))).2.Alike call item) ∧
      (item.absorb (row "b" (.text "x"))).1 = .error fault ∧
      (item.absorb (row "b" (.text "x"))).2.groupCount? = some 2 := by
  intro call row fault item
  have grouped : Reached call ((ofExpression ⟨.aggregate call, "", rfl⟩).withGrouping
      (some (.byFields ["k"]))) [] := (Reached.made rfl).withGrouping _
  have met : [] ++ (call.reachedId? (some (.byFields ["k"])) (row "a" (.integer 1))).toList =
      ["s1:a|"] := by decide +kernel
  have reached : item.Reached call ["s1:a|"] := met ▸ grouped.absorb (row "a" (.integer 1))
  have failed (k : String) : (item.absorb (row k (.text "x"))).1 = .error fault := by
    rw [reached.absorb_fst]
    simp only [call, row, fault]
    rfl
  have known : (Grouping.fieldsKey ["k"] (row "a" (.text "x"))).id ∈ item.progress.groups.ids := by
    decide +kernel
  have new : (Grouping.fieldsKey ["k"] (row "b" (.text "x"))).id ∉ item.progress.groups.ids := by
    decide +kernel
  have spared : ¬ item.progress.Founds call item.grouping (row "a" (.text "x")) := by
    rintro ⟨given, grouped, -, new⟩
    obtain rfl : .byFields ["k"] = given := Option.some_inj.mp grouped
    exact new known
  have count : item.groupCount? = some 1 := by decide +kernel
  refine ⟨reached, ⟨failed "a", spared, ((absorb_of_error reached (failed "a")).1 spared).1⟩,
    failed "b", ?_⟩
  obtain ⟨_, -, -, -, counted⟩ := (absorb_of_error reached (failed "b")).2 ⟨_, rfl, rfl, new⟩
  rw [counted, count]
  rfl

open scoped Hashing in
/-- A text that SUM refuses as the first row of its group: the group shows up with a NULL that it
would not have without the row. -/
theorem refused_row_founds_group :
    let item := (ofExpression ⟨.aggregate ⟨.sum, "v", false, .reject⟩, "", rfl⟩).withGrouping
      (some (.byFields ["k"]))
    let row := Row.ofFields [("k", .text "a"), ("v", .text "x")]
    let after := (item.absorb row).2
    (item.absorb row).1 = .error (.type (.notNumeric .sum (.text "x"))) ∧
      item.groupCount? = some 0 ∧ (item.finish .empty).1 = .empty ∧
      after.groupCount? = some 1 ∧
      (after.finish .empty).1 = ⟨[Row.ofFields [("k", .text "a"), ("sum_v", .null)]]⟩ := by
  intro item row after
  exact ⟨rfl, rfl, rfl, rfl, by decide +kernel⟩

end SelectItem

end RowQuery
