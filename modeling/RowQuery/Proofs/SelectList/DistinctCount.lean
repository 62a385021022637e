import Mathlib.Data.List.Dedup
import Mathlib.Data.List.Pairwise
import RowQuery.Formats.Standard
import RowQuery.Proofs.Progress.Distinct
import RowQuery.Proofs.SelectList.RowCount
import RowQuery.Proofs.SelectList.Single

/-!
# Groups of a column and distinct values of it

Grouping by a column gives a row for each distinct value of it, and one for NULL, exactly if no two
of its instants are shown alike in ids and no two of its floats are no number and have unlike hashes
(`rows_length_eq_distinct_iff`).
-/

namespace RowQuery

/-! ## Seen values -/

namespace Value

theorem idPart_eq_of_same {a b : Value} (alike : a.same b = true) : a.idPart = b.idPart :=
  (idPart_eq_iff_same a b).mpr (.inl alike)

end Value

/-- What is seen of some values: one of each that is not NULL. -/
structure Seen.Of [Hashing] (values : List Value) (seen : Seen) : Prop where
  apart : seen.values.Pairwise fun a b => a.coincides b = false
  source : ∀ value ∈ seen.values, value ∈ values ∧ value ≠ .null
  covers : ∀ value ∈ values, value ≠ .null →
    ∃ earlier ∈ seen.values, earlier.coincides value = true

namespace Seen

variable [Hashing] {values : List Value} {seen : Seen}

theorem of_nil : Seen.Of [] .empty where
  apart := .nil
  source _ member := by cases member
  covers _ member := by cases member

theorem Of.keep {value : Value} (seenOf : seen.Of values)
    (known : value ≠ .null → ∃ earlier ∈ seen.values, earlier.coincides value = true) :
    seen.Of (values ++ [value]) where
  apart := seenOf.apart
  source earlier member :=
    ⟨List.mem_append_left _ (seenOf.source earlier member).1, (seenOf.source earlier member).2⟩
  covers other member nonnull := by
    rcases List.mem_append.mp member with before | last
    · exact seenOf.covers other before nonnull
    · rw [List.mem_singleton] at last
      subst last
      exact known nonnull

theorem Of.add {value : Value} (seenOf : seen.Of values) (nonnull : value ≠ .null)
    (new : seen.contains value = false) : Seen.Of (values ++ [value]) ⟨seen.values ++ [value]⟩ where
  apart := by
    rw [List.pairwise_append]
    refine ⟨seenOf.apart, List.pairwise_singleton _ _, fun earlier before other last => ?_⟩
    rw [List.mem_singleton] at last
    subst last
    rw [contains, List.any_eq_false] at new
    exact Bool.eq_false_iff.mpr (new earlier before)
  source other member := by
    rcases List.mem_append.mp member with before | last
    · exact ⟨List.mem_append_left _ (seenOf.source other before).1, (seenOf.source other before).2⟩
    · rw [List.mem_singleton] at last
      subst last
      exact ⟨List.mem_append_right _ (List.mem_singleton.mpr rfl), nonnull⟩
  covers other member known := by
    rcases List.mem_append.mp member with before | last
    · obtain ⟨earlier, there, alike⟩ := seenOf.covers other before known
      exact ⟨earlier, List.mem_append_left _ there, alike⟩
    · rw [List.mem_singleton] at last
      subst last
      exact ⟨other, List.mem_append_right _ (List.mem_singleton.mpr rfl), other.coincides_refl⟩

/-! ## Seen values and ids -/

/-- Instants that ids tell apart. -/
def Told (values : List Value) : Prop :=
  ∀ s t, .timestamp s ∈ values → .timestamp t ∈ values → s.idNanos = t.idNanos → s = t

theorem Of.mem_timestamp (seenOf : seen.Of values) {t : Timestamp}
    (member : .timestamp t ∈ values) : .timestamp t ∈ seen.values := by
  obtain ⟨earlier, there, alike⟩ := seenOf.covers _ member (by simp)
  rwa [Value.eq_of_coincides rfl alike] at there

theorem Of.eq_of_coincides (seenOf : seen.Of values) {a b : Value} (left : a ∈ seen.values)
    (right : b ∈ seen.values) (one : a.coincides b = true) : a = b := by
  by_contra other
  have symmetric : Std.Symm fun a b : Value => a.coincides b = false :=
    ⟨fun a b apart => by rwa [Value.coincides_comm]⟩
  have apart := seenOf.apart.forall left right other
  rw [one] at apart
  cases apart

theorem Of.nodup (seenOf : seen.Of values) : seen.values.Nodup := by
  apply seenOf.apart.imp
  rintro a b apart rfl
  rw [a.coincides_refl] at apart
  cases apart

/-- Two floats that are no number and have unlike hashes are seen both. -/
theorem Of.oneNaN_iff (seenOf : seen.Of values) :
    Value.OneNaN seen.values ↔ Value.OneNaN values := by
  constructor
  · intro one a left b right differ
    have seen_of {c d : Value} (member : d ∈ values) (differ : c.NaNsDiffer d) :
        ∃ e ∈ seen.values, c.NaNsDiffer e := by
      have nonnull : d ≠ .null := by
        obtain ⟨-, y, -, rfl, -⟩ := differ
        simp
      obtain ⟨earlier, there, met⟩ := seenOf.covers d member nonnull
      exact ⟨earlier, there, differ.of_coincides met⟩
    obtain ⟨b', right', differ⟩ := seen_of right differ
    obtain ⟨a', left', differ⟩ := seen_of left differ.symm
    exact one b' right' a' left' differ
  · intro one a left b right
    exact one a (seenOf.source a left).1 b (seenOf.source b right).1

theorem Of.nodup_idPart_iff (seenOf : seen.Of values) :
    (seen.values.map Value.idPart).Nodup ↔ Told values ∧ Value.OneNaN values := by
  rw [← seenOf.oneNaN_iff]
  constructor
  · intro distinct
    have inj {a b : Value} (left : a ∈ seen.values) (right : b ∈ seen.values)
        (parts : a.idPart = b.idPart) : a = b := List.inj_on_of_nodup_map distinct left right parts
    refine ⟨fun s t left right nanos => ?_, fun a left b right differ => ?_⟩
    · have parts : (Value.timestamp s).idPart = (Value.timestamp t).idPart :=
        (Value.idPart_eq_iff_same _ _).mpr (.inr ⟨s, t, rfl, rfl, nanos⟩)
      exact Value.timestamp.inj (inj (seenOf.mem_timestamp left) (seenOf.mem_timestamp right) parts)
    · obtain rfl := inj left right (Value.idPart_eq_of_same differ.same)
      exact Value.not_naNsDiffer_self a differ
  · rintro ⟨told, one⟩
    apply List.Nodup.map_on _ seenOf.nodup
    intro a left b right parts
    rcases (Value.idPart_eq_iff_same a b).mp parts with alike | ⟨s, t, rfl, rfl, nanos⟩
    · exact seenOf.eq_of_coincides left right
        (Value.coincides_iff.mpr ⟨alike, one a left b right⟩)
    · rw [told s t (seenOf.source _ left).1 (seenOf.source _ right).1 nanos]

theorem Of.length_ids (seenOf : seen.Of values) :
    (values.map Value.idPart).eraseDups.length =
      (seen.values.map Value.idPart).dedup.length + if .null ∈ values then 1 else 0 := by
  let nulls := if .null ∈ values then [Value.null.idPart] else []
  have nulls_mem (id : String) : id ∈ nulls ↔ .null ∈ values ∧ id = Value.null.idPart := by
    by_cases null : .null ∈ values <;> simp [nulls, null]
  have distinct : ((seen.values.map Value.idPart).dedup ++ nulls).Nodup := by
    apply List.Nodup.append (List.nodup_dedup _)
    · by_cases null : .null ∈ values <;> simp [nulls, null]
    · intro id known null
      obtain ⟨value, member, rfl⟩ := List.mem_map.mp (List.mem_dedup.mp known)
      rcases (Value.idPart_eq_iff_same value .null).mp ((nulls_mem _).mp null).2 with
        alike | ⟨s, t, -, never, -⟩
      · exact (seenOf.source value member).2 (Value.eq_of_same rfl alike)
      · cases never
  have members (id : String) : id ∈ (values.map Value.idPart).eraseDups ↔
      id ∈ (seen.values.map Value.idPart).dedup ++ nulls := by
    rw [List.mem_eraseDups, List.mem_append, List.mem_dedup, nulls_mem, List.mem_map, List.mem_map]
    constructor
    · rintro ⟨value, member, rfl⟩
      by_cases null : value = .null
      · exact .inr ⟨null ▸ member, by rw [null]⟩
      · obtain ⟨earlier, there, met⟩ := seenOf.covers value member null
        exact .inl ⟨earlier, there, Value.idPart_eq_of_same (Value.same_of_coincides met)⟩
    · rintro (⟨value, member, rfl⟩ | ⟨null, rfl⟩)
      · exact ⟨value, (seenOf.source value member).1, rfl⟩
      · exact ⟨.null, null, rfl⟩
  rw [((List.perm_ext_iff_of_nodup (nodup_eraseDups _) distinct).mpr members).length_eq,
    List.length_append]
  congr 1
  by_cases null : .null ∈ values <;> simp [nulls, null]

theorem Of.length_ids_le (seenOf : seen.Of values) :
    (values.map Value.idPart).eraseDups.length ≤ seen.size + if .null ∈ values then 1 else 0 := by
  rw [seenOf.length_ids]
  have fewer := (List.dedup_sublist (seen.values.map Value.idPart)).length_le
  rw [List.length_map] at fewer
  exact Nat.add_le_add_right fewer _

theorem Of.length_ids_eq_iff (seenOf : seen.Of values) :
    (values.map Value.idPart).eraseDups.length =
      seen.size + (if .null ∈ values then 1 else 0) ↔ Told values ∧ Value.OneNaN values := by
  rw [seenOf.length_ids, Nat.add_right_cancel_iff, ← seenOf.nodup_idPart_iff, ← List.dedup_eq_self]
  constructor
  · intro full
    apply (List.dedup_sublist _).eq_of_length
    rw [full, List.length_map]
    rfl
  · intro full
    rw [full, List.length_map]
    rfl

end Seen

/-! ## The two runs -/

namespace Progress

variable {call : AggregateCall} {rows : List Row} {p : Progress}

theorem addAll_star [Hashing] (star : call.isStar = true) (grouping : Option Grouping)
    (rows : List Row) (p : Progress) : (addAll call grouping rows p).1 = .ok () := by
  induction rows generalizing p with
  | nil => rfl
  | cons row rows ih =>
      have added : (p.add call grouping row).1 = .ok () := by
        rw [add, if_pos star]
        cases grouping with
        | none => rfl
        | some grouping => rw [update_some, GroupTable.update_fst]
      rw [addAll]
      split
      · rename_i failed
        rw [failed] at added
        cases added
      · exact ih _

/-- COUNT(DISTINCT …) of a column. -/
structure CountsDistinct (call : AggregateCall) (column : String) : Prop where
  function : call.function = .count
  distinct : call.distinct = true
  field : Name.normalize call.column = column
  plain : call.isStar = false

/-- What such a call over all rows has gathered from some of them. -/
def Counted [Hashing] (column : String) (rows : List Row) (p : Progress) : Prop :=
  ∃ seen : Seen, p.total.getD (.start .count) = ⟨.count seen.size, seen⟩ ∧
    seen.Of (rows.map fun row => Grouping.valueAt row column)

section
variable {column : String}

theorem CountsDistinct.tracks (counts : CountsDistinct call column) :
    call.tracksDistinct = true := by
  rw [AggregateCall.tracksDistinct, counts.distinct, counts.function]
  rfl

theorem Counted.add [Hashing] (counts : CountsDistinct call column)
    (counted : Counted column rows p) (row : Row) :
    ∃ q, p.add call none row = (.ok (), q) ∧ Counted column (rows ++ [row]) q := by
  obtain ⟨seen, scope, seenOf⟩ := counted
  rw [Progress.add, if_neg (by rw [counts.plain]; decide), operand?_eq_valueAt, counts.field]
  by_cases null : Grouping.valueAt row column = .null
  · refine ⟨p, by rw [if_pos null], seen, scope, ?_⟩
    rw [List.map_append]
    exact seenOf.keep fun nonnull => (nonnull null).elim
  · have allowed : refusal? call (Grouping.valueAt row column) = none := by
      simp [refusal?, counts.function, AggregateFunction.isNumeric]
    simp only [if_neg null, allowed, update_none, counts.function, scope]
    cases known : seen.contains (Grouping.valueAt row column) with
    | true =>
        rw [Scope.add_of_seen counts.tracks known]
        refine ⟨_, rfl, seen, rfl, ?_⟩
        rw [List.map_append]
        exact seenOf.keep fun _ => List.any_eq_true.mp known
    | false =>
        rw [Scope.add_of_new counts.tracks null known, Scope.pass_of_ok rfl]
        refine ⟨_, rfl, ⟨seen.values ++ [Grouping.valueAt row column]⟩, ?_, ?_⟩
        · simp [Seen.size]
        · rw [List.map_append]
          exact seenOf.add null known

theorem Counted.addAll [Hashing] (counts : CountsDistinct call column)
    (counted : Counted column rows p) (more : List Row) :
    ∃ q, p.addAll call none more = (.ok (), q) ∧ Counted column (rows ++ more) q := by
  induction more generalizing rows p with
  | nil => exact ⟨p, rfl, by rwa [List.append_nil]⟩
  | cons row more ih =>
      obtain ⟨q, added, counted⟩ := counted.add counts row
      obtain ⟨last, ran, counted⟩ := ih counted
      refine ⟨last, ?_, by rwa [List.append_cons]⟩
      simp only [Progress.addAll, added, ran]

end

end Progress

/-! ## One column -/

/-- The name of a column that stands for itself: no star, and no blanks in it. -/
structure PlainColumn (column : String) : Prop where
  some_name : column ≠ ""
  no_star : column ≠ "*"
  unbroken : column.toList.any Text.isBlank = false

namespace PlainColumn

variable {column : String}

theorem not_blank (plain : PlainColumn column) : ∀ c ∈ column.toList, Text.isBlank c = false := by
  simpa using plain.unbroken

theorem normalize (plain : PlainColumn column) : Name.normalize column = column := by
  have kept : ∀ c ∈ column.toList, (if Text.isBlank c then '_' else c) = id c := by
    intro c member
    rw [plain.not_blank c member]
    rfl
  rw [Name.normalize, List.map_congr_left kept, List.map_id, String.ofList_toList]

theorem trim (plain : PlainColumn column) : Text.trim column = column := by
  have kept {chars : List Char} (unbroken : ∀ c ∈ chars, Text.isBlank c = false) :
      chars.dropWhile Text.isBlank = chars := by
    cases chars with
    | nil => rfl
    | cons c chars => simp [unbroken c List.mem_cons_self]
  rw [Text.trim, Text.trimChars, kept plain.not_blank, kept (by simpa using plain.not_blank),
    List.reverse_reverse, String.ofList_toList]

theorem ofColumns (plain : PlainColumn column) :
    Grouping.ofColumns [column] = .byFields [column] := by
  simp [Grouping.ofColumns, plain.trim, plain.normalize, plain.some_name]

end PlainColumn

namespace SelectList

variable {column : String} {rows : List Row}

/-- The instants in a column. -/
def instants (column : String) (rows : List Row) : List Timestamp :=
  rows.filterMap fun row => (row.get? column).bind Value.timestamp?

theorem told_iff_instants :
    Seen.Told (rows.map fun row => Grouping.valueAt row column) ↔
      ∀ s ∈ instants column rows, ∀ t ∈ instants column rows, s.idNanos = t.idNanos → s = t := by
  have mem (t : Timestamp) : .timestamp t ∈ rows.map (fun row => Grouping.valueAt row column) ↔
      t ∈ instants column rows := by
    simp only [instants, List.mem_map, List.mem_filterMap]
    refine exists_congr fun row => and_congr_right fun _ => ?_
    rw [Grouping.valueAt]
    cases row.get? column with
    | none => simp
    | some value => cases value <;> simp [Value.timestamp?]
  simp only [Seen.Told, mem]
  constructor
  · intro told s left t right
    exact told s t left right
  · intro told s t left right
    exact told s left t right

theorem exists_null_iff : .null ∈ rows.map (fun row => Grouping.valueAt row column) ↔
    ∃ row ∈ rows, (row.get? column).getD .null = .null := by
  simp [Grouping.valueAt]

/-- Grouped by a column, COUNT(*) gives a row for each encoded value. -/
theorem execute_star_byFields [Formats] [Hashing] {star : Expression} {call : AggregateCall}
    (called : star.call? = some call) (starred : call.isStar = true) (column : String)
    (rows : List Row) : ∃ result : ResultSet,
      (((ofExpressions [star]).withGrouping (some (.byFields [column]))).execute rows).1 =
        .ok result ∧
      result.rows.length =
        ((rows.map fun row => Grouping.valueAt row column).map Value.idPart).eraseDups.length := by
  have aggregate := hasAggregates_single called
  have calls := calls_single called
  have passed : ∀ call ∈ (ofExpressions [star]).calls,
      (Progress.start.addAll call.1 (some (.byFields [column])) rows).1 = .ok () := by
    rw [calls, List.forall_mem_singleton]
    exact Progress.addAll_star starred _ rows _
  have succeeded := (execute_eq_ok_iff aggregate (some (.byFields [column]))).mpr
    ⟨(absorbAll_eq_ok_iff _).mpr passed, rfl⟩
  have shown := forall₂_showsGroup_single called succeeded
  have heeded : rows.filter call.heeds = rows := by
    simp [AggregateCall.heeds, starred]
  have ids : rows.map (fun row => ((Grouping.byFields [column]).keyOf row).id) =
      (rows.map fun row => Grouping.valueAt row column).map Value.idPart := by
    rw [List.map_map]
    apply List.map_congr_left
    intro row _
    simp [Grouping.keyOf, Grouping.fieldsKey, Grouping.valueAt]
  refine ⟨_, succeeded, ?_⟩
  rw [← shown.length_eq, heeded, ids]

/-- COUNT(DISTINCT …) over all rows gives the number of seen values. -/
theorem execute_distinct [Formats] [Hashing] {distinct : Expression} {call : AggregateCall}
    (called : distinct.call? = some call) (counts : Progress.CountsDistinct call column)
    (rows : List Row) : ∃ (alone : Row) (seen : Seen),
      ((ofExpressions [distinct]).execute rows).1 = .ok ⟨[alone]⟩ ∧
      alone.fields = [(distinct.output, .integer (Int64.ofNat seen.size))] ∧
      seen.Of (rows.map fun row => Grouping.valueAt row column) := by
  have started : Progress.Counted column [] .start := ⟨.empty, rfl, Seen.of_nil⟩
  obtain ⟨last, ran, seen, scope, seenOf⟩ := started.addAll counts rows
  have gives := Expression.gives_of_ran called ran
  rw [counts.function, Progress.accumulated, scope] at gives
  exact ⟨_, seen, gives, rfl, seenOf⟩

end SelectList

end RowQuery
