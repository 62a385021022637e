import Mathlib.Data.List.Perm.Basic
import RowQuery.Formats.Standard
import RowQuery.Proofs.SelectList.Single
import RowQuery.Proofs.Value.Order

/-!
# MAX and MIN in any order

MAX and MIN give a value of the column that no value of it lies beyond (`addAll_extremum`). All
orders of some numbers give the same exactly if an integer and a float that nothing lies beyond are
the same (`gives_extremum_iff`); the two are level, but rounding may be what makes them so.
-/

namespace RowQuery

/-- The side that an extremum lies to. -/
def AggregateFunction.side? : AggregateFunction → Option Ordering
  | .max => some .gt
  | .min => some .lt
  | _ => none

/-- One of some values that none of them lies further to a side than. -/
structure Value.Extreme (side : Ordering) (values : List Value) (value : Value) : Prop where
  member : value ∈ values
  furthest : ∀ other ∈ values, other.compare? value ≠ some side

namespace Value.Extreme

variable {side : Ordering} {values values' : List Value} {a b : Value}

theorem of_perm (extreme : Extreme side values a) (perm : values.Perm values') :
    Extreme side values' a where
  member := perm.mem_iff.mp extreme.member
  furthest other member := extreme.furthest other (perm.mem_iff.mpr member)

theorem singleton (strict : side ≠ .eq) (a : Value) : Extreme side [a] a where
  member := List.mem_singleton.mpr rfl
  furthest _ member := List.mem_singleton.mp member ▸ compare?_self_ne strict a

theorem further (strict : side ≠ .eq) (extreme : Extreme side values a) (value : Value) :
    Extreme side (values ++ [value]) (Accumulator.further side (some a) value) := by
  -- Being level is not transitive, but what lies beyond the new value lies beyond the old one.
  rw [Accumulator.further]
  split
  case isTrue beyond =>
    refine ⟨List.mem_append_right _ (List.mem_singleton.mpr rfl), fun other member => ?_⟩
    rcases List.mem_append.mp member with before | last
    · intro further
      exact extreme.furthest other before (compare?_trans strict further beyond)
    · exact List.mem_singleton.mp last ▸ compare?_self_ne strict value
  case isFalse within =>
    refine ⟨List.mem_append_left _ extreme.member, fun other member => ?_⟩
    rcases List.mem_append.mp member with before | last
    · exact extreme.furthest other before
    · exact List.mem_singleton.mp last ▸ within

theorem same_of_kind (strict : side ≠ .eq) (left : Extreme side values a)
    (right : Extreme side values b) (kind : a.kind = b.kind) : a.same b = true := by
  rw [← compare?_eq_eq_iff kind]
  have first := right.furthest a left.member
  have second := left.furthest b right.member
  obtain ⟨order, compared⟩ := exists_compare? kind
  rw [compare?_swap, compared, Option.map_some] at second
  rw [compared] at first ⊢
  cases side <;> cases order <;> simp_all

end Value.Extreme

/-! ## MAX and MIN -/

/-- What MAX and MIN have of some values. -/
inductive Value.Extremum (side : Ordering) (values : List Value) : Option Value → Prop
  | nothing (empty : values = []) : Extremum side values none
  | reached {value : Value} (extreme : Value.Extreme side values value) :
      Extremum side values (some value)

open Value (Extreme Extremum)

variable {side : Ordering} {values values' : List Value} {best : Option Value}

theorem Value.Extremum.add (strict : side ≠ .eq) (extremum : Extremum side values best)
    (value : Value) :
    Extremum side (values ++ [value]) (some (Accumulator.further side best value)) := by
  cases extremum with
  | nothing empty =>
      subst empty
      exact .reached (.singleton strict value)
  | reached extreme => exact .reached (extreme.further strict value)

theorem Value.Extremum.of_perm (extremum : Extremum side values best)
    (perm : values.Perm values') : Extremum side values' best := by
  cases extremum with
  | nothing empty => exact .nothing (List.nil_perm.mp (empty ▸ perm))
  | reached extreme => exact .reached (extreme.of_perm perm)

theorem Value.Extremum.same {best' : Option Value} (strict : side ≠ .eq)
    (numeric : ∀ value ∈ values, value.kind.isNumeric = true)
    (level : ∀ n x, Extreme side values (.integer n) → Extreme side values (.float x) →
      Value.same (.integer n) (.float x) = true)
    (extremum : Extremum side values best) (extremum' : Extremum side values best') :
    (best.getD .null).same (best'.getD .null) = true := by
  cases extremum with
  | nothing empty =>
      subst empty
      cases extremum' with
      | nothing => rfl
      | reached extreme => cases extreme.member
  | @reached a extreme => cases extremum' with
    | nothing empty => exact absurd (empty ▸ extreme.member) List.not_mem_nil
    | @reached b extreme' =>
        rw [Option.getD_some, Option.getD_some]
        have number := numeric a extreme.member
        have number' := numeric b extreme'.member
        by_cases kind : a.kind = b.kind
        · exact extreme.same_of_kind strict extreme' kind
        · cases a <;> cases number <;> cases b <;> cases number' <;> try exact (kind rfl).elim
          · exact level _ _ extreme extreme'
          · rw [Value.same_comm]
            exact level _ _ extreme' extreme

theorem AggregateFunction.start_of_side? {function : AggregateFunction}
    (looks : function.side? = some side) :
    Accumulator.start function = .extremum side none ∧ side ≠ .eq := by
  cases function <;> cases looks <;> exact ⟨rfl, by decide⟩

theorem AggregateFunction.takesStar_of_side? {function : AggregateFunction}
    (looks : function.side? = some side) : function.takesStar = false := by
  cases function <;> cases looks <;> rfl

theorem AggregateCall.tracksDistinct_of_side? {call : AggregateCall}
    (looks : call.function.side? = some side) : call.tracksDistinct = false := by
  rw [tracksDistinct]
  cases function : call.function <;> rw [function] at looks <;> cases looks <;>
    exact Bool.and_false _

namespace Accumulator

variable {rule : OperandRule} {more : List Value}

theorem addAll_extremum (strict : side ≠ .eq) (extremum : Extremum side values best) :
    ∃ after, Extremum side (values ++ more) after ∧
      (Accumulator.extremum side best).addAll rule more = .ok (.extremum side after) := by
  induction more generalizing values best with
  | nil => exact ⟨best, by rwa [List.append_nil], rfl⟩
  | cons value more ih =>
      obtain ⟨after, reached, ran⟩ := ih (extremum.add strict value)
      exact ⟨after, by rwa [List.append_cons], ran⟩

/-- Nothing takes the place of a value that nothing lies beyond. -/
theorem addAll_extremum_of_furthest {value : Value}
    (furthest : ∀ other ∈ more, other.compare? value ≠ some side) :
    (Accumulator.extremum side (some value)).addAll rule more =
      .ok (.extremum side (some value)) := by
  induction more with
  | nil => rfl
  | cons other more ih =>
      obtain ⟨here, later⟩ := List.forall_mem_cons.mp furthest
      have kept : further side (some value) other = value := if_neg here
      rw [addAll, add, kept]
      exact ih later

end Accumulator

namespace Expression

variable {e : Expression} {function : AggregateFunction} {column : String} {distinct : Bool}
  {rule : OperandRule} {rows : List Row} {value : Value}

theorem gives_extremum_of_addAll [Formats] [Hashing] (looks : function.side? = some side)
    (term : e.term = .aggregate (.of function column distinct rule))
    (numeric : ∀ value ∈ values, value.kind.isNumeric = true)
    (held : Row.Hold (Name.normalize column) values rows)
    (ran : (Accumulator.start function).addAll
      (AggregateCall.of function column distinct rule).operands values =
        .ok (.extremum side best)) : e.Gives rows (best.getD .null) := by
  have nonnull : ∀ value ∈ values, value ≠ .null := by
    rintro value member rfl
    cases numeric _ member
  have columns := AggregateFunction.takesStar_of_side? looks
  have plain : (AggregateCall.of function column distinct rule).tracksDistinct = false :=
    AggregateCall.tracksDistinct_of_side? looks
  exact gives_of_addAll term columns plain held nonnull ran

theorem gives_extremum [Formats] [Hashing] (looks : function.side? = some side)
    (term : e.term = .aggregate (.of function column distinct rule))
    (numeric : ∀ value ∈ values, value.kind.isNumeric = true)
    (held : Row.Hold (Name.normalize column) values rows) :
    ∃ best, Extremum side values best ∧ e.Gives rows (best.getD .null) := by
  obtain ⟨starts, strict⟩ := AggregateFunction.start_of_side? looks
  obtain ⟨best, reached, ran⟩ := Accumulator.addAll_extremum strict (.nothing rfl)
  exact ⟨best, reached, gives_extremum_of_addAll looks term numeric held (starts ▸ ran)⟩

/-- Some order of the values has each of those that nothing lies beyond as its result. -/
theorem gives_extreme_of_first [Formats] [Hashing] (looks : function.side? = some side)
    (term : e.term = .aggregate (.of function column distinct rule))
    (numeric : ∀ value ∈ values, value.kind.isNumeric = true)
    (extreme : Extreme side values value)
    (held : Row.Hold (Name.normalize column) (value :: values.erase value) rows) :
    e.Gives rows value := by
  obtain ⟨starts, strict⟩ := AggregateFunction.start_of_side? looks
  have order := List.perm_cons_erase extreme.member
  have furthest : ∀ other ∈ values.erase value, other.compare? value ≠ some side :=
    fun other member => extreme.furthest other (List.mem_of_mem_erase member)
  have numeric' : ∀ other ∈ value :: values.erase value, other.kind.isNumeric = true :=
    fun other member => numeric other (order.mem_iff.mpr member)
  have ran : (Accumulator.start function).addAll
      (AggregateCall.of function column distinct rule).operands (value :: values.erase value) =
        .ok (.extremum side (some value)) := by
    rw [starts]
    exact Accumulator.addAll_extremum_of_furthest furthest
  exact gives_extremum_of_addAll looks term numeric' held ran

/-- Each order of some numbers has a number that nothing lies beyond as its result, and all orders
have the same exactly if no integer and float that nothing lies beyond differ. -/
theorem gives_extremum_iff [Formats] [Hashing] (looks : function.side? = some side)
    (term : e.term = .aggregate (.of function column distinct rule))
    (numeric : ∀ value ∈ values, value.kind.isNumeric = true)
    (held : Row.Hold (Name.normalize column) values rows) :
    (∃ best, Extremum side values best ∧ e.Gives rows (best.getD .null)) ∧
      ((∀ values' rows', values.Perm values' → Row.Hold (Name.normalize column) values' rows' →
          ∃ value value', e.Gives rows value ∧ e.Gives rows' value' ∧ value.same value' = true) ↔
        ∀ n x, Extreme side values (.integer n) → Extreme side values (.float x) →
          Value.same (.integer n) (.float x) = true) := by
  obtain ⟨-, strict⟩ := AggregateFunction.start_of_side? looks
  refine ⟨gives_extremum looks term numeric held, ?_, ?_⟩
  · intro orders n x integer float
    have first (value : Value) (extreme : Extreme side values value) :
        ∃ given, e.Gives rows given ∧ given.same value = true := by
      obtain ⟨given, given', gives, gives', same⟩ := orders _ _
        (List.perm_cons_erase extreme.member) (Row.hold_map_ofFields _ _)
      have reached := gives_extreme_of_first looks term numeric extreme (Row.hold_map_ofFields _ _)
      exact ⟨given, gives, gives'.unique reached ▸ same⟩
    obtain ⟨given, gives, same⟩ := first _ integer
    obtain ⟨given', gives', same'⟩ := first _ float
    cases gives.unique gives'
    rw [Value.same_comm] at same
    exact Value.same_trans same same'
  · intro level values' rows' perm held'
    have numeric' : ∀ value ∈ values', value.kind.isNumeric = true :=
      fun value member => numeric value (perm.mem_iff.mpr member)
    obtain ⟨best, extremum, gives⟩ := gives_extremum looks term numeric held
    obtain ⟨best', extremum', gives'⟩ := gives_extremum looks term numeric' held'
    exact ⟨_, _, gives, gives', extremum.same strict numeric level (extremum'.of_perm perm.symm)⟩

open scoped Formats Hashing in
/-- The greatest integer and the greatest float are one number. -/
theorem gives_extremum_iff_mixed :
    let e : Expression := ⟨.aggregate (.of .max "v" false .reject), "", rfl⟩
    let values : List Value := [.integer 3, .float 2.5, .float 3, .integer (-1)]
    let rows := values.map fun value => Row.ofFields [("v", value)]
    (∃ best, Extremum .gt values best ∧ e.Gives rows (best.getD .null)) ∧
      ∀ values' rows', values.Perm values' → Row.Hold (Name.normalize "v") values' rows' →
        ∃ value value', e.Gives rows value ∧ e.Gives rows' value' ∧ value.same value' = true := by
  intro e values rows
  have name : Name.normalize "v" = "v" := by decide +kernel
  have numeric : ∀ value ∈ values, value.kind.isNumeric = true := by decide
  have held : Row.Hold (Name.normalize "v") values rows := by
    rw [name]
    exact Row.hold_map_ofFields "v" values
  have looks : AggregateFunction.max.side? = some .gt := rfl
  have term : e.term = .aggregate (.of .max "v" false .reject) := rfl
  obtain ⟨extremum, orders⟩ := gives_extremum_iff looks term numeric held
  refine ⟨extremum, orders.mpr fun n x integer float => ?_⟩
  have greatest : n = 3 := by
    have member : n = 3 ∨ n = -1 := by simpa [values] using integer.member
    refine member.resolve_right ?_
    rintro rfl
    exact integer.furthest (.integer 3) (by decide) (by decide +kernel)
  have greatest' : x = 3 := by
    have member : x = 2.5 ∨ x = 3 := by simpa [values] using float.member
    refine member.resolve_left ?_
    rintro rfl
    exact float.furthest (.integer 3) (by decide) (by decide +kernel)
  subst greatest greatest'
  decide +kernel

open scoped Formats Hashing in
/-- As a float `2 ^ 53 + 1` is level with `2 ^ 53`, so the first of the two stays. -/
theorem max_keeps_first :
    let e : Expression := ⟨.aggregate (.of .max "v" false .reject), "", rfl⟩
    let rows (values : List Value) := values.map fun value => Row.ofFields [("v", value)]
    let integer : Value := .integer 9007199254740993
    let float : Value := .float 9007199254740992
    List.Perm [integer, float] [float, integer] ∧ e.Gives (rows [integer, float]) integer ∧
      e.Gives (rows [float, integer]) float ∧ integer.same float = false := by
  intro e rows integer float
  exact ⟨.swap float integer [], gives_of_toOption (by decide +kernel),
    gives_of_toOption (by decide +kernel), by decide +kernel⟩

end Expression

end RowQuery
