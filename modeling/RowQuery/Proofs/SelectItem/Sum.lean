import RowQuery.Proofs.SelectItem.Result
import RowQuery.Proofs.SelectList.Sum

/-!
# When SUM is exact

SUM gives an integer exactly if something contributes to it, all that contributes is an integer, and
no sum of the first ones leaves 64 bits; the integer is then the sum. It is NULL if nothing
contributes, and a float in all other cases (`resultFor_sum`).
-/

namespace RowQuery

open Grouping (alongside)
open Integer64 (Fits KeepsRange total)

/-! ## Contributions -/

/-- The quantities that values contribute to a call; one that is refused or left out has none. -/
def AggregateCall.contributions (call : AggregateCall) (values : List Value) : List Quantity :=
  values.filterMap fun value => (value.contribution call.function call.operands).toOption.join

/-- The values that count as an integer: integers, and where operands are coerced booleans and
numerals. -/
inductive Value.CountsAs (rule : OperandRule) (n : Int64) : Value → Prop
  | integer : CountsAs rule n (.integer n)
  | boolean {b : Bool} (coerce : rule = .coerce) (bit : n = if b then 1 else 0) :
      CountsAs rule n (.boolean b)
  | text {s : String} (coerce : rule = .coerce)
      (numeral : Numeral.int64? (Text.trimChars s.toList) = some n) : CountsAs rule n (.text s)

theorem Value.contribution_eq_integer_iff {rule : OperandRule} {value : Value} {n : Int64} :
    value.contribution .sum rule = .ok (some (.integer n)) ↔ value.CountsAs rule n := by
  constructor
  · intro contributed
    cases value with
    | integer m =>
        cases contributed
        exact .integer
    | boolean b =>
        cases rule <;> cases contributed
        exact .boolean rfl rfl
    | text s =>
        cases rule with
        | reject => cases contributed
        | coerce =>
            refine .text rfl ?_
            simp only [contribution, quantity?, coerced?, Except.ok.injEq] at contributed
            cases numeral : Numeral.int64? (Text.trimChars s.toList) with
            | some m => simpa [numeral] using contributed
            | none => simp [numeral] at contributed
    | null | timestamp t => cases rule <;> cases contributed
    | float x => cases contributed
  · intro counts
    cases counts with
    | integer => rfl
    | boolean coerce bit => rw [coerce, bit]; rfl
    | text coerce numeral =>
        rw [coerce]
        simp [contribution, quantity?, coerced?, numeral]

/-! ## Sums of quantities -/

namespace Quantity

/-- A sum with one more quantity. -/
def more (sum : Option Quantity) (quantity : Quantity) : Option Quantity :=
  some (sum.elim quantity fun sum => sum.add quantity)

/-- What SUM has of some quantities: nothing, the sum of integers that stay within 64 bits, or else
a float. -/
inductive Totals (quantities : List Quantity) : Option Quantity → Prop
  | nothing (empty : quantities = []) : Totals quantities none
  | exact {ns : List Int64} {sum : Int64} (nonempty : quantities ≠ [])
      (integers : quantities = ns.map .integer) (keeps : KeepsRange ns)
      (sums : sum.toInt = total ns) : Totals quantities (some (.integer sum))
  | inexact {x : FloatBits} (nonempty : quantities ≠ [])
      (leaves : ∀ ns : List Int64, quantities = ns.map .integer → ¬ KeepsRange ns) :
      Totals quantities (some (.float x))

variable {quantities : List Quantity} {sum : Option Quantity}

theorem integers_inj {ns ns' : List Int64}
    (same : ns.map Quantity.integer = ns'.map Quantity.integer) : ns = ns' :=
  (List.map_inj_right fun _ _ => Quantity.integer.inj).mp same

theorem Sums.totals {ns : List Int64} (sums : Sums ns sum) : Totals (ns.map .integer) sum := by
  cases sums with
  | nothing empty => exact .nothing (by rw [empty, List.map_nil])
  | exact nonempty keeps sums => exact .exact (by simpa using nonempty) rfl keeps sums
  | @promoted first later n split keeps leaves =>
      refine .inexact (by simp [split]) fun ns' same keeps' => leaves ?_
      have within : first ++ [n] <+: ns' :=
        ⟨later, by rw [← integers_inj same, split, List.append_assoc, List.singleton_append]⟩
      have fits := keeps' _ within
      rwa [Integer64.total_append, Integer64.total_singleton] at fits

/-- An integer more does not bring a sum back that has left 64 bits, nor does any other quantity. -/
theorem leaves_append (quantity : Quantity)
    (leaves : ∀ ns : List Int64, quantities = ns.map .integer → ¬ KeepsRange ns)
    (ns : List Int64) (same : quantities ++ [quantity] = ns.map .integer) : ¬ KeepsRange ns := by
  intro keeps
  obtain ⟨first, last, rfl, here, -⟩ := List.map_eq_append_iff.mp same.symm
  exact leaves first here.symm fun within before =>
    keeps within (before.trans (List.prefix_append first last))

theorem Totals.more (totals : Totals quantities sum) (quantity : Quantity) :
    Totals (quantities ++ [quantity]) (more sum quantity) := by
  have nonempty : quantities ++ [quantity] ≠ [] := by simp
  cases totals with
  | nothing empty =>
      subst empty
      cases quantity with
      | integer n => exact ((Sums.nothing rfl).add n).totals
      | float x => exact .inexact nonempty fun ns same => by cases ns <;> cases same
  | @exact ns sum some_quantity integers keeps sums =>
      cases quantity with
      | integer n =>
          have some_integer : ns ≠ [] := fun none => some_quantity (by rw [integers, none]; rfl)
          have added := ((Sums.exact some_integer keeps sums).add n).totals
          rwa [List.map_append, ← integers] at added
      | float x =>
          refine .inexact nonempty fun ns' same _ => ?_
          have number : Quantity.float x ∈ ns'.map Quantity.integer := by simp [← same]
          obtain ⟨_, -, never⟩ := List.mem_map.mp number
          cases never
  | inexact _ leaves => exact .inexact nonempty (leaves_append quantity leaves)

theorem totals_foldl_more (quantities : List Quantity) :
    Totals quantities (quantities.foldl more none) := by
  have run (earlier later : List Quantity) (sum : Option Quantity) (totals : Totals earlier sum) :
      Totals (earlier ++ later) (later.foldl more sum) := by
    induction later generalizing earlier sum with
    | nil => rwa [List.append_nil]
    | cons quantity later ih =>
        rw [List.append_cons]
        exact ih _ _ (totals.more quantity)
  exact run [] quantities none (.nothing rfl)

/-- What a result of SUM says of the quantities that went into it. -/
structure Summed (quantities : List Quantity) (value : Value) : Prop where
  integer : ∀ n, value = .integer n ↔ quantities ≠ [] ∧ ∃ ns : List Int64,
    quantities = ns.map .integer ∧ KeepsRange ns ∧ n.toInt = total ns
  null : value = .null ↔ quantities = []
  float : (∃ x, value = .float x) ↔ quantities ≠ [] ∧ ¬ ∃ ns : List Int64,
    quantities = ns.map .integer ∧ KeepsRange ns

theorem Totals.summed (totals : Totals quantities sum) :
    Summed quantities (Accumulator.total sum).result := by
  cases totals with
  | nothing empty => constructor <;> simp [Accumulator.result, empty]
  | @exact ns sum nonempty integers keeps sums =>
      constructor
      case integer =>
        intro n
        constructor
        · intro same
          cases same
          exact ⟨nonempty, ns, integers, keeps, sums⟩
        · rintro ⟨-, ns', integers', -, sums'⟩
          rw [← integers_inj (integers.symm.trans integers')] at sums'
          rw [Int64.toInt_inj.mp (sums'.trans sums.symm)]
          rfl
      case null => simp [Accumulator.result, toValue, nonempty]
      case float =>
        constructor
        · rintro ⟨x, never⟩
          cases never
        · rintro ⟨-, never⟩
          exact absurd ⟨ns, integers, keeps⟩ never
  | @inexact x nonempty leaves =>
      have none_keeps : ¬ ∃ ns : List Int64, quantities = ns.map .integer ∧ KeepsRange ns :=
        fun ⟨ns, integers, keeps⟩ => leaves ns integers keeps
      constructor
      case integer =>
        intro n
        constructor
        · intro never
          cases never
        · rintro ⟨-, ns, integers, keeps, -⟩
          exact absurd ⟨ns, integers, keeps⟩ none_keeps
      case null => simp [Accumulator.result, toValue, nonempty]
      case float => exact iff_of_true ⟨x, rfl⟩ ⟨nonempty, none_keeps⟩

end Quantity

/-! ## SUM -/

namespace Accumulator

/-- An accumulator that heeds contributions only depends on what its values contribute. -/
theorem foldl_take_contributions {call : AggregateCall} {σ : Type} {state : σ → Accumulator}
    {more : σ → Quantity → σ}
    (takes : ∀ s value, (state s).take call.operands value =
      state ((value.contribution call.function call.operands).toOption.join.elim s (more s)))
    (values : List Value) (s : σ) :
    values.foldl (take call.operands) (state s) =
      state ((call.contributions values).foldl more s) := by
  induction values generalizing s with
  | nil => rfl
  | cons value values ih =>
      rw [List.foldl_cons, takes, ih]
      unfold AggregateCall.contributions
      rw [List.filterMap_cons]
      cases (value.contribution call.function call.operands).toOption.join <;> rfl

theorem take_total (rule : OperandRule) (sum : Option Quantity) (value : Value) :
    (Accumulator.total sum).take rule value =
      .total ((value.contribution .sum rule).toOption.join.elim sum (Quantity.more sum)) := by
  rw [take, add]
  rcases value.contribution .sum rule with fault | _ | quantity <;> rfl

theorem foldl_take_total {call : AggregateCall} (sums : call.function = .sum)
    (values : List Value) (sum : Option Quantity) :
    values.foldl (take call.operands) (.total sum) =
      .total ((call.contributions values).foldl Quantity.more sum) := by
  refine foldl_take_contributions (fun sum value => ?_) values sum
  rw [take_total, sums]

end Accumulator

namespace SelectItem

variable {call : AggregateCall} {item : SelectItem}

/-- What SUM gives for the scope of a row says when it is exact, and which values count as integers
for that. -/
theorem resultFor_sum [Hashing] (called : item.expression.call? = some call)
    (sums : call.function = .sum) (rows : List Row) (row : Row) :
    let run := item.start.absorbEach rows
    let values := call.passedOn (call.values (alongside item.grouping row rows))
    run.Writes row (run.resultFor call row) ∧
      Quantity.Summed (call.contributions values) (run.resultFor call row) ∧
      ∀ (value : Value) (n : Int64),
        value.contribution call.function call.operands = .ok (some (.integer n)) ↔
          value.CountsAs call.operands n := by
  intro run values
  have unstarred : call.isStar = false :=
    Expression.unstarred_of_call? called (by rw [sums]; rfl)
  refine ⟨writes_absorbEach called rows row, ?_, fun value n => ?_⟩
  · have start : Accumulator.start call.function = .total none := by rw [sums]; rfl
    rw [resultFor_absorbEach called unstarred, start, Accumulator.foldl_take_total sums]
    exact (Quantity.totals_foldl_more _).summed
  · rw [sums]
    exact Value.contribution_eq_integer_iff

open scoped Hashing in
/-- A boolean takes the sum back to the greatest integer; in the other group it leaves 64 bits. -/
theorem resultFor_sum_greatest :
    let call : AggregateCall := ⟨.sum, "v", true, .coerce⟩
    let row (k : String) (v : Value) := Row.ofFields [("k", .text k), ("v", v)]
    let item := (ofExpression ⟨.aggregate call, "", rfl⟩).withGrouping (some (.byFields ["k"]))
    let greatest : Value := .integer Int64.maxValue
    let rows := [row "a" greatest, row "b" greatest, row "a" (.text " -1 "), row "a" .null,
      row "b" (.boolean true), row "a" (.boolean true), row "a" (.text "?"), row "a" greatest]
    let run := item.start.absorbEach rows
    run.Writes (row "a" .null) greatest ∧
      ∃ x, run.Writes (row "b" .null) (.float x) := by
  intro call row item greatest rows run
  have within : call.contributions (call.passedOn
      (call.values (alongside item.grouping (row "a" .null) rows))) =
        [Int64.maxValue, -1, 1].map .integer := by decide +kernel
  have beyond : call.contributions (call.passedOn
      (call.values (alongside item.grouping (row "b" .null) rows))) =
        [Int64.maxValue, 1].map .integer := by decide +kernel
  have called : item.expression.call? = some call := rfl
  have sums : call.function = .sum := rfl
  obtain ⟨writes, summed, -⟩ := resultFor_sum called sums rows (row "a" .null)
  obtain ⟨writes', summed', -⟩ := resultFor_sum called sums rows (row "b" .null)
  rw [within] at summed
  rw [beyond] at summed'
  have sum := (summed.integer Int64.maxValue).mpr
    ⟨by decide, _, rfl, by decide, by decide⟩
  have leaves : ¬ ∃ ns : List Int64, [Int64.maxValue, 1].map Quantity.integer =
      ns.map Quantity.integer ∧ KeepsRange ns := by
    rintro ⟨ns, same, keeps⟩
    rw [← Quantity.integers_inj same] at keeps
    exact absurd keeps (by decide)
  obtain ⟨x, sum'⟩ := summed'.float.mpr ⟨by decide, leaves⟩
  rw [sum] at writes
  rw [sum'] at writes'
  exact ⟨writes, x, writes'⟩

end SelectItem

end RowQuery
