import Mathlib.Data.List.Infix
import RowQuery.Formats.Standard
import RowQuery.Proofs.SelectList.Single
import RowQuery.Proofs.Value.Sameness

/-!
# SUM of integers in any order

SUM is exact as long as no sum of the first integers leaves 64 bits, and a float from there on
(`Sums.add`). So two orders give one result if both stay within 64 bits (`gives_sum_of_perm`), and
all orders of some integers do exactly if the positive ones and the negative ones do, each for
themselves (`forall_perm_keepsRange_iff`).
-/

namespace RowQuery

namespace Integer64

def total (ns : List Int64) : Int :=
  ns.foldr (fun n sum => n.toInt + sum) 0

/-- No sum of the first integers leaves 64 bits. -/
def KeepsRange (ns : List Int64) : Prop :=
  ∀ first, first <+: ns → Fits (total first)

instance (ns : List Int64) : Decidable (KeepsRange ns) :=
  decidable_of_iff (∀ first ∈ ns.inits, Fits (total first)) <| by
    simp only [List.mem_inits, KeepsRange]

variable {ns ns' : List Int64} {n : Int64}

theorem total_cons (n : Int64) (ns : List Int64) : total (n :: ns) = n.toInt + total ns :=
  rfl

theorem total_singleton (n : Int64) : total [n] = n.toInt :=
  Int.add_zero _

theorem total_append (ns ns' : List Int64) : total (ns ++ ns') = total ns + total ns' := by
  induction ns with
  | nil => exact (Int.zero_add _).symm
  | cons n ns ih => rw [List.cons_append, total_cons, total_cons, ih, Int.add_assoc]

theorem total_filter_cons (p : Int64 → Bool) (n : Int64) (ns : List Int64) :
    total ((n :: ns).filter p) = (if p n then n.toInt else 0) + total (ns.filter p) := by
  cases holds : p n <;> simp [holds, total_cons]

theorem total_of_perm (perm : ns.Perm ns') : total ns = total ns' := by
  induction perm with
  | nil => rfl
  | cons n _ ih => rw [total_cons, total_cons, ih]
  | swap m n ns => exact Int.add_left_comm ..
  | trans _ _ first second => exact first.trans second

theorem keepsRange_nil : KeepsRange [] := by
  intro first within
  rw [List.prefix_nil.mp within]
  decide

theorem keepsRange_append_singleton :
    KeepsRange (ns ++ [n]) ↔ KeepsRange ns ∧ Fits (total (ns ++ [n])) := by
  constructor
  · intro keeps
    exact ⟨fun first within => keeps first (within.trans (List.prefix_append ns [n])),
      keeps _ List.prefix_rfl⟩
  · rintro ⟨keeps, fits⟩ first within
    rcases List.prefix_concat_iff.mp within with rfl | before
    · exact fits
    · exact keeps first before

/-! ## All orders -/

def positives (ns : List Int64) : List Int64 :=
  ns.filter fun n => 0 < n.toInt

def negatives (ns : List Int64) : List Int64 :=
  ns.filter fun n => n.toInt < 0

/-- Any of some integers add up to no less than the negative ones, and to no more than the positive
ones. -/
theorem total_of_sublist {some : List Int64} (within : some.Sublist ns) :
    total (negatives ns) ≤ total some ∧ total some ≤ total (positives ns) := by
  rw [negatives, positives]
  induction within with
  | slnil => decide
  | cons n within ih =>
      simp only [total_filter_cons, decide_eq_true_eq]
      split <;> split <;> omega
  | cons_cons n within ih =>
      simp only [total_filter_cons, total_cons, decide_eq_true_eq]
      split <;> split <;> omega

theorem fits_total_filter (keeps : ∀ order : List Int64, order.Perm ns → KeepsRange order)
    (p : Int64 → Bool) : Fits (total (ns.filter p)) :=
  keeps _ (List.filter_append_perm p ns) _ (List.prefix_append _ _)

/-- The positive integers first, or the negative ones, are the orders that reach furthest. -/
theorem forall_perm_keepsRange_iff : (∀ order : List Int64, order.Perm ns → KeepsRange order) ↔
    Fits (total (negatives ns)) ∧ Fits (total (positives ns)) := by
  constructor
  · intro keeps
    exact ⟨fits_total_filter keeps _, fits_total_filter keeps _⟩
  · rintro ⟨below, above⟩ order perm first within
    have bounds := total_of_sublist within.sublist
    rw [negatives, positives, total_of_perm (perm.filter _), total_of_perm (perm.filter _)]
      at bounds
    exact ⟨Int.le_trans below.1 bounds.1, Int.lt_of_le_of_lt bounds.2 above.2⟩

end Integer64

open Integer64 (Fits KeepsRange total)

/-! ## SUM -/

/-- A sum as a float from some integers on. -/
def Quantity.promote (sum : Float) (ns : List Int64) : Float :=
  ns.foldl (fun sum n => sum + Float.ofInt n.toInt) sum

/-- What SUM has of some integers: the exact sum while 64 bits hold it; from the first integer that
takes it beyond them, a float. -/
inductive Quantity.Sums (ns : List Int64) : Option Quantity → Prop
  | nothing (empty : ns = []) : Sums ns none
  | exact {sum : Int64} (nonempty : ns ≠ []) (keeps : KeepsRange ns) (sums : sum.toInt = total ns) :
      Sums ns (some (.integer sum))
  | promoted {first later : List Int64} {n : Int64} (split : ns = first ++ n :: later)
      (keeps : KeepsRange first) (leaves : ¬ Fits (total first + n.toInt)) :
      Sums ns (some (.float (.ofFloat
        (promote (Float.ofInt (total first) + Float.ofInt n.toInt) later))))

namespace Quantity

variable {ns : List Int64} {sum : Option Quantity}

theorem Sums.add (sums : Sums ns sum) (n : Int64) :
    Sums (ns ++ [n]) (some (sum.elim (.integer n) fun sum => sum.add (.integer n))) := by
  cases sums with
  | nothing empty =>
      subst empty
      have one : total [n] = n.toInt := Integer64.total_singleton n
      refine .exact (by simp) (Integer64.keepsRange_append_singleton.mpr ?_) one.symm
      exact ⟨Integer64.keepsRange_nil, one ▸ Integer64.fits_toInt n⟩
  | @exact sum nonempty keeps sums =>
      have more : total (ns ++ [n]) = sum.toInt + n.toInt := by
        rw [Integer64.total_append, Integer64.total_singleton, sums]
      rw [Option.elim_some, Quantity.add]
      cases fits : Integer64.ofInt? (sum.toInt + n.toInt) with
      | some after =>
          have exact_sum : after.toInt = total (ns ++ [n]) := by
            rw [more, Integer64.ofInt?_eq_some_iff.mp fits]
          refine .exact (by simp) (Integer64.keepsRange_append_singleton.mpr ⟨keeps, ?_⟩) exact_sum
          exact exact_sum ▸ Integer64.fits_toInt after
      | none =>
          have leaves : ¬ Fits (total ns + n.toInt) := by
            intro within
            simp [Integer64.ofInt?, sums, within] at fits
          simp only [sums]
          exact .promoted rfl keeps leaves
  | @promoted first later m split keeps leaves =>
      have promotes (x : Float) :
          promote x later + Float.ofInt n.toInt = promote x (later ++ [n]) := by
        rw [promote, promote, List.foldl_append]
        rfl
      rw [Option.elim_some, Quantity.add, toFloat, toFloat, FloatBits.toFloat_ofFloat, promotes]
      · exact .promoted (by rw [split, List.append_assoc, List.cons_append]) keeps leaves
      · rintro m n ⟨⟩

theorem Sums.eq_none (sums : Sums [] sum) : sum = none := by
  cases sums with
  | nothing => rfl
  | exact nonempty => exact (nonempty rfl).elim
  | promoted split => simp at split

theorem Sums.eq_of_total {n : Int64} (sums : Sums ns sum) (keeps : KeepsRange ns)
    (nonempty : ns ≠ []) (exact_sum : n.toInt = total ns) : sum = some (.integer n) := by
  cases sums with
  | nothing empty => exact (nonempty empty).elim
  | exact _ _ sums => rw [Int64.toInt_inj.mp (sums.trans exact_sum.symm)]
  | @promoted first later n split _ leaves =>
      refine (leaves ?_).elim
      rw [← Integer64.total_singleton, ← Integer64.total_append]
      exact keeps _ ⟨later, by rw [split, List.append_assoc, List.singleton_append]⟩

theorem Sums.eq_of_perm {ns' : List Int64} {sum' : Option Quantity} (sums : Sums ns sum)
    (sums' : Sums ns' sum') (perm : ns.Perm ns') (keeps : KeepsRange ns) (keeps' : KeepsRange ns') :
    sum = sum' := by
  by_cases empty : ns = []
  · subst empty
    obtain rfl := List.nil_perm.mp perm
    rw [sums.eq_none, sums'.eq_none]
  · have nonempty : ns' ≠ [] := fun empty' => empty (List.perm_nil.mp (empty' ▸ perm))
    have sum_of : (Int64.ofInt (total ns)).toInt = total ns :=
      Integer64.toInt_ofInt (keeps ns List.prefix_rfl)
    rw [sums.eq_of_total keeps empty sum_of,
      sums'.eq_of_total keeps' nonempty (sum_of.trans (Integer64.total_of_perm perm))]

end Quantity

theorem Accumulator.addAll_total {rule : OperandRule} {ns more : List Int64}
    {sum : Option Quantity} (sums : Quantity.Sums ns sum) :
    ∃ after, Quantity.Sums (ns ++ more) after ∧
      (Accumulator.total sum).addAll rule (more.map .integer) = .ok (.total after) := by
  induction more generalizing ns sum with
  | nil => exact ⟨sum, by rwa [List.append_nil], rfl⟩
  | cons n more ih =>
      obtain ⟨after, adds, ran⟩ := ih (sums.add n)
      exact ⟨after, by rwa [List.append_cons], ran⟩

namespace Expression

variable {e : Expression} {column : String} {rule : OperandRule} {ns ns' : List Int64}
  {rows rows' : List Row}

theorem gives_sum [Formats] [Hashing] (term : e.term = .aggregate (.of .sum column false rule))
    (held : Row.Hold (Name.normalize column) (ns.map .integer) rows) :
    ∃ sum, Quantity.Sums ns sum ∧ e.Gives rows (Accumulator.total sum).result := by
  obtain ⟨sum, sums, ran⟩ : ∃ sum, Quantity.Sums ns sum ∧
      (Accumulator.start .sum).addAll rule (ns.map .integer) = .ok (.total sum) :=
    Accumulator.addAll_total (.nothing rfl)
  have nonnull : ∀ value ∈ ns.map Value.integer, value ≠ .null := by
    intro value member null
    obtain ⟨_, -, number⟩ := List.mem_map.mp member
    cases number.trans null
  exact ⟨sum, sums, gives_of_addAll term rfl rfl held nonnull ran⟩

/-- Two orders of some integers have one sum if both stay within 64 bits, as all orders do exactly
if the negative and the positive integers do, each for themselves. -/
theorem gives_sum_of_perm [Formats] [Hashing]
    (term : e.term = .aggregate (.of .sum column false rule))
    (perm : ns.Perm ns') (held : Row.Hold (Name.normalize column) (ns.map .integer) rows)
    (held' : Row.Hold (Name.normalize column) (ns'.map .integer) rows') :
    ∃ sum sum', Quantity.Sums ns sum ∧ Quantity.Sums ns' sum' ∧
      e.Gives rows (Accumulator.total sum).result ∧
      e.Gives rows' (Accumulator.total sum').result ∧
      (KeepsRange ns → KeepsRange ns' →
        (Accumulator.total sum).result.same (Accumulator.total sum').result = true) ∧
      ((∀ order : List Int64, order.Perm ns → KeepsRange order) ↔
        Fits (total (Integer64.negatives ns)) ∧ Fits (total (Integer64.positives ns))) := by
  obtain ⟨sum, sums, gives⟩ := gives_sum term held
  obtain ⟨sum', sums', gives'⟩ := gives_sum term held'
  refine ⟨sum, sum', sums, sums', gives, gives', fun keeps keeps' => ?_,
    Integer64.forall_perm_keepsRange_iff⟩
  rw [sums.eq_of_perm sums' perm keeps keeps']
  exact Value.same_refl _

open scoped Formats Hashing in
/-- The greatest integer first, or last. -/
theorem gives_sum_of_perm_greatest :
    let e : Expression := ⟨.aggregate (.of .sum "v" false .reject), "", rfl⟩
    let rows (ns : List Int64) := ns.map fun n => Row.ofFields [("v", .integer n)]
    let sum : Value := .integer (Int64.maxValue - 4)
    e.Gives (rows [Int64.maxValue, -9, 5]) sum ∧ e.Gives (rows [-9, 5, Int64.maxValue]) sum ∧
      sum.same sum = true := by
  intro e rows sum
  have held : Row.Hold (Name.normalize "v") ([Int64.maxValue, -9, 5].map .integer)
      (rows [Int64.maxValue, -9, 5]) := by decide +kernel
  have held' : Row.Hold (Name.normalize "v") ([-9, 5, Int64.maxValue].map .integer)
      (rows [-9, 5, Int64.maxValue]) := by decide +kernel
  obtain ⟨_, _, sums, sums', gives, gives', same, -⟩ :=
    gives_sum_of_perm (e := e) rfl (by decide) held held'
  have keeps : KeepsRange [Int64.maxValue, -9, 5] := by decide
  have keeps' : KeepsRange [-9, 5, Int64.maxValue] := by decide
  have same := same keeps keeps'
  rw [sums.eq_of_total (n := Int64.maxValue - 4) keeps (by decide) (by decide)] at gives same
  rw [sums'.eq_of_total (n := Int64.maxValue - 4) keeps' (by decide) (by decide)] at gives' same
  exact ⟨gives, gives', same⟩

open scoped Formats Hashing in
/-- The greatest integer and 1 leave 64 bits before -1 brings the sum back; with -1 before 1 no sum
does. -/
theorem sum_leaves_range :
    let e : Expression := ⟨.aggregate (.of .sum "v" false .reject), "", rfl⟩
    let rows (ns : List Int64) := ns.map fun n => Row.ofFields [("v", .integer n)]
    List.Perm [Int64.maxValue, 1, -1] [Int64.maxValue, -1, 1] ∧
      e.Gives (rows [Int64.maxValue, 1, -1]) (.float 9223372036854775808) ∧
      e.Gives (rows [Int64.maxValue, -1, 1]) (.integer Int64.maxValue) ∧
      Value.same (.float 9223372036854775808) (.integer Int64.maxValue) = false := by
  intro e rows
  exact ⟨by decide, gives_of_toOption (by decide +kernel), gives_of_toOption (by decide +kernel),
    by decide +kernel⟩

open scoped Formats Hashing in
/-- Beyond 64 bits the order still matters: floats round after each step. -/
example :
    let e : Expression := ⟨.aggregate (.of .sum "v" false .reject), "", rfl⟩
    let rows (ns : List Int64) := ns.map fun n => Row.ofFields [("v", .integer n)]
    let half : Int64 := 0x4000000000000000
    e.Gives (rows [half, half, 1025]) (.float 9223372036854777856) ∧
      e.Gives (rows [half, 1025, half]) (.float 9223372036854775808) := by
  intro e rows half
  exact ⟨gives_of_toOption (by decide +kernel), gives_of_toOption (by decide +kernel)⟩

end Expression

end RowQuery
