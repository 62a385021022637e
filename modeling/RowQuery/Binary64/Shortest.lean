import RowQuery.Binary64.Exact
import RowQuery.Decimal

/-!
The fewest decimal digits that read back as a given float. A decimal reads back as a float when it
lies between the midpoints to the neighbouring floats, the midpoints included for an even
significand. All comparisons are of natural numbers in the unit `2 ^ -1076 · 10 ^ -340`.
-/

namespace RowQuery.Binary64

/-- Which of two candidates at the same distance is taken. -/
inductive Tie where
  | away
  | even
deriving DecidableEq, Repr

/-- A positive float and the midpoints to its neighbours, in the common unit. -/
structure Span where
  low : Nat
  value : Nat
  high : Nat
  /-- Whether the midpoints themselves read back as the float. -/
  closed : Bool
deriving DecidableEq, Repr

namespace Span

/-- The span of `significand · 2 ^ exponent`. The gap below a power of two is half the gap above. -/
def ofFinite (significand : Nat) (exponent : Int) : Span :=
  let scale := Nat.pow 2 (exponent + 1074).toNat * Nat.pow 10 340
  let below := if significand = 0x10000000000000 ∧ -1074 < exponent then 1 else 2
  ⟨(4 * significand - below) * scale, 4 * significand * scale, (4 * significand + 2) * scale,
    significand % 2 = 0⟩

/-- Whether a number in the common unit reads back as the float. -/
def contains (s : Span) (n : Nat) : Bool :=
  if s.closed then s.low ≤ n && n ≤ s.high else s.low < n && n < s.high

/-- The size of `10 ^ exponent` in the common unit. -/
def unitOf (exponent : Int) : Nat :=
  Nat.pow 2 1076 * Nat.pow 10 (exponent + 340).toNat

/-- The power of ten of the first digit. -/
def leading (s : Span) : Int :=
  (Decimal.width (s.value / Nat.pow 2 1076) : Int) - 341

/-- Of the multiples of `10 ^ exponent` just below and just above the float, the one that reads back
as it; of two the nearer. -/
def onGrid? (tie : Tie) (s : Span) (exponent : Int) : Option Decimal :=
  let step := unitOf exponent
  let below := s.value / step
  let left := s.value % step
  let lower := s.contains (below * step)
  let upper := s.contains ((below + 1) * step)
  let takesUpper :=
    step < 2 * left || (2 * left == step && (tie == .away || below % 2 == 1))
  if upper && (!lower || takesUpper) then some ⟨below + 1, exponent⟩
  else if lower then some ⟨below, exponent⟩
  else none

/-- Tries grids of 1, 2, … digits; 17 are always enough. -/
def shortest (tie : Tie) (s : Span) : Decimal :=
  let onDigits (count : Nat) := s.onGrid? tie (s.leading - count)
  (((List.range 17).findSome? onDigits).getD ⟨s.value, 0⟩).reduce

end Span

/-- The fewest digits of a finite magnitude; zero has the digit 0. -/
def shortest (tie : Tie) (significand : Nat) (exponent : Int) : Decimal :=
  if significand = 0 then ⟨0, 0⟩ else (Span.ofFinite significand exponent).shortest tie

end RowQuery.Binary64
