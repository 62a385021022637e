import RowQuery.Integer64

/-!
Instants with a precision of a nanosecond, and their order.
-/

namespace RowQuery

/-- An instant: whole seconds since the start of 1970 in UTC, and nanoseconds after them. A second
that is followed by a leap second has two thousand million nanoseconds. -/
structure Timestamp where
  seconds : Int
  nanos : Nat
  nanos_lt : nanos < 2000000000
deriving DecidableEq, Repr

namespace Timestamp

/-- The instant of the given seconds and nanoseconds, if two seconds have so many of the latter. -/
def ofParts? (seconds : Int) (nanos : Nat) : Option Timestamp :=
  if fits : nanos < 2000000000 then some ⟨seconds, nanos, fits⟩ else none

/-- Seconds first, then what comes after them: a leap second lies between two seconds. -/
instance : Ord Timestamp where
  compare s t := (compare s.seconds t.seconds).then (compare s.nanos t.nanos)

/-- Nanoseconds since the start of 1970; a leap second is as long ago as the second after it. -/
def total (t : Timestamp) : Int :=
  t.seconds * 1000000000 + t.nanos

/-- Outside of leap seconds, two instants are one when they are as far from the start of 1970. -/
theorem total_inj {s t : Timestamp} (first : s.nanos < 1000000000) (second : t.nanos < 1000000000)
    (same : s.total = t.total) : s = t := by
  cases s
  cases t
  simp only [total] at same first second
  simp only [mk.injEq]
  omega

/-- The nanoseconds since the start of 1970 as 64 bits hold them. Before 1970 they are reckoned from
the second that follows, and that second has to fit, too. -/
def total64? (t : Timestamp) : Option Int64 :=
  let whole := if t.seconds < 0 then t.seconds + 1 else t.seconds
  if Integer64.Fits (whole * 1000000000) then Integer64.ofInt? t.total else none

/-- Outside of leap seconds, the second that follows fits whenever the instant does. -/
theorem total64?_eq {t : Timestamp} (regular : t.nanos < 1000000000) :
    t.total64? = Integer64.ofInt? t.total := by
  simp only [total64?, Integer64.ofInt?, Integer64.Fits, total]
  grind

end Timestamp

end RowQuery
