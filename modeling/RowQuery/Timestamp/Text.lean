import RowQuery.Decimal
import RowQuery.Timestamp

/-!
Instants as text by RFC 3339 in UTC.
-/

namespace RowQuery.Timestamp

open Decimal (padded)

/-- A day of the Gregorian calendar. -/
structure Date where
  year : Int
  month : Nat
  day : Nat
deriving DecidableEq, Repr

namespace Date

/-- The year of a day, and how many of its days come before it. Years start in March here, so that
the leap day ends its year; days are counted from the first of March of the year 0. -/
def marchYear (days : Int) : Int × Int :=
  let inEra := days % 146097
  let century := min (inEra / 36524) 3
  let inCentury := inEra - century * 36524
  let inCycle := inCentury % 1461
  let year := min (inCycle / 365) 3
  (days / 146097 * 400 + century * 100 + inCentury / 1461 * 4 + year, inCycle - year * 365)

/-- The date of a day in a year that starts in March. -/
def ofMarchYear (year : Int) (before : Nat) : Date :=
  let month := (5 * before + 2) / 153
  let day := before - (153 * month + 2) / 5 + 1
  if month < 10 then ⟨year, month + 3, day⟩ else ⟨year + 1, month - 9, day⟩

/-- The date that is a number of days after the first day of 1970. -/
def ofDays (days : Int) : Date :=
  let place := marchYear (days + 719468)
  ofMarchYear place.1 place.2.toNat

end Date

/-- Four digits; a year outside of 0 to 9999 has its sign before them, and more digits if needed. -/
def yearText (year : Int) : String :=
  if 0 ≤ year ∧ year ≤ 9999 then padded 4 year.toNat
  else (if year < 0 then "-" else "+") ++ padded 4 year.natAbs

/-- The fraction of a second to 0, 3, 6 or 9 places, as few as are exact. -/
def fractionText (nanos : Nat) : String :=
  if nanos = 0 then ""
  else if nanos % 1000000 = 0 then "." ++ padded 3 (nanos / 1000000)
  else if nanos % 1000 = 0 then "." ++ padded 6 (nanos / 1000)
  else "." ++ padded 9 nanos

/-- An instant by RFC 3339, such as `2024-01-15T10:00:00.500+00:00`. -/
def text (t : Timestamp) : String :=
  let date := Date.ofDays (t.seconds / 86400)
  let second := (t.seconds % 86400).toNat
  yearText date.year ++ "-" ++ padded 2 date.month ++ "-" ++ padded 2 date.day ++ "T" ++
    padded 2 (second / 3600) ++ ":" ++ padded 2 (second / 60 % 60) ++ ":" ++
    padded 2 (second % 60 + t.nanos / 1000000000) ++ fractionText (t.nanos % 1000000000) ++ "+00:00"

end RowQuery.Timestamp
