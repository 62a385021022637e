import Mathlib.Tactic.IntervalCases
import RowQuery.Formats.Standard
import RowQuery.Proofs.Decimal

/-!
# Instants by RFC 3339

What it means for a text to be an instant by RFC 3339 (`Rfc3339`): its date is found by counting
days of the Gregorian calendar from the first day of 1970 (`IsDay`), and the rest of it is the time
of day. The text that is made here is such a text (`rfc3339_text`).
-/

namespace RowQuery.Timestamp

open Decimal (padded)

namespace Date

/-! ## The calendar -/

/-- Every fourth year is a leap year, but of the hundredth ones only every fourth. -/
def IsLeap (year : Int) : Prop :=
  year % 4 = 0 ∧ (year % 100 = 0 → year % 400 = 0)

instance (year : Int) : Decidable (IsLeap year) := inferInstanceAs (Decidable (_ ∧ _))

/-- The number of days of a month. -/
def monthLength (year : Int) : Nat → Nat
  | 2 => if IsLeap year then 29 else 28
  | 4 | 6 | 9 | 11 => 30
  | _ => 31

/-- A month and a day that the year has. -/
structure Valid (date : Date) : Prop where
  month : 1 ≤ date.month ∧ date.month ≤ 12
  day : 1 ≤ date.day ∧ date.day ≤ monthLength date.year date.month

/-- The date after a date. -/
def next (date : Date) : Date :=
  if date.day < monthLength date.year date.month then { date with day := date.day + 1 }
  else if date.month < 12 then ⟨date.year, date.month + 1, 1⟩
  else ⟨date.year + 1, 1, 1⟩

/-- A date is a number of days after the first day of 1970. -/
inductive IsDay : Int → Date → Prop
  | start : IsDay 0 ⟨1970, 1, 1⟩
  | next {days : Int} {date : Date} : IsDay days date → IsDay (days + 1) date.next
  | previous {days : Int} {date : Date} : date.Valid → IsDay (days + 1) date.next →
      IsDay days date

/-! ## Years that start in March -/

/-- The number of days of a year that starts in March. -/
def marchLength (year : Int) : Int :=
  if IsLeap (year + 1) then 366 else 365

/-- What days are counted in: eras of 400 years, centuries, cycles of four years, and years. -/
structure Parts (era century cycle year before : Int) : Prop where
  centuries : 0 ≤ century ∧ century ≤ 3
  cycles : 0 ≤ cycle ∧ cycle ≤ 24
  years : 0 ≤ year ∧ year ≤ 3
  days : 0 ≤ before ∧ before < if year = 3 ∧ (cycle = 24 → century = 3) then 366 else 365

section
variable {era century cycle year before : Int}

theorem Parts.marchLength (parts : Parts era century cycle year before) :
    marchLength (era * 400 + century * 100 + cycle * 4 + year) =
      if year = 3 ∧ (cycle = 24 → century = 3) then 366 else 365 := by
  obtain ⟨⟨c, c'⟩, ⟨q, q'⟩, ⟨y, y'⟩, -⟩ := parts
  refine if_congr ?_ rfl rfl
  unfold IsLeap
  omega

theorem Parts.marchYear (parts : Parts era century cycle year before) :
    marchYear (era * 146097 + century * 36524 + cycle * 1461 + year * 365 + before) =
      (era * 400 + century * 100 + cycle * 4 + year, before) := by
  obtain ⟨⟨c, c'⟩, ⟨q, q'⟩, ⟨y, y'⟩, b, b'⟩ := parts
  have years : min ((year * 365 + before) / 365) 3 = year := by
    split at b' <;> omega
  have bounds : 0 ≤ year * 365 + before ∧ year * 365 + before < 1461 ∧
      cycle * 1461 + year * 365 + before ≤ 36524 ∧
      (century < 3 → cycle * 1461 + year * 365 + before < 36524) := by
    split at b' <;> omega
  obtain ⟨first, last, all, inner⟩ := bounds
  have eras : (era * 146097 + century * 36524 + cycle * 1461 + year * 365 + before) / 146097 =
      era := by omega
  have inEra : (era * 146097 + century * 36524 + cycle * 1461 + year * 365 + before) % 146097 =
      century * 36524 + (cycle * 1461 + year * 365 + before) := by omega
  have centuries :
      min ((century * 36524 + (cycle * 1461 + year * 365 + before)) / 36524) 3 = century := by omega
  have cycles : (cycle * 1461 + year * 365 + before) / 1461 = cycle := by omega
  have inCycle : (cycle * 1461 + year * 365 + before) % 1461 = year * 365 + before := by omega
  simp only [Date.marchYear, eras, inEra, centuries, add_sub_cancel_left, cycles, inCycle, years]

theorem exists_parts (days : Int) : ∃ era century cycle year before,
    Parts era century cycle year before ∧
      days = era * 146097 + century * 36524 + cycle * 1461 + year * 365 + before := by
  let inEra := days % 146097
  let century := min (inEra / 36524) 3
  let inCentury := inEra - century * 36524
  let inCycle := inCentury % 1461
  let year := min (inCycle / 365) 3
  refine ⟨days / 146097, century, inCentury / 1461, year, inCycle - year * 365,
    ⟨?_, ?_, ?_, ?_⟩, ?_⟩
  · omega
  · omega
  · omega
  · split <;> omega
  · omega

theorem Parts.exists_next (parts : Parts era century cycle year before)
    (last : before + 1 = if year = 3 ∧ (cycle = 24 → century = 3) then 366 else 365) :
    ∃ era' century' cycle' year', Parts era' century' cycle' year' 0 ∧
      era * 146097 + century * 36524 + cycle * 1461 + year * 365 + before + 1 =
        era' * 146097 + century' * 36524 + cycle' * 1461 + year' * 365 + 0 ∧
      era * 400 + century * 100 + cycle * 4 + year + 1 =
        era' * 400 + century' * 100 + cycle' * 4 + year' := by
  obtain ⟨⟨c, c'⟩, ⟨q, q'⟩, ⟨y, y'⟩, -⟩ := parts
  have some_day (year cycle century : Int) :
      (0 : Int) < if year = 3 ∧ (cycle = 24 → century = 3) then 366 else 365 := by
    split <;> decide
  -- The year is inside a cycle, or it ends its cycle, its century or its era.
  by_cases in_cycle : year < 3
  · exact ⟨era, century, cycle, year + 1,
      ⟨⟨c, c'⟩, ⟨q, q'⟩, by omega, le_rfl, some_day ..⟩, by omega, by omega⟩
  by_cases in_century : cycle < 24
  · exact ⟨era, century, cycle + 1, 0,
      ⟨⟨c, c'⟩, by omega, by decide, le_rfl, some_day ..⟩, by omega, by omega⟩
  by_cases in_era : century < 3
  · exact ⟨era, century + 1, 0, 0,
      ⟨by omega, by decide, by decide, le_rfl, some_day ..⟩, by omega, by omega⟩
  · exact ⟨era + 1, 0, 0, 0,
      ⟨by decide, by decide, by decide, le_rfl, some_day ..⟩, by omega, by omega⟩

end

theorem exists_marchYear (days : Int) : ∃ (year : Int) (before : Nat),
    marchYear days = (year, (before : Int)) ∧ (before : Int) < marchLength year := by
  obtain ⟨era, century, cycle, year, before, parts, rfl⟩ := exists_parts days
  have cast : (before.toNat : Int) = before := Int.toNat_of_nonneg parts.days.1
  refine ⟨era * 400 + century * 100 + cycle * 4 + year, before.toNat, ?_, ?_⟩
  · rw [parts.marchYear, cast]
  · rw [parts.marchLength, cast]
    exact parts.days.2

/-- The day after a day is in the same year, or the first of the next. -/
theorem marchYear_succ (days : Int) : marchYear (days + 1) =
    if (marchYear days).2 + 1 < marchLength (marchYear days).1
    then ((marchYear days).1, (marchYear days).2 + 1)
    else ((marchYear days).1 + 1, 0) := by
  obtain ⟨era, century, cycle, year, before, parts, rfl⟩ := exists_parts days
  have length := parts.marchLength
  rw [parts.marchYear]
  dsimp only
  split
  · rename_i inside
    have later : 0 ≤ before + 1 := Int.le_add_one parts.days.1
    have same : Parts era century cycle year (before + 1) :=
      ⟨parts.centuries, parts.cycles, parts.years, later, length ▸ inside⟩
    rw [add_assoc, same.marchYear]
  · rename_i outside
    have within := length ▸ parts.days.2
    have last : before + 1 = marchLength (era * 400 + century * 100 + cycle * 4 + year) := by omega
    obtain ⟨era', century', cycle', year', parts', day, number⟩ :=
      parts.exists_next (last.trans length)
    rw [day, parts'.marchYear, number]

/-! ## Dates by counting -/

section
variable {year : Int} {before : Nat}

theorem next_ofMarchYear (inside : (before + 1 : Int) < marchLength year) :
    (ofMarchYear year before).next = ofMarchYear year (before + 1) := by
  unfold marchLength at inside
  have months : (5 * before + 2) / 153 < 12 := by
    split at inside <;> omega
  simp only [ofMarchYear]
  generalize here : (5 * before + 2) / 153 = month at months
  generalize there : (5 * (before + 1) + 2) / 153 = month'
  interval_cases month <;> simp [next, monthLength] <;> grind

theorem next_ofMarchYear_last (last : (before + 1 : Int) = marchLength year) :
    (ofMarchYear year before).next = ofMarchYear (year + 1) 0 := by
  unfold marchLength at last
  split at last
  · rename_i leap
    obtain rfl : before = 365 := by omega
    simp [ofMarchYear, next, monthLength, leap]
  · rename_i common
    obtain rfl : before = 364 := by omega
    simp [ofMarchYear, next, monthLength, common]

theorem valid_ofMarchYear (inside : (before : Int) < marchLength year) :
    (ofMarchYear year before).Valid := by
  unfold marchLength at inside
  have months : (5 * before + 2) / 153 < 12 := by
    split at inside <;> omega
  unfold ofMarchYear
  generalize here : (5 * before + 2) / 153 = month at months
  interval_cases month <;> refine ⟨by simp, ?_⟩ <;> simp [monthLength] <;> grind

end

theorem ofDays_of_marchYear {days year : Int} {before : Nat}
    (place : marchYear (days + 719468) = (year, (before : Int))) :
    ofDays days = ofMarchYear year before := by
  rw [ofDays, place, Int.toNat_natCast]

theorem ofDays_succ (days : Int) : ofDays (days + 1) = (ofDays days).next := by
  obtain ⟨year, before, place, within⟩ := exists_marchYear (days + 719468)
  have shift : days + 1 + 719468 = days + 719468 + 1 := by omega
  have later := marchYear_succ (days + 719468)
  rw [← shift, place] at later
  rw [ofDays_of_marchYear place]
  split at later
  · rename_i inside
    rw [next_ofMarchYear inside]
    exact ofDays_of_marchYear later
  · rename_i outside
    have last : (before + 1 : Int) = marchLength year := by
      dsimp only at outside
      omega
    rw [next_ofMarchYear_last last]
    exact ofDays_of_marchYear later

theorem valid_ofDays (days : Int) : (ofDays days).Valid := by
  obtain ⟨year, before, place, within⟩ := exists_marchYear (days + 719468)
  rw [ofDays_of_marchYear place]
  exact valid_ofMarchYear within

theorem isDay_ofDays (days : Int) : IsDay days (ofDays days) := by
  induction days using Int.induction_on with
  | zero => exact .start
  | succ days ih =>
      rw [ofDays_succ]
      exact .next ih
  | pred days ih =>
      refine .previous (valid_ofDays _) ?_
      rw [← ofDays_succ, Int.sub_add_cancel]
      exact ih

theorem Valid.next_inj {date other : Date} (valid : date.Valid) (valid' : other.Valid)
    (same : date.next = other.next) : date = other := by
  obtain ⟨⟨m, m'⟩, d, d'⟩ := valid
  obtain ⟨⟨n, n'⟩, e, e'⟩ := valid'
  cases date
  cases other
  simp only [next] at same
  grind [monthLength]

/-- Each day has one date. -/
theorem isDay_iff {days : Int} {date : Date} : IsDay days date ↔ date = ofDays days := by
  constructor
  · intro falls
    induction falls with
    | start => decide
    | next _ ih => rw [ih, ofDays_succ]
    | previous valid _ ih => exact valid.next_inj (valid_ofDays _) (ih.trans (ofDays_succ _))
  · rintro rfl
    exact isDay_ofDays days

end Date

/-! ## Texts -/

/-- Some digits write a number. -/
structure Digits (n : Nat) (chars : List Char) : Prop where
  all : ∀ c ∈ chars, c.isDigit = true
  value : Numeral.digitsValue 0 chars = n

/-- Two digits write a number. -/
def TwoDigits (n : Nat) (chars : List Char) : Prop :=
  Digits n chars ∧ chars.length = 2

/-- A year in four digits. Outside of 0 to 9999 it has at least four digits, and a sign. -/
inductive YearDigits (year : Int) : List Char → Prop
  | plain {chars : List Char} : 0 ≤ year → year ≤ 9999 → Digits year.natAbs chars →
      chars.length = 4 → YearDigits year chars
  | before {chars : List Char} : year < 0 → Digits year.natAbs chars → 4 ≤ chars.length →
      YearDigits year ('-' :: chars)
  | after {chars : List Char} : 9999 < year → Digits year.natAbs chars → 4 ≤ chars.length →
      YearDigits year ('+' :: chars)

/-- The fraction of a second in up to nine digits after a point, or no fraction. -/
inductive Fraction (nanos : Nat) : List Char → Prop
  | none : nanos = 0 → Fraction nanos []
  | some {number places : Nat} {chars : List Char} : Digits number chars →
      chars.length = places → 1 ≤ places → places ≤ 9 → nanos = number * 10 ^ (9 - places) →
      Fraction nanos ('.' :: chars)

/-- A text is an instant by RFC 3339 in UTC: its date, its time of day, and what is left of its
second. A leap second is one more than the second it follows. -/
inductive Rfc3339 (t : Timestamp) : String → Prop
  | intro {days : Int} {date : Date} {hour minute second : Nat}
      {year month day hours minutes seconds fraction : List Char} :
      t.seconds = days * 86400 + (hour * 3600 + minute * 60 + second) →
      hour < 24 → minute < 60 → second < 60 → date.IsDay days →
      YearDigits date.year year → TwoDigits date.month month → TwoDigits date.day day →
      TwoDigits hour hours → TwoDigits minute minutes →
      TwoDigits (second + t.nanos / 1000000000) seconds →
      Fraction (t.nanos % 1000000000) fraction →
      Rfc3339 t (String.ofList (year ++ '-' :: month ++ '-' :: day ++ 'T' :: hours ++
        ':' :: minutes ++ ':' :: seconds ++ fraction ++ ['+', '0', '0', ':', '0', '0']))

section
variable {n width : Nat}

theorem digits_padded (width n : Nat) : Digits n (padded width n).toList := by
  rw [padded, String.toList_ofList]
  constructor
  · intro c member
    rcases List.mem_append.mp member with zero | digit
    · exact Numeral.isDigit_of_mem_zeros zero
    · exact Numeral.isDigit_of_mem_digitChars digit
  · rw [Numeral.digitsValue_append, Numeral.digitsValue_zeros, Nat.zero_mul,
      Numeral.digitsValue_digitChars]

theorem le_length_padded (width n : Nat) : width ≤ (padded width n).toList.length := by
  rw [padded, String.toList_ofList, List.length_append, List.length_replicate]
  omega

theorem length_padded (positive : 0 < width) (fits : n < 10 ^ width) :
    (padded width n).toList.length = width := by
  have narrow : (Decimal.digitChars n).length ≤ width := (Decimal.width_le_iff positive).mpr fits
  rw [padded, String.toList_ofList, List.length_append, List.length_replicate]
  omega

theorem twoDigits_padded (fits : n < 100) : TwoDigits n (padded 2 n).toList :=
  ⟨digits_padded 2 n, length_padded (by decide) fits⟩

theorem yearDigits_yearText (year : Int) : YearDigits year (yearText year).toList := by
  rw [yearText]
  split
  · rename_i inside
    have unsigned : year.toNat = year.natAbs := by omega
    rw [unsigned]
    exact .plain inside.1 inside.2 (digits_padded 4 _) (length_padded (by decide) (by omega))
  · rename_i outside
    have digits := digits_padded 4 year.natAbs
    have long := le_length_padded 4 year.natAbs
    split
    · rename_i negative
      rw [String.toList_append]
      exact .before negative digits long
    · rw [String.toList_append]
      exact .after (by omega) digits long

theorem fraction_fractionText {nanos : Nat} (below : nanos < 1000000000) :
    Fraction nanos (fractionText nanos).toList := by
  have point {width number : Nat} (positive : 1 ≤ width) (most : width ≤ 9)
      (fits : number < 10 ^ width) (whole : nanos = number * 10 ^ (9 - width)) :
      Fraction nanos ("." ++ padded width number).toList := by
    rw [String.toList_append]
    exact .some (digits_padded width number) (length_padded positive fits) positive most whole
  rw [fractionText]
  split
  · rename_i zero
    exact .none zero
  split
  · exact point (by decide) (by decide) (by omega) (by omega)
  split
  · exact point (by decide) (by decide) (by omega) (by omega)
  · exact point (by decide) (by decide) below (by omega)

end

theorem Date.Valid.day_le {date : Date} (valid : date.Valid) : date.day ≤ 31 := by
  refine valid.day.2.trans ?_
  unfold Date.monthLength
  split
  · split <;> decide
  all_goals decide

/-- The text that is made for an instant is that instant by RFC 3339. -/
theorem rfc3339_text (t : Timestamp) : t.Rfc3339 t.text := by
  let date := Date.ofDays (t.seconds / 86400)
  let second := (t.seconds % 86400).toNat
  have valid := Date.valid_ofDays (t.seconds / 86400)
  have month : date.month < 100 := valid.month.2.trans_lt (by decide)
  have day : date.day < 100 := valid.day_le.trans_lt (by decide)
  have bound := t.nanos_lt
  have whole : t.seconds = t.seconds / 86400 * 86400 +
      ((second / 3600 : Nat) * 3600 + (second / 60 % 60 : Nat) * 60 + (second % 60 : Nat)) := by
    omega
  have shown := Rfc3339.intro whole (by omega) (by omega) (by omega) (Date.isDay_ofDays _)
    (yearDigits_yearText date.year) (twoDigits_padded month) (twoDigits_padded day)
    (twoDigits_padded (by omega)) (twoDigits_padded (by omega)) (twoDigits_padded (by omega))
    (fraction_fractionText (Nat.mod_lt t.nanos (by decide)))
  refine Eq.mp (congrArg t.Rfc3339 ?_) shown
  rw [← String.toList_inj]
  simp [text, date, second]

end RowQuery.Timestamp
