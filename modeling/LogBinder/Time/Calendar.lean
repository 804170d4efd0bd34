/-
  Log binder — dates of the Gregorian calendar.

  The calendar is extended to all years, with a year zero before year one.

  * `Date.isValid` says which dates exist;
  * `Date.next` and `Date.previous` are the neighbouring days.
-/
namespace LogBinder

/-- A day of the calendar. -/
structure Date where
  year : Int
  month : Nat
  day : Nat
  deriving DecidableEq, Repr

namespace Date

/-- Whether a year has a leap day. -/
def isLeapYear (year : Int) : Bool :=
  year % 4 = 0 && (year % 100 ≠ 0 || year % 400 = 0)

/-- The number of days in a month. -/
def daysIn (year : Int) (month : Nat) : Nat :=
  match month with
  | 2 => if isLeapYear year then 29 else 28
  | 4 | 6 | 9 | 11 => 30
  | _ => 31

/-- The earliest year of a date. -/
def firstYear : Int := -262143

/-- The latest year of a date. -/
def lastYear : Int := 262142

/-- Whether a date exists and its year is in range. -/
def isValid (d : Date) : Bool :=
  firstYear ≤ d.year && d.year ≤ lastYear && 1 ≤ d.month && d.month ≤ 12 && 1 ≤ d.day
    && d.day ≤ daysIn d.year d.month

/-- The day after. -/
def next (d : Date) : Date :=
  if d.day < daysIn d.year d.month then { d with day := d.day + 1 }
  else if d.month < 12 then ⟨d.year, d.month + 1, 1⟩
  else ⟨d.year + 1, 1, 1⟩

/-- The day before. -/
def previous (d : Date) : Date :=
  if 1 < d.day then { d with day := d.day - 1 }
  else if 1 < d.month then ⟨d.year, d.month - 1, daysIn d.year (d.month - 1)⟩
  else ⟨d.year - 1, 12, 31⟩

/-- Going back undoes going forward. -/
theorem previous_next {d : Date} (h : d.isValid = true) : d.next.previous = d := by
  obtain ⟨y, m, k⟩ := d
  simp only [isValid, Bool.and_eq_true, decide_eq_true_eq] at h
  simp only [next]
  split
  · simp [previous]; omega
  · next hk =>
    have hlast : k = daysIn y m := by omega
    split
    · simp [previous, hlast]; omega
    · have hm : m = 12 := by omega
      subst hm
      simp [previous, hlast, daysIn]

end Date

end LogBinder
