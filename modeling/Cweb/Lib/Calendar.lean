import Mathlib.Algebra.Order.BigOperators.Group.List
import Mathlib.Algebra.Order.Group.Nat
import Mathlib.Data.Fin.Basic
import Mathlib.Algebra.GroupWithZero.Nat

/-!
# The Gregorian calendar

Days are numbered from the first of January of the year 0, with the present
leap years for all years. A date is found from its number and the number from
the date, and the next date has the next number.
-/

namespace Calendar

instance months_pos : NeZero 12 := ⟨by decide⟩

instance weekdays_pos : NeZero 7 := ⟨by decide⟩

def isLeap (year : Int) : Bool := year % 4 = 0 && (year % 100 ≠ 0 || year % 400 = 0)

def monthLength (leap : Bool) (month : Fin 12) : Nat :=
  [31, if leap then 29 else 28, 31, 30, 31, 30, 31, 31, 30, 31, 30, 31].getD month 0

/-- The days of a year in front of a month; the month 12 is the end of the year. -/
def daysBeforeMonth (leap : Bool) (month : Nat) : Nat :=
  ([31, if leap then 29 else 28, 31, 30, 31, 30, 31, 31, 30, 31, 30, 31].take month).sum

def yearLength (year : Int) : Int := if isLeap year then 366 else 365

def daysBeforeYear (year : Int) : Int := 365 * year + (year + 3) / 4 - (year + 99) / 100 + (year + 399) / 400

/-- The number of the day. A day beyond the end of the month is one of the next month. -/
def dayNumber (year : Int) (month : Fin 12) (day : Int) : Int :=
  daysBeforeYear year + daysBeforeMonth (isLeap year) month + day - 1

structure Date where
  year : Int
  month : Fin 12
  day : Nat
  one_le_day : 1 ≤ day
  day_le : day ≤ monthLength (isLeap year) month

def Date.number (date : Date) : Int := dayNumber date.year date.month date.day

/-! ## Months and years -/

theorem daysBeforeMonth_succ (leap : Bool) (month : Fin 12) :
    daysBeforeMonth leap (month + 1) = daysBeforeMonth leap month + monthLength leap month := by
  revert leap month
  decide

theorem monthLength_ge (leap : Bool) (month : Fin 12) : 28 ≤ monthLength leap month := by
  revert leap month
  decide

theorem monthLength_le (leap : Bool) (month : Fin 12) : monthLength leap month ≤ 31 := by
  revert leap month
  decide

theorem daysBeforeMonth_mono (leap : Bool) {month month' : Nat} (h : month ≤ month') :
    daysBeforeMonth leap month ≤ daysBeforeMonth leap month' :=
  (List.take_sublist_take_left h).sum_le_sum fun _ _ => Nat.zero_le _

@[simp] theorem daysBeforeMonth_twelve (year : Int) :
    (daysBeforeMonth (isLeap year) 12 : Int) = yearLength year := by
  rw [yearLength]
  cases isLeap year <;> rfl

theorem daysBeforeYear_succ (year : Int) : daysBeforeYear (year + 1) = daysBeforeYear year +
    yearLength year := by
  simp only [daysBeforeYear, yearLength, isLeap, Bool.and_eq_true, Bool.or_eq_true, decide_eq_true_eq]
  split <;> omega

theorem daysBeforeYear_mono {year year' : Int} (h : year ≤ year') :
    daysBeforeYear year ≤ daysBeforeYear year' := by
  simp only [daysBeforeYear]
  omega

theorem Date.number_bounds (date : Date) :
    daysBeforeYear date.year ≤ date.number ∧ date.number < daysBeforeYear (date.year + 1) := by
  have hMonth : daysBeforeMonth (isLeap date.year) date.month + monthLength (isLeap date.year) date.month ≤
      daysBeforeMonth (isLeap date.year) 12 :=
    daysBeforeMonth_succ _ date.month ▸ daysBeforeMonth_mono _ (Nat.succ_le_of_lt date.month.isLt)
  have hYear : (daysBeforeMonth (isLeap date.year) 12 : Int) = yearLength date.year :=
    daysBeforeMonth_twelve date.year
  have hFrom := date.one_le_day
  have hTo := date.day_le
  rw [daysBeforeYear_succ, Date.number, dayNumber]
  omega

/-! ## One number for each date -/

theorem Date.year_le {a b : Date} (h : a.number ≤ b.number) : a.year ≤ b.year := by
  by_contra hNot
  have hMono : daysBeforeYear (b.year + 1) ≤ daysBeforeYear a.year := daysBeforeYear_mono (by omega)
  have hBefore := a.number_bounds.1
  have hAfter := b.number_bounds.2
  omega

theorem Date.month_le {a b : Date} (hYear : a.year = b.year) (h : a.number ≤ b.number) :
    a.month ≤ b.month := by
  by_contra hNot
  have hMono : daysBeforeMonth (isLeap b.year) (b.month + 1) ≤ daysBeforeMonth (isLeap b.year) a.month :=
    daysBeforeMonth_mono _ (by omega)
  rw [daysBeforeMonth_succ] at hMono
  have hFrom := a.one_le_day
  have hTo := b.day_le
  simp only [Date.number, dayNumber, hYear] at h
  omega

theorem Date.number_injective {a b : Date} (h : a.number = b.number) : a = b := by
  have hYear : a.year = b.year := Int.le_antisymm (Date.year_le h.le) (Date.year_le h.ge)
  have hMonth : a.month = b.month :=
    Fin.le_antisymm (Date.month_le hYear h.le) (Date.month_le hYear.symm h.ge)
  obtain ⟨year, month, day, hFrom, hTo⟩ := a
  obtain ⟨year', month', day', hFrom', hTo'⟩ := b
  obtain rfl : year = year' := hYear
  obtain rfl : month = month' := hMonth
  have hDay : day = day' := by
    simp only [Date.number, dayNumber] at h
    omega
  subst hDay
  rfl

/-! ## The next date -/

def first : Date := ⟨0, 0, 1, Nat.le_refl 1, by decide⟩

def Date.next (date : Date) : Date :=
  if h : date.day < monthLength (isLeap date.year) date.month then
    ⟨date.year, date.month, date.day + 1, by omega, h⟩
  else if hMonth : date.month.val + 1 < 12 then
    ⟨date.year, ⟨date.month + 1, hMonth⟩, 1, Nat.le_refl 1, by
      have := monthLength_ge (isLeap date.year) ⟨date.month + 1, hMonth⟩; omega⟩
  else ⟨date.year + 1, 0, 1, Nat.le_refl 1, by have := monthLength_ge (isLeap (date.year + 1)) 0; omega⟩

theorem Date.number_next (date : Date) : date.next.number = date.number + 1 := by
  have hTo := date.day_le
  have hMonth := daysBeforeMonth_succ (isLeap date.year) date.month
  rw [Date.next]
  split
  · simp only [Date.number, dayNumber]
    omega
  · split
    · simp only [Date.number, dayNumber, hMonth]
      omega
    · rename_i hDay hLast
      have hTwelve : date.month.val + 1 = 12 := by omega
      have hYear := daysBeforeMonth_twelve date.year
      rw [hTwelve] at hMonth
      rw [hMonth] at hYear
      have hZero : daysBeforeMonth (isLeap (date.year + 1)) (0 : Fin 12) = 0 := by
        cases isLeap (date.year + 1) <;> rfl
      simp only [Date.number, dayNumber, daysBeforeYear_succ, hZero]
      omega

/-- The date of a day since the first one. -/
def dateOf (n : Nat) : Date := Date.next^[n] first

@[simp] theorem number_dateOf (n : Nat) : (dateOf n).number = n := by
  induction n with
  | zero => decide
  | succ n ih =>
    rw [dateOf, Function.iterate_succ_apply', Date.number_next]
    simpa [dateOf] using ih

end Calendar
