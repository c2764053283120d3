import Mathlib.Tactic.SplitIfs

/-! The proleptic Gregorian calendar over day numbers, day 0 being 1970-01-01,
by the day and year arithmetic of ECMAScript. -/
namespace Calendar

/-- The day number of the first day of a year. -/
def dayFromYear (y : Int) : Int :=
  365 * (y - 1970) + (y - 1969) / 4 - (y - 1901) / 100 + (y - 1601) / 400

def isLeap (y : Int) : Bool := y % 4 = 0 && (y % 100 ≠ 0 || y % 400 = 0)

def leapDay (y : Int) : Nat := if isLeap y then 1 else 0

/-- The year of a day: the mean year length gives it up to one. -/
def yearFromDay (d : Int) : Int :=
  let y := 1970 + 400 * d / 146097
  if d < dayFromYear y then y - 1 else if dayFromYear (y + 1) ≤ d then y + 1 else y

/-- A year has 365 days, and one more if it is a leap year. -/
theorem dayFromYear_succ (y : Int) : dayFromYear (y + 1) = dayFromYear y + 365 + leapDay y := by
  unfold dayFromYear leapDay isLeap
  simp only [Bool.and_eq_true, Bool.or_eq_true, decide_eq_true_eq]
  split_ifs with hLeap <;> push_cast <;> omega

/-- A year starts less than two days off its mean position. -/
theorem dayFromYear_bounds (y : Int) :
    146097 * (y - 1970) - 800 < 400 * dayFromYear y ∧
      400 * dayFromYear y < 146097 * (y - 1970) + 800 := by
  unfold dayFromYear
  omega

/-- The year of a day is the one that has started but not ended on it. -/
theorem yearFromDay_spec (d : Int) :
    dayFromYear (yearFromDay d) ≤ d ∧ d < dayFromYear (yearFromDay d + 1) := by
  have hBefore := dayFromYear_bounds (1970 + 400 * d / 146097 - 1)
  have hAfter := dayFromYear_bounds (1970 + 400 * d / 146097 + 1 + 1)
  unfold yearFromDay
  simp only
  split_ifs with hEarly hLate
  · rw [Int.sub_add_cancel]
    refine ⟨?_, hEarly⟩
    omega
  · refine ⟨hLate, ?_⟩
    omega
  · exact ⟨Int.not_lt.mp hEarly, Int.not_le.mp hLate⟩

/-- Days of the year before the given month, January being month 1. -/
def daysBeforeMonth (leap : Nat) : Nat → Nat
  | 0 => 0
  | 1 => 0
  | 2 => 31
  | 3 => 59 + leap
  | 4 => 90 + leap
  | 5 => 120 + leap
  | 6 => 151 + leap
  | 7 => 181 + leap
  | 8 => 212 + leap
  | 9 => 243 + leap
  | 10 => 273 + leap
  | 11 => 304 + leap
  | 12 => 334 + leap
  | _ => 365 + leap

def daysInMonth (leap : Nat) (m : Nat) : Nat := daysBeforeMonth leap (m + 1) - daysBeforeMonth leap m

/-- The last of the first `n` months that has begun on a day of the year,
counted from 0. -/
def monthBegun (leap w : Nat) : Nat → Nat
  | 0 => 0
  | m + 1 => if daysBeforeMonth leap (m + 1) ≤ w then m + 1 else monthBegun leap w m

theorem monthBegun_spec {leap w n : Nat} (hn : 1 ≤ n) (h : w < daysBeforeMonth leap (n + 1)) :
    1 ≤ monthBegun leap w n ∧ monthBegun leap w n ≤ n ∧
      daysBeforeMonth leap (monthBegun leap w n) ≤ w ∧
      w < daysBeforeMonth leap (monthBegun leap w n + 1) := by
  induction n with
  | zero => cases hn
  | succ m ih =>
      unfold monthBegun
      split_ifs with hBegun
      · exact ⟨hn, Nat.le_refl _, hBegun, h⟩
      · have hEarlier : w < daysBeforeMonth leap (m + 1) := Nat.lt_of_not_le hBegun
        have hm : 1 ≤ m := by
          cases m with
          | zero => exact absurd hEarlier (Nat.not_lt_zero w)
          | succ m => exact Nat.succ_le_succ (Nat.zero_le m)
        obtain ⟨hFirst, hLast, hFrom, hTo⟩ := ih hm hEarlier
        exact ⟨hFirst, Nat.le_succ_of_le hLast, hFrom, hTo⟩

def monthFromDayOfYear (leap w : Nat) : Nat := monthBegun leap w 12

/-- The month of a day of the year is the one that it falls in. -/
theorem monthFromDayOfYear_spec {leap w : Nat} (h : w < 365 + leap) :
    1 ≤ monthFromDayOfYear leap w ∧ monthFromDayOfYear leap w ≤ 12 ∧
      daysBeforeMonth leap (monthFromDayOfYear leap w) ≤ w ∧
      w < daysBeforeMonth leap (monthFromDayOfYear leap w + 1) :=
  monthBegun_spec (by decide) h

/-- A calendar date; the month and the day of the month are counted from 1. -/
structure Date where
  year : Int
  month : Nat
  day : Nat
  deriving DecidableEq

/-- The date names a day that exists. -/
def Date.Valid (t : Date) : Prop :=
  1 ≤ t.month ∧ t.month ≤ 12 ∧ 1 ≤ t.day ∧ t.day ≤ daysInMonth (leapDay t.year) t.month

instance (t : Date) : Decidable t.Valid := by unfold Date.Valid; infer_instance

def Date.ofDay (d : Int) : Date :=
  let y := yearFromDay d
  let w := (d - dayFromYear y).toNat
  let m := monthFromDayOfYear (leapDay y) w
  ⟨y, m, w - daysBeforeMonth (leapDay y) m + 1⟩

def Date.toDay (t : Date) : Int :=
  dayFromYear t.year + daysBeforeMonth (leapDay t.year) t.month + t.day - 1

/-- How far into its year a day is. -/
theorem dayOfYear_spec (d : Int) :
    d = dayFromYear (yearFromDay d) + (d - dayFromYear (yearFromDay d)).toNat ∧
      (d - dayFromYear (yearFromDay d)).toNat < 365 + leapDay (yearFromDay d) := by
  obtain ⟨hStart, hEnd⟩ := yearFromDay_spec d
  rw [dayFromYear_succ] at hEnd
  omega

/-- Every day has a date of the calendar, in all years, those before the common
era among them. -/
theorem Date.ofDay_valid (d : Int) : (Date.ofDay d).Valid := by
  obtain ⟨_, hBound⟩ := dayOfYear_spec d
  obtain ⟨hFirst, hLast, hFrom, hTo⟩ := monthFromDayOfYear_spec hBound
  refine ⟨hFirst, hLast, Nat.succ_pos _, ?_⟩
  simp only [Date.ofDay, daysInMonth]
  omega

/-- Every day number is recovered from its date. -/
theorem Date.toDay_ofDay (d : Int) : (Date.ofDay d).toDay = d := by
  obtain ⟨hDay, hBound⟩ := dayOfYear_spec d
  obtain ⟨_, _, hFrom, _⟩ := monthFromDayOfYear_spec hBound
  simp only [Date.ofDay, Date.toDay]
  omega

theorem Date.ofDay_day_le (d : Int) : (Date.ofDay d).day ≤ 31 := by
  obtain ⟨hFirst, hLast, _, hDay⟩ := Date.ofDay_valid d
  have hMonth : ∀ leap ≤ 1, ∀ m ≤ 12, daysInMonth leap m ≤ 31 := by decide
  have hLeap : leapDay (Date.ofDay d).year ≤ 1 := by
    unfold leapDay
    split_ifs <;> omega
  exact Nat.le_trans hDay (hMonth _ hLeap _ hLast)

end Calendar
