/-
Calendar dates as seconds.

`DateTime.unix` counts the seconds from the start of 1970 to a date and time of
the Gregorian calendar, without leap seconds and without a time zone.  The last
second of a month is the one before the first second of the next
(`unix_monthEnd_add_one`).  `DateTime.ofUnix` goes the other way (`unix_ofUnix`).
-/
import Mathlib.Tactic

namespace Calendar

structure DateTime where
  year : ℕ
  month : ℕ
  day : ℕ
  hour : ℕ
  minute : ℕ
  second : ℕ
  deriving DecidableEq

def IsLeap (year : ℕ) : Prop := year % 4 = 0 ∧ (year % 100 ≠ 0 ∨ year % 400 = 0)

instance (year : ℕ) : Decidable (IsLeap year) := inferInstanceAs (Decidable (_ ∧ _))

def daysIn (year month : ℕ) : ℕ :=
  if month = 2 then if IsLeap year then 29 else 28
  else if month = 4 ∨ month = 6 ∨ month = 9 ∨ month = 11 then 30
  else 31

/-- The days from the start of year 1 to the start of a year. -/
def daysBeforeYear (year : ℕ) : ℤ :=
  let y : ℤ := year - 1
  365 * y + y / 4 - y / 100 + y / 400

/-- The days from the start of a year to the start of a month. -/
def daysBeforeMonth (year month : ℕ) : ℕ := ((List.range' 1 (month - 1)).map (daysIn year)).sum

/-- The days from the start of year 1 to the start of a day. -/
def days (year month day : ℕ) : ℤ :=
  daysBeforeYear year + daysBeforeMonth year month + (day - 1)

def DateTime.unix (t : DateTime) : ℤ :=
  ((days t.year t.month t.day - days 1970 1 1) * 24 + t.hour) * 3600 + t.minute * 60 + t.second

/-! ### Months -/

/-- The first second of a month. -/
def monthStart (year month : ℕ) : DateTime := ⟨year, month, 1, 0, 0, 0⟩

/-- The last second of a month. -/
def monthEnd (year month : ℕ) : DateTime := ⟨year, month, daysIn year month, 23, 59, 59⟩

theorem daysIn_pos (year month : ℕ) : 0 < daysIn year month := by
  unfold daysIn
  split_ifs <;> omega

theorem daysBeforeYear_succ (year : ℕ) :
    daysBeforeYear (year + 1) = daysBeforeYear year + if IsLeap year then 366 else 365 := by
  unfold daysBeforeYear
  dsimp only
  split
  · rename_i h
    obtain ⟨h4, h100⟩ := h
    push_cast
    omega
  · rename_i h
    rw [IsLeap] at h
    push_cast
    omega

theorem daysBeforeMonth_succ {month : ℕ} (year : ℕ) (h : 1 ≤ month) :
    daysBeforeMonth year (month + 1) = daysBeforeMonth year month + daysIn year month := by
  obtain ⟨m, rfl⟩ : ∃ m, month = m + 1 := ⟨month - 1, by omega⟩
  simp only [daysBeforeMonth, Nat.add_sub_cancel]
  rw [List.range'_concat, List.map_append, List.sum_append, List.map_singleton, List.sum_singleton,
    Nat.one_mul, Nat.add_comm 1 m]

theorem daysBeforeMonth_thirteen (year : ℕ) :
    daysBeforeMonth year 13 = if IsLeap year then 366 else 365 := by
  by_cases h : IsLeap year
  · simp [daysBeforeMonth, daysIn, List.range', h]
  · simp [daysBeforeMonth, daysIn, List.range', h]

/-- The month after a month, by year and number. -/
def nextMonth (year month : ℕ) : ℕ × ℕ := if month = 12 then (year + 1, 1) else (year, month + 1)

theorem days_nextMonth {month : ℕ} (year : ℕ) (h : 1 ≤ month) :
    days (nextMonth year month).1 (nextMonth year month).2 1
      = days year month (daysIn year month) + 1 := by
  have hnext := daysBeforeMonth_succ year h
  rw [nextMonth]
  split
  · rename_i h12
    subst h12
    rw [daysBeforeMonth_thirteen] at hnext
    simp only [days, daysBeforeYear_succ]
    have hone : daysBeforeMonth (year + 1) 1 = 0 := rfl
    rw [hone]
    split at hnext
    · rename_i hl
      rw [if_pos hl]
      push_cast
      omega
    · rename_i hl
      rw [if_neg hl]
      push_cast
      omega
  · simp only [days, hnext]
    push_cast
    omega

/-- The last second of a month comes right before the next month. -/
theorem unix_monthEnd_add_one {year month : ℕ} (h : 1 ≤ month) :
    (monthEnd year month).unix + 1
      = (monthStart (nextMonth year month).1 (nextMonth year month).2).unix := by
  have hdays := days_nextMonth year h
  simp only [DateTime.unix, monthEnd, monthStart, hdays]
  push_cast
  ring

theorem unix_monthStart_le (year month : ℕ) :
    (monthStart year month).unix ≤ (monthEnd year month).unix := by
  have hpos := daysIn_pos year month
  simp only [DateTime.unix, monthEnd, monthStart, days]
  push_cast
  omega

/-! ### The date of a second -/

def daysInYear (year : ℕ) : ℕ := if IsLeap year then 366 else 365

/-- Take whole periods off a number of days, from period `k` on and at most `n`
of them: the period that is reached, and the days of it that are over. -/
def splitOff (len : ℕ → ℕ) : ℕ → ℕ → ℕ → ℕ × ℕ
  | 0, k, d => (k, d)
  | n + 1, k, d => if d < len k then (k, d) else splitOff len n (k + 1) (d - len k)

/-- The date and time that is `n` seconds after the start of 1970. -/
def DateTime.ofUnix (n : ℕ) : DateTime :=
  let years := splitOff daysInYear (n / 86400 + 1) 1970 (n / 86400)
  let months := splitOff (daysIn years.1) 12 1 years.2
  ⟨years.1, months.1, months.2 + 1, n % 86400 / 3600, n % 3600 / 60, n % 60⟩

section SplitOff

variable (len : ℕ → ℕ) (before : ℕ → ℤ) {n k d : ℕ}

/-- No day is lost. -/
theorem splitOff_sum (hbefore : ∀ j, k ≤ j → before (j + 1) = before j + len j) :
    before (splitOff len n k d).1 + (splitOff len n k d).2 = before k + d := by
  induction n generalizing k d with
  | zero => rfl
  | succ n ih =>
    rw [splitOff]
    split
    · rfl
    · rename_i hd
      rw [ih fun j hj => hbefore j (by omega), hbefore k le_rfl]
      push_cast [Nat.le_of_not_lt hd]
      ring

/-- The days that are left lie in the period that is reached. -/
theorem splitOff_lt (hbefore : ∀ j, k ≤ j → before (j + 1) = before j + len j)
    (hd : before k + d < before (k + n)) :
    (splitOff len n k d).2 < len (splitOff len n k d).1 ∧
      k ≤ (splitOff len n k d).1 ∧ (splitOff len n k d).1 < k + n := by
  induction n generalizing k d with
  | zero =>
    rw [Nat.add_zero] at hd
    omega
  | succ n ih =>
    rw [splitOff]
    split
    · rename_i hlt
      exact ⟨hlt, le_rfl, by omega⟩
    · rename_i hle
      have hstep := hbefore k le_rfl
      have hrest : before (k + 1) + (d - len k : ℕ) < before (k + 1 + n) := by
        rw [hstep, show k + 1 + n = k + (n + 1) by omega]
        push_cast [Nat.le_of_not_lt hle]
        linarith
      obtain ⟨h1, h2, h3⟩ := ih (fun j hj => hbefore j (by omega)) hrest
      exact ⟨h1, by omega, by omega⟩

end SplitOff

theorem daysBeforeYear_step (year : ℕ) :
    daysBeforeYear (year + 1) = daysBeforeYear year + daysInYear year := by
  rw [daysBeforeYear_succ, daysInYear]
  split <;> rfl

theorem daysBeforeMonth_step (year : ℕ) (month : ℕ) (h : 1 ≤ month) :
    (daysBeforeMonth year (month + 1) : ℤ) = daysBeforeMonth year month + daysIn year month := by
  exact_mod_cast daysBeforeMonth_succ year h

theorem le_daysBeforeYear (n : ℕ) : daysBeforeYear 1970 + n ≤ daysBeforeYear (1970 + n) := by
  induction n with
  | zero => simp
  | succ n ih =>
    have hstep := daysBeforeYear_step (1970 + n)
    have hpos : 1 ≤ daysInYear (1970 + n) := by rw [daysInYear]; split <;> omega
    rw [show 1970 + (n + 1) = 1970 + n + 1 by omega, hstep]
    push_cast
    omega

/-- What `ofUnix` takes off the days: first the years, then the months. -/
theorem years_lt (d : ℕ) : (splitOff daysInYear (d + 1) 1970 d).2
    < daysInYear (splitOff daysInYear (d + 1) 1970 d).1 := by
  refine (splitOff_lt _ daysBeforeYear (fun j _ => daysBeforeYear_step j) ?_).1
  have hfar := le_daysBeforeYear (d + 1)
  push_cast at hfar
  omega

theorem months_lt {year d : ℕ} (h : d < daysInYear year) :
    (splitOff (daysIn year) 12 1 d).2 < daysIn year (splitOff (daysIn year) 12 1 d).1 ∧
      1 ≤ (splitOff (daysIn year) 12 1 d).1 ∧ (splitOff (daysIn year) 12 1 d).1 < 1 + 12 := by
  refine splitOff_lt _ (fun m => (daysBeforeMonth year m : ℤ))
    (daysBeforeMonth_step year) ?_
  have hyear : daysBeforeMonth year (1 + 12) = daysInYear year := daysBeforeMonth_thirteen year
  have hone : daysBeforeMonth year 1 = 0 := rfl
  rw [hyear, hone]
  push_cast
  omega

/-- **The seconds of the date of a second.** -/
theorem unix_ofUnix (n : ℕ) : (DateTime.ofUnix n).unix = n := by
  have hyears := splitOff_sum daysInYear daysBeforeYear (n := n / 86400 + 1)
    (k := 1970) (d := n / 86400) fun j _ => daysBeforeYear_step j
  set years := splitOff daysInYear (n / 86400 + 1) 1970 (n / 86400) with hy
  have hmonths := splitOff_sum (daysIn years.1) (fun m => (daysBeforeMonth years.1 m : ℤ))
    (n := 12) (d := years.2) (daysBeforeMonth_step years.1)
  have hone : daysBeforeMonth years.1 1 = 0 := rfl
  have horigin : days 1970 1 1 = daysBeforeYear 1970 := by decide
  simp only [DateTime.ofUnix, DateTime.unix, ← hy, days] at *
  rw [hone] at hmonths
  push_cast at *
  omega

/-- The numbers of a date of `ofUnix` have at most two digits. -/
theorem ofUnix_bounds (n : ℕ) :
    (DateTime.ofUnix n).month < 100 ∧ (DateTime.ofUnix n).day < 100 ∧
      (DateTime.ofUnix n).hour < 100 ∧ (DateTime.ofUnix n).minute < 100 ∧
      (DateTime.ofUnix n).second < 100 := by
  obtain ⟨hday, -, hmonth⟩ := months_lt (years_lt (n / 86400))
  have hmax : ∀ year month, daysIn year month ≤ 31 := by
    intro year month
    rw [daysIn]
    split_ifs <;> omega
  have hday31 := hday.trans_le (hmax _ _)
  simp only [DateTime.ofUnix]
  omega

/-- A 32-bit number of seconds falls in a year of four digits. -/
theorem ofUnix_year_lt {n : ℕ} (h : n < 2 ^ 32) : (DateTime.ofUnix n).year < 10000 := by
  have hyears := splitOff_sum daysInYear daysBeforeYear (n := n / 86400 + 1)
    (k := 1970) (d := n / 86400) fun j _ => daysBeforeYear_step j
  simp only [DateTime.ofUnix]
  simp only [daysBeforeYear] at hyears
  omega

end Calendar
