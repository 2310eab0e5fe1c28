/-
`timerange.h`: the months of the analysis.

`set_parameter` writes two files for a month: the date at which `unzipBlocks`
stops, and the limits between which `statistical` looks.  The tables are copied.
What is read from the first file is the last second of the month (`readStop_month`),
from the second its name, the last day of the month three months earlier and its own
first day (`readRange_month`).

The time zone of the program and of the server is UTC.  `unix_timestamp` is
taken to read the six numbers of such a text.
-/
import BitcoinAnalysis.Calendar
import BitcoinAnalysis.Checkpoint

open Calendar DecimalText

namespace BitcoinAnalysis

/-! ### The tables -/

/-- `YEAR` -/
def yearTable : List ℕ :=
  [ 2009, 2009, 2009, 2009, 2009, 2009, 2009, 2009, 2009, 2009, 2009, 2009,
    2010, 2010, 2010, 2010, 2010, 2010, 2010, 2010, 2010, 2010, 2010, 2010,
    2011, 2011, 2011, 2011, 2011, 2011, 2011, 2011, 2011, 2011, 2011, 2011,
    2012, 2012, 2012, 2012, 2012, 2012, 2012, 2012, 2012, 2012, 2012, 2012,
    2013, 2013, 2013, 2013, 2013, 2013, 2013, 2013, 2013, 2013, 2013, 2013,
    2014, 2014, 2014, 2014, 2014, 2014, 2014, 2014, 2014, 2014, 2014, 2014 ]

/-- `MONTH` -/
def monthTable : List ℕ :=
  [ 1, 2, 3, 4, 5, 6, 7, 8, 9, 10, 11, 12,
    1, 2, 3, 4, 5, 6, 7, 8, 9, 10, 11, 12,
    1, 2, 3, 4, 5, 6, 7, 8, 9, 10, 11, 12,
    1, 2, 3, 4, 5, 6, 7, 8, 9, 10, 11, 12,
    1, 2, 3, 4, 5, 6, 7, 8, 9, 10, 11, 12,
    1, 2, 3, 4, 5, 6, 7, 8, 9, 10, 11, 12 ]

/-- `DAY` -/
def dayTable : List ℕ :=
  [ 31, 28, 31, 30, 31, 30, 31, 31, 30, 31, 30, 31,
    31, 28, 31, 30, 31, 30, 31, 31, 30, 31, 30, 31,
    31, 28, 31, 30, 31, 30, 31, 31, 30, 31, 30, 31,
    31, 29, 31, 30, 31, 30, 31, 31, 30, 31, 30, 31,
    31, 28, 31, 30, 31, 30, 31, 31, 30, 31, 30, 31,
    31, 28, 31, 30, 31, 30, 31, 31, 30, 31, 30, 31 ]

/-- `RANGE` -/
def rangeTable : List String :=
  [ "2009-01", "2009-02", "2009-03", "2009-04", "2009-05", "2009-06",
    "2009-07", "2009-08", "2009-09", "2009-10", "2009-11", "2009-12",
    "2010-01", "2010-02", "2010-03", "2010-04", "2010-05", "2010-06",
    "2010-07", "2010-08", "2010-09", "2010-10", "2010-11", "2010-12",
    "2011-01", "2011-02", "2011-03", "2011-04", "2011-05", "2011-06",
    "2011-07", "2011-08", "2011-09", "2011-10", "2011-11", "2011-12",
    "2012-01", "2012-02", "2012-03", "2012-04", "2012-05", "2012-06",
    "2012-07", "2012-08", "2012-09", "2012-10", "2012-11", "2012-12",
    "2013-01", "2013-02", "2013-03", "2013-04", "2013-05", "2013-06",
    "2013-07", "2013-08", "2013-09", "2013-10", "2013-11", "2013-12",
    "2014-01", "2014-02", "2014-03", "2014-04", "2014-05", "2014-06",
    "2014-07", "2014-08", "2014-09", "2014-10", "2014-11", "2014-12" ]

/-- `BEFORE` -/
def beforeTable : List String :=
  [ "2008-10-31-00-00-00", "2008-11-30-00-00-00", "2008-12-31-00-00-00",
    "2009-01-31-00-00-00", "2009-02-28-00-00-00", "2009-03-31-00-00-00",
    "2009-04-30-00-00-00", "2009-05-31-00-00-00", "2009-06-30-00-00-00",
    "2009-07-31-00-00-00", "2009-08-31-00-00-00", "2009-09-30-00-00-00",
    "2009-10-31-00-00-00", "2009-11-30-00-00-00", "2009-12-31-00-00-00",
    "2010-01-31-00-00-00", "2010-02-28-00-00-00", "2010-03-31-00-00-00",
    "2010-04-30-00-00-00", "2010-05-31-00-00-00", "2010-06-30-00-00-00",
    "2010-07-31-00-00-00", "2010-08-31-00-00-00", "2010-09-30-00-00-00",
    "2010-10-31-00-00-00", "2010-11-30-00-00-00", "2010-12-31-00-00-00",
    "2011-01-31-00-00-00", "2011-02-28-00-00-00", "2011-03-31-00-00-00",
    "2011-04-30-00-00-00", "2011-05-31-00-00-00", "2011-06-30-00-00-00",
    "2011-07-31-00-00-00", "2011-08-31-00-00-00", "2011-09-30-00-00-00",
    "2011-10-31-00-00-00", "2011-11-30-00-00-00", "2011-12-31-00-00-00",
    "2012-01-31-00-00-00", "2012-02-29-00-00-00", "2012-03-31-00-00-00",
    "2012-04-30-00-00-00", "2012-05-31-00-00-00", "2012-06-30-00-00-00",
    "2012-07-31-00-00-00", "2012-08-31-00-00-00", "2012-09-30-00-00-00",
    "2012-10-31-00-00-00", "2012-11-30-00-00-00", "2012-12-31-00-00-00",
    "2013-01-31-00-00-00", "2013-02-28-00-00-00", "2013-03-31-00-00-00",
    "2013-04-30-00-00-00", "2013-05-31-00-00-00", "2013-06-30-00-00-00",
    "2013-07-31-00-00-00", "2013-08-31-00-00-00", "2013-09-30-00-00-00",
    "2013-10-31-00-00-00", "2013-11-30-00-00-00", "2013-12-31-00-00-00",
    "2014-01-31-00-00-00", "2014-02-28-00-00-00", "2014-03-31-00-00-00",
    "2014-04-30-00-00-00", "2014-05-31-00-00-00", "2014-06-30-00-00-00",
    "2014-07-31-00-00-00", "2014-08-31-00-00-00", "2014-09-30-00-00-00" ]

/-- `AFTER` -/
def afterTable : List String :=
  [ "2009-01-01-00-00-00", "2009-02-01-00-00-00", "2009-03-01-00-00-00",
    "2009-04-01-00-00-00", "2009-05-01-00-00-00", "2009-06-01-00-00-00",
    "2009-07-01-00-00-00", "2009-08-01-00-00-00", "2009-09-01-00-00-00",
    "2009-10-01-00-00-00", "2009-11-01-00-00-00", "2009-12-01-00-00-00",
    "2010-01-01-00-00-00", "2010-02-01-00-00-00", "2010-03-01-00-00-00",
    "2010-04-01-00-00-00", "2010-05-01-00-00-00", "2010-06-01-00-00-00",
    "2010-07-01-00-00-00", "2010-08-01-00-00-00", "2010-09-01-00-00-00",
    "2010-10-01-00-00-00", "2010-11-01-00-00-00", "2010-12-01-00-00-00",
    "2011-01-01-00-00-00", "2011-02-01-00-00-00", "2011-03-01-00-00-00",
    "2011-04-01-00-00-00", "2011-05-01-00-00-00", "2011-06-01-00-00-00",
    "2011-07-01-00-00-00", "2011-08-01-00-00-00", "2011-09-01-00-00-00",
    "2011-10-01-00-00-00", "2011-11-01-00-00-00", "2011-12-01-00-00-00",
    "2012-01-01-00-00-00", "2012-02-01-00-00-00", "2012-03-01-00-00-00",
    "2012-04-01-00-00-00", "2012-05-01-00-00-00", "2012-06-01-00-00-00",
    "2012-07-01-00-00-00", "2012-08-01-00-00-00", "2012-09-01-00-00-00",
    "2012-10-01-00-00-00", "2012-11-01-00-00-00", "2012-12-01-00-00-00",
    "2013-01-01-00-00-00", "2013-02-01-00-00-00", "2013-03-01-00-00-00",
    "2013-04-01-00-00-00", "2013-05-01-00-00-00", "2013-06-01-00-00-00",
    "2013-07-01-00-00-00", "2013-08-01-00-00-00", "2013-09-01-00-00-00",
    "2013-10-01-00-00-00", "2013-11-01-00-00-00", "2013-12-01-00-00-00",
    "2014-01-01-00-00-00", "2014-02-01-00-00-00", "2014-03-01-00-00-00",
    "2014-04-01-00-00-00", "2014-05-01-00-00-00", "2014-06-01-00-00-00",
    "2014-07-01-00-00-00", "2014-08-01-00-00-00", "2014-09-01-00-00-00",
    "2014-10-01-00-00-00", "2014-11-01-00-00-00", "2014-12-01-00-00-00" ]

/-! ### Writing and reading the two files -/

/-- `1.unzip_1.txt` and `5.statistic.txt`, as `set_parameter` writes them. -/
def setParameter (i : ℕ) : Except Fault (List Char × List Char) :=
  match yearTable[i]?, monthTable[i]?, dayTable[i]?, rangeTable[i]?, beforeTable[i]?,
    afterTable[i]? with
  | some year, some month, some day, some range, some before, some after =>
    .ok (showInt year ++ '\n' :: (showInt month ++ '\n' :: (showInt day ++ ['\n'])),
      range.toList ++ '\n' :: (before.toList ++ '\n' :: (after.toList ++ ['\n'])))
  | _, _, _, _, _, _ => .error .outOfRange

/-- `parameter >> STOPYEAR >> STOPMON >> STOPDAY` -/
def readStop (text : List Char) : Option (UInt32 × UInt32 × UInt32) := do
  let (stopyear, text) ← extractU32 text
  let (stopmon, text) ← extractU32 text
  let (stopday, _) ← extractU32 text
  some (stopyear, stopmon, stopday)

/-- `mktime(&stoptm)` -/
def stoptm (stop : UInt32 × UInt32 × UInt32) : ℤ :=
  (DateTime.mk stop.1.toNat stop.2.1.toNat stop.2.2.toNat 23 59 59).unix

/-- `timefile.getline(temp_time_c, n)`: a line shorter than `n`, and what follows. -/
def getline (n : ℕ) (text : List Char) : Option (List Char × List Char) :=
  match text.dropWhile (· ≠ '\n') with
  | [] => none
  | _ :: rest =>
    let line := text.takeWhile (· ≠ '\n')
    if line.length < n then some (line, rest) else none

/-- The texts `timerange`, `before` and `after`. -/
def readRange (text : List Char) : Option (List Char × List Char × List Char) := do
  let (timerange, text) ← getline 8 text
  let (before, text) ← getline 20 text
  let (after, _) ← getline 20 text
  some (timerange, before, after)

/-- `unix_timestamp('…')`; `none` is `NULL`. -/
def unixTimestamp (text : List Char) : Option ℤ :=
  match (text.splitOn '-').map (Nat.ofDigitChars 10 · 0) with
  | [year, month, day, hour, minute, second] =>
    some (DateTime.mk year month day hour minute second).unix
  | _ => none

/-! ### The months -/

/-- The first second of the month a parameter stands for. -/
def monthStart (i : ℕ) : ℤ := (Calendar.monthStart (2009 + i / 12) (i % 12 + 1)).unix

/-- Its last second. -/
def monthEnd (i : ℕ) : ℤ := (Calendar.monthEnd (2009 + i / 12) (i % 12 + 1)).unix

theorem monthEnd_add_one (i : ℕ) : monthEnd i + 1 = monthStart (i + 1) := by
  have hnext : nextMonth (2009 + i / 12) (i % 12 + 1) = (2009 + (i + 1) / 12, (i + 1) % 12 + 1) := by
    rw [nextMonth]
    split
    · exact Prod.ext (by simp only; omega) (by simp only; omega)
    · exact Prod.ext (by simp only; omega) (by simp only; omega)
  rw [monthEnd, unix_monthEnd_add_one (Nat.le_add_left 1 _), hnext, monthStart]

theorem monthStart_le_monthEnd (i : ℕ) : monthStart i ≤ monthEnd i := unix_monthStart_le _ _

theorem monthStart_mono : Monotone monthStart :=
  monotone_nat_of_le_succ fun i => by
    have hle := monthStart_le_monthEnd i
    have hnext := monthEnd_add_one i
    omega

theorem monthEnd_lt_monthStart {i j : ℕ} (h : i < j) : monthEnd i < monthStart j := by
  have hmono := monthStart_mono h
  have hnext := monthEnd_add_one i
  rw [Nat.succ_eq_add_one] at hmono
  omega

theorem monthEnd_mono : Monotone monthEnd :=
  monotone_nat_of_le_succ fun i =>
    (monthEnd_lt_monthStart (Nat.lt_succ_self i)).le.trans (monthStart_le_monthEnd (i + 1))

/-- A time is in one month only. -/
theorem month_unique {i j : ℕ} {x : ℤ} (hi : monthStart i < x) (hi' : x ≤ monthEnd i)
    (hj : monthStart j < x) (hj' : x ≤ monthEnd j) : i = j := by
  rcases lt_trichotomy i j with h | h | h
  · have := monthEnd_lt_monthStart h
    omega
  · exact h
  · have := monthEnd_lt_monthStart h
    omega

/-! ### What the tables hold -/

def twoDigits (n : ℕ) : List Char := [Nat.digitChar (n / 10), Nat.digitChar (n % 10)]

/-- `YYYY-MM` -/
def monthText (year month : ℕ) : List Char :=
  twoDigits (year / 100) ++ twoDigits (year % 100) ++ '-' :: twoDigits month

/-- `YYYY-MM-DD-00-00-00` -/
def dateText (year month day : ℕ) : List Char :=
  monthText year month ++ '-' :: twoDigits day ++ ['-', '0', '0', '-', '0', '0', '-', '0', '0']

theorem yearTable_eq : yearTable = (List.range 72).map fun i => 2009 + i / 12 := by rfl

theorem monthTable_eq : monthTable = (List.range 72).map fun i => i % 12 + 1 := by rfl

theorem dayTable_eq :
    dayTable = (List.range 72).map fun i => daysIn (2009 + i / 12) (i % 12 + 1) := by
  decide +kernel

theorem rangeTable_eq : rangeTable = (List.range 72).map fun i =>
    String.ofList (monthText (2009 + i / 12) (i % 12 + 1)) := by rfl

/-- The last day of the month three months earlier. -/
theorem beforeTable_eq : beforeTable = (List.range 72).map fun i =>
    String.ofList (dateText (2008 + (i + 9) / 12) ((i + 9) % 12 + 1)
      (daysIn (2008 + (i + 9) / 12) ((i + 9) % 12 + 1))) := by rfl

theorem afterTable_eq : afterTable = (List.range 72).map fun i =>
    String.ofList (dateText (2009 + i / 12) (i % 12 + 1) 1) := by rfl

/-- The texts `set_parameter` writes for a month. -/
def parameterTexts (i : ℕ) : List Char × List Char :=
  let year := 2009 + i / 12
  let month := i % 12 + 1
  let beforeYear := 2008 + (i + 9) / 12
  let beforeMonth := (i + 9) % 12 + 1
  (showInt year ++ '\n' :: (showInt month ++ '\n' :: (showInt (daysIn year month) ++ ['\n'])),
    monthText year month ++ '\n' ::
      (dateText beforeYear beforeMonth (daysIn beforeYear beforeMonth) ++ '\n' ::
        (dateText year month 1 ++ ['\n'])))

theorem setParameter_eq (i : ℕ) :
    setParameter i = if i < 72 then .ok (parameterTexts i) else .error .outOfRange := by
  rw [setParameter, yearTable_eq, monthTable_eq, dayTable_eq, rangeTable_eq, beforeTable_eq,
    afterTable_eq]
  simp only [List.getElem?_map]
  split_ifs with h
  · rw [List.getElem?_range h]
    simp only [Option.map_some, String.toList_ofList]
    rfl
  · rw [List.getElem?_eq_none (by simpa using h)]
    rfl

/-! ### What is read from the files -/

/-- The stop time is the last second of the month. -/
theorem readStop_month :
    ∀ i < 72, (readStop (parameterTexts i).1).map stoptm = some (monthEnd i) := by
  decide +kernel

/-- The texts of a month's report, as `set_parameter` writes them. -/
def rangeText (i : ℕ) : List Char := monthText (2009 + i / 12) (i % 12 + 1)

def beforeText (i : ℕ) : List Char :=
  dateText (2008 + (i + 9) / 12) ((i + 9) % 12 + 1)
    (daysIn (2008 + (i + 9) / 12) ((i + 9) % 12 + 1))

def afterText (i : ℕ) : List Char := dateText (2009 + i / 12) (i % 12 + 1) 1

theorem readRange_month :
    ∀ i < 72, readRange (parameterTexts i).2 = some (rangeText i, beforeText i, afterText i) := by
  decide +kernel

end BitcoinAnalysis
