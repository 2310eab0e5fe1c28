/-
`console.cpp`: the loop over the months.

For every month the program writes the parameter files, reads the blocks up to the
end of the month and prints a report.  The loop depends on a report only by whether it
is finished: a report does not change the database.  So it is an argument of `month`;
the one of the program is `statistical`.
-/
import BitcoinAnalysis.TimeRange
import BitcoinAnalysis.UnzipBlocks

open Run

namespace BitcoinAnalysis

/-- The stores, the file `1.unzip_0.txt` and what the reports have printed. -/
structure Console (ρ : Type) where
  world : World
  parameter : List Char
  printed : ρ

/-- A report goes by the month, the database and the file of the month's limits, from
what has been printed to what has been printed behind it. -/
abbrev Report (ρ : Type) := ℕ → Db → List Char → ρ → Except Fault ρ

variable {ρ : Type} (report : Report ρ)

/-- The body of the loop in `main`. -/
def month (env : Env) (s : Console ρ) (para : ℕ) : Except Fault (Console ρ) := do
  let (unzip1, statistic) ← setParameter para
  match readStop unzip1 with
  | none => .error .uninitialised
  | some stop => do
    let o ← unzipBlocks env (stoptm stop) s.world s.parameter
    let printed ← report para o.world.conn.db statistic s.printed
    .ok ⟨o.world, o.checkpoint, printed⟩

/-- `count` months in a row. -/
def months (env : Env) (first count : ℕ) (s : Console ρ) : Except Fault (Console ρ) :=
  run (month report env) s (List.range' first count)

/-! ### One month -/

variable {report} {env : Env} {s s' : Console ρ} {i a n : ℕ}

/-- **What a month does**: it reads up to the last second of the month, and prints its
report. -/
theorem month_eq_ok :
    month report env s i = .ok s' ↔
      i < 72 ∧ ∃ o printed, unzipBlocks env (monthEnd i) s.world s.parameter = .ok o ∧
        report i o.world.conn.db (parameterTexts i).2 s.printed = .ok printed ∧
        s' = ⟨o.world, o.checkpoint, printed⟩ := by
  rw [month, setParameter_eq]
  by_cases hi : i < 72
  · obtain ⟨stop, hstop, hend⟩ := Option.map_eq_some_iff.mp (readStop_month i hi)
    rw [if_pos hi]
    simp only [ok_bind, hstop, hend]
    constructor
    · intro h
      obtain ⟨o, ho, h⟩ := bind_eq_ok.mp h
      obtain ⟨printed, hprinted, h⟩ := bind_eq_ok.mp h
      exact ⟨hi, o, printed, ho, hprinted, (Except.ok.inj h).symm⟩
    · rintro ⟨-, o, printed, ho, hprinted, rfl⟩
      exact bind_eq_ok.mpr ⟨o, ho, bind_eq_ok.mpr ⟨printed, hprinted, rfl⟩⟩
  · rw [if_neg hi]
    constructor
    · intro h
      cases h
    · rintro ⟨hlt, -⟩
      exact absurd hlt hi

theorem months_succ :
    months report env a (n + 1) s = .ok s' ↔
      ∃ u, months report env a n s = .ok u ∧ month report env u (a + n) = .ok s' := by
  rw [months, List.range'_concat, Nat.one_mul]
  exact run_snoc_ok

/-- The first of some months. -/
theorem months_of_le {m : ℕ} (h : months report env a n s = .ok s') (hm : m ≤ n) :
    ∃ u, months report env a m s = .ok u := by
  induction hm generalizing s' with
  | refl => exact ⟨s', h⟩
  | step _ ih =>
    obtain ⟨u, hu, -⟩ := months_succ.mp h
    exact ih hu

/-! ### Months without their reports -/

/-- No report is printed. -/
def noReport : Report Unit := fun _ _ _ printed => .ok printed

/-- What the loop over the months works on, without what is printed. -/
def Console.stores (s : Console ρ) : Console Unit := ⟨s.world, s.parameter, ()⟩

/-- The stores do not depend on the reports. -/
theorem months_stores (h : months report env a n s = .ok s') :
    months noReport env a n s.stores = .ok s'.stores := by
  induction n generalizing s' with
  | zero =>
    cases h
    rfl
  | succ n ih =>
    obtain ⟨u, hu, hmonth⟩ := months_succ.mp h
    obtain ⟨hi, o, printed, ho, -, rfl⟩ := month_eq_ok.mp hmonth
    exact months_succ.mpr ⟨u.stores, ih hu, month_eq_ok.mpr ⟨hi, o, (), ho, rfl, rfl⟩⟩

end BitcoinAnalysis
