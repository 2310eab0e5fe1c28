/-
Several runs, one after the other.

* `months_eq_single` — the months of `main` leave in the stores what one run up to
  the end of the last month leaves, apart from the aggregate columns of
  `entityinfo`;
* `idle_reruns` — once all files are exhausted, further runs send nothing, but
  each saves a block number that is smaller by one.

Both follow from what a run sees of its predecessors: the stores as they stand,
and the five numbers of the checkpoint.  What holds after some months comes from
`caught_months`: they have read together what one run reads (`Caught`).
-/
import BitcoinAnalysis.Heads
import BitcoinAnalysis.Resume
import BitcoinAnalysis.StatisticalReports

open Run Trace

namespace BitcoinAnalysis

variable {env : Env} {t t' : ℤ} {c : Checkpoint} {evs es : List Event} {num : Int32} {p : Progress}
  {w : World} {i : ℕ}

/-! ### A run behind another one -/

theorem trace_behind (h : ¬ c.blkfile.toInt32 < 218) :
    trace env t c = .ok ([], c.blkfile.toInt32, c.start) := by
  rw [trace, unzipFiles_eq, fileLoop, if_neg h]

/-- A run that does not stop has gone through all files. -/
theorem not_lt_of_trace (h : trace env t c = .ok (evs, num, p)) (hgo : ¬ p.testflag = true) :
    ¬ num < 218 := by
  cases trace_ends h with
  | none hout => exact hout
  | late => exact absurd rfl hgo
  | out _ _ hlast => exact hlast

/-- A run and the next one read together what one run reads. -/
theorem trace_continue {e : UInt32} {r : Int32 × Progress} (ht : t ≤ t')
    (h : trace env t c = .ok (evs, num, p)) (hnext : trace env t' (saved num p e) = .ok (es, r)) :
    ∃ r', trace env t' c = .ok (evs ++ es, r') := by
  by_cases hstop : p.testflag = true
  · exact ⟨r, (trace_resume ht h hstop e).mpr ⟨es, r, hnext, rfl⟩⟩
  · -- nothing is left for the next run
    rw [trace_behind (not_lt_of_trace h hstop)] at hnext
    cases hnext
    refine ⟨(num, p), ?_⟩
    rw [List.append_nil]
    exact trace_later ht h (by simpa using hstop)

/-! ### The months and a single run -/

section Months

variable {ρ : Type} {report : Report ρ} {printed : ρ} {s s' : Console ρ}

/-- After runs that have read `evs`, the last one up to `t`: the stores are, apart
from the aggregates, those of one run that has handled `evs`, and the next run goes
on behind them. -/
structure Caught (env : Env) (c : Checkpoint) (w : World) (evs : List Event) (t : ℤ)
    (s : Console ρ) : Prop where
  next : ∃ c', readCheckpoint s.parameter = some c' ∧
    (∃ v, run perform { w with entitycnt := c.entitycnt } evs = .ok v ∧
      v.Alike { s.world with entitycnt := c'.entitycnt } ∧
      SameTables v.conn.db s.world.conn.db) ∧
    ∀ t' ≥ t, ∀ es r, trace env t' c' = .ok (es, r) → ∃ r', trace env t' c = .ok (evs ++ es, r')

theorem Caught.start {parameter : List Char} (hc : readCheckpoint parameter = some c) :
    Caught env c w [] t ⟨w, parameter, printed⟩ := by
  refine ⟨c, hc, ⟨_, rfl, .refl _, .refl _⟩, ?_⟩
  intro t' _ es r hr
  exact ⟨r, hr⟩

/-- What a month leaves behind runs that are caught up with. -/
theorem Caught.month (h : Caught env c w evs t s) (ht : t ≤ monthEnd i)
    (hmonth : month report env s i = .ok s') :
    ∃ evs' r, trace env (monthEnd i) c = .ok (evs', r) ∧
      Caught env c w evs' (monthEnd i) s' := by
  obtain ⟨-, o, printed, ho, -, rfl⟩ := month_eq_ok.mp hmonth
  obtain ⟨c', hc', ⟨v, hv, halike, htables⟩, hresumes⟩ := h.next
  obtain ⟨c'', es, num, p, u, hc'', htrace, hrun, rfl⟩ := unzipBlocks_eq_ok.mp ho
  obtain rfl : c' = c'' := Option.some.inj (hc'.symm.trans hc'')
  obtain ⟨r, hwhole⟩ := hresumes _ ht es _ htrace
  -- the single run handles the new events abreast of this month's run
  obtain ⟨v', hv', habreast⟩ := abreast_run halike.symm hrun
  have hsame : SameTables v'.conn.db u.conn.db := (habreast.sameTables htables.symm).symm
  have hupdate := alike_updateEntityMysql u
  refine ⟨evs ++ es, r, hwhole, _, readCheckpoint_outcomeOf u num p, ⟨v', ?_, ?_, ?_⟩, ?_⟩
  · exact run_append_ok.mpr ⟨v, hv, hv'⟩
  · exact ⟨hupdate.txDb.trans habreast.alike.txDb.symm, habreast.alike.entitycnt.symm,
      hupdate.addressinfo.trans habreast.alike.addressinfo.symm⟩
  · exact hsame.trans (sameTables_updateEntityMysql u)
  · intro t' ht' fs r' hnext
    obtain ⟨r'', hboth⟩ := trace_continue ht' htrace hnext
    rw [List.append_assoc]
    exact hresumes t' (ht.trans ht') _ _ hboth

theorem caught_months {parameter : List Char} {a n : ℕ} (hc : readCheckpoint parameter = some c)
    (h : months report env a n ⟨w, parameter, printed⟩ = .ok s) :
    ∃ evs t, Caught env c w evs t s ∧ t ≤ monthEnd (a + n) ∧ (n = 0 → evs = []) ∧
      (n ≠ 0 → ∃ r, trace env (monthEnd (a + n - 1)) c = .ok (evs, r)) := by
  induction n generalizing s with
  | zero =>
    cases h
    exact ⟨[], monthEnd a, .start hc, le_rfl, fun _ => rfl, fun h => absurd rfl h⟩
  | succ n ih =>
    obtain ⟨v, hv, hmonth⟩ := months_succ.mp h
    obtain ⟨evs, t, hcaught, ht, -, -⟩ := ih hv
    obtain ⟨evs', r, htrace, hcaught'⟩ := hcaught.month ht hmonth
    exact ⟨evs', _, hcaught', monthEnd_mono (Nat.le_succ _), fun h => absurd h n.succ_ne_zero,
      fun _ => ⟨r, htrace⟩⟩

/-- **The months leave what one run leaves.**  After any run of consecutive months,
whatever their reports print, a run from the first checkpoint to the end of the last
month returns as well, with the same LevelDB, the same counter and the same tables. -/
theorem months_eq_single {parameter : List Char} {a n : ℕ}
    (h : months report env a (n + 1) ⟨w, parameter, printed⟩ = .ok s) :
    ∃ o c', unzipBlocks env (monthEnd (a + n)) w parameter = .ok o ∧
      readCheckpoint s.parameter = some c' ∧ c'.entitycnt = o.world.entitycnt ∧
      o.world.txDb = s.world.txDb ∧ SameTables o.world.conn.db s.world.conn.db := by
  obtain ⟨c, hc⟩ : ∃ c, readCheckpoint parameter = some c := by
    obtain ⟨v, hfirst⟩ := months_of_le h (Nat.le_add_left 1 n)
    obtain ⟨u, hu, hmonth⟩ := months_succ.mp hfirst
    cases hu
    obtain ⟨-, o, -, ho, -, -⟩ := month_eq_ok.mp hmonth
    obtain ⟨c, _, _, _, _, hc, -⟩ := unzipBlocks_eq_ok.mp ho
    exact ⟨c, hc⟩
  obtain ⟨evs, t, hcaught, -, -, htrace⟩ := caught_months hc h
  obtain ⟨⟨num, p⟩, hwhole⟩ := htrace n.succ_ne_zero
  obtain ⟨c', hc', ⟨v, hv, halike, htables⟩, -⟩ := hcaught.next
  refine ⟨outcomeOf v num p, c', ?_, hc', halike.entitycnt, halike.txDb.symm, ?_⟩
  · exact unzipBlocks_eq_ok.mpr ⟨c, evs, num, p, v, hc, hwhole, hv, rfl⟩
  · exact (sameTables_updateEntityMysql v).symm.trans htables

/-- September and October 2010, with their reports. -/
theorem months_eq_single_autumn :
    ∃ s o c', fullMonths (fun _ => 1) (fun _ => []) autumn 20 (1 + 1) beginning = .ok s ∧
      unzipBlocks autumn (monthEnd (20 + 1)) (.fresh .null) startText = .ok o ∧
      readCheckpoint s.parameter = some c' ∧ o.world.txDb = s.world.txDb ∧
      SameTables o.world.conn.db s.world.conn.db := by
  obtain ⟨s, hs⟩ : Returns (fullMonths (fun _ => 1) (fun _ => []) autumn 20 (1 + 1) beginning) :=
    fullMonths_of_allReportable allReportable_autumn
  obtain ⟨o, c', ho, hc', -, htxDb, htables⟩ := months_eq_single hs
  exact ⟨s, o, c', hs, ho, hc', htxDb, htables⟩

end Months

/-! ### Runs behind the last file -/

/-- A run on the stores and the checkpoint file the run before it has left. -/
def rerun (env : Env) (s : World × List Char) (stoptm : ℤ) : Except Fault (World × List Char) := do
  let o ← unzipBlocks env stoptm s.1 s.2
  .ok (o.world, o.checkpoint)

/-- Nothing is read, and nothing was left to recompute. -/
theorem rerun_behind {parameter : List Char} (hc : readCheckpoint parameter = some c)
    (hbehind : ¬ c.blkfile.toInt32 < 218) (hchange : w.entitychangeV = []) (stoptm : ℤ) :
    ∃ w' parameter', rerun env (w, parameter) stoptm = .ok (w', parameter') ∧
      w'.txDb = w.txDb ∧ w'.conn = w.conn ∧ w'.entitychangeV = [] ∧
      readCheckpoint parameter' = some { c with blkpos := 0, blocknum := c.blocknum - 1 } := by
  have htrace : trace env stoptm c = .ok ([], c.blkfile.toInt32, c.start) := trace_behind hbehind
  have ho : unzipBlocks env stoptm w parameter
      = .ok (outcomeOf { w with entitycnt := c.entitycnt } c.blkfile.toInt32 c.start) :=
    unzipBlocks_eq_ok.mpr ⟨c, [], _, _, _, hc, htrace, rfl, rfl⟩
  have hsaved : saved c.blkfile.toInt32 c.start c.entitycnt
      = { c with blkpos := 0, blocknum := c.blocknum - 1 } := by
    have hblock : c.blocknum + 1 - 2 = c.blocknum - 1 := by grind
    have htx : c.txcounter + 1 - 1 = c.txcounter := Int32.add_sub_cancel _ _
    simp only [saved, Checkpoint.start, hblock, htx]
    rfl
  refine ⟨updateEntityMysql { w with entitycnt := c.entitycnt },
    (outcomeOf { w with entitycnt := c.entitycnt } c.blkfile.toInt32 c.start).checkpoint, ?_, rfl,
    ?_, rfl, ?_⟩
  · rw [rerun, ho]
    rfl
  · simp [updateEntityMysql, hchange, unique]
  · rw [readCheckpoint_outcomeOf, hsaved]

theorem reruns_behind {parameter : List Char} (hc : readCheckpoint parameter = some c)
    (hbehind : ¬ c.blkfile.toInt32 < 218) (hchange : w.entitychangeV = []) (ts : List ℤ) :
    ∃ w' parameter' c', run (rerun env) (w, parameter) ts = .ok (w', parameter') ∧
      w'.txDb = w.txDb ∧ w'.conn = w.conn ∧ readCheckpoint parameter' = some c' ∧
      c'.blkfile = c.blkfile ∧ c'.txcounter = c.txcounter ∧ c'.entitycnt = c.entitycnt ∧
      c'.blocknum = c.blocknum - Int32.ofNat ts.length := by
  induction ts generalizing w parameter c with
  | nil => exact ⟨w, parameter, c, rfl, rfl, rfl, hc, rfl, rfl, rfl, by simp⟩
  | cons t ts ih =>
    obtain ⟨w₁, parameter₁, hrun₁, htxDb₁, hconn₁, hchange₁, hc₁⟩ :=
      rerun_behind hc hbehind hchange t
    obtain ⟨w', parameter', c', hrun, htxDb, hconn, hc', hfile, htx, hent, hblock⟩ :=
      ih hc₁ hbehind hchange₁
    refine ⟨w', parameter', c', ?_, htxDb.trans htxDb₁, hconn.trans hconn₁, hc', hfile, htx, hent,
      ?_⟩
    · rw [run_cons, hrun₁]
      exact hrun
    · rw [hblock, List.length_cons, Int32.ofNat_add]
      grind

/-- **Runs after the last file.**  When a run has come to the end of the files, any
number of further runs, up to any dates, return and send nothing to the stores; the
block number in the checkpoint is one smaller after each. -/
theorem idle_reruns {parameter : List Char} {o : Outcome}
    (h : unzipBlocks env t w parameter = .ok o) (hend : o.testflag = false) (ts : List ℤ) :
    ∃ c w' parameter' c', readCheckpoint o.checkpoint = some c ∧
      run (rerun env) (o.world, o.checkpoint) ts = .ok (w', parameter') ∧
      w'.txDb = o.world.txDb ∧ w'.conn = o.world.conn ∧ readCheckpoint parameter' = some c' ∧
      c'.txcounter = c.txcounter ∧ c'.entitycnt = c.entitycnt ∧
      c'.blocknum = c.blocknum - Int32.ofNat ts.length := by
  obtain ⟨c₀, evs, num, p, w₀, hc₀, htrace, hrun, rfl⟩ := unzipBlocks_eq_ok.mp h
  have hbehind : ¬ num < 218 := not_lt_of_trace htrace (by simpa [outcomeOf] using hend)
  have hc := readCheckpoint_outcomeOf w₀ num p
  obtain ⟨w', parameter', c', hreruns, htxDb, hconn, hc', -, htx, hent, hblock⟩ :=
    reruns_behind hc (by rwa [blkfile_saved]) (w := updateEntityMysql w₀) rfl ts
  exact ⟨_, w', parameter', c', hc, hreruns, htxDb, hconn, hc', htx, hent, hblock⟩

/-- Two blocks and all files read; after two more runs the block number is -2. -/
theorem idle_reruns_minedTwice :
    ∃ o c w' parameter' c', unzipBlocks minedTwice 3000 (.fresh .null) startText = .ok o ∧
      readCheckpoint o.checkpoint = some c ∧ c.blocknum = 0 ∧
      run (rerun minedTwice) (o.world, o.checkpoint) [4000, 5000] = .ok (w', parameter') ∧
      w'.conn = o.world.conn ∧ readCheckpoint parameter' = some c' ∧ c'.blocknum = -2 := by
  have hok : (match unzipBlocks minedTwice 3000 (.fresh .null) startText with
      | .ok o => !o.testflag && readCheckpoint o.checkpoint = some ⟨218, 0, 0, 1, 1⟩
      | .error _ => false) = true := by decide +kernel
  split at hok
  · rename_i o ho
    rw [Bool.and_eq_true, Bool.not_eq_true', decide_eq_true_eq] at hok
    obtain ⟨c, w', parameter', c', hc, hrun, -, hconn, hc', -, -, hblock⟩ :=
      idle_reruns ho hok.1 [4000, 5000]
    obtain rfl : c = ⟨218, 0, 0, 1, 1⟩ := Option.some.inj (hc.symm.trans hok.2)
    exact ⟨o, _, w', parameter', c', ho, hc, rfl, hrun, hconn, hc', hblock⟩
  · cases hok

end BitcoinAnalysis
