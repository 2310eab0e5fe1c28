/-
The numbers a run saves.

A run writes `BlockNum - 2` and `txcounter - 1` into the checkpoint file.  At a
block later than the stop time, `BlockNum` has counted that block and these are
the numbers of the last block and the last transaction; when all files are
exhausted it has not, and the block number is one too small
(`lastSaved_iff_exists_late`).
-/
import BitcoinAnalysis.BlockSequence
import BitcoinAnalysis.Resume

open Run

namespace BitcoinAnalysis

variable {env : Env} {stoptm : ℤ} {c : Checkpoint} {evs : List Event} {num : Int32}
  {p : Progress}

/-- The new checkpoint has the numbers of the last block that was processed and
of the last transaction that was read. -/
def LastSaved (c : Checkpoint) (evs : List Event) (c' : Checkpoint) : Prop :=
  c'.blocknum.toUInt32 = lastBlocknumber c evs ∧ c'.txcounter.toUInt32 = lastTxcounter c evs

theorem trace_lastTxcounter (h : trace env stoptm c = .ok (evs, num, p)) :
    (p.txcounter - 1).toUInt32 = lastTxcounter c evs := by
  cases trace_ends h with
  | none => exact congrArg Int32.toUInt32 (Int32.add_sub_cancel c.txcounter 1)
  | late hr => exact hr.lastNumbers.2
  | out hr => exact hr.lastNumbers.2

/-- How far `BlockNum` is ahead depends on the exit. -/
theorem trace_lastBlocknumber (h : trace env stoptm c = .ok (evs, num, p)) :
    (p.blockNum - if p.testflag then 2 else 1).toUInt32 = lastBlocknumber c evs := by
  cases trace_ends h with
  | none => exact congrArg Int32.toUInt32 (Int32.add_sub_cancel c.blocknum 1)
  | @late _ _ q hr =>
    -- the header of the late block has been counted
    rw [← hr.lastNumbers.1]
    show (q.blockNum + 1 - 2).toUInt32 = _
    exact congrArg Int32.toUInt32 (by grind)
  | @out _ _ q hr =>
    rw [← hr.lastNumbers.1]
    show (q.blockNum - if q.testflag then 2 else 1).toUInt32 = _
    rw [hr.testflag]
    rfl

theorem lastSaved_iff_testflag (h : trace env stoptm c = .ok (evs, num, p)) (entitycnt : UInt32) :
    LastSaved c evs (saved num p entitycnt) ↔ p.testflag = true := by
  have hblock := trace_lastBlocknumber h
  constructor
  · intro hsaved
    by_contra hflag
    rw [if_neg hflag, ← hsaved.1] at hblock
    have heq : p.blockNum - 1 = p.blockNum - 2 := congrArg UInt32.toInt32 hblock
    grind
  · intro hflag
    rw [if_pos hflag] at hblock
    exact ⟨hblock, trace_lastTxcounter h⟩

/-- **The checkpoint of a run over whole files** has the right numbers if and
only if the run was stopped by a late block. -/
theorem lastSaved_iff_exists_late {w : World} {parameter : List Char} {o : Outcome}
    (hc : readCheckpoint parameter = some c) (hwf : WholeFiles env c)
    (h : unzipBlocks env stoptm w parameter = .ok o) :
    ∃ evs r w' c', trace env stoptm c = .ok (evs, r) ∧
      run perform { w with entitycnt := c.entitycnt } evs = .ok w' ∧
      readCheckpoint o.checkpoint = some c' ∧
      (LastSaved c evs c' ↔ ∃ f ∈ env.blocksFrom c, stoptm < timeOf f) := by
  obtain ⟨_, evs, num, p, w', hc', htrace, hrun, rfl⟩ := unzipBlocks_eq_ok.mp h
  rw [hc] at hc'
  cases hc'
  refine ⟨evs, (num, p), w', _, htrace, hrun, readCheckpoint_outcomeOf w' num p, ?_⟩
  rw [lastSaved_iff_testflag htrace]
  exact (trace_blocks hwf htrace).2

/-- Stopped at the second block. -/
theorem lastSaved_of_minedTwice :
    ∃ o evs r c', unzipBlocks minedTwice 1500 (.fresh .null) startText = .ok o ∧
      trace minedTwice 1500 ⟨0, 0, -1, -1, 0⟩ = .ok (evs, r) ∧
      readCheckpoint o.checkpoint = some c' ∧ LastSaved ⟨0, 0, -1, -1, 0⟩ evs c' := by
  have hrun : (unzipBlocks minedTwice 1500 (.fresh .null) startText).toOption.isSome := by
    decide +kernel
  have hlate : ∃ f ∈ minedTwice.blocksFrom ⟨0, 0, -1, -1, 0⟩, (1500 : ℤ) < timeOf f := by
    decide +kernel
  obtain ⟨o, ho⟩ := exists_ok hrun
  obtain ⟨evs, r, _, c', htrace, -, hc', hiff⟩ :=
    lastSaved_iff_exists_late (c := ⟨0, 0, -1, -1, 0⟩) (by decide +kernel)
      wholeFiles_minedTwice ho
  exact ⟨o, evs, r, c', ho, htrace, hc', hiff.mpr hlate⟩

/-- Two blocks, both in time: the last one has the number 1 and 0 is saved. -/
theorem lastSaved_behind_minedTwice :
    ∃ r o c', trace minedTwice 3000 ⟨0, 0, -1, -1, 0⟩ = .ok r ∧
      (processedBlocks r.1).map Block.blocknumber = [0, 1] ∧
      unzipBlocks minedTwice 3000 (.fresh .null) startText = .ok o ∧
      readCheckpoint o.checkpoint = some c' ∧ c'.blocknum = 0 ∧
      ¬ LastSaved ⟨0, 0, -1, -1, 0⟩ r.1 c' := by
  have htrace : ∃ r, trace minedTwice 3000 ⟨0, 0, -1, -1, 0⟩ = .ok r ∧
      (processedBlocks r.1).map Block.blocknumber = [0, 1] := by
    decide +kernel
  have hrun : ∃ o, unzipBlocks minedTwice 3000 (.fresh .null) startText = .ok o ∧
      (readCheckpoint o.checkpoint).map Checkpoint.blocknum = some 0 := by
    decide +kernel
  obtain ⟨r, hr, hblocks⟩ := htrace
  obtain ⟨o, ho, hsaved⟩ := hrun
  obtain ⟨c', hc', hzero⟩ := Option.map_eq_some_iff.mp hsaved
  refine ⟨r, o, c', hr, hblocks, ho, hc', hzero, ?_⟩
  intro hlast
  have hnumber : lastBlocknumber ⟨0, 0, -1, -1, 0⟩ r.1 = 1 := by
    rw [lastBlocknumber, ← List.getLast?_map, hblocks]
    rfl
  have := hlast.1
  rw [hnumber, hzero] at this
  exact absurd this (by decide)

end BitcoinAnalysis
