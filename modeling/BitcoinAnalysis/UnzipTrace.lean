/-
Which transactions a run of `unzipBlocks` reads, and what it does with them.

The loops are traced programs: the events of a run follow from the block files,
the stop time and the checkpoint, and the stores at its end are what handling
these events, in order, makes of the stores at its start
(`unzipBlocks_eq_ok`).
-/
import BitcoinAnalysis.Trace
import BitcoinAnalysis.UnzipBlocks

open Run Trace

namespace BitcoinAnalysis

variable {env : Env} {stoptm : ℤ} {c : Checkpoint}

theorem run_tx {σ : Type} (handle : σ → Event → Except Fault σ) (st : σ) (txs : List Transaction) :
    run handle st (txs.map .tx) = run (fun st tx => handle st (.tx tx)) st txs := by
  induction txs generalizing st with
  | nil => rfl
  | cons tx txs ih =>
    rw [List.map_cons, run_cons, run_cons]
    exact congrArg _ (funext ih)

/-! ### One block -/

/-- What the payload of a block is read into, and the stream behind it. -/
def transSec (env : Env) (curBlock : Block) (p : Progress) : Buffer × IfStream :=
  let size := (curBlock.head.blocksize - 80).toNat
  let got := (p.blockFile.seekg (p.blockPos + 88).toInt).read size
  (⟨size, got.1, env.heap curBlock.blocknumber, env.outside curBlock.blocknumber⟩, got.2)

/-- The variables after a block whose transactions end at `txcounter`. -/
def Progress.next (p : Progress) (env : Env) (curBlock : Block) (txcounter : Int32) : Progress :=
  let blockPos := (p.blockPos.toUInt32 + curBlock.head.blocksize + 8).toInt32
  { p with
    txcounter := txcounter
    blockPos := blockPos
    blockFile := (transSec env curBlock p).2.seekg blockPos.toInt }

/-- The events of a block: its transactions, in order, and the block. -/
def BlockEvents (env : Env) (curBlock : Block) (p : Progress) (evs : List Event) (p' : Progress) :
    Prop :=
  ∃ transCount transPos txs cursor,
    readVarLen (transSec env curBlock p).1 0 = .ok (transCount, transPos) ∧
    readAll (transSec env curBlock p).1 { curBlock with transCount := transCount }
      transCount.toNat ⟨transPos, 0, p.txcounter⟩ = .ok (txs, cursor) ∧
    evs = txs.map .tx ++ [.block { curBlock with
      transCount := transCount
      blockReward := rewardOf curBlock.blocknumber txs
        (env.blockReward curBlock.blocknumber) }] ∧
    p' = p.next env curBlock cursor.txcounter

theorem unzipBlock_eq_ok {σ : Type} {handle : σ → Event → Except Fault σ} {curBlock : Block}
    {st st' : σ} {p p' : Progress} :
    unzipBlock handle env curBlock st p = .ok (st', p') ↔
      ∃ evs, BlockEvents env curBlock p evs p' ∧ run handle st evs = .ok st' := by
  rw [unzipBlock]
  constructor
  · intro h
    obtain ⟨⟨transCount, transPos⟩, hcount, h⟩ := bind_eq_ok.mp h
    obtain ⟨t, ht, h⟩ := bind_eq_ok.mp h
    obtain ⟨u, hu, h⟩ := bind_eq_ok.mp h
    cases h
    obtain ⟨txs, hall, hrun, hrew⟩ := transLoop_eq_ok.mp ht
    refine ⟨_, ⟨transCount, transPos, txs, t.cursor, hcount, hall, rfl, rfl⟩, ?_⟩
    refine run_snoc_ok.mpr ⟨t.stores, (run_tx handle st txs).trans hrun, ?_⟩
    rw [← hu, hrew]
  · rintro ⟨_, ⟨transCount, transPos, txs, cursor, hcount, hall, rfl, rfl⟩, hrun⟩
    obtain ⟨u, htxs, hblock⟩ := run_snoc_ok.mp hrun
    rw [run_tx] at htxs
    refine bind_eq_ok.mpr ⟨(transCount, transPos), hcount, ?_⟩
    refine bind_eq_ok.mpr ⟨⟨cursor, _, u⟩, transLoop_eq_ok.mpr ⟨txs, hall, htxs, rfl⟩, ?_⟩
    exact bind_eq_ok.mpr ⟨st', hblock, rfl⟩

theorem traced_unzipBlock (curBlock : Block) (p : Progress) :
    Traced fun _ handle st => unzipBlock handle env curBlock st p :=
  traced_of_events fun _ _ _ _ _ => unzipBlock_eq_ok

/-! ### The loops -/

theorem traced_blockBody (p : Progress) :
    Traced fun _ handle st => blockBody handle env stoptm st p := by
  unfold blockBody
  dsimp only
  split
  · exact traced_ok _
  · exact traced_unzipBlock _ _

theorem traced_blockLoop (n : ℕ) (p : Progress) :
    Traced fun _ handle st => blockLoop handle env stoptm n st p := by
  induction n generalizing p with
  | zero => exact traced_error _
  | succ n ih =>
    unfold blockLoop
    rcases p.blockFile.peek with ⟨_ | b, blockFile⟩
    · exact traced_ok _
    · refine (traced_blockBody _).bind
        (G := fun p _ handle st =>
          if p.testflag then .ok (st, p) else blockLoop handle env stoptm n st p) fun p => ?_
      split
      · exact traced_ok p
      · exact ih p

theorem traced_unzipFile (blkfileNum : Int32) (p : Progress) :
    Traced fun _ handle st => unzipFile handle env stoptm c blkfileNum st p := by
  unfold unzipFile
  split
  · exact traced_error _
  · exact traced_blockLoop _ _

theorem traced_fileLoop (n : ℕ) (blkfileNum : Int32) (p : Progress) :
    Traced fun _ handle st => fileLoop handle env stoptm c n blkfileNum st p := by
  induction n generalizing blkfileNum p with
  | zero => exact traced_error _
  | succ n ih =>
    unfold fileLoop
    split
    · refine (traced_unzipFile blkfileNum p).bind
        (G := fun p _ handle st =>
          if p.testflag then .ok (st, blkfileNum, p)
          else fileLoop handle env stoptm c n (blkfileNum + 1) st p) fun p => ?_
      split
      · exact traced_ok _
      · exact ih _ p
    · exact traced_ok _

/-- What a run reads, as far as it comes: the events, the file it stops in and
the variables at the end. -/
def trace (env : Env) (stoptm : ℤ) (c : Checkpoint) :
    Except Fault (List Event × Int32 × Progress) :=
  unzipFiles record env stoptm c []

/-- What a run leaves that has handled its events. -/
def outcomeOf (w : World) (blkfileNum : Int32) (p : Progress) : Outcome where
  world := updateEntityMysql w
  checkpoint := writeCheckpoint blkfileNum p.blockPos (p.blockNum - 2) (p.txcounter - 1) w.entitycnt
  testflag := p.testflag

/-- **A run of `unzipBlocks`** handles the events of its trace and recomputes
the changed rows of `entityinfo`. -/
theorem unzipBlocks_eq_ok {w : World} {parameter : List Char} {o : Outcome} :
    unzipBlocks env stoptm w parameter = .ok o ↔
      ∃ c evs blkfileNum p w', readCheckpoint parameter = some c ∧
        trace env stoptm c = .ok (evs, blkfileNum, p) ∧
        run perform { w with entitycnt := c.entitycnt } evs = .ok w' ∧
        o = outcomeOf w' blkfileNum p := by
  rw [unzipBlocks]
  cases readCheckpoint parameter with
  | none => simp
  | some c =>
    constructor
    · intro h
      obtain ⟨⟨w', blkfileNum, p⟩, hfiles, h⟩ := bind_eq_ok.mp h
      cases h
      obtain ⟨evs, hevs, hrun⟩ := (traced_fileLoop _ _ _ _ _ _ _ _).mp hfiles
      exact ⟨c, evs, blkfileNum, p, w', rfl, hevs, hrun, rfl⟩
    · rintro ⟨_, evs, blkfileNum, p, w', hc, hevs, hrun, rfl⟩
      cases hc
      refine bind_eq_ok.mpr ⟨(w', blkfileNum, p), ?_, rfl⟩
      exact (traced_fileLoop _ _ _ _ _ _ _ _).mpr ⟨evs, hevs, hrun⟩

end BitcoinAnalysis
