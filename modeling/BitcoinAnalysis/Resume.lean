/-
Stopping and resuming.

A run that stops at a block, followed by a run from the checkpoint it has left,
does to the stores what one run does, apart from the aggregate columns of
`entityinfo` (`resume_eq_single`).
-/
import BitcoinAnalysis.Duplicates
import BitcoinAnalysis.Frames

open Run

namespace BitcoinAnalysis

variable {env : Env} {t t' : ℤ} {w : World} {parameter : List Char}

/-- The runs leave the same LevelDB, the same tables and the same checkpoint. -/
structure SameOutcome (o o' : Outcome) : Prop where
  txDb : o'.world.txDb = o.world.txDb
  tables : SameTables o.world.conn.db o'.world.conn.db
  checkpoint : o'.checkpoint = o.checkpoint

theorem readCheckpoint_outcomeOf (w : World) (blkfileNum : Int32) (p : Progress) :
    readCheckpoint (outcomeOf w blkfileNum p).checkpoint
      = some (saved blkfileNum p w.entitycnt) :=
  readCheckpoint_writeCheckpoint _ _ _ _ _

theorem SameOutcome.symm {o o' : Outcome} (h : SameOutcome o o') : SameOutcome o' o :=
  ⟨h.txDb.symm, h.tables.symm, h.checkpoint.symm⟩

/-- Runs that send the same statements end with the same outcome. -/
theorem Abreast.sameOutcome {u w' u' : World} (h : Abreast w u w' u')
    (h₀ : SameTables w.conn.db u.conn.db) (blkfileNum : Int32) (p : Progress) :
    SameOutcome (outcomeOf w' blkfileNum p) (outcomeOf u' blkfileNum p) := by
  refine ⟨h.alike.txDb, ?_, ?_⟩
  · exact ((sameTables_updateEntityMysql w').symm.trans (h.sameTables h₀)).trans
      (sameTables_updateEntityMysql u')
  · rw [outcomeOf, outcomeOf, h.alike.entitycnt]

/-- The trace of a run does not depend on the memory it finds, if there is no
difference or the files are whole. -/
theorem trace_memory {heap : UInt32 → ℕ → UInt8} {c : Checkpoint}
    {r : List Event × Int32 × Progress} (hmem : heap = env.heap ∨ WholeFiles env c) :
    trace { env with heap := heap } t c = .ok r ↔ trace env t c = .ok r := by
  rcases hmem with rfl | hwf
  · rfl
  · obtain ⟨evs, blkfileNum, p⟩ := r
    have hwf' : WholeFiles { env with heap := heap } c := ⟨hwf.short, hwf.framed, hwf.rest⟩
    exact ⟨fun h => (trace_whole hwf' h env.heap).1, fun h => (trace_whole hwf h heap).1⟩

/-- **Stopping and resuming does not change the result.**  The three runs find
the same block files; `new` may give them memory of different contents if the files
are whole from the first checkpoint on. -/
theorem resume_eq_single {heap₁ heap₂ : UInt32 → ℕ → UInt8}
    (hmem : (heap₁ = env.heap ∧ heap₂ = env.heap) ∨
      ∃ c, readCheckpoint parameter = some c ∧ WholeFiles env c)
    (ht : t ≤ t') {o₁ : Outcome}
    (h₁ : unzipBlocks { env with heap := heap₁ } t w parameter = .ok o₁)
    (hstop : o₁.testflag = true) :
    (∀ o, unzipBlocks env t' w parameter = .ok o →
      ∃ o₂, unzipBlocks { env with heap := heap₂ } t' o₁.world o₁.checkpoint = .ok o₂ ∧
        SameOutcome o o₂) ∧
    (∀ o₂, unzipBlocks { env with heap := heap₂ } t' o₁.world o₁.checkpoint = .ok o₂ →
      ∃ o, unzipBlocks env t' w parameter = .ok o ∧ SameOutcome o o₂) := by
  obtain ⟨c, evs₁, num₁, p₁, w₁, hc, htrace₁, hrun₁, rfl⟩ := unzipBlocks_eq_ok.mp h₁
  have hsaved := readCheckpoint_outcomeOf w₁ num₁ p₁
  -- the three traces, with the memory of the single run
  have hmem₁ : heap₁ = env.heap ∨ WholeFiles env c := by
    rcases hmem with ⟨h, -⟩ | ⟨c', hc', hwf⟩
    · exact .inl h
    · rw [hc, Option.some.injEq] at hc'
      exact .inr (hc' ▸ hwf)
  have htrace : trace env t c = .ok (evs₁, num₁, p₁) := (trace_memory hmem₁).mp htrace₁
  have hmem₂ : heap₂ = env.heap ∨ WholeFiles env (saved num₁ p₁ w₁.entitycnt) := by
    rcases hmem with ⟨-, h⟩ | ⟨c', hc', hwf⟩
    · exact .inl h
    · rw [hc, Option.some.injEq] at hc'
      exact .inr ((trace_whole (hc' ▸ hwf) htrace env.heap).2 hstop _)
  have hresume := fun {r} => trace_resume (r := r) ht htrace hstop w₁.entitycnt
  -- the second run starts from stores that show it what the single run sees there
  have halike := alike_updateEntityMysql w₁
  have htables := sameTables_updateEntityMysql w₁
  constructor
  · intro o ho
    obtain ⟨_, evs, num, p, w', hc', htrace', hrun, rfl⟩ := unzipBlocks_eq_ok.mp ho
    rw [hc] at hc'
    cases hc'
    obtain ⟨evs₂, _, htrace₂, hr⟩ := hresume.mp htrace'
    cases hr
    obtain ⟨v, hv, hrun₂⟩ := run_append_ok.mp hrun
    rw [hrun₁] at hv
    cases hv
    obtain ⟨u', hu', habreast⟩ := abreast_run halike hrun₂
    refine ⟨outcomeOf u' num p, ?_, habreast.sameOutcome htables num p⟩
    exact unzipBlocks_eq_ok.mpr ⟨_, evs₂, num, p, u', hsaved,
      (trace_memory hmem₂).mpr htrace₂, hu', rfl⟩
  · intro o₂ ho₂
    obtain ⟨_, evs₂, num, p, u', hc', htrace₂, hrun₂, rfl⟩ := unzipBlocks_eq_ok.mp ho₂
    rw [hsaved] at hc'
    cases hc'
    obtain ⟨w', hw', habreast⟩ := abreast_run halike.symm hrun₂
    refine ⟨outcomeOf w' num p, ?_, (habreast.sameOutcome htables.symm num p).symm⟩
    refine unzipBlocks_eq_ok.mpr ⟨c, evs₁ ++ evs₂, num, p, w', hc, ?_, ?_, rfl⟩
    · exact hresume.mpr ⟨evs₂, _, (trace_memory hmem₂).mp htrace₂, rfl⟩
    · exact run_append_ok.mpr ⟨w₁, hrun₁, hw'⟩

theorem framed_minedTwice (blkfileNum : Int32) : Framed (minedTwice.contents blkfileNum) := by
  rw [Env.contents, minedTwice]
  dsimp only
  split
  · refine ⟨[minedBlock 1000, minedBlock 2000], ?_, by decide +kernel⟩
    decide +kernel
  · exact ⟨[], by simp, rfl⟩

theorem wholeFiles_minedTwice : WholeFiles minedTwice ⟨0, 0, -1, -1, 0⟩ := by
  refine ⟨fun blkfileNum => ?_, framed_minedTwice, framed_minedTwice 0⟩
  show ((if blkfileNum.toInt.toNat = 0 then some (minedBlock 1000 ++ minedBlock 2000)
    else none).getD []).length < 2 ^ 31
  split
  · decide +kernel
  · decide

/-- A run that stops at the second block, and the run that goes on with it. -/
theorem resume_eq_single_of_minedTwice :
    ∃ o₁ o o₂, unzipBlocks { minedTwice with heap := fun _ _ => 1 } 1500 (.fresh .null) startText
        = .ok o₁ ∧
      o₁.testflag = true ∧
      unzipBlocks minedTwice 3000 (.fresh .null) startText = .ok o ∧
      unzipBlocks { minedTwice with heap := fun _ _ => 2 } 3000 o₁.world o₁.checkpoint = .ok o₂ ∧
      SameOutcome o o₂ := by
  have hfirst : ∃ o₁, unzipBlocks { minedTwice with heap := fun _ _ => 1 } 1500 (.fresh .null)
      startText = .ok o₁ ∧ o₁.testflag = true := by
    decide +kernel
  have hsingle : (unzipBlocks minedTwice 3000 (.fresh .null) startText).toOption.isSome := by
    decide +kernel
  obtain ⟨o₁, ho₁, hstop⟩ := hfirst
  obtain ⟨o, ho⟩ := exists_ok hsingle
  have hmem : ∃ c, readCheckpoint startText = some c ∧ WholeFiles minedTwice c :=
    ⟨_, by decide +kernel, wholeFiles_minedTwice⟩
  obtain ⟨o₂, ho₂, hsame⟩ := (resume_eq_single (.inr hmem) (by decide) ho₁ hstop).1 o ho
  exact ⟨o₁, o, o₂, ho₁, hstop, ho, ho₂, hsame⟩

end BitcoinAnalysis
