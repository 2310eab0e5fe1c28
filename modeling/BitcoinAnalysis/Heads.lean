/-
The rounds of a run, from its first to its last.

`Reached env stoptm c evs num p` says that a run from the checkpoint `c` comes
to the head of a round with the variables `p`, in the file `num`, when it has
read `evs`.  `trace_ends` says at which heads a run can end: in front of a block
that is too late, or behind the last block of the last file.  What holds along
every run is proved by induction on the heads.
-/
import BitcoinAnalysis.Duplicates
import BitcoinAnalysis.Stops

open Run Trace

namespace BitcoinAnalysis

variable {env : Env} {stoptm : ℤ} {c : Checkpoint} {evs evs' es : List Event} {num num' : Int32}
  {p p' q : Progress}

/-- The blocks among the events of a run, in the order they are processed. -/
def processedBlocks (evs : List Event) : List Block :=
  evs.filterMap fun
    | .tx _ => none
    | .block blk => some blk

/-- The heads a run comes to, with what it has read in front of them. -/
inductive Reached (env : Env) (stoptm : ℤ) (c : Checkpoint) : List Event → Int32 → Progress → Prop
  /-- The first file of the run is opened. -/
  | first : ¬ c.blkfile.toInt32 < 0 → c.blkfile.toInt32 < 218 →
      Reached env stoptm c [] c.blkfile.toInt32 (c.start.enter env c c.blkfile.toInt32)
  /-- A block is read. -/
  | round {evs es : List Event} {num : Int32} {p q : Progress} :
      Reached env stoptm c evs num p → p.Goes env stoptm es q →
      Reached env stoptm c (evs ++ es) num q
  /-- A file has come to its end and the next one is opened. -/
  | file {evs : List Event} {num : Int32} {p : Progress} :
      Reached env stoptm c evs num p → ¬ p.Open → num + 1 < 218 →
      Reached env stoptm c evs (num + 1) (p.ended.enter env c (num + 1))

/-- How a run leaves its loops. -/
inductive Ends (env : Env) (stoptm : ℤ) (c : Checkpoint) : List Event → Int32 → Progress → Prop
  /-- The checkpoint is behind the last file. -/
  | none : ¬ c.blkfile.toInt32 < 218 → Ends env stoptm c [] c.blkfile.toInt32 c.start
  /-- A block later than the stop time was met. -/
  | late {evs : List Event} {num : Int32} {p : Progress} :
      Reached env stoptm c evs num p → p.Open → p.Late stoptm →
      Ends env stoptm c evs num p.stopped
  /-- All files are exhausted. -/
  | out {evs : List Event} {num : Int32} {p : Progress} :
      Reached env stoptm c evs num p → ¬ p.Open → ¬ num + 1 < 218 →
      Ends env stoptm c evs (num + 1) p.ended

/-! ### Every run goes through heads -/

theorem Reached.testflag (h : Reached env stoptm c evs num p) : p.testflag = false := by
  induction h with
  | first => exact testflag_enter _ _
  | round _ hgoes ih => exact hgoes.testflag.trans ih
  | file _ _ _ ih => exact (testflag_enter _ _).trans ih

theorem Reached.at (h : Reached env stoptm c evs num p) : p.At (env.contents num) := by
  induction h with
  | first => exact at_enter _ _
  | round _ hgoes ih => exact hgoes.at ih
  | file => exact at_enter _ _

/-- A head is in one of the files. -/
theorem Reached.bounds (h : Reached env stoptm c evs num p) :
    0 ≤ num.toInt ∧ num.toInt < 218 := by
  induction h with
  | first hneg hlt =>
    constructor
    · exact not_lt.mp fun h => hneg (Int32.lt_iff_toInt_lt.mpr h)
    · exact Int32.lt_iff_toInt_lt.mp hlt
  | round _ _ ih => exact ih
  | file _ _ hlt ih =>
    have hnext := toInt_add_one (Int32.lt_iff_toInt_lt.mpr ih.2)
    constructor
    · omega
    · exact Int32.lt_iff_toInt_lt.mp hlt

/-- A block loop that returns ends at a head. -/
theorem Reached.blockLoop {n : ℕ} (h : Reached env stoptm c evs num p)
    (hloop : blockLoop record env stoptm n evs p = .ok (evs', p')) :
    ∃ q, Reached env stoptm c evs' num q ∧
      ((¬ q.Open ∧ p' = q.ended) ∨ (q.Open ∧ q.Late stoptm ∧ p' = q.stopped)) := by
  induction n generalizing evs p with
  | zero => cases hloop
  | succ n ih =>
    rcases blockLoop_cases hloop with hend | ⟨hopen, hlate⟩ | ⟨es, q, hgoes⟩
    · rw [blockLoop_ended hend, Except.ok.injEq, Prod.mk.injEq] at hloop
      obtain ⟨rfl, rfl⟩ := hloop
      exact ⟨p, h, .inl ⟨hend, rfl⟩⟩
    · rw [blockLoop_late hopen hlate, Except.ok.injEq, Prod.mk.injEq] at hloop
      obtain ⟨rfl, rfl⟩ := hloop
      exact ⟨p, h, .inr ⟨hopen, hlate, rfl⟩⟩
    · rw [blockLoop_goes hgoes h.testflag] at hloop
      exact ih (h.round hgoes) hloop

theorem fileLoop_ends {n : ℕ} (hflag : p.testflag = false)
    (hin : ¬ num < 0 → num < 218 → Reached env stoptm c evs num (p.enter env c num))
    (hout : ¬ num < 218 → Ends env stoptm c evs num p)
    (h : fileLoop record env stoptm c n num evs p = .ok (evs', num', p')) :
    Ends env stoptm c evs' num' p' := by
  induction n generalizing num evs p with
  | zero => cases h
  | succ n ih =>
    by_cases hlt : num < 218
    · rw [fileLoop_succ hlt] at h
      obtain ⟨⟨evs₁, p₁⟩, hfile, hrest⟩ := bind_eq_ok.mp h
      by_cases hneg : num < 0
      · rw [unzipFile, if_pos hneg] at hfile
        cases hfile
      · rw [unzipFile_eq hneg] at hfile
        obtain ⟨q, hq, hend⟩ := (hin hneg hlt).blockLoop hfile
        rcases hend with ⟨hshut, rfl⟩ | ⟨hopen, hlate, rfl⟩
        · -- the file is exhausted, and the loop goes on with the next one
          have hflag' : ¬ q.ended.testflag = true := by
            rw [show q.ended.testflag = q.testflag from rfl, hq.testflag]
            exact Bool.false_ne_true
          rw [if_neg hflag'] at hrest
          refine ih (by simpa using hflag') ?_ ?_ hrest
          · intro _ hnext
            exact hq.file hshut hnext
          · intro hnext
            exact .out hq hshut hnext
        · -- a late block ends the loop over the files too
          have hflag' : q.stopped.testflag = true := rfl
          rw [if_pos hflag', Except.ok.injEq, Prod.mk.injEq, Prod.mk.injEq] at hrest
          obtain ⟨rfl, rfl, rfl⟩ := hrest
          exact .late hq hopen hlate
    · rw [fileLoop, if_neg hlt, Except.ok.injEq, Prod.mk.injEq, Prod.mk.injEq] at h
      obtain ⟨rfl, rfl, rfl⟩ := h
      exact hout hlt

/-- **How a run ends.** -/
theorem trace_ends (h : trace env stoptm c = .ok (evs, num, p)) : Ends env stoptm c evs num p :=
  fileLoop_ends rfl .first .none h

/-- What a run has read, it has read in front of a head. -/
theorem Ends.reached (h : Ends env stoptm c evs num p) :
    evs = [] ∨ ∃ num q, Reached env stoptm c evs num q := by
  cases h with
  | none => exact .inl rfl
  | late hr => exact .inr ⟨_, _, hr⟩
  | out hr => exact .inr ⟨_, _, hr⟩

end BitcoinAnalysis
