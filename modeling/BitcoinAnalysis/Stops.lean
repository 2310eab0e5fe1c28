/-
Where a run stops, and where the next one starts.

A run that meets a block later than its stop time saves five numbers.  They put
the next run in front of that block (`enter_saved`), and what the two runs read
is what one run with the later stop time reads (`trace_resume`).
-/
import BitcoinAnalysis.Rounds

open Run Trace

namespace BitcoinAnalysis

variable {env : Env} {stoptm t t' : ℤ} {p p' q : Progress} {evs evs' es : List Event}
  {data : List UInt8} {c c' : Checkpoint}

/-! ### The block loop -/

theorem Progress.Goes.mono (h : p.Goes env t es q) (ht : t ≤ t') : p.Goes env t' es q :=
  ⟨h.isOpen, fun hlate => h.inTime (lt_of_le_of_lt ht hlate), h.reads⟩

/-- A loop that does not stop reads the same with a later stop time. -/
theorem blockLoop_later {n : ℕ} (ht : t ≤ t') (hflag : p.testflag = false)
    (h : blockLoop record env t n evs p = .ok (evs', p')) (hgo : p'.testflag = false) :
    ∃ es, evs' = evs ++ es ∧
      ∀ evs, blockLoop record env t' n evs p = .ok (evs ++ es, p') := by
  induction n generalizing evs p with
  | zero => cases h
  | succ n ih =>
    rcases blockLoop_cases h with hend | ⟨hopen, hlate⟩ | ⟨es, q, hgoes⟩
    · rw [blockLoop_ended hend] at h
      cases h
      refine ⟨[], (List.append_nil _).symm, fun evs => ?_⟩
      rw [blockLoop_ended hend, List.append_nil]
    · rw [blockLoop_late hopen hlate] at h
      cases h
      cases hgo
    · rw [blockLoop_goes hgoes hflag] at h
      obtain ⟨fs, rfl, hfs⟩ := ih (hgoes.testflag.trans hflag) h
      refine ⟨es ++ fs, List.append_assoc _ _ _, fun evs => ?_⟩
      rw [blockLoop_goes (hgoes.mono ht) hflag, hfs, List.append_assoc]

/-- A loop that stops has come to the head of a round at which a loop with a
later stop time goes on. -/
theorem blockLoop_stop {n : ℕ} (ht : t ≤ t') (hat : p.At data) (hflag : p.testflag = false)
    (h : blockLoop record env t n evs p = .ok (evs', p')) (hstop : p'.testflag = true) :
    ∃ es q k, evs' = evs ++ es ∧ p' = q.stopped ∧ q.Open ∧ q.At data ∧ q.testflag = false ∧
      ∀ m evs, blockLoop record env t' (k + m) evs p = blockLoop record env t' m (evs ++ es) q := by
  induction n generalizing evs p with
  | zero => cases h
  | succ n ih =>
    rcases blockLoop_cases h with hend | ⟨hopen, hlate⟩ | ⟨es, q, hgoes⟩
    · rw [blockLoop_ended hend] at h
      cases h
      rw [show p.ended.testflag = p.testflag from rfl, hflag] at hstop
      cases hstop
    · rw [blockLoop_late hopen hlate] at h
      cases h
      refine ⟨[], p, 0, (List.append_nil _).symm, rfl, hopen, hat, hflag, fun m evs => ?_⟩
      rw [Nat.zero_add, List.append_nil]
    · rw [blockLoop_goes hgoes hflag] at h
      obtain ⟨fs, r, k, rfl, hr, hopen, hat', hflag', hfs⟩ :=
        ih (hgoes.at hat) (hgoes.testflag.trans hflag) h
      refine ⟨es ++ fs, r, k + 1, List.append_assoc _ _ _, hr, hopen, hat', hflag', fun m evs => ?_⟩
      rw [Nat.add_right_comm, blockLoop_goes (hgoes.mono ht) hflag, hfs, List.append_assoc]

/-! ### One file -/

/-- The variables at the head of the block loop of a file. -/
def Progress.enter (env : Env) (c : Checkpoint) (blkfileNum : Int32) (p : Progress) : Progress :=
  let p := { p with blockFile := .openFile (env.blkfile blkfileNum.toInt.toNat), blockPos := 0 }
  if blkfileNum.toUInt32 = c.blkfile then
    { p with
      blockPos := c.blkpos.toInt32
      blockFile := p.blockFile.seekg c.blkpos.toInt32.toInt }
  else p

/-- The contents of a file; none if it cannot be opened. -/
def Env.contents (env : Env) (blkfileNum : Int32) : List UInt8 :=
  (env.blkfile blkfileNum.toInt.toNat).getD []

theorem unzipFile_eq {σ : Type} {handle : σ → Event → Except Fault σ} {blkfileNum : Int32}
    (h : ¬ blkfileNum < 0) (st : σ) (p : Progress) :
    unzipFile handle env stoptm c blkfileNum st p
      = blockLoop handle env stoptm ((env.contents blkfileNum).length + 2) st
          (p.enter env c blkfileNum) := if_neg h

theorem testflag_enter (blkfileNum : Int32) (p : Progress) :
    (p.enter env c blkfileNum).testflag = p.testflag := by
  unfold Progress.enter
  dsimp only
  split
  · rfl
  · rfl

theorem at_enter (blkfileNum : Int32) (p : Progress) :
    (p.enter env c blkfileNum).At (env.contents blkfileNum) := by
  unfold Progress.enter Env.contents
  cases env.blkfile blkfileNum.toInt.toNat with
  | none =>
    -- a file that was not opened never gets good
    intro hgood
    dsimp only at hgood
    split at hgood
    · cases hgood.2
    · cases hgood.2
  | some data =>
    intro _
    dsimp only
    split
    · rfl
    · rfl

/-- A round at a file that was opened. -/
theorem Progress.Open.blkfile {blkfileNum : Int32} (h : q.Open)
    (hat : q.At (env.contents blkfileNum)) :
    env.blkfile blkfileNum.toInt.toNat = some (env.contents blkfileNum) := by
  obtain ⟨b, hb⟩ := h.peek_eq
  obtain ⟨-, hbyte, -⟩ := IfStream.peek_eq_some.mp hb
  rw [hat.blockFile h, data_streamAt, Env.contents] at hbyte
  rw [Env.contents]
  cases hfile : env.blkfile blkfileNum.toInt.toNat with
  | none =>
    rw [hfile] at hbyte
    cases hbyte
  | some data => rfl

/-- What a run saves. -/
def saved (blkfileNum : Int32) (p : Progress) (entitycnt : UInt32) : Checkpoint :=
  ⟨blkfileNum.toUInt32, p.blockPos.toUInt32, p.blockNum - 2, p.txcounter - 1, entitycnt⟩

/-- The variables a run starts with. -/
def Checkpoint.start (c : Checkpoint) : Progress where
  blockNum := c.blocknum + 1
  txcounter := c.txcounter + 1
  blockPos := 0
  testflag := false
  blockFile := .openFile none

/-- The five numbers put the next run in front of the block. -/
theorem enter_saved {blkfileNum : Int32} (hopen : q.Open) (hat : q.At (env.contents blkfileNum))
    (hflag : q.testflag = false) (entitycnt : UInt32) :
    (saved blkfileNum q.stopped entitycnt).start.enter env (saved blkfileNum q.stopped entitycnt)
      blkfileNum = q := by
  have hfile := hat.blockFile hopen
  rw [streamAt, ← hopen.blkfile hat] at hfile
  have hnum : q.blockNum + 1 - 2 + 1 = q.blockNum := by grind
  have htx : q.txcounter - 1 + 1 = q.txcounter := Int32.sub_add_cancel _ _
  refine (if_pos rfl).trans ?_
  show (⟨q.blockNum + 1 - 2 + 1, q.txcounter - 1 + 1, q.blockPos, false,
    (IfStream.openFile (env.blkfile blkfileNum.toInt.toNat)).seekg q.blockPos.toInt⟩ : Progress) = q
  rw [hnum, htx, ← hfile, ← hflag]

theorem unzipFile_later {blkfileNum : Int32} (ht : t ≤ t') (hflag : p.testflag = false)
    (h : unzipFile record env t c blkfileNum evs p = .ok (evs', p'))
    (hgo : p'.testflag = false) :
    ∃ es, evs' = evs ++ es ∧
      ∀ evs, unzipFile record env t' c blkfileNum evs p = .ok (evs ++ es, p') := by
  by_cases hneg : blkfileNum < 0
  · rw [unzipFile, if_pos hneg] at h
    cases h
  · rw [unzipFile_eq hneg] at h
    obtain ⟨es, hes, hlater⟩ :=
      blockLoop_later ht ((testflag_enter blkfileNum p).trans hflag) h hgo
    refine ⟨es, hes, fun evs => ?_⟩
    rw [unzipFile_eq hneg, hlater]

/-- Where a file stops, the next run goes on in it. -/
theorem unzipFile_stop {blkfileNum : Int32} (ht : t ≤ t') (hnum : ¬ blkfileNum < 0)
    (hflag : p.testflag = false) (h : unzipFile record env t c blkfileNum evs p = .ok (evs', p'))
    (hstop : p'.testflag = true) (entitycnt : UInt32) :
    ∃ es, evs' = evs ++ es ∧ ∀ evs r,
      unzipFile record env t' c blkfileNum evs p = .ok r ↔
        unzipFile record env t' (saved blkfileNum p' entitycnt) blkfileNum (evs ++ es)
          (saved blkfileNum p' entitycnt).start = .ok r := by
  have hflag' : (p.enter env c blkfileNum).testflag = false :=
    (testflag_enter blkfileNum p).trans hflag
  rw [unzipFile_eq hnum] at h
  obtain ⟨es, q, k, rfl, rfl, hopen, hat, hq, hgo⟩ :=
    blockLoop_stop ht (at_enter blkfileNum p) hflag' h hstop
  refine ⟨es, rfl, fun evs r => ?_⟩
  rw [unzipFile_eq hnum, unzipFile_eq hnum, enter_saved hopen hat hq, ← hgo]
  constructor
  · intro h
    exact blockLoop_mono hflag' h (Nat.le_add_left _ _)
  · intro h
    exact blockLoop_mono hflag' (blockLoop_fuel (at_enter blkfileNum p) hflag' h)
      (Nat.le_succ _)

/-! ### The file loop -/

theorem unzipFiles_eq {σ : Type} {handle : σ → Event → Except Fault σ} (st : σ) :
    unzipFiles handle env stoptm c st
      = fileLoop handle env stoptm c 219 c.blkfile.toInt32 st c.start := rfl

theorem toInt_add_one {blkfileNum : Int32} (h : blkfileNum < 218) :
    (blkfileNum + 1).toInt = blkfileNum.toInt + 1 := by
  have hlo := blkfileNum.le_toInt
  have hhi : blkfileNum.toInt < 218 := Int32.lt_iff_toInt_lt.mp h
  rw [Int32.toInt_add]
  show Int.bmod (blkfileNum.toInt + 1) (2 ^ 32) = _
  exact Int.bmod_eq_of_le (by omega) (by omega)

theorem lt_add_one {blkfileNum : Int32} (h : blkfileNum < 218) : blkfileNum < blkfileNum + 1 := by
  rw [Int32.lt_iff_toInt_lt, toInt_add_one h]
  omega

theorem fileLoop_succ {σ : Type} {handle : σ → Event → Except Fault σ} {n : ℕ}
    {blkfileNum : Int32} (h : blkfileNum < 218) (st : σ) (p : Progress) :
    fileLoop handle env stoptm c (n + 1) blkfileNum st p
      = unzipFile handle env stoptm c blkfileNum st p >>= fun x =>
          if x.2.testflag then .ok (x.1, blkfileNum, x.2)
          else fileLoop handle env stoptm c n (blkfileNum + 1) x.1 x.2 := if_pos h

/-- Every number of rounds that reaches the last file is enough. -/
theorem fileLoop_fuel {σ : Type} {handle : σ → Event → Except Fault σ} {n m : ℕ}
    {blkfileNum : Int32} (hnum : blkfileNum.toInt ≤ 218) (hn : 219 ≤ blkfileNum.toInt + n)
    (hm : 219 ≤ blkfileNum.toInt + m) (st : σ) (p : Progress) :
    fileLoop handle env stoptm c n blkfileNum st p
      = fileLoop handle env stoptm c m blkfileNum st p := by
  induction n generalizing m blkfileNum st p with
  | zero => omega
  | succ n ih =>
    cases m with
    | zero => omega
    | succ m =>
      rw [fileLoop, fileLoop]
      by_cases hlt : blkfileNum < 218
      · rw [if_pos hlt, if_pos hlt]
        have hnext := toInt_add_one hlt
        have hlt' : blkfileNum.toInt < 218 := Int32.lt_iff_toInt_lt.mp hlt
        have hrest : fileLoop handle env stoptm c n (blkfileNum + 1)
            = fileLoop handle env stoptm c m (blkfileNum + 1) := by
          funext st p
          exact ih (by omega) (by omega) (by omega) st p
        rw [hrest]
      · rw [if_neg hlt, if_neg hlt]

theorem enter_behind {blkfileNum : Int32} (h : c.blkfile.toInt32 < blkfileNum) (p : Progress) :
    p.enter env c blkfileNum = { p with
      blockFile := .openFile (env.blkfile blkfileNum.toInt.toNat)
      blockPos := 0 } := by
  refine if_neg fun hnum => ?_
  rw [← hnum] at h
  exact Int32.lt_irrefl h

/-- Behind the file of the checkpoint the checkpoint does not matter. -/
theorem fileLoop_behind {σ : Type} {handle : σ → Event → Except Fault σ} {n : ℕ}
    {blkfileNum : Int32} (h : c.blkfile.toInt32 < blkfileNum)
    (h' : c'.blkfile.toInt32 < blkfileNum) (st : σ) (p : Progress) :
    fileLoop handle env stoptm c n blkfileNum st p
      = fileLoop handle env stoptm c' n blkfileNum st p := by
  induction n generalizing blkfileNum st p with
  | zero => rfl
  | succ n ih =>
    rw [fileLoop, fileLoop]
    by_cases hlt : blkfileNum < 218
    · have hnext := lt_add_one hlt
      have hrest : fileLoop handle env stoptm c n (blkfileNum + 1)
          = fileLoop handle env stoptm c' n (blkfileNum + 1) := by
        funext st p
        exact ih (Int32.lt_trans h hnext) (Int32.lt_trans h' hnext) st p
      have hfile : unzipFile handle env stoptm c blkfileNum st p
          = unzipFile handle env stoptm c' blkfileNum st p := by
        by_cases hneg : blkfileNum < 0
        · exact (if_pos hneg).trans (if_pos hneg).symm
        · rw [unzipFile_eq hneg, unzipFile_eq hneg, enter_behind h, enter_behind h']
      rw [hrest, hfile]
    · rw [if_neg hlt, if_neg hlt]

theorem blkfile_saved (blkfileNum : Int32) (p : Progress) (entitycnt : UInt32) :
    (saved blkfileNum p entitycnt).blkfile.toInt32 = blkfileNum := rfl

/-- Both runs go through the files behind the stop in the same way. -/
theorem fileLoop_rest {n : ℕ} {blkfileNum : Int32} (hpos : 0 ≤ blkfileNum.toInt)
    (hlt : blkfileNum < 218) (hn : 219 ≤ blkfileNum.toInt + (n + 1))
    (hc : c.blkfile.toInt32 ≤ blkfileNum) (p q : Progress) (entitycnt : UInt32) :
    fileLoop record env stoptm c n (blkfileNum + 1) evs q
      = fileLoop record env stoptm (saved blkfileNum p entitycnt) 218 (blkfileNum + 1) evs q := by
  have hnext := toInt_add_one hlt
  have hlt' : blkfileNum.toInt < 218 := Int32.lt_iff_toInt_lt.mp hlt
  have hfuel : fileLoop record env stoptm c n (blkfileNum + 1) evs q
      = fileLoop record env stoptm c 218 (blkfileNum + 1) evs q :=
    fileLoop_fuel (by omega) (by omega) (by push_cast; omega) evs q
  rw [hfuel]
  refine fileLoop_behind (Int32.lt_of_le_of_lt hc (lt_add_one hlt)) ?_ evs q
  rw [blkfile_saved]
  exact lt_add_one hlt

theorem fileLoop_stop {n : ℕ} {blkfileNum blkfileNum' : Int32} (ht : t ≤ t')
    (hflag : p.testflag = false) (hn : 219 ≤ blkfileNum.toInt + n)
    (hc : c.blkfile.toInt32 ≤ blkfileNum)
    (h : fileLoop record env t c n blkfileNum evs p = .ok (evs', blkfileNum', p'))
    (hstop : p'.testflag = true) (entitycnt : UInt32) :
    ∃ es, evs' = evs ++ es ∧ ∀ evs r,
      fileLoop record env t' c n blkfileNum evs p = .ok r ↔
        unzipFiles record env t' (saved blkfileNum' p' entitycnt) (evs ++ es) = .ok r := by
  induction n generalizing blkfileNum evs p with
  | zero => cases h
  | succ n ih =>
    by_cases hlt : blkfileNum < 218
    · have hnext := toInt_add_one hlt
      have hlt' : blkfileNum.toInt < 218 := Int32.lt_iff_toInt_lt.mp hlt
      rw [fileLoop_succ hlt] at h
      obtain ⟨⟨evs₁, p₁⟩, hfile, hrest⟩ := bind_eq_ok.mp h
      by_cases hflag₁ : p₁.testflag
      · -- this is the file in which the run stops
        rw [if_pos hflag₁, Except.ok.injEq, Prod.mk.injEq, Prod.mk.injEq] at hrest
        obtain ⟨rfl, rfl, rfl⟩ := hrest
        have hpos : ¬ blkfileNum < 0 := by
          intro hneg
          rw [unzipFile, if_pos hneg] at hfile
          cases hfile
        obtain ⟨es, hes, hgo⟩ := unzipFile_stop ht hpos hflag hfile hstop entitycnt
        refine ⟨es, hes, fun evs r => ?_⟩
        have hpos' : 0 ≤ blkfileNum.toInt :=
          not_lt.mp fun hneg => hpos (Int32.lt_iff_toInt_lt.mpr hneg)
        have hrest : ∀ evs q, fileLoop record env t' c n (blkfileNum + 1) evs q
            = fileLoop record env t' (saved blkfileNum p₁ entitycnt) 218 (blkfileNum + 1) evs q :=
          fun evs q => fileLoop_rest hpos' hlt (by push_cast at hn; omega) hc p₁ q entitycnt
        rw [unzipFiles_eq, blkfile_saved, fileLoop_succ hlt, fileLoop_succ hlt, bind_eq_ok,
          bind_eq_ok]
        simp only [hrest]
        exact exists_congr fun x => and_congr_left fun _ => hgo evs x
      · rw [if_neg hflag₁] at hrest
        have hflag₁' : p₁.testflag = false := by simpa using hflag₁
        -- a file read to its end is read the same way with the later stop time
        obtain ⟨es, rfl, hlater⟩ := unzipFile_later ht hflag hfile hflag₁'
        obtain ⟨fs, rfl, hgo⟩ := ih hflag₁' (by rw [hnext]; push_cast at hn; omega)
          (Int32.le_of_lt (Int32.lt_of_le_of_lt hc (lt_add_one hlt))) hrest
        refine ⟨es ++ fs, List.append_assoc _ _ _, fun evs r => ?_⟩
        rw [fileLoop_succ hlt, hlater, ok_bind, if_neg hflag₁, hgo, List.append_assoc]
    · rw [fileLoop, if_neg hlt] at h
      cases h
      rw [hflag] at hstop
      cases hstop

theorem fileLoop_later {n : ℕ} {blkfileNum blkfileNum' : Int32} (ht : t ≤ t')
    (hflag : p.testflag = false)
    (h : fileLoop record env t c n blkfileNum evs p = .ok (evs', blkfileNum', p'))
    (hgo : p'.testflag = false) :
    fileLoop record env t' c n blkfileNum evs p = .ok (evs', blkfileNum', p') := by
  induction n generalizing blkfileNum evs p with
  | zero => cases h
  | succ n ih =>
    by_cases hlt : blkfileNum < 218
    · rw [fileLoop_succ hlt] at h
      obtain ⟨⟨evs₁, p₁⟩, hfile, hrest⟩ := bind_eq_ok.mp h
      by_cases hflag₁ : p₁.testflag
      · rw [if_pos hflag₁] at hrest
        cases hrest
        exact absurd (hgo.symm.trans hflag₁) Bool.false_ne_true
      · rw [if_neg hflag₁] at hrest
        have hflag₁' : p₁.testflag = false := by simpa using hflag₁
        obtain ⟨es, rfl, hlater⟩ := unzipFile_later ht hflag hfile hflag₁'
        rw [fileLoop_succ hlt, hlater, ok_bind, if_neg hflag₁]
        exact ih hflag₁' hrest
    · rw [fileLoop, if_neg hlt] at h ⊢
      exact h

/-- A run that does not stop reads the same with a later stop time. -/
theorem trace_later {blkfileNum : Int32} (ht : t ≤ t')
    (h : trace env t c = .ok (evs, blkfileNum, p)) (hgo : p.testflag = false) :
    trace env t' c = .ok (evs, blkfileNum, p) := fileLoop_later ht rfl h hgo

/-- **A run that stops and the next run** read what one run reads. -/
theorem trace_resume {blkfileNum : Int32} (ht : t ≤ t')
    (h : trace env t c = .ok (evs, blkfileNum, p)) (hstop : p.testflag = true)
    (entitycnt : UInt32) {r : List Event × Int32 × Progress} :
    trace env t' c = .ok r ↔ ∃ es q, trace env t' (saved blkfileNum p entitycnt) = .ok (es, q) ∧
      r = (evs ++ es, q) := by
  rw [trace, unzipFiles_eq] at h
  have hpos : 0 ≤ c.blkfile.toInt32.toInt := by
    by_contra hneg
    have hneg' : c.blkfile.toInt32 < 0 := Int32.lt_iff_toInt_lt.mpr (not_le.mp hneg)
    have hlt : c.blkfile.toInt32 < 218 := Int32.lt_trans hneg' (by decide)
    rw [fileLoop_succ hlt, unzipFile, if_pos hneg'] at h
    cases h
  obtain ⟨es, hes, hgo⟩ := fileLoop_stop ht rfl (by push_cast; omega) (Int32.le_refl _) h hstop
    entitycnt
  rw [List.nil_append] at hes
  subst hes
  rw [trace, unzipFiles_eq, hgo, List.nil_append, trace]
  obtain ⟨evs', q⟩ := r
  refine (traced_fileLoop _ _ _).record_eq_ok.trans ?_
  simp only [Prod.mk.injEq]
  constructor
  · rintro ⟨es, hes, rfl⟩
    exact ⟨es, q, hes, rfl, rfl⟩
  · rintro ⟨es, _, hes, rfl, rfl⟩
    exact ⟨es, hes, rfl⟩

end BitcoinAnalysis
