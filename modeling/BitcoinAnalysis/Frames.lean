/-
Block files that are whole.

In a file that is a sequence of whole blocks every payload fills its buffer, so a
run does not see what the memory held before, and where it stops the rest of the
file is again a sequence of whole blocks (`trace_whole`).
-/
import BitcoinAnalysis.Stops

open Run Trace

namespace BitcoinAnalysis

variable {env : Env} {stoptm : ℤ} {p q : Progress} {evs es : List Event} {data : List UInt8}
  {c : Checkpoint}

/-- A block as it stands in a file: the size field counts what follows it. -/
def Frame (f : List UInt8) : Prop :=
  88 ≤ f.length ∧ (Blkheader.ofBytes (blockStart f)).blocksize.toNat + 8 = f.length

instance (f : List UInt8) : Decidable (Frame f) := inferInstanceAs (Decidable (_ ∧ _))

/-- The header of a block as it stands in a file. -/
def headOf (f : List UInt8) : Blkheader := .ofBytes (blockStart f)

/-- A sequence of whole blocks. -/
def Framed (data : List UInt8) : Prop :=
  ∃ frames : List (List UInt8), (∀ f ∈ frames, Frame f) ∧ data = frames.flatten

theorem Framed.exists_first (h : Framed data) (hne : data ≠ []) :
    ∃ f rest, data = f ++ rest ∧ Frame f ∧ Framed rest := by
  obtain ⟨frames, hframes, rfl⟩ := h
  cases frames with
  | nil => exact absurd rfl hne
  | cons f frames =>
    refine ⟨f, frames.flatten, rfl, hframes f List.mem_cons_self, frames, fun g hg => ?_, rfl⟩
    exact hframes g (List.mem_cons_of_mem f hg)

/-! ### Memory -/

/-- A buffer that was filled shows nothing of what it held before. -/
theorem Buffer.cell_full {size : ℕ} {filled : List UInt8} (h : filled.length = size)
    (heap heap' : ℕ → UInt8) (outside : ℤ → Option UInt8) :
    Buffer.cell ⟨size, filled, heap, outside⟩ = Buffer.cell ⟨size, filled, heap', outside⟩ := by
  funext i
  unfold Buffer.cell
  dsimp only
  by_cases hin : 0 ≤ i ∧ i < size
  · have hlt : i.toNat < filled.length := by omega
    rw [if_pos hin, if_pos hin, List.getElem?_eq_getElem hlt]
    rfl
  · rw [if_neg hin, if_neg hin]

theorem Buffer.read_congr {b b' : Buffer} (h : b.cell = b'.cell) : b.read = b'.read := by
  funext offset n
  induction n generalizing offset with
  | zero => rfl
  | succ n ih => rw [Buffer.read, Buffer.read, h, ih]

section Congruence

variable {b b' : Buffer} (h : b.read = b'.read)

include h

theorem readBytes_congr : readBytes b = readBytes b' := by
  unfold readBytes
  rw [h]

theorem readU32_congr : readU32 b = readU32 b' := by
  unfold readU32
  rw [readBytes_congr h]

theorem readVarLen_congr : readVarLen b = readVarLen b' := by
  unfold readVarLen readU8 readU16
  rw [readBytes_congr h, readU32_congr h]

theorem readFields_congr : readFields b = readFields b' := by
  unfold readFields readTxin readTxout readHash readU64 readBufferAdvance
  rw [readBytes_congr h, readU32_congr h, readVarLen_congr h]

theorem readAll_congr (curBlock : Block) (n : ℕ) (c : TxCursor) :
    readAll b curBlock n c = readAll b' curBlock n c := by
  have hnext : readNext b curBlock = readNext b' curBlock := by
    unfold readNext readTransaction
    rw [h, readFields_congr h]
  induction n generalizing c with
  | zero => rfl
  | succ n ih => simp only [readAll, hnext, ih]

end Congruence

/-! ### A round in a whole file -/

/-- From the position on, the file is a sequence of whole blocks. -/
def Progress.Whole (data : List UInt8) (p : Progress) : Prop :=
  Framed (data.drop p.blockPos.toInt.toNat)

theorem toInt_toInt32 {u : UInt32} (h : u.toNat < 2 ^ 31) : u.toInt32.toInt = u.toNat := by
  show u.toBitVec.toInt = _
  rw [BitVec.toInt_eq_toNat_bmod]
  show Int.bmod u.toNat (2 ^ 32) = _
  exact Int.bmod_eq_of_le (by omega) (by omega)

theorem toNat_toUInt32 {x : Int32} (h : 0 ≤ x.toInt) : x.toUInt32.toNat = x.toInt.toNat :=
  Int32.toNat_toUInt32_of_le (Int32.le_iff_toInt_le.mpr h)

theorem blockStart_take {f : List UInt8} (h : 88 ≤ f.length) :
    blockStart (f.take 88) = blockStart f := by
  apply Subtype.ext
  show (f.take 88).take 88 ++ List.replicate (88 - (f.take 88).length) 0
    = f.take 88 ++ List.replicate (88 - f.length) 0
  have hlen : (f.take 88).length = 88 := by
    rw [List.length_take]
    omega
  rw [hlen, List.take_take, show 88 - f.length = 88 - 88 by omega, Nat.min_self]

/-- What a round finds in a whole file. -/
theorem Progress.Whole.exists_frame (h : p.Whole data) (hat : p.At data) (hopen : p.Open) :
    ∃ f rest, data.drop p.blockPos.toInt.toNat = f ++ rest ∧ Frame f ∧ Framed rest ∧
      p.blockPos.toInt.toNat + f.length ≤ data.length ∧ p.curBlock.head = headOf f ∧
      p.blockFile = ⟨data, p.blockPos.toInt.toNat, false, false⟩ := by
  obtain ⟨hpos, hlt⟩ := hopen.inFile hat
  have hfile : p.blockFile = ⟨data, p.blockPos.toInt.toNat, false, false⟩ := by
    rw [hat.blockFile hopen, streamAt, IfStream.seekg_of_nonneg rfl hpos]
    rfl
  have hne : data.drop p.blockPos.toInt.toNat ≠ [] := by
    intro hnil
    have := List.drop_eq_nil_iff.mp hnil
    omega
  obtain ⟨f, rest, hdrop, hf, hrest⟩ := h.exists_first hne
  have h88 := hf.1
  have hroom : p.blockPos.toInt.toNat + f.length ≤ data.length := by
    have hl := congrArg List.length hdrop
    rw [List.length_drop, List.length_append] at hl
    omega
  refine ⟨f, rest, hdrop, hf, hrest, hroom, ?_, hfile⟩
  -- the 88 bytes that are read are the first of the frame
  have hgot : (p.blockFile.read 88).1 = f.take 88 := by
    have hfit : p.blockPos.toInt.toNat + 88 ≤ data.length := by omega
    rw [hfile, IfStream.read_of_le ⟨rfl, rfl⟩ hfit]
    show (data.drop p.blockPos.toInt.toNat).take 88 = _
    rw [hdrop, List.take_append_of_le_length h88]
  rw [Progress.curBlock, headAt, hgot, blockStart_take h88]
  rfl

theorem toInt_add_88 {x : Int32} (hpos : 0 ≤ x.toInt) (h : x.toInt.toNat + 88 < 2 ^ 31) :
    (x + 88).toInt = x.toInt + 88 := by
  rw [Int32.toInt_add]
  show Int.bmod (x.toInt + 88) (2 ^ 32) = _
  exact Int.bmod_eq_of_le (by omega) (by omega)

/-- The payload is read in full, and the stream stays good. -/
theorem Progress.Whole.read_payload (h : p.Whole data) (hlen : data.length < 2 ^ 31)
    (hat : p.At data) (hopen : p.Open) :
    (transSec env p.curBlock p.opened).1.filled.length
        = (transSec env p.curBlock p.opened).1.size ∧
      (transSec env p.curBlock p.opened).2.Good := by
  obtain ⟨f, rest, hdrop, ⟨h88, hsize⟩, -, hroom, hhead, hfile⟩ := h.exists_frame hat hopen
  obtain ⟨hpos, -⟩ := hopen.inFile hat
  rw [show Blkheader.ofBytes (blockStart f) = headOf f from rfl, ← hhead] at hsize
  -- a frame has its 80 bytes of header, so the subtraction does not wrap
  have h80 : (p.curBlock.head.blocksize - 80).toNat = p.curBlock.head.blocksize.toNat - 80 :=
    UInt32.toNat_sub_of_le _ _ (UInt32.le_iff_toNat_le.mpr (by show 80 ≤ _; omega))
  have hfit : p.blockPos.toInt.toNat + 88 ≤ data.length := by omega
  have hopened : p.opened.blockFile = ⟨data, p.blockPos.toInt.toNat + 88, false, false⟩ := by
    rw [Progress.opened, hfile, IfStream.read_of_le ⟨rfl, rfl⟩ hfit]
  have hoff : (p.opened.blockPos + 88).toInt = p.blockPos.toInt + 88 := by
    show (p.blockPos + 88).toInt = _
    exact toInt_add_88 hpos (by omega)
  have hseek : p.opened.blockFile.seekg (p.opened.blockPos + 88).toInt
      = ⟨data, p.blockPos.toInt.toNat + 88, false, false⟩ := by
    rw [hoff, hopened, IfStream.seekg_of_nonneg rfl (by omega)]
    simp only [IfStream.mk.injEq, true_and, and_true]
    omega
  have hfit' : p.blockPos.toInt.toNat + 88 + (p.curBlock.head.blocksize - 80).toNat
      ≤ data.length := by omega
  -- seeking leads to where the header has ended, and the payload is all there
  have hread : (p.opened.blockFile.seekg (p.opened.blockPos + 88).toInt).read
      (p.curBlock.head.blocksize - 80).toNat
        = ((data.drop (p.blockPos.toInt.toNat + 88)).take (p.curBlock.head.blocksize - 80).toNat,
          ⟨data, p.blockPos.toInt.toNat + 88 + (p.curBlock.head.blocksize - 80).toNat, false,
            false⟩) := by
    rw [hseek, IfStream.read_of_le ⟨rfl, rfl⟩ hfit']
  unfold transSec
  dsimp only
  rw [hread]
  refine ⟨?_, rfl, rfl⟩
  show ((data.drop _).take _).length = _
  rw [List.length_take, List.length_drop]
  omega

/-- A round moves from one block to the next. -/
theorem Progress.Goes.blockPos_eq (hgoes : p.Goes env stoptm es q)
    (hlen : data.length < 2 ^ 31) (hat : p.At data) {f rest : List UInt8}
    (hdrop : data.drop p.blockPos.toInt.toNat = f ++ rest) (hf : Frame f)
    (hhead : p.curBlock.head = headOf f) :
    q.blockPos.toInt = (p.blockPos.toInt.toNat + f.length : ℕ) := by
  obtain ⟨hpos, hlt⟩ := hgoes.isOpen.inFile hat
  obtain ⟨hnext, -⟩ := hgoes.position hat
  have hroom : p.blockPos.toInt.toNat + f.length ≤ data.length := by
    have hl := congrArg List.length hdrop
    rw [List.length_drop, List.length_append] at hl
    omega
  have hat' : headAt (streamAt data p.blockPos) = headOf f := by
    rw [← hhead, Progress.curBlock, hat.blockFile hgoes.isOpen]
  have hsize : (headOf f).blocksize.toNat + 8 = f.length := hf.2
  have hsum : (p.blockPos.toUInt32 + (headOf f).blocksize + 8).toNat
      = p.blockPos.toInt.toNat + f.length := by
    rw [UInt32.toNat_add, UInt32.toNat_add, toNat_toUInt32 hpos]
    show ((p.blockPos.toInt.toNat + (headOf f).blocksize.toNat) % 2 ^ 32 + 8) % 2 ^ 32 = _
    omega
  rw [hnext, blockPosAfter, hat', toInt_toInt32 (by omega), hsum]

theorem Progress.Goes.drop_eq (hgoes : p.Goes env stoptm es q)
    (hlen : data.length < 2 ^ 31) (hat : p.At data) {f rest : List UInt8}
    (hdrop : data.drop p.blockPos.toInt.toNat = f ++ rest) (hf : Frame f)
    (hhead : p.curBlock.head = headOf f) : data.drop q.blockPos.toInt.toNat = rest := by
  rw [hgoes.blockPos_eq hlen hat hdrop hf hhead, Int.toNat_natCast, ← List.drop_drop, hdrop,
    List.drop_left]

theorem Progress.Goes.whole (hgoes : p.Goes env stoptm es q) (h : p.Whole data)
    (hlen : data.length < 2 ^ 31) (hat : p.At data) : q.Whole data := by
  obtain ⟨f, rest, hdrop, hf, hrest, -, hhead, -⟩ := h.exists_frame hat hgoes.isOpen
  rw [Progress.Whole, hgoes.drop_eq hlen hat hdrop hf hhead]
  exact hrest

/-! ### Runs over whole files -/

/-- Whole files, as far as a run from the checkpoint reads them. -/
structure WholeFiles (env : Env) (c : Checkpoint) : Prop where
  short : ∀ blkfileNum, (env.contents blkfileNum).length < 2 ^ 31
  framed : ∀ blkfileNum, Framed (env.contents blkfileNum)
  rest : Framed ((env.contents c.blkfile.toInt32).drop c.blkpos.toInt32.toInt.toNat)

theorem blockEvents_heap {curBlock : Block}
    (hfull : (transSec env curBlock p).1.filled.length = (transSec env curBlock p).1.size)
    (h : BlockEvents env curBlock p es q) (heap : UInt32 → ℕ → UInt8) :
    BlockEvents { env with heap := heap } curBlock p es q := by
  obtain ⟨transCount, transPos, txs, cursor, hcount, hall, hes, hq⟩ := h
  have hread : (transSec env curBlock p).1.read
      = (transSec { env with heap := heap } curBlock p).1.read :=
    Buffer.read_congr (Buffer.cell_full hfull _ _ _)
  refine ⟨transCount, transPos, txs, cursor, ?_, ?_, hes, hq⟩
  · rw [← readVarLen_congr hread]
    exact hcount
  · rw [← readAll_congr hread]
    exact hall

/-- A block loop over a whole file does not see the memory, and ends where the
rest of the file is whole. -/
theorem blockLoop_whole {n : ℕ} {r : List Event × Progress} (hw : p.Whole data)
    (hlen : data.length < 2 ^ 31) (hat : p.At data) (hflag : p.testflag = false)
    (h : blockLoop record env stoptm n evs p = .ok r) (heap : UInt32 → ℕ → UInt8) :
    blockLoop record { env with heap := heap } stoptm n evs p = .ok r ∧ r.2.Whole data := by
  induction n generalizing evs p with
  | zero => cases h
  | succ n ih =>
    rcases blockLoop_cases h with hend | ⟨hopen, hlate⟩ | ⟨es, q, hgoes⟩
    · rw [blockLoop_ended hend] at h ⊢
      cases h
      exact ⟨rfl, hw⟩
    · rw [blockLoop_late hopen hlate] at h ⊢
      cases h
      exact ⟨rfl, hw⟩
    · have hgoes' : p.Goes { env with heap := heap } stoptm es q :=
        ⟨hgoes.isOpen, hgoes.inTime,
          blockEvents_heap (hw.read_payload hlen hat hgoes.isOpen).1 hgoes.reads heap⟩
      rw [blockLoop_goes hgoes hflag] at h
      rw [blockLoop_goes hgoes' hflag]
      exact ih (hgoes.whole hw hlen hat) (hgoes.at hat) (hgoes.testflag.trans hflag) h

theorem WholeFiles.enter (hwf : WholeFiles env c) (blkfileNum : Int32) (p : Progress) :
    (p.enter env c blkfileNum).Whole (env.contents blkfileNum) := by
  rw [Progress.Whole, Progress.enter]
  dsimp only
  split
  · rename_i hnum
    have hrest := hwf.rest
    rw [← hnum] at hrest
    exact hrest
  · exact hwf.framed blkfileNum

theorem unzipFile_whole {blkfileNum : Int32} {r : List Event × Progress} (hwf : WholeFiles env c)
    (hflag : p.testflag = false) (h : unzipFile record env stoptm c blkfileNum evs p = .ok r)
    (heap : UInt32 → ℕ → UInt8) :
    unzipFile record { env with heap := heap } stoptm c blkfileNum evs p = .ok r ∧
      r.2.Whole (env.contents blkfileNum) := by
  by_cases hneg : blkfileNum < 0
  · rw [unzipFile, if_pos hneg] at h
    cases h
  · rw [unzipFile_eq hneg] at h ⊢
    exact blockLoop_whole (hwf.enter blkfileNum p) (hwf.short blkfileNum) (at_enter blkfileNum p)
      ((testflag_enter blkfileNum p).trans hflag) h heap

theorem fileLoop_whole {n : ℕ} {blkfileNum : Int32} {r : List Event × Int32 × Progress}
    (hwf : WholeFiles env c) (hflag : p.testflag = false)
    (h : fileLoop record env stoptm c n blkfileNum evs p = .ok r) (heap : UInt32 → ℕ → UInt8) :
    fileLoop record { env with heap := heap } stoptm c n blkfileNum evs p = .ok r ∧
      (r.2.2.testflag = true → r.2.2.Whole (env.contents r.2.1)) := by
  induction n generalizing blkfileNum evs p with
  | zero => cases h
  | succ n ih =>
    by_cases hlt : blkfileNum < 218
    · rw [fileLoop_succ hlt] at h ⊢
      obtain ⟨⟨evs₁, p₁⟩, hfile, hrest⟩ := bind_eq_ok.mp h
      obtain ⟨hfile', hwhole⟩ := unzipFile_whole hwf hflag hfile heap
      rw [hfile', ok_bind]
      by_cases hflag₁ : p₁.testflag
      · rw [if_pos hflag₁] at hrest ⊢
        cases hrest
        exact ⟨rfl, fun _ => hwhole⟩
      · rw [if_neg hflag₁] at hrest ⊢
        exact ih (by simpa using hflag₁) hrest
    · rw [fileLoop, if_neg hlt] at h ⊢
      cases h
      exact ⟨rfl, fun hstop => absurd (hflag.symm.trans hstop) Bool.false_ne_true⟩

/-- **Whole files and memory**: the memory does not matter, and a run that stops
saves a checkpoint from which the files are whole again. -/
theorem trace_whole {blkfileNum : Int32} (hwf : WholeFiles env c)
    (h : trace env stoptm c = .ok (evs, blkfileNum, p)) (heap : UInt32 → ℕ → UInt8) :
    trace { env with heap := heap } stoptm c = .ok (evs, blkfileNum, p) ∧
      (p.testflag = true → ∀ entitycnt, WholeFiles env (saved blkfileNum p entitycnt)) := by
  obtain ⟨htrace, hrest⟩ := fileLoop_whole hwf rfl h heap
  exact ⟨htrace, fun hstop _ => ⟨hwf.short, hwf.framed, hrest hstop⟩⟩

end BitcoinAnalysis
