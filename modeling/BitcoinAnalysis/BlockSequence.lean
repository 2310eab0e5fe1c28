/-
Whole block files as one sequence of blocks.

`env.blocksFrom c` are the blocks of the files, in order, from the position of a
checkpoint on.  A run over whole files processes the blocks in front of the
first one that is later than the stop time, and it ends at that block if there
is one (`trace_blocks`).
-/
import BitcoinAnalysis.Frames
import BitcoinAnalysis.Numbering
import Mathlib.Data.List.TakeWhile

open Run Trace

namespace BitcoinAnalysis

variable {env : Env} {stoptm : ℤ} {c : Checkpoint} {evs es : List Event} {num : Int32}
  {p q : Progress} {data : List UInt8}

/-- The time stamp of a block as it stands in a file. -/
def timeOf (f : List UInt8) : ℕ := (headOf f).timeStamp.toNat

/-- Cut into blocks along the size fields, at most `n` of them. -/
def splitBlocks : ℕ → List UInt8 → List (List UInt8)
  | 0, _ => []
  | n + 1, data =>
    if data = [] then []
    else
      let size := (headOf data).blocksize.toNat + 8
      data.take size :: splitBlocks n (data.drop size)

/-- The blocks of a file that a run from a checkpoint has in front of it. -/
def Env.blocks (env : Env) (c : Checkpoint) (num : Int32) : List (List UInt8) :=
  let data := env.contents num
  if num.toUInt32 = c.blkfile then
    -- the stream does not move to a negative position
    if c.blkpos.toInt32.toInt < 0 then []
    else splitBlocks data.length (data.drop c.blkpos.toInt32.toInt.toNat)
  else splitBlocks data.length data

/-- The blocks of the files from the `k`-th on. -/
def Env.blocksBehind (env : Env) (c : Checkpoint) (k : ℕ) : List (List UInt8) :=
  (List.range' k (218 - k)).flatMap fun i => env.blocks c (Int32.ofNat i)

/-- The blocks of all files from the checkpoint on. -/
def Env.blocksFrom (env : Env) (c : Checkpoint) : List (List UInt8) :=
  env.blocksBehind c c.blkfile.toInt32.toInt.toNat

/-! ### Cutting a whole file -/

theorem headOf_append {f : List UInt8} (h : 88 ≤ f.length) (rest : List UInt8) :
    headOf (f ++ rest) = headOf f := by
  have hlen : 88 ≤ (f ++ rest).length := by
    rw [List.length_append]
    omega
  rw [headOf, headOf, ← blockStart_take hlen, ← blockStart_take h,
    List.take_append_of_le_length h]

theorem splitBlocks_flatten {frames : List (List UInt8)} (h : ∀ f ∈ frames, Frame f) {n : ℕ}
    (hn : frames.flatten.length ≤ n) : splitBlocks n frames.flatten = frames := by
  induction frames generalizing n with
  | nil =>
    cases n with
    | zero => rfl
    | succ n => simp [splitBlocks]
  | cons f frames ih =>
    obtain ⟨h88, hsize⟩ := h f List.mem_cons_self
    rw [List.flatten_cons, List.length_append] at hn
    obtain ⟨m, rfl⟩ : ∃ m, n = m + 1 := ⟨n - 1, by omega⟩
    have hne : f ++ frames.flatten ≠ [] := by
      intro hnil
      rw [(List.append_eq_nil_iff.mp hnil).1] at h88
      simp at h88
    have hhead : (headOf (f ++ frames.flatten)).blocksize.toNat + 8 = f.length := by
      rw [headOf_append h88]
      exact hsize
    rw [List.flatten_cons, splitBlocks, if_neg hne]
    dsimp only
    rw [hhead, List.take_left, List.drop_left]
    rw [ih (fun g hg => h g (List.mem_cons_of_mem f hg)) (by omega)]

/-- Cutting takes the first block off. -/
theorem splitBlocks_append {f rest : List UInt8} (hf : Frame f) (hrest : Framed rest) {n m : ℕ}
    (hn : (f ++ rest).length ≤ n) (hm : rest.length ≤ m) :
    splitBlocks n (f ++ rest) = f :: splitBlocks m rest := by
  obtain ⟨frames, hframes, rfl⟩ := hrest
  have hall : ∀ g ∈ f :: frames, Frame g := by
    intro g hg
    rcases List.mem_cons.mp hg with rfl | hg
    · exact hf
    · exact hframes g hg
  have hcons := splitBlocks_flatten hall (n := n) (by rw [List.flatten_cons]; exact hn)
  rw [List.flatten_cons] at hcons
  rw [hcons, splitBlocks_flatten hframes hm]

/-! ### The blocks in front of a run -/

/-- The blocks of the file that a run has in front of it. -/
def Progress.blocksLeft (data : List UInt8) (p : Progress) : List (List UInt8) :=
  if p.blockFile.Good then splitBlocks data.length (data.drop p.blockPos.toInt.toNat) else []

/-- An open file has the block at its position in front of it. -/
theorem Progress.Whole.blocksLeft_eq (h : p.Whole data) (hat : p.At data) (hopen : p.Open) :
    ∃ f rest, data.drop p.blockPos.toInt.toNat = f ++ rest ∧ Frame f ∧
      p.curBlock.head = headOf f ∧ p.blocksLeft data = f :: splitBlocks data.length rest := by
  obtain ⟨f, rest, hdrop, hf, hrest, hroom, hhead, -⟩ := h.exists_frame hat hopen
  have hlen := congrArg List.length hdrop
  rw [List.length_drop, List.length_append] at hlen
  refine ⟨f, rest, hdrop, hf, hhead, ?_⟩
  rw [Progress.blocksLeft, if_pos hopen.good, hdrop]
  refine splitBlocks_append hf hrest ?_ ?_
  · rw [List.length_append]
    omega
  · omega

theorem Progress.Goes.blocksLeft (hgoes : p.Goes env stoptm es q) (h : p.Whole data)
    (hlen : data.length < 2 ^ 31) (hat : p.At data) :
    ∃ f, headOf f = p.curBlock.head ∧ p.blocksLeft data = f :: q.blocksLeft data := by
  obtain ⟨f, rest, hdrop, hf, hhead, hleft⟩ := h.blocksLeft_eq hat hgoes.isOpen
  have hgood : q.blockFile.Good := by
    have hpos : 0 ≤ q.blockPos.toInt := by
      rw [hgoes.blockPos_eq hlen hat hdrop hf hhead]
      exact Int.natCast_nonneg _
    have hread : (transSec env p.curBlock p.opened).2.Good :=
      (h.read_payload hlen hat hgoes.isOpen).2
    rw [hgoes.blockFile_eq, IfStream.seekg_of_nonneg hread.2 hpos]
    exact ⟨rfl, hread.2⟩
  refine ⟨f, hhead.symm, ?_⟩
  rw [hleft, Progress.blocksLeft, if_pos hgood, hgoes.drop_eq hlen hat hdrop hf hhead]

theorem splitBlocks_nil (n : ℕ) : splitBlocks n [] = [] := by
  cases n with
  | zero => rfl
  | succ n => rfl

theorem blocksLeft_of_not_open (hat : p.At data) (hshut : ¬ p.Open) : p.blocksLeft data = [] := by
  rw [Progress.blocksLeft]
  split
  · rename_i hgood
    have hfile := hat hgood
    have hpos : 0 ≤ p.blockPos.toInt := by
      rw [hfile, streamAt] at hgood
      exact (IfStream.seekg_of_good hgood).2
    rw [streamAt, IfStream.seekg_of_nonneg rfl hpos] at hfile
    have hend : data.length ≤ p.blockPos.toInt.toNat := by
      by_contra hlt
      have hbyte : p.blockFile.data[p.blockFile.pos]? = some (data[p.blockPos.toInt.toNat]) := by
        rw [hfile]
        exact List.getElem?_eq_getElem (not_le.mp hlt)
      have hpeek := IfStream.peek_eq_some.mpr ⟨hgood, hbyte, rfl⟩
      exact hshut (by rw [Progress.Open, hpeek]; rfl)
    rw [List.drop_eq_nil_of_le hend, splitBlocks_nil]
  · rfl

theorem blocksLeft_enter (num : Int32) (p : Progress) :
    (p.enter env c num).blocksLeft (env.contents num) = env.blocks c num := by
  rw [Progress.blocksLeft, Progress.enter, Env.blocks]
  cases hfile : env.blkfile num.toInt.toNat with
  | none =>
    have hnil : env.contents num = [] := by rw [Env.contents, hfile]; rfl
    simp [hnil, splitBlocks, IfStream.openFile, IfStream.Good, IfStream.seekg]
  | some data =>
    have hdata : env.contents num = data := by rw [Env.contents, hfile]; rfl
    rw [hdata]
    dsimp only
    by_cases hnum : num.toUInt32 = c.blkfile
    · rw [if_pos hnum, if_pos hnum]
      by_cases hneg : c.blkpos.toInt32.toInt < 0
      · -- the stream has failed
        rw [if_pos hneg, if_neg]
        intro hgood
        have := (IfStream.seekg_of_good hgood).2
        omega
      · rw [if_neg hneg, if_pos]
        rw [IfStream.seekg_of_nonneg rfl (not_lt.mp hneg)]
        exact ⟨rfl, rfl⟩
    · rw [if_neg hnum, if_neg hnum, if_pos ⟨rfl, rfl⟩]
      rfl

theorem blocksBehind_of_lt (hpos : 0 ≤ num.toInt) (hlt : num.toInt < 218) :
    env.blocksBehind c num.toInt.toNat
      = env.blocks c num ++ env.blocksBehind c (num.toInt.toNat + 1) := by
  have hnum : Int32.ofNat num.toInt.toNat = num := by
    rw [← Int32.ofInt_eq_ofNat, Int.toNat_of_nonneg hpos, Int32.ofInt_toInt]
  have hstep : 218 - num.toInt.toNat = 218 - (num.toInt.toNat + 1) + 1 := by omega
  rw [Env.blocksBehind, hstep, List.range'_succ, List.flatMap_cons, hnum]
  rfl

theorem blocksBehind_of_le {k : ℕ} (h : 218 ≤ k) : env.blocksBehind c k = [] := by
  rw [Env.blocksBehind, Nat.sub_eq_zero_of_le h]
  rfl

/-! ### What a run has processed -/

/-- At every head: the blocks processed are those of the files up to there, and
none of them is late. -/
theorem Reached.blocks (h : Reached env stoptm c evs num p) (hwf : WholeFiles env c) :
    p.Whole (env.contents num) ∧ ∃ done, (processedBlocks evs).map Block.head = done.map headOf ∧
      (∀ f ∈ done, (timeOf f : ℤ) ≤ stoptm) ∧
      env.blocksFrom c = done ++ (p.blocksLeft (env.contents num)
        ++ env.blocksBehind c (num.toInt.toNat + 1)) := by
  induction h with
  | first hneg hlt =>
    have hhead : Reached env stoptm c [] c.blkfile.toInt32 _ := .first hneg hlt
    obtain ⟨hpos, hlt'⟩ := hhead.bounds
    refine ⟨hwf.enter _ _, [], rfl, by simp, ?_⟩
    rw [List.nil_append, blocksLeft_enter, Env.blocksFrom, blocksBehind_of_lt hpos hlt']
  | round hr hgoes ih =>
    obtain ⟨hwhole, done, hblocks, htimes, hsplit⟩ := ih
    -- a round moves the first block left over to those done
    obtain ⟨f, hf, hleft⟩ := hgoes.blocksLeft hwhole (hwf.short _) hr.at
    obtain ⟨txs, blk, rfl, hread⟩ := hgoes.exists_block
    refine ⟨hgoes.whole hwhole (hwf.short _) hr.at, done ++ [f], ?_, ?_, ?_⟩
    · rw [processedBlocks_append, processedBlocks_block, List.map_append, List.map_append, hblocks,
        List.map_singleton, List.map_singleton, hread.head, hf]
    · intro g hg
      rcases List.mem_append.mp hg with hg | hg
      · exact htimes g hg
      · rw [List.mem_singleton.mp hg, timeOf, hf]
        exact not_lt.mp hgoes.inTime
    · rw [hsplit, hleft]
      simp
  | file hr hshut hlt ih =>
    obtain ⟨-, done, hblocks, htimes, hsplit⟩ := ih
    obtain ⟨hpos, hlt'⟩ := (hr.file hshut hlt).bounds
    -- nothing is left of a file that is shut, so the next one comes first
    have hnext := toInt_add_one (Int32.lt_iff_toInt_lt.mpr hr.bounds.2)
    refine ⟨hwf.enter _ _, done, hblocks, htimes, ?_⟩
    rw [hsplit, blocksLeft_of_not_open hr.at hshut, List.nil_append, blocksLeft_enter,
      ← blocksBehind_of_lt hpos hlt', hnext]
    congr 2
    have := hr.bounds.1
    omega

theorem takeWhile_of_late {fs : List (List UInt8)} {f : List UInt8} (rest : List (List UInt8))
    (hfs : ∀ g ∈ fs, (timeOf g : ℤ) ≤ stoptm) (hf : stoptm < timeOf f) :
    (fs ++ f :: rest).takeWhile (fun g => (timeOf g : ℤ) ≤ stoptm) = fs := by
  have hpos : ∀ g ∈ fs, decide ((timeOf g : ℤ) ≤ stoptm) = true := by
    intro g hg
    exact decide_eq_true (hfs g hg)
  rw [List.takeWhile_append_of_pos hpos, List.takeWhile_cons_of_neg (by simpa using hf),
    List.append_nil]

/-- **A run over whole files** processes the blocks in front of the first late
one, and stops at that one if there is one. -/
theorem trace_blocks (hwf : WholeFiles env c) (h : trace env stoptm c = .ok (evs, num, p)) :
    (processedBlocks evs).map Block.head
        = ((env.blocksFrom c).takeWhile fun f => (timeOf f : ℤ) ≤ stoptm).map headOf ∧
      (p.testflag = true ↔ ∃ f ∈ env.blocksFrom c, stoptm < timeOf f) := by
  cases trace_ends h with
  | none hout =>
    have hnil : env.blocksFrom c = [] := by
      refine blocksBehind_of_le ?_
      have : ¬ c.blkfile.toInt32.toInt < 218 := fun hlt => hout (Int32.lt_iff_toInt_lt.mpr hlt)
      omega
    rw [hnil]
    exact ⟨rfl, by simp [Checkpoint.start]⟩
  | late hr hopen hlate =>
    obtain ⟨hwhole, done, hblocks, htimes, hsplit⟩ := hr.blocks hwf
    obtain ⟨f, rest, -, -, hhead, hleft⟩ := hwhole.blocksLeft_eq hr.at hopen
    have hf : stoptm < timeOf f := by
      rw [timeOf, ← hhead]
      exact hlate
    rw [hsplit, hleft, List.cons_append, takeWhile_of_late _ htimes hf]
    refine ⟨hblocks, fun _ => ⟨f, ?_, hf⟩, fun _ => rfl⟩
    simp
  | @out _ last _ hr hshut hlast =>
    obtain ⟨-, done, hblocks, htimes, hsplit⟩ := hr.blocks hwf
    have hbehind : env.blocksBehind c (last.toInt.toNat + 1) = [] := by
      refine blocksBehind_of_le ?_
      have hnext := toInt_add_one (Int32.lt_iff_toInt_lt.mpr hr.bounds.2)
      rw [Int32.lt_iff_toInt_lt, hnext] at hlast
      have : ¬ last.toInt + 1 < 218 := hlast
      omega
    -- nothing is left, so no block is late
    rw [hsplit, blocksLeft_of_not_open hr.at hshut, hbehind, List.append_nil, List.append_nil,
      List.takeWhile_eq_self_iff.mpr (by simpa using htimes)]
    refine ⟨hblocks, fun h => ?_, fun ⟨f, hf, hlate⟩ => absurd hlate (not_lt.mpr (htimes f hf))⟩
    exact absurd (hr.testflag.symm.trans h) Bool.false_ne_true

end BitcoinAnalysis
