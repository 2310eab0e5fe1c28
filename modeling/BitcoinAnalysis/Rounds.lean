/-
The rounds of the block loop.

At the head of `while (BlockFile.peek() != EOF)` the loop ends, stops at a block
that is too late, or goes on to the next position.  Where it goes depends on the
contents of the file and the position only, so a loop that returns does not come
back to a position, and the number of rounds the model allows is enough for any
file (`blockLoop_fuel`).
-/
import BitcoinAnalysis.Orbit
import BitcoinAnalysis.UnzipTrace

open Orbit Run Trace

namespace BitcoinAnalysis

variable {env : Env} {stoptm t t' : ℤ} {p q : Progress} {evs es : List Event} {data : List UInt8}

/-! ### One round -/

/-- The header read at the head of a round. -/
def headAt (s : IfStream) : Blkheader := .ofBytes (blockStart (s.read 88).1)

/-- `curBlock` in front of the stop test. -/
def Progress.curBlock (p : Progress) : Block where
  head := headAt p.blockFile
  transCount := 0
  curhash := twiceSHA256 ((blockStart (p.blockFile.read 88).1).1.drop 8)
  blocknumber := p.blockNum.toUInt32
  blockReward := none

/-- The variables behind the header. -/
def Progress.opened (p : Progress) : Progress :=
  { p with blockFile := (p.blockFile.read 88).2, blockNum := p.blockNum + 1 }

def Progress.stopped (p : Progress) : Progress := { p.opened with testflag := true }

def Progress.ended (p : Progress) : Progress := { p with blockFile := p.blockFile.peek.2 }

/-- There is a byte to `peek`. -/
def Progress.Open (p : Progress) : Prop := p.blockFile.peek.1.isSome

instance (p : Progress) : Decidable p.Open := inferInstanceAs (Decidable (_ = true))

def Progress.Late (p : Progress) (stoptm : ℤ) : Prop := (p.curBlock.head.timeStamp.toNat : ℤ) > stoptm

/-- A round that reads a block. -/
structure Progress.Goes (env : Env) (stoptm : ℤ) (p : Progress) (es : List Event) (q : Progress) :
    Prop where
  isOpen : p.Open
  inTime : ¬ p.Late stoptm
  reads : BlockEvents env p.curBlock p.opened es q

theorem Progress.Open.peek_eq (h : p.Open) : ∃ b, p.blockFile.peek = (some b, p.blockFile) := by
  obtain ⟨b, hb⟩ := Option.isSome_iff_exists.mp h
  have hpeek : p.blockFile.peek = (some b, p.blockFile.peek.2) := Prod.ext hb rfl
  obtain ⟨-, -, hs⟩ := IfStream.peek_eq_some.mp hpeek
  exact ⟨b, hpeek.trans (by rw [hs])⟩

section Equations

variable {σ : Type} {handle : σ → Event → Except Fault σ} {st : σ} {n : ℕ}

theorem blockLoop_ended (h : ¬ p.Open) :
    blockLoop handle env stoptm (n + 1) st p = .ok (st, p.ended) := by
  have hpeek : p.blockFile.peek = (none, p.blockFile.peek.2) :=
    Prod.ext (Option.not_isSome_iff_eq_none.mp h) rfl
  rw [blockLoop, hpeek]
  rfl

theorem blockLoop_open (h : p.Open) :
    blockLoop handle env stoptm (n + 1) st p = blockBody handle env stoptm st p >>= fun x =>
      if x.2.testflag then .ok x else blockLoop handle env stoptm n x.1 x.2 := by
  obtain ⟨b, hb⟩ := h.peek_eq
  rw [blockLoop, hb]

theorem blockLoop_late (h : p.Open) (hlate : p.Late stoptm) :
    blockLoop handle env stoptm (n + 1) st p = .ok (st, p.stopped) := by
  have hbody : blockBody handle env stoptm st p = .ok (st, p.stopped) := if_pos hlate
  rw [blockLoop_open h, hbody]
  rfl

end Equations

theorem Progress.Goes.testflag (h : p.Goes env stoptm es q) : q.testflag = p.testflag := by
  obtain ⟨_, _, _, _, -, -, -, rfl⟩ := h.reads
  rfl

theorem Progress.Goes.blockFile_eq (h : p.Goes env stoptm es q) :
    q.blockFile = (transSec env p.curBlock p.opened).2.seekg q.blockPos.toInt := by
  obtain ⟨_, _, _, _, -, -, -, rfl⟩ := h.reads
  rfl

theorem blockLoop_goes {n : ℕ} (h : p.Goes env stoptm es q) (hflag : p.testflag = false) :
    blockLoop record env stoptm (n + 1) evs p
      = blockLoop record env stoptm n (evs ++ es) q := by
  have hblock : unzipBlock record env p.curBlock evs p.opened = .ok (evs ++ es, q) :=
    unzipBlock_eq_ok.mpr ⟨es, h.reads, run_record evs es⟩
  have hbody : blockBody record env stoptm evs p = .ok (evs ++ es, q) :=
    (if_neg h.inTime).trans hblock
  rw [blockLoop_open h.isOpen, hbody, ok_bind, if_neg]
  rw [h.testflag, hflag]
  exact Bool.false_ne_true

/-- The events a round adds to those recorded before it. -/
theorem goes_of_record {evs' : List Event} (hopen : p.Open) (hlate : ¬ p.Late stoptm)
    (h : blockBody record env stoptm evs p = .ok (evs', q)) :
    ∃ es, p.Goes env stoptm es q ∧ evs' = evs ++ es := by
  have hblock : unzipBlock record env p.curBlock evs p.opened = .ok (evs', q) :=
    (if_neg hlate).symm.trans h
  obtain ⟨es, hreads, hrun⟩ := unzipBlock_eq_ok.mp hblock
  rw [run_record] at hrun
  cases hrun
  exact ⟨es, ⟨hopen, hlate, hreads⟩, rfl⟩

/-- **The three kinds of rounds** of a loop that returns. -/
theorem blockLoop_cases {n : ℕ} {r : List Event × Progress}
    (h : blockLoop record env stoptm (n + 1) evs p = .ok r) :
    ¬ p.Open ∨ (p.Open ∧ p.Late stoptm) ∨ ∃ es q, p.Goes env stoptm es q := by
  by_cases hopen : p.Open
  · by_cases hlate : p.Late stoptm
    · exact .inr (.inl ⟨hopen, hlate⟩)
    · rw [blockLoop_open hopen] at h
      obtain ⟨⟨evs', q⟩, hbody, -⟩ := bind_eq_ok.mp h
      have hblock : unzipBlock record env p.curBlock evs p.opened = .ok (evs', q) :=
        (if_neg hlate).symm.trans hbody
      obtain ⟨es, hreads, -⟩ := unzipBlock_eq_ok.mp hblock
      exact .inr (.inr ⟨es, q, hopen, hlate, hreads⟩)
  · exact .inl hopen

/-- More rounds do not change a result. -/
theorem blockLoop_mono {n m : ℕ} {r : List Event × Progress} (hflag : p.testflag = false)
    (h : blockLoop record env stoptm n evs p = .ok r) (hle : n ≤ m) :
    blockLoop record env stoptm m evs p = .ok r := by
  induction n generalizing m evs p with
  | zero => cases h
  | succ n ih =>
    obtain ⟨m, rfl⟩ := Nat.exists_eq_add_of_lt hle
    rcases blockLoop_cases h with hend | ⟨hopen, hlate⟩ | ⟨es, q, hgoes⟩
    · rw [blockLoop_ended hend] at h ⊢
      exact h
    · rw [blockLoop_late hopen hlate] at h ⊢
      exact h
    · rw [blockLoop_goes hgoes hflag] at h ⊢
      exact ih (hgoes.testflag.trans hflag) h (by omega)

/-! ### Positions -/

/-- The stream of a file that was opened and moved to a position. -/
def streamAt (data : List UInt8) (blockPos : Int32) : IfStream :=
  (IfStream.openFile (some data)).seekg blockPos.toInt

/-- While the stream is good it stands at `BlockPos`. -/
def Progress.At (data : List UInt8) (p : Progress) : Prop :=
  p.blockFile.Good → p.blockFile = streamAt data p.blockPos

theorem Progress.Open.good (h : p.Open) : p.blockFile.Good := by
  obtain ⟨b, hb⟩ := h.peek_eq
  exact (IfStream.peek_eq_some.mp hb).1

theorem Progress.At.blockFile (h : p.At data) (hopen : p.Open) :
    p.blockFile = streamAt data p.blockPos := h hopen.good

@[simp] theorem data_streamAt (data : List UInt8) (blockPos : Int32) :
    (streamAt data blockPos).data = data := by
  rw [streamAt, IfStream.data_seekg]
  rfl

theorem inFile_of_peek {s : IfStream} {blockPos : Int32} (hdata : s.data = data)
    (h : (s.seekg blockPos.toInt).peek.1.isSome) :
    0 ≤ blockPos.toInt ∧ blockPos.toInt.toNat < data.length := by
  obtain ⟨b, hb⟩ := Option.isSome_iff_exists.mp h
  obtain ⟨hgood, hbyte, -⟩ := IfStream.peek_eq_some.mp
    (show (s.seekg blockPos.toInt).peek = (some b, (s.seekg blockPos.toInt).peek.2) from
      Prod.ext hb rfl)
  obtain ⟨hseek, hpos⟩ := IfStream.seekg_of_good hgood
  rw [hseek, IfStream.seekg_of_nonneg rfl hpos, hdata] at hbyte
  obtain ⟨hlt, -⟩ := List.getElem?_eq_some_iff.mp hbyte
  exact ⟨hpos, hlt⟩

theorem Progress.Open.inFile (h : p.Open) (hat : p.At data) :
    0 ≤ p.blockPos.toInt ∧ p.blockPos.toInt.toNat < data.length := by
  have hpeek := h
  rw [Progress.Open, hat.blockFile h] at hpeek
  exact inFile_of_peek rfl hpeek

/-- The stream behind the payload of the block at a position. -/
def streamBehind (data : List UInt8) (blockPos : Int32) : IfStream :=
  let s := streamAt data blockPos
  let size := ((headAt s).blocksize - 80).toNat
  (((s.read 88).2.seekg (blockPos + 88).toInt).read size).2

/-- `BlockPos += Blocksize + 8` -/
def blockPosAfter (data : List UInt8) (blockPos : Int32) : Int32 :=
  (blockPos.toUInt32 + (headAt (streamAt data blockPos)).blocksize + 8).toInt32

theorem Progress.Goes.position (h : p.Goes env stoptm es q) (hat : p.At data) :
    q.blockPos = blockPosAfter data p.blockPos ∧
      q.blockFile = (streamBehind data p.blockPos).seekg q.blockPos.toInt := by
  have hfile := hat.blockFile h.isOpen
  obtain ⟨_, _, _, _, -, -, -, rfl⟩ := h.reads
  simp only [Progress.next, transSec, Progress.opened, Progress.curBlock, blockPosAfter,
    streamBehind, hfile, and_self]

theorem Progress.Goes.at (h : p.Goes env stoptm es q) (hat : p.At data) : q.At data := by
  intro hgood
  obtain ⟨-, hfile⟩ := h.position hat
  rw [hfile] at hgood ⊢
  rw [(IfStream.seekg_of_good hgood).1, streamAt, streamBehind]
  simp only [IfStream.data_read, IfStream.data_seekg, data_streamAt]

/-- The position of the next round, if there is one. -/
def nextPos (data : List UInt8) (stoptm : ℤ) (blockPos : Int32) : Option Int32 :=
  if ((headAt (streamAt data blockPos)).timeStamp.toNat : ℤ) > stoptm then none
  else
    let blockPos' := blockPosAfter data blockPos
    if ((streamBehind data blockPos).seekg blockPos'.toInt).peek.1.isSome then some blockPos'
    else none

theorem nextPos_of_late (hat : p.At data) (hopen : p.Open) (hlate : p.Late stoptm) :
    nextPos data stoptm p.blockPos = none := by
  rw [Progress.Late, Progress.curBlock, hat.blockFile hopen] at hlate
  exact if_pos hlate

theorem nextPos_of_goes (h : p.Goes env stoptm es q) (hat : p.At data) :
    nextPos data stoptm p.blockPos = if q.Open then some q.blockPos else none := by
  have htime := h.inTime
  rw [Progress.Late, Progress.curBlock, hat.blockFile h.isOpen] at htime
  obtain ⟨hpos, hfile⟩ := h.position hat
  have hopen : q.Open ↔ ((streamBehind data p.blockPos).seekg q.blockPos.toInt).peek.1.isSome := by
    rw [Progress.Open, hfile]
  rw [nextPos, if_neg htime, ← hpos]
  exact if_congr hopen.symm rfl rfl

/-- A loop that returns has an end. -/
theorem orbit_of_blockLoop {n : ℕ} {r : List Event × Progress} (hat : p.At data)
    (hflag : p.testflag = false) (hopen : p.Open)
    (h : blockLoop record env stoptm n evs p = .ok r) :
    orbit (nextPos data stoptm) n p.blockPos = none := by
  induction n generalizing evs p with
  | zero => cases h
  | succ n ih =>
    rw [orbit]
    rcases blockLoop_cases h with hend | ⟨-, hlate⟩ | ⟨es, q, hgoes⟩
    · exact absurd hopen hend
    · rw [nextPos_of_late hat hopen hlate, Option.bind_none]
    · rw [nextPos_of_goes hgoes hat]
      split
      · rename_i hq
        rw [blockLoop_goes hgoes hflag] at h
        exact ih (hgoes.at hat) (hgoes.testflag.trans hflag) hq h
      · exact Option.bind_none _

/-- A loop that returns at all returns when its positions have come to an end. -/
theorem blockLoop_of_orbit {n m : ℕ} {r : List Event × Progress} (hat : p.At data)
    (hflag : p.testflag = false) (hend : orbit (nextPos data stoptm) m p.blockPos = none)
    (h : blockLoop record env stoptm n evs p = .ok r) :
    blockLoop record env stoptm (m + 1) evs p = .ok r := by
  induction m generalizing n evs p with
  | zero => cases hend
  | succ m ih =>
    cases n with
    | zero => cases h
    | succ n =>
      rcases blockLoop_cases h with hshut | ⟨hopen, hlate⟩ | ⟨es, q, hgoes⟩
      · rw [blockLoop_ended hshut] at h ⊢
        exact h
      · rw [blockLoop_late hopen hlate] at h ⊢
        exact h
      · rw [blockLoop_goes hgoes hflag] at h ⊢
        rw [orbit, nextPos_of_goes hgoes hat] at hend
        by_cases hq : q.Open
        · rw [if_pos hq, Option.bind_some] at hend
          exact ih (hgoes.at hat) (hgoes.testflag.trans hflag) hend h
        · cases n with
          | zero => cases h
          | succ n =>
            rw [blockLoop_ended hq] at h ⊢
            exact h

/-! ### The number of rounds -/

/-- The positions inside a file. -/
def positions (data : List UInt8) : Finset Int32 :=
  (Finset.range data.length).image fun i : ℕ => Int32.ofInt i

theorem card_positions_le (data : List UInt8) : (positions data).card ≤ data.length :=
  Finset.card_image_le.trans (Finset.card_range _).le

theorem mem_positions {blockPos : Int32} (hpos : 0 ≤ blockPos.toInt)
    (hlt : blockPos.toInt.toNat < data.length) : blockPos ∈ positions data := by
  refine Finset.mem_image.mpr ⟨blockPos.toInt.toNat, Finset.mem_range.mpr hlt, ?_⟩
  rw [Int.toNat_of_nonneg hpos, Int32.ofInt_toInt]

theorem mem_positions_of_nextPos {x y : Int32} (h : nextPos data stoptm x = some y) :
    y ∈ positions data := by
  rw [nextPos] at h
  split at h
  · cases h
  · dsimp only at h
    split at h
    · rename_i hpeek
      cases h
      have hdata : (streamBehind data x).data = data := by
        simp only [streamBehind, IfStream.data_read, IfStream.data_seekg, data_streamAt]
      obtain ⟨hpos, hlt⟩ := inFile_of_peek hdata hpeek
      exact mem_positions hpos hlt
    · cases h

theorem mem_positions_of_orbit {n : ℕ} {x y : Int32} (hx : x ∈ positions data)
    (h : orbit (nextPos data stoptm) n x = some y) : y ∈ positions data := by
  induction n generalizing x with
  | zero =>
    cases h
    exact hx
  | succ n ih =>
    rw [orbit] at h
    obtain ⟨z, hz, h⟩ := Option.bind_eq_some_iff.mp h
    exact ih (mem_positions_of_nextPos hz) h

/-- **The rounds are enough**: a block loop that returns after any number of
rounds returns after one more than the file has bytes. -/
theorem blockLoop_fuel {n : ℕ} {r : List Event × Progress} (hat : p.At data)
    (hflag : p.testflag = false) (h : blockLoop record env stoptm n evs p = .ok r) :
    blockLoop record env stoptm (data.length + 1) evs p = .ok r := by
  by_cases hopen : p.Open
  · have hstart : p.blockPos ∈ positions data := by
      obtain ⟨hpos, hlt⟩ := hopen.inFile hat
      exact mem_positions hpos hlt
    have hend := exists_end (fun n y hy => mem_positions_of_orbit hstart hy)
      (orbit_of_blockLoop hat hflag hopen h)
    have hcard := card_positions_le data
    exact blockLoop_mono hflag (blockLoop_of_orbit hat hflag hend h) (by omega)
  · cases n with
    | zero => cases h
    | succ n =>
      rw [blockLoop_ended hopen] at h ⊢
      exact h

end BitcoinAnalysis
