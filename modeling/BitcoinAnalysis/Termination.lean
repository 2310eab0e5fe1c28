/-
The block loop of a file comes to an end.

A size field that would not move the position forward makes the length of the
payload wrap around, and then the payload is not in the file.  So a round either
moves forward by a header at least, inside the file, or leaves the stream failed
(`Progress.Goes.moves`), and a file of `n` bytes has at most `n / 88 + 1` rounds,
whatever is done with the transactions and blocks it reads (`unzipFile_terminates`).
-/
import BitcoinAnalysis.Duplicates
import BitcoinAnalysis.Frames

open Run

namespace BitcoinAnalysis

variable {env : Env} {stoptm : ℤ} {p q : Progress} {es : List Event} {data : List UInt8}
  {c : Checkpoint}

/-! ### One round -/

/-- The header or the payload of the round's block is not in the file. -/
def Progress.Short (env : Env) (p : Progress) : Prop :=
  (p.blockFile.read 88).1.length < 88 ∨
    (transSec env p.curBlock p.opened).1.filled.length < (transSec env p.curBlock p.opened).1.size

/-- What a round does to the position and the stream. -/
structure Moves (env : Env) (data : List UInt8) (p q : Progress) : Prop where
  forward : q.blockFile.Good →
    p.blockPos.toInt + 88 ≤ q.blockPos.toInt ∧ q.blockPos.toInt ≤ data.length
  ends : p.Short env → q.blockFile.fail = true ∧ ¬ q.Open

/-- A stream that has failed in a round is failed behind it. -/
theorem Progress.Goes.fail (h : p.Goes env stoptm es q)
    (hfail : (transSec env p.curBlock p.opened).2.fail = true) :
    q.blockFile.fail = true ∧ ¬ q.Open := by
  have hq : q.blockFile.fail = true := by
    rw [h.blockFile_eq]
    exact IfStream.fail_seekg hfail _
  refine ⟨hq, ?_⟩
  rw [Progress.Open, IfStream.peek_of_fail hq]
  exact Bool.false_ne_true

theorem Progress.Goes.ends (h : p.Goes env stoptm es q) (hshort : p.Short env) :
    q.blockFile.fail = true ∧ ¬ q.Open := by
  refine h.fail ?_
  rcases hshort with hhead | hpayload
  · exact IfStream.fail_read (IfStream.fail_seekg (IfStream.fail_of_short hhead) _) _
  · exact IfStream.fail_of_short hpayload

/-- A round that leaves the stream good has found the block in the file. -/
theorem Progress.Goes.inFile (h : p.Goes env stoptm es q) (hat : p.At data)
    (hlen : data.length < 2 ^ 31) (hgood : q.blockFile.Good) :
    p.blockPos.toInt.toNat + 88 ≤ data.length ∧
      (p.curBlock.head.blocksize - 80).toNat ≤ data.length - (p.blockPos.toInt.toNat + 88) := by
  obtain ⟨hpos, hlt⟩ := h.isOpen.inFile hat
  have hfile : p.blockFile = ⟨data, p.blockPos.toInt.toNat, false, false⟩ := by
    rw [hat.blockFile h.isOpen, streamAt, IfStream.seekg_of_nonneg rfl hpos]
    rfl
  have hread : (transSec env p.curBlock p.opened).2.fail = false := by
    by_contra hfail
    have hq := (h.fail (by simpa using hfail)).1
    exact Bool.false_ne_true (hgood.2.symm.trans hq)
  -- so neither of the two reads was short
  obtain ⟨hseek, hsize⟩ := IfStream.read_of_not_fail hread
  have hhead : (p.blockFile.read 88).2.fail = false := by
    by_contra hfail
    have hbad := IfStream.fail_seekg (s := (p.blockFile.read 88).2) (by simpa using hfail)
      (p.opened.blockPos + 88).toInt
    exact Bool.false_ne_true (hseek.2.symm.trans hbad)
  have h88 := (IfStream.read_of_not_fail hhead).2
  rw [hfile] at h88
  have hfit : p.blockPos.toInt.toNat + 88 ≤ data.length := by
    dsimp only at h88
    omega
  refine ⟨hfit, ?_⟩
  have hoff : (p.opened.blockPos + 88).toInt = p.blockPos.toInt + 88 := by
    show (p.blockPos + 88).toInt = _
    exact toInt_add_88 hpos (by omega)
  have hopened : p.opened.blockFile = ⟨data, p.blockPos.toInt.toNat + 88, false, false⟩ := by
    rw [Progress.opened, hfile, IfStream.read_of_le ⟨rfl, rfl⟩ hfit]
  rw [hoff, hopened, IfStream.seekg_of_nonneg rfl (by omega)] at hsize
  dsimp only at hsize
  omega

/-- **A round** of a file of less than `2^31` bytes moves forward inside it or
leaves the stream failed. -/
theorem Progress.Goes.moves (h : p.Goes env stoptm es q) (hat : p.At data)
    (hlen : data.length < 2 ^ 31) : Moves env data p q := by
  refine ⟨?_, h.ends⟩
  intro hgood
  obtain ⟨hpos, -⟩ := h.isOpen.inFile hat
  obtain ⟨hfit, hsize⟩ := h.inFile hat hlen hgood
  -- a size below 80 would have made the payload longer than any file
  have h80 : 80 ≤ p.curBlock.head.blocksize.toNat ∧
      (p.curBlock.head.blocksize - 80).toNat = p.curBlock.head.blocksize.toNat - 80 := by
    have hlt := p.curBlock.head.blocksize.toNat_lt
    rw [UInt32.toNat_sub] at hsize ⊢
    change (2 ^ 32 - 80 + p.curBlock.head.blocksize.toNat) % 2 ^ 32 ≤ _ at hsize
    change _ ∧ (2 ^ 32 - 80 + p.curBlock.head.blocksize.toNat) % 2 ^ 32 = _
    omega
  have hsum : (p.blockPos.toUInt32 + p.curBlock.head.blocksize + 8).toNat
      = p.blockPos.toInt.toNat + p.curBlock.head.blocksize.toNat + 8 := by
    rw [UInt32.toNat_add, UInt32.toNat_add, toNat_toUInt32 hpos]
    change ((p.blockPos.toInt.toNat + p.curBlock.head.blocksize.toNat) % 2 ^ 32 + 8) % 2 ^ 32 = _
    omega
  have hnext : q.blockPos
      = (p.blockPos.toUInt32 + p.curBlock.head.blocksize + 8).toInt32 := by
    rw [(h.position hat).1, blockPosAfter, ← hat.blockFile h.isOpen]
    rfl
  have hq : q.blockPos.toInt
      = (p.blockPos.toInt.toNat + p.curBlock.head.blocksize.toNat + 8 : ℕ) := by
    rw [hnext, toInt_toInt32 (by omega), hsum]
  omega

/-! ### The rounds of a file -/

section Loop

variable {σ : Type} {handle : σ → Event → Except Fault σ} {st st' : σ} {n : ℕ}

/-- What a round that does not stop at a late block does, whatever handles its
events. -/
theorem goes_of_blockBody (hopen : p.Open) (hlate : ¬ p.Late stoptm)
    (h : blockBody handle env stoptm st p = .ok (st', q)) : ∃ es, p.Goes env stoptm es q := by
  have hblock : unzipBlock handle env p.curBlock st p.opened = .ok (st', q) :=
    (if_neg hlate).symm.trans h
  obtain ⟨es, hreads, -⟩ := unzipBlock_eq_ok.mp hblock
  exact ⟨es, hopen, hlate, hreads⟩

theorem not_late_of_blockBody (h : blockBody handle env stoptm st p = .ok (st', q))
    (hflag : q.testflag = false) : ¬ p.Late stoptm := by
  intro hlate
  have hbody : blockBody handle env stoptm st p = .ok (st, p.stopped) := if_pos hlate
  rw [hbody] at h
  cases h
  cases hflag

/-- `n` rounds of the block loop, none of which leaves it. -/
inductive Rounds (handle : σ → Event → Except Fault σ) (env : Env) (stoptm : ℤ) (st : σ)
    (p : Progress) : ℕ → σ → Progress → Prop
  | zero : Rounds handle env stoptm st p 0 st p
  | succ {n : ℕ} {st₁ st₂ : σ} {p₁ p₂ : Progress} :
      Rounds handle env stoptm st p n st₁ p₁ → p₁.Open →
      blockBody handle env stoptm st₁ p₁ = .ok (st₂, p₂) → p₂.testflag = false →
      Rounds handle env stoptm st p (n + 1) st₂ p₂

theorem Rounds.at (h : Rounds handle env stoptm st p n st' q) (hat : p.At data) : q.At data := by
  induction h with
  | zero => exact hat
  | succ _ hopen hbody hflag ih =>
    obtain ⟨es, hgoes⟩ := goes_of_blockBody hopen (not_late_of_blockBody hbody hflag) hbody
    exact hgoes.at ih

/-- While the stream is good, every round was 88 bytes or more. -/
theorem Rounds.forward (h : Rounds handle env stoptm st p n st' q) (hat : p.At data)
    (hlen : data.length < 2 ^ 31) (hgood : q.blockFile.Good) : 88 * n ≤ q.blockPos.toInt := by
  induction h with
  | zero =>
    have hstream := hat hgood
    rw [hstream, streamAt] at hgood
    have := (IfStream.seekg_of_good hgood).2
    omega
  | succ hr hopen hbody hflag ih =>
    obtain ⟨es, hgoes⟩ := goes_of_blockBody hopen (not_late_of_blockBody hbody hflag) hbody
    have hmoves := (hgoes.moves (hr.at hat) hlen).forward hgood
    have := ih hopen.good
    push_cast
    omega

theorem Rounds.le (h : Rounds handle env stoptm st p n st' q) (hat : p.At data)
    (hlen : data.length < 2 ^ 31) : n ≤ data.length / 88 + 1 := by
  cases h with
  | zero => omega
  | succ hr hopen hbody hflag =>
    -- the last of the rounds began inside the file
    have hpos := hr.forward hat hlen hopen.good
    have hlt := (hopen.inFile (hr.at hat)).2
    omega

/-- The bound on the rounds is not reached. -/
theorem avoids_blockLoop (hbody : ∀ st p, Avoids .outOfFuel (blockBody handle env stoptm st p))
    (hlen : data.length < 2 ^ 31) (hat : p.At data) (hn : 0 < n)
    (hopen : p.Open → (data.length - p.blockPos.toInt.toNat) / 88 + 2 ≤ n) :
    Avoids .outOfFuel (blockLoop handle env stoptm n st p) := by
  induction n generalizing st p with
  | zero => omega
  | succ n ih =>
    by_cases ho : p.Open
    · rw [blockLoop_open ho]
      refine avoids_bind (hbody st p) fun x hx => ?_
      by_cases hflag : x.2.testflag
      · rw [if_pos hflag]
        exact avoids_ok _ _
      · rw [if_neg hflag]
        have hflag' : x.2.testflag = false := by simpa using hflag
        obtain ⟨es, hgoes⟩ := goes_of_blockBody ho (not_late_of_blockBody hx hflag') hx
        have hfuel := hopen ho
        refine ih (hgoes.at hat) (by omega) fun hnext => ?_
        have hforward := (hgoes.moves hat hlen).forward hnext.good
        obtain ⟨hpos, hlt⟩ := ho.inFile hat
        omega
    · rw [blockLoop_ended ho]
      exact avoids_ok _ _

end Loop

/-! ### The body returns or has another fault -/

theorem avoids_read (b : Buffer) (offset : ℤ) (n : ℕ) : Avoids .outOfFuel (b.read offset n) := by
  induction n generalizing offset with
  | zero => exact avoids_ok _ _
  | succ n ih =>
    unfold Buffer.read
    split
    · exact avoids_error (by decide)
    · exact avoids_bind (ih _) fun _ _ => avoids_ok _ _

theorem avoids_readBytes (b : Buffer) (n : ℕ) : Cursor.Avoids .outOfFuel (readBytes b n) :=
  fun _ => avoids_bind (avoids_read b _ n) fun _ _ => avoids_ok _ _

theorem avoids_readU32 (b : Buffer) : Cursor.Avoids .outOfFuel (readU32 b) :=
  Cursor.avoids_bind (avoids_readBytes b 4) fun _ => Cursor.avoids_pure _ _

theorem avoids_readVarLen (b : Buffer) : Cursor.Avoids .outOfFuel (readVarLen b) := by
  refine Cursor.avoids_bind ?_ fun v => ?_
  · exact Cursor.avoids_bind (avoids_readBytes b 1) fun _ => Cursor.avoids_pure _ _
  · refine Cursor.avoids_ite (Cursor.avoids_pure _ _) (Cursor.avoids_ite ?_ ?_)
    · exact Cursor.avoids_bind
        (Cursor.avoids_bind (avoids_readBytes b 2) fun _ => Cursor.avoids_pure _ _)
        fun _ => Cursor.avoids_pure _ _
    · exact Cursor.avoids_ite (avoids_readU32 b) (Cursor.avoids_pure _ _)

theorem avoids_readTxin (b : Buffer) : Cursor.Avoids .outOfFuel (readTxin b) := by
  refine Cursor.avoids_bind (avoids_readBytes b 32) fun _ => ?_
  refine Cursor.avoids_bind (avoids_readU32 b) fun _ => ?_
  refine Cursor.avoids_bind (avoids_readVarLen b) fun _ => ?_
  refine Cursor.avoids_bind (avoids_readBytes b _) fun _ => ?_
  exact Cursor.avoids_bind (avoids_readU32 b) fun _ => Cursor.avoids_pure _ _

theorem avoids_readTxout (b : Buffer) : Cursor.Avoids .outOfFuel (readTxout b) := by
  refine Cursor.avoids_bind ?_ fun _ => ?_
  · exact Cursor.avoids_bind (avoids_readBytes b 8) fun _ => Cursor.avoids_pure _ _
  refine Cursor.avoids_bind (avoids_readVarLen b) fun scriptLength => ?_
  refine Cursor.avoids_bind (avoids_readBytes b _) fun script => ?_
  refine Cursor.avoids_bind (Cursor.avoids_lift ?_) fun _ => Cursor.avoids_pure _ _
  exact avoids_of_returns (outAddress_isOk script.2)

theorem avoids_readFields (b : Buffer) : Cursor.Avoids .outOfFuel (readFields b) := by
  refine Cursor.avoids_bind (avoids_readU32 b) fun _ => ?_
  refine Cursor.avoids_bind (avoids_readVarLen b) fun _ => ?_
  refine Cursor.avoids_bind (Cursor.avoids_times (avoids_readTxin b) _) fun _ => ?_
  refine Cursor.avoids_bind (avoids_readVarLen b) fun _ => ?_
  refine Cursor.avoids_bind (Cursor.avoids_times (avoids_readTxout b) _) fun _ => ?_
  exact Cursor.avoids_bind (avoids_readU32 b) fun _ => Cursor.avoids_pure _ _

theorem avoids_readNext (b : Buffer) (curBlock : Block) (s : TxCursor) :
    Avoids .outOfFuel (readNext b curBlock s) := by
  refine avoids_bind ?_ fun _ _ => avoids_ok _ _
  refine avoids_bind (avoids_readFields b _) fun _ _ => ?_
  exact avoids_bind (avoids_read b _ _) fun _ _ => avoids_ok _ _

theorem avoids_transLoop {σ : Type} {process : σ → Transaction → Except Fault σ}
    (h : ∀ st tx, Avoids .outOfFuel (process st tx)) (b : Buffer) (curBlock : Block) (n : ℕ)
    (s : TransLoop σ) : Avoids .outOfFuel (transLoop process b curBlock n s) := by
  induction n generalizing s with
  | zero => exact avoids_ok _ _
  | succ n ih =>
    refine avoids_bind ?_ fun s' _ => ih s'
    refine avoids_bind (avoids_readNext b curBlock s.cursor) fun _ _ => ?_
    exact avoids_bind (h _ _) fun _ _ => avoids_ok _ _

theorem avoids_bufWrite (valueLen : UInt32) (valueC src : List UInt8) :
    Avoids .outOfFuel (bufWrite valueLen valueC src) :=
  avoids_ite (avoids_ok _ _) (avoids_error (by decide))

theorem avoids_memcpy (buf : List UInt8) (off n : ℕ) : Avoids .outOfFuel (memcpy buf off n) := by
  unfold memcpy
  split
  · exact avoids_ok _ _
  · exact avoids_error (by decide)

theorem avoids_selectEntity (db : Db) (a : Address) : Avoids .outOfFuel (selectEntity db a) := by
  unfold selectEntity
  split
  · exact avoids_error (by decide)
  · exact avoids_ok _ _

theorem avoids_inputStep (txDb : KeyedTable Hash (List UInt8)) (valueLen txtime : UInt32)
    (s : InputLoop) (txin : Txin) :
    Avoids .outOfFuel (inputStep txDb valueLen txtime s txin) := by
  refine avoids_bind (avoids_ite (avoids_ok _ _) ?_) fun _ _ => ?_
  · exact avoids_bind (avoids_memcpy _ _ _) fun _ _ => avoids_memcpy _ _ _
  · exact avoids_bind (avoids_bufWrite _ _ _) fun _ _ => avoids_ok _ _

theorem avoids_outputStep (valueLen txtime : UInt32) (s : OutputLoop) (txout : Txout) :
    Avoids .outOfFuel (outputStep valueLen txtime s txout) := by
  refine avoids_bind (avoids_bufWrite _ _ _) fun _ _ => ?_
  exact avoids_bind (avoids_bufWrite _ _ _) fun _ _ => avoids_ok _ _

theorem avoids_inputEntityMysql (w : World) (addressBv : List Address) :
    Avoids .outOfFuel (inputEntityMysql w addressBv) := by
  unfold inputEntityMysql
  split
  · exact avoids_ite (avoids_bind (avoids_selectEntity _ _) fun _ _ => avoids_ok _ _)
      (avoids_ok _ _)
  · refine avoids_bind (avoids_mapM (avoids_selectEntity _) _) fun entityV _ => ?_
    split
    · exact avoids_error (by decide)
    · exact avoids_ok _ _

theorem avoids_outputEntityStep (w : World) (a : Address) :
    Avoids .outOfFuel (outputEntityStep w a) :=
  avoids_bind (avoids_selectEntity _ _) fun _ _ => avoids_ite (avoids_ok _ _) (avoids_ok _ _)

theorem avoids_transactionProcess (w : World) (tx : Transaction) :
    Avoids .outOfFuel (transactionProcess w tx) := by
  refine avoids_bind (avoids_bufWrite _ _ _) fun _ _ => ?_
  refine avoids_bind (avoids_bufWrite _ _ _) fun _ _ => ?_
  refine avoids_bind (avoids_bufWrite _ _ _) fun _ _ => ?_
  refine avoids_bind (avoids_bufWrite _ _ _) fun _ _ => ?_
  refine avoids_bind (avoids_bufWrite _ _ _) fun _ _ => ?_
  refine avoids_bind (avoids_run (avoids_inputStep _ _ _) _ _) fun _ _ => ?_
  refine avoids_bind (avoids_inputEntityMysql _ _) fun _ _ => ?_
  refine avoids_bind (avoids_bufWrite _ _ _) fun _ _ => ?_
  refine avoids_bind (avoids_run (avoids_outputStep _ _) _ _) fun _ _ => ?_
  exact avoids_bind (avoids_run avoids_outputEntityStep _ _) fun _ _ => avoids_ok _ _

theorem avoids_perform (w : World) (ev : Event) : Avoids .outOfFuel (perform w ev) := by
  cases ev with
  | tx tx => exact avoids_ite (avoids_ok _ _) (avoids_transactionProcess w tx)
  | block blk =>
    unfold perform blockProcess
    dsimp only
    split
    · exact avoids_error (by decide)
    · exact avoids_ok _ _

section Handler

variable {σ : Type} {handle : σ → Event → Except Fault σ}
  (hhandle : ∀ st ev, Avoids .outOfFuel (handle st ev))

include hhandle

theorem avoids_blockBody (st : σ) (p : Progress) :
    Avoids .outOfFuel (blockBody handle env stoptm st p) := by
  refine avoids_ite (avoids_ok _ _) ?_
  refine avoids_bind (avoids_readVarLen _ _) fun _ _ => ?_
  refine avoids_bind (avoids_transLoop (fun st tx => hhandle st (.tx tx)) _ _ _ _) fun _ _ => ?_
  exact avoids_bind (hhandle _ _) fun _ _ => avoids_ok _ _

/-- **The block loop of a file terminates**, with any handler of its events: its
rounds are at most one more than the headers that fit into the file, and the bound of
the model is not reached.  A round that does not stop at a late block moves the
position forward inside the file or, if it reads short, is the last one. -/
theorem unzipFile_terminates {num : Int32} (hlen : (env.contents num).length < 2 ^ 31) (st : σ)
    (p : Progress) :
    unzipFile handle env stoptm c num st p ≠ .error .outOfFuel ∧
      ∀ n st₁ p₁, Rounds handle env stoptm st (p.enter env c num) n st₁ p₁ →
        n ≤ (env.contents num).length / 88 + 1 ∧
        ∀ st₂ p₂, p₁.Open → ¬ p₁.Late stoptm →
          blockBody handle env stoptm st₁ p₁ = .ok (st₂, p₂) →
          Moves env (env.contents num) p₁ p₂ := by
  have hat : (p.enter env c num).At (env.contents num) := at_enter num p
  refine ⟨?_, fun n st₁ p₁ hrounds => ⟨hrounds.le hat hlen, ?_⟩⟩
  · by_cases hneg : num < 0
    · rw [unzipFile, if_pos hneg]
      exact avoids_error (by decide)
    · rw [unzipFile_eq hneg]
      exact avoids_blockLoop (avoids_blockBody hhandle) hlen hat (by omega) fun _ => by omega
  · intro st₂ p₂ hopen hlate hbody
    obtain ⟨es, hgoes⟩ := goes_of_blockBody hopen hlate hbody
    exact hgoes.moves (hrounds.at hat) hlen

end Handler

/-- The calls of `TransactionProcess` and `BlockProcess` on a file with two blocks. -/
theorem unzipFile_terminates_of_minedTwice :
    unzipFile perform minedTwice 3000 ⟨0, 0, -1, -1, 0⟩ 0 (.fresh .null)
        (Checkpoint.start ⟨0, 0, -1, -1, 0⟩) ≠ .error .outOfFuel ∧
      ∀ n w₁ p₁, Rounds perform minedTwice 3000 (.fresh .null)
        ((Checkpoint.start ⟨0, 0, -1, -1, 0⟩).enter minedTwice ⟨0, 0, -1, -1, 0⟩ 0) n w₁ p₁ →
        n ≤ 5 := by
  have hlen : (minedTwice.contents 0).length = 352 := by decide +kernel
  have hshort : (minedTwice.contents 0).length < 2 ^ 31 := by omega
  refine ⟨(unzipFile_terminates avoids_perform hshort _ _).1, fun n w₁ p₁ h => ?_⟩
  have hle := ((unzipFile_terminates avoids_perform hshort _ _).2 n w₁ p₁ h).1
  omega

end BitcoinAnalysis
