/-
`unzipBlocks`: the loop over the block files.

A run starts from the five numbers of the checkpoint file, reads blocks until it
meets one that is later than the stop time or has read all files, and leaves a
new checkpoint.  What it does to the stores are calls of `TransactionProcess`
and `BlockProcess`; the loops are written over a function that handles these
calls, so that they can also be asked which calls there are.

`int` variables wrap around.  The stop time is an argument; the file with the stop
date is read in `Console`.  The clock and the log are not modelled.
-/
import BitcoinAnalysis.BlockParser
import BitcoinAnalysis.Checkpoint
import BitcoinAnalysis.IfStream

open LittleEndian

namespace BitcoinAnalysis

/-- What a run finds outside the program: the block files, by their position in
`blkname`, and by block number what the memory `new` returns holds, what stands
outside of it, and what the member `blockReward` of the block holds before it is
set, `none` if reading it ends the run. -/
structure Env where
  blkfile : ℕ → Option (List UInt8)
  heap : UInt32 → ℕ → UInt8
  outside : UInt32 → ℤ → Option UInt8
  blockReward : UInt32 → Option UInt64

/-- `memcpy(&curBlock.Head, blockStart, 88)` -/
def Blkheader.ofBytes (blockStart : Bytes 88) : Blkheader :=
  let word (off : ℕ) : UInt32 := .ofNat (leNat ((blockStart.1.drop off).take 4))
  let hash (off : ℕ) (h : off + 32 ≤ 88) : Hash := ⟨(blockStart.1.drop off).take 32, by
    rw [List.length_take, List.length_drop, blockStart.2]; omega⟩
  { magic := word 0
    blocksize := word 4
    version := word 8
    preBlockHash := hash 12 (by decide)
    merkRoot := hash 44 (by decide)
    timeStamp := word 76
    bits := word 80
    nonce := word 84 }

/-- `char blockStart[88] = { 0 }` after `got` was read into it. -/
def blockStart (got : List UInt8) : Bytes 88 :=
  ⟨got.take 88 ++ List.replicate (88 - got.length) 0, by
    rw [List.length_append, List.length_take, List.length_replicate]; omega⟩

def blockProcess (w : World) (blk : Block) : Except Fault World :=
  match blk.blockReward with
  | none => .error .uninitialised
  | some reward =>
    .ok { w with
      conn := w.conn.query <| .insertBlk
        { curhash := blk.curhash.reverse
          blocknumber := blk.blocknumber
          blocksize := blk.head.blocksize
          transCount := blk.transCount
          blktime := blk.head.timeStamp
          bits := blk.head.bits
          reward := reward } }

/-- What `unzipBlocks` does to the stores. -/
inductive Event where
  /-- The next transaction has been read. -/
  | tx (tx : Transaction)
  /-- All transactions of a block have been read. -/
  | block (blk : Block)

/-- The two transactions that are not processed. -/
def Transaction.Skipped (tx : Transaction) : Prop := tx.txcounter = 142783 ∨ tx.txcounter = 142841

instance (tx : Transaction) : Decidable tx.Skipped := inferInstanceAs (Decidable (_ ∨ _))

def perform (w : World) : Event → Except Fault World
  | .tx tx => if tx.Skipped then .ok w else transactionProcess w tx
  | .block blk => blockProcess w blk

/-- The variables of `unzipBlocks` that outlive a block. -/
structure Progress where
  blockNum : Int32
  txcounter : Int32
  blockPos : Int32
  testflag : Bool
  blockFile : IfStream

section Loops

variable {σ : Type} (handle : σ → Event → Except Fault σ)

/-- The rest of the block loop's body, behind the stop test. -/
def unzipBlock (env : Env) (curBlock : Block) (st : σ) (p : Progress) :
    Except Fault (σ × Progress) := do
  let size := (curBlock.head.blocksize - 80).toNat
  let (payload, blockFile) := (p.blockFile.seekg (p.blockPos + 88).toInt).read size
  let transSec : Buffer :=
    ⟨size, payload, env.heap curBlock.blocknumber, env.outside curBlock.blocknumber⟩
  let (transCount, transPos) ← readVarLen transSec 0
  let curBlock := { curBlock with transCount := transCount }
  let t ← transLoop (fun st tx => handle st (.tx tx)) transSec curBlock transCount.toNat
    ⟨⟨transPos, 0, p.txcounter⟩, env.blockReward curBlock.blocknumber, st⟩
  let st ← handle t.stores (.block { curBlock with blockReward := t.blockReward })
  let blockPos := (p.blockPos.toUInt32 + curBlock.head.blocksize + 8).toInt32
  .ok (st, { p with
    txcounter := t.cursor.txcounter
    blockPos := blockPos
    blockFile := blockFile.seekg blockPos.toInt })

/-- The body of `while (BlockFile.peek() != EOF)`. -/
def blockBody (env : Env) (stoptm : ℤ) (st : σ) (p : Progress) : Except Fault (σ × Progress) :=
  let (got, blockFile) := p.blockFile.read 88
  let head := Blkheader.ofBytes (blockStart got)
  let curBlock : Block :=
    { head := head
      transCount := 0
      curhash := twiceSHA256 ((blockStart got).1.drop 8)
      blocknumber := p.blockNum.toUInt32
      blockReward := none }
  let p := { p with blockFile := blockFile, blockNum := p.blockNum + 1 }
  if (head.timeStamp.toNat : ℤ) > stoptm then .ok (st, { p with testflag := true })
  else unzipBlock handle env curBlock st p

/-- `while (BlockFile.peek() != EOF)`, at most `n` times. -/
def blockLoop (env : Env) (stoptm : ℤ) : ℕ → σ → Progress → Except Fault (σ × Progress)
  | 0, _, _ => .error .outOfFuel
  | n + 1, st, p =>
    match p.blockFile.peek with
    | (none, blockFile) => .ok (st, { p with blockFile := blockFile })
    | (some _, blockFile) => do
      let (st, p) ← blockBody handle env stoptm st { p with blockFile := blockFile }
      if p.testflag then .ok (st, p) else blockLoop env stoptm n st p

/-- One block file.  Every round of its loop but the last two moves forward by
88 bytes or more. -/
def unzipFile (env : Env) (stoptm : ℤ) (c : Checkpoint) (blkfileNum : Int32) (st : σ)
    (p : Progress) : Except Fault (σ × Progress) :=
  -- `blkname` has no entries below 0
  if blkfileNum < 0 then .error .outOfRange
  else
    let file := env.blkfile blkfileNum.toInt.toNat
    let p := { p with blockFile := .openFile file, blockPos := 0 }
    let p := if blkfileNum.toUInt32 = c.blkfile then
        { p with
          blockPos := c.blkpos.toInt32
          blockFile := p.blockFile.seekg c.blkpos.toInt32.toInt }
      else p
    blockLoop handle env stoptm ((file.getD []).length + 2) st p

/-- `for (blkfile_num = BLKFILE; blkfile_num < 218; blkfile_num++)`, at most `n`
times. -/
def fileLoop (env : Env) (stoptm : ℤ) (c : Checkpoint) :
    ℕ → Int32 → σ → Progress → Except Fault (σ × Int32 × Progress)
  | 0, _, _, _ => .error .outOfFuel
  | n + 1, blkfileNum, st, p =>
    if blkfileNum < 218 then do
      let (st, p) ← unzipFile handle env stoptm c blkfileNum st p
      if p.testflag then .ok (st, blkfileNum, p)
      else fileLoop env stoptm c n (blkfileNum + 1) st p
    else .ok (st, blkfileNum, p)

/-- The file loop of a run, from the variables a checkpoint sets. -/
def unzipFiles (env : Env) (stoptm : ℤ) (c : Checkpoint) (st : σ) :
    Except Fault (σ × Int32 × Progress) :=
  fileLoop handle env stoptm c 219 c.blkfile.toInt32 st
    { blockNum := c.blocknum + 1
      txcounter := c.txcounter + 1
      blockPos := 0
      testflag := false
      blockFile := .openFile none }

end Loops

/-- What a run leaves: the stores, the text of `1.unzip_0.txt`, and whether it
met a block later than the stop time. -/
structure Outcome where
  world : World
  checkpoint : List Char
  testflag : Bool

def unzipBlocks (env : Env) (stoptm : ℤ) (w : World) (parameter : List Char) :
    Except Fault Outcome :=
  match readCheckpoint parameter with
  | none => .error .uninitialised
  | some c => do
    let (w, blkfileNum, p) ← unzipFiles perform env stoptm c { w with entitycnt := c.entitycnt }
    let w := updateEntityMysql w
    .ok
      { world := w
        checkpoint := writeCheckpoint blkfileNum p.blockPos (p.blockNum - 2) (p.txcounter - 1)
          w.entitycnt
        testflag := p.testflag }

end BitcoinAnalysis
