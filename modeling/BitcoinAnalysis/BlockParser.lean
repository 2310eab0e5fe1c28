/-
The transaction loop of `unzipBlocks`, with what it does to a transaction it has
read as a parameter.

`transSec` is memory of `Blocksize - 80` bytes.  The stream has filled the front
of it; what the rest holds, and what stands outside of it, are parameters.  No
access is checked: one outside this memory finds a byte there or, where memory
cannot be read, ends the run.  The cursor `transPos` is an `int`, so from `2^31` on
it is negative and leads in front of the memory.
-/
import BitcoinAnalysis.Cursor
import BitcoinAnalysis.OutAddress

open Cursor LittleEndian Run

namespace BitcoinAnalysis

/-- The memory at `transSec`. -/
structure Buffer where
  size : ℕ
  /-- What the stream has read into it. -/
  filled : List UInt8
  /-- What it holds behind that. -/
  heap : ℕ → UInt8
  /-- What is found outside of it, by the distance from its first byte; `none` where
  memory cannot be read. -/
  outside : ℤ → Option UInt8

/-- The byte at `transSec + i`. -/
def Buffer.cell (b : Buffer) (i : ℤ) : Option UInt8 :=
  if 0 ≤ i ∧ i < b.size then some (b.filled[i.toNat]?.getD (b.heap i.toNat)) else b.outside i

/-- `memcpy` of `n` bytes from `transSec + offset`. -/
def Buffer.read (b : Buffer) : (offset : ℤ) → (n : ℕ) → Except Fault (Bytes n)
  | _, 0 => .ok Bytes.nil
  | offset, n + 1 =>
    match b.cell offset with
    | none => .error .outOfRange
    | some x => do
      let xs ← b.read (offset + 1) n
      .ok (Bytes.cons x xs)

/-- `memcpy(ret, transSec + transPos, n); transPos += n` -/
def readBytes (transSec : Buffer) (n : ℕ) : Reader Fault (Bytes n) := fun transPos => do
  let ret ← transSec.read (Int32.ofNat transPos).toInt n
  .ok (ret, transPos + n)

def readU8 (transSec : Buffer) : Reader Fault UInt8 := do
  let ret ← readBytes transSec 1
  pure (UInt8.ofNat (leNat ret.1))

def readU16 (transSec : Buffer) : Reader Fault UInt16 := do
  let ret ← readBytes transSec 2
  pure (UInt16.ofNat (leNat ret.1))

def readU32 (transSec : Buffer) : Reader Fault UInt32 := do
  let ret ← readBytes transSec 4
  pure (UInt32.ofNat (leNat ret.1))

def readU64 (transSec : Buffer) : Reader Fault UInt64 := do
  let ret ← readBytes transSec 8
  pure (UInt64.ofNat (leNat ret.1))

def readHash (transSec : Buffer) : Reader Fault Hash := readBytes transSec 32

/-- The prefix `0xff` gives `0` and moves over nothing else. -/
def readVarLen (transSec : Buffer) : Reader Fault UInt32 := do
  let v ← readU8 transSec
  if v < 0xfd then
    pure v.toUInt32
  else if v = 0xfd then do
    let v ← readU16 transSec
    pure v.toUInt32
  else if v = 0xfe then do
    let v ← readU32 transSec
    pure v
  else
    pure 0

def readBufferAdvance (transSec : Buffer) (readLength : UInt32) :
    Reader Fault (Bytes readLength.toNat) :=
  readBytes transSec readLength.toNat

def readTxin (transSec : Buffer) : Reader Fault Txin := do
  let hash ← readHash transSec
  let index ← readU32 transSec
  let scriptLength ← readVarLen transSec
  let script ← readBufferAdvance transSec scriptLength
  let seq ← readU32 transSec
  pure ⟨hash, index, scriptLength, script.1, seq, script.2⟩

def readTxout (transSec : Buffer) : Reader Fault Txout := do
  let val ← readU64 transSec
  let scriptLength ← readVarLen transSec
  let script ← readBufferAdvance transSec scriptLength
  -- a script that is not understood is logged, and its address kept
  let (_, address) ← StateT.lift (outAddress script.1 scriptLength)
  pure ⟨val, scriptLength, script.1, address, script.2⟩

/-- The numbers `unzipBlocks` gives to the transaction it reads. -/
structure TxNumbers where
  blocknumber : UInt32
  txnumber : UInt16
  txcounter : UInt32
  txtime : UInt32

/-- The fields of a transaction that stand in the block. -/
structure TxFields where
  ver : UInt32
  inCount : UInt32
  ins : List Txin
  outCount : UInt32
  outs : List Txout
  lockTime : UInt32
  ins_len : ins.length = inCount.toNat
  outs_len : outs.length = outCount.toNat

def readFields (transSec : Buffer) : Reader Fault TxFields := do
  let ver ← readU32 transSec
  let inCount ← readVarLen transSec
  let ins ← times (readTxin transSec) inCount.toNat
  let outCount ← readVarLen transSec
  let outs ← times (readTxout transSec) outCount.toNat
  let lockTime ← readU32 transSec
  pure ⟨ver, inCount, ins.1, outCount, outs.1, lockTime, ins.2, outs.2⟩

/-- The transaction with the given fields, numbers, length and hash. -/
def TxFields.transaction (f : TxFields) (no : TxNumbers) (length : UInt32) (curhash : Hash) :
    Transaction :=
  { ver := f.ver
    inCount := f.inCount
    ins := f.ins
    outCount := f.outCount
    outs := f.outs
    lockTime := f.lockTime
    blocknumber := no.blocknumber
    txnumber := no.txnumber
    txcounter := no.txcounter
    length := length
    txtime := no.txtime
    curhash := curhash
    ins_len := f.ins_len
    outs_len := f.outs_len }

/-- The body of the loop over the transactions, as far as it reads. -/
def readTransaction (transSec : Buffer) (no : TxNumbers) : Reader Fault Transaction :=
  fun transPos => do
    let txStart : UInt32 := .ofNat transPos
    let (f, transPos) ← readFields transSec transPos
    let txEnd : UInt32 := .ofNat transPos
    let length := txEnd - txStart
    let raw ← transSec.read txStart.toNat length.toNat
    .ok (f.transaction no length (twiceSHA256 raw.1), transPos)

/-- The variables of the loop over the transactions that say what comes next. -/
structure TxCursor where
  transPos : ℕ
  txNum : UInt16
  txcounter : Int32

/-- The variables of the loop over the transactions; `stores` is what its last
part works on. -/
structure TransLoop (σ : Type) where
  cursor : TxCursor
  blockReward : Option UInt64
  stores : σ

/-- The sum the first transaction of a block pays. -/
def sumoutvalue (tx : Transaction) : UInt64 :=
  if tx.txnumber = 0 then (tx.outs.map Txout.val).foldl (· + ·) 0 else 0

/-- The reward of the block, set by its first transaction. -/
def rewardAfter (blocknumber : UInt32) (tx : Transaction) (reward : Option UInt64) :
    Option UInt64 :=
  if tx.txnumber = 0 then
    if blocknumber < 210000 then some (sumoutvalue tx - 50 * oneBtc)
    else some (sumoutvalue tx - 25 * oneBtc)
  else reward

/-- The part of the loop body that reads the next transaction. -/
def readNext (transSec : Buffer) (curBlock : Block) (c : TxCursor) :
    Except Fault (Transaction × TxCursor) := do
  let no : TxNumbers :=
    { blocknumber := curBlock.blocknumber
      txnumber := c.txNum
      txcounter := c.txcounter.toUInt32
      txtime := curBlock.head.timeStamp }
  let (tx, transPos) ← readTransaction transSec no c.transPos
  .ok (tx, ⟨transPos, c.txNum + 1, c.txcounter + 1⟩)

/-- The body of the loop over the transactions. -/
def transStep {σ : Type} (process : σ → Transaction → Except Fault σ) (transSec : Buffer)
    (curBlock : Block) (s : TransLoop σ) : Except Fault (TransLoop σ) := do
  let (tx, cursor) ← readNext transSec curBlock s.cursor
  let blockReward := rewardAfter curBlock.blocknumber tx s.blockReward
  let stores ← process s.stores tx
  .ok ⟨cursor, blockReward, stores⟩

/-- `for (k = 0; k < trans_count; k++)` -/
def transLoop {σ : Type} (process : σ → Transaction → Except Fault σ) (transSec : Buffer)
    (curBlock : Block) : ℕ → TransLoop σ → Except Fault (TransLoop σ)
  | 0, s => .ok s
  | n + 1, s => do
    let s ← transStep process transSec curBlock s
    transLoop process transSec curBlock n s

/-! ### Reading and processing -/

/-- The transactions of a block, read one after another. -/
def readAll (transSec : Buffer) (curBlock : Block) :
    ℕ → TxCursor → Except Fault (List Transaction × TxCursor)
  | 0, c => .ok ([], c)
  | n + 1, c => do
    let (tx, c) ← readNext transSec curBlock c
    let (txs, c) ← readAll transSec curBlock n c
    .ok (tx :: txs, c)

def rewardOf (blocknumber : UInt32) (txs : List Transaction) (reward : Option UInt64) :
    Option UInt64 :=
  txs.foldl (fun r tx => rewardAfter blocknumber tx r) reward

variable {σ : Type} {process : σ → Transaction → Except Fault σ} {transSec : Buffer}
  {curBlock : Block} {tx : Transaction}

/-- **The loop reads all transactions and processes them** in their order. -/
theorem transLoop_eq_ok {n : ℕ} {s s' : TransLoop σ} :
    transLoop process transSec curBlock n s = .ok s' ↔
      ∃ txs, readAll transSec curBlock n s.cursor = .ok (txs, s'.cursor) ∧
        run process s.stores txs = .ok s'.stores ∧
        s'.blockReward = rewardOf curBlock.blocknumber txs s.blockReward := by
  -- the cursor, the stores and the reward do not depend on each other
  induction n generalizing s with
  | zero =>
    simp only [transLoop, readAll, Except.ok.injEq, Prod.mk.injEq]
    constructor
    · rintro rfl
      exact ⟨[], ⟨rfl, rfl⟩, rfl, rfl⟩
    · rintro ⟨txs, ⟨rfl, hc⟩, hst, hr⟩
      obtain ⟨c, r, st⟩ := s
      obtain ⟨c', r', st'⟩ := s'
      cases hst
      cases hc
      cases hr
      rfl
  | succ n ih =>
    rw [transLoop, readAll, bind_eq_ok]
    constructor
    · rintro ⟨u, hu, hrest⟩
      obtain ⟨⟨tx, c⟩, hnext, hu⟩ := bind_eq_ok.mp hu
      obtain ⟨st, hst, hu⟩ := bind_eq_ok.mp hu
      cases hu
      obtain ⟨txs, hall, hrun, hrew⟩ := ih.mp hrest
      exact ⟨tx :: txs,
        bind_eq_ok.mpr ⟨(tx, c), hnext, bind_eq_ok.mpr ⟨(txs, s'.cursor), hall, rfl⟩⟩,
        bind_eq_ok.mpr ⟨st, hst, hrun⟩, hrew⟩
    · rintro ⟨txs', hall, hrun, hrew⟩
      obtain ⟨⟨tx, c⟩, hnext, hall⟩ := bind_eq_ok.mp hall
      obtain ⟨⟨txs, c'⟩, hrest, hall⟩ := bind_eq_ok.mp hall
      cases hall
      obtain ⟨st, hst, hrun⟩ := bind_eq_ok.mp hrun
      exact ⟨⟨c, rewardAfter curBlock.blocknumber tx s.blockReward, st⟩,
        bind_eq_ok.mpr ⟨(tx, c), hnext, bind_eq_ok.mpr ⟨st, hst, rfl⟩⟩,
        ih.mpr ⟨txs, hrest, hrun, hrew⟩⟩

end BitcoinAnalysis
