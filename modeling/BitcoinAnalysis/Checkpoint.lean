/-
The checkpoint file `1.unzip_0.txt`.

A run starts by reading five numbers and ends by writing five, one a line.  The
first two are written from an `int` and read into a `unit32`; an out of range
number makes the extraction fail.  `readCheckpoint_writeCheckpoint` says what
the next run reads.
-/
import BitcoinAnalysis.DecimalText
import BitcoinAnalysis.EntityProcess

open DecimalText

namespace BitcoinAnalysis

/-- The variables `BLKFILE`, `BLKPOS`, `BLOCKNUM`, `TXCOUNTER` and `entitycnt`. -/
structure Checkpoint where
  blkfile : UInt32
  blkpos : UInt32
  blocknum : Int32
  txcounter : Int32
  entitycnt : UInt32
  deriving DecidableEq

/-- `>>` into a `unit32`: a minus sign negates modulo `2^32`. -/
def extractU32 (text : List Char) : Option (UInt32 × List Char) := do
  let (n, text) ← extract text
  if n.natAbs < 2 ^ 32 then some (UInt32.ofInt n, text) else none

/-- `>>` into an `int`. -/
def extractI32 (text : List Char) : Option (Int32 × List Char) := do
  let (n, text) ← extract text
  if -2 ^ 31 ≤ n ∧ n < 2 ^ 31 then some (Int32.ofInt n, text) else none

/-- `parameter >> BLKFILE >> BLKPOS >> BLOCKNUM >> TXCOUNTER >> entitycnt` -/
def readCheckpoint (text : List Char) : Option Checkpoint := do
  let (blkfile, text) ← extractU32 text
  let (blkpos, text) ← extractU32 text
  let (blocknum, text) ← extractI32 text
  let (txcounter, text) ← extractI32 text
  let (entitycnt, _) ← extractU32 text
  some ⟨blkfile, blkpos, blocknum, txcounter, entitycnt⟩

/-- `trans_self << blkfile_num << endl` and so on. -/
def writeCheckpoint (blkfileNum blockPos lastBlock lastTx : Int32) (entitycnt : UInt32) :
    List Char :=
  showInt blkfileNum.toInt ++ '\n' :: (showInt blockPos.toInt ++ '\n' :: (showInt lastBlock.toInt
    ++ '\n' :: (showInt lastTx.toInt ++ '\n' :: (showInt entitycnt.toNat ++ ['\n']))))

/-! ### Reading back -/

theorem delimited_newline (text : List Char) : Delimited ('\n' :: text) :=
  delimited_cons (by decide) text

theorem extractI32_showInt (n : Int32) {rest : List Char} (hrest : Delimited rest) :
    extractI32 (showInt n.toInt ++ rest) = some (n, rest) := by
  have hlo := n.le_toInt
  have hhi := n.toInt_lt
  rw [extractI32, extract_showInt _ hrest]
  show (if -2 ^ 31 ≤ n.toInt ∧ n.toInt < 2 ^ 31 then some (Int32.ofInt n.toInt, rest) else none) = _
  rw [if_pos ⟨hlo, hhi⟩, Int32.ofInt_toInt]

theorem ofInt_toInt_eq (n : Int32) : UInt32.ofInt n.toInt = n.toUInt32 := by
  have h := congrArg Int32.toUInt32 (Int32.ofInt_toInt n)
  rw [← h]
  apply UInt32.toNat.inj
  show (UInt32.ofNat _).toNat = (BitVec.ofInt 32 n.toInt).toNat
  rw [UInt32.toNat_ofNat', BitVec.toNat_ofInt]
  have hlo := n.le_toInt
  have hhi := n.toInt_lt
  omega

theorem extractU32_showInt (n : Int32) {rest : List Char} (hrest : Delimited rest) :
    extractU32 (showInt n.toInt ++ rest) = some (n.toUInt32, rest) := by
  have hlo := n.le_toInt
  have hhi := n.toInt_lt
  rw [extractU32, extract_showInt _ hrest]
  show (if n.toInt.natAbs < 2 ^ 32 then some (UInt32.ofInt n.toInt, rest) else none) = _
  rw [if_pos (by omega), ofInt_toInt_eq]

theorem extractU32_showNat (n : UInt32) {rest : List Char} (hrest : Delimited rest) :
    extractU32 (showInt n.toNat ++ rest) = some (n, rest) := by
  have hn := n.toNat_lt
  rw [extractU32, extract_showInt _ hrest]
  show (if (n.toNat : ℤ).natAbs < 2 ^ 32 then some (UInt32.ofInt n.toNat, rest) else none) = _
  rw [if_pos (by omega), UInt32.ofInt]
  have hmod : ((n.toNat : ℤ) % 2 ^ 32).toNat = n.toNat := by omega
  rw [hmod, UInt32.ofNat_toNat]

/-- **What the next run reads.** -/
theorem readCheckpoint_writeCheckpoint (blkfileNum blockPos lastBlock lastTx : Int32)
    (entitycnt : UInt32) :
    readCheckpoint (writeCheckpoint blkfileNum blockPos lastBlock lastTx entitycnt)
      = some ⟨blkfileNum.toUInt32, blockPos.toUInt32, lastBlock, lastTx, entitycnt⟩ := by
  have hU : ∀ text, extractU32 ('\n' :: text) = extractU32 text := fun text => by
    rw [extractU32, extractU32, extract_space (by decide)]
  have hI : ∀ text, extractI32 ('\n' :: text) = extractI32 text := fun text => by
    rw [extractI32, extractI32, extract_space (by decide)]
  simp only [readCheckpoint, writeCheckpoint, extractU32_showInt _ (delimited_newline _),
    extractU32_showNat _ (delimited_newline _), extractI32_showInt _ (delimited_newline _), hU, hI,
    Option.bind_eq_bind, Option.bind_some]

end BitcoinAnalysis
