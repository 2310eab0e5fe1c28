/-
The data types of `block.h`.

Byte arrays carry their length; the program's `unit8`, `unit16`, `unit32` and
`unit64` are Lean's machine words.  A counted list is
kept with the proof that the count is its length: the parser pushes exactly
`in_count` inputs and `out_count` outputs, and every script buffer is allocated
with its own `script_length`.

Fields that nothing reads (`Txin.address`, `Block.trans`, `Block.warning`) are
left out.
-/
import Mathlib.Tactic

namespace BitcoinAnalysis

abbrev Bytes (n : ℕ) := { l : List UInt8 // l.length = n }

/-- The loop `for (k = n - 1, j = 0; k >= 0; --k, ++j) out[j] = in[k]`. -/
def Bytes.reverse {n : ℕ} (b : Bytes n) : Bytes n := ⟨b.1.reverse, by rw [List.length_reverse, b.2]⟩

@[simp] theorem Bytes.val_reverse {n : ℕ} (b : Bytes n) : b.reverse.1 = b.1.reverse := rfl

@[simp] theorem Bytes.reverse_reverse {n : ℕ} (b : Bytes n) : b.reverse.reverse = b :=
  Subtype.ext (List.reverse_reverse b.1)

theorem Bytes.reverse_inj {n : ℕ} {b c : Bytes n} : b.reverse = c.reverse ↔ b = c :=
  ⟨fun h => by rw [← b.reverse_reverse, h, c.reverse_reverse], fun h => h ▸ rfl⟩

/-- `memset` -/
def Bytes.replicate (n : ℕ) (b : UInt8) : Bytes n := ⟨List.replicate n b, List.length_replicate⟩

def Bytes.nil : Bytes 0 := ⟨[], List.length_nil⟩

def Bytes.cons {n : ℕ} (x : UInt8) (xs : Bytes n) : Bytes (n + 1) :=
  ⟨x :: xs.1, by rw [List.length_cons, xs.2]⟩

/-- A transaction or block hash, as it stands in the block file. -/
abbrev Hash := Bytes 32

abbrev Address := Bytes 20

/-- What the program does that the language gives no meaning to. -/
inductive Fault where
  /-- `row[0]` of a result set without a row. -/
  | nullRow
  /-- `entity_v[0]` of an empty vector. -/
  | emptyVector
  /-- A copy from or to memory outside its buffer. -/
  | outOfRange
  /-- A value that was never assigned. -/
  | uninitialised
  /-- The bound on the iterations of a loop was reached. -/
  | outOfFuel
  deriving DecidableEq, Repr

/-- The input part of a transaction. -/
structure Txin where
  hash : Hash
  index : UInt32
  scriptLength : UInt32
  script : List UInt8
  seq : UInt32
  script_len : script.length = scriptLength.toNat
  deriving DecidableEq

/-- The output part of a transaction. -/
structure Txout where
  val : UInt64
  scriptLength : UInt32
  script : List UInt8
  address : Address
  script_len : script.length = scriptLength.toNat
  deriving DecidableEq

structure Transaction where
  ver : UInt32
  inCount : UInt32
  ins : List Txin
  outCount : UInt32
  outs : List Txout
  lockTime : UInt32
  -- not part of the block chain data
  blocknumber : UInt32
  txnumber : UInt16
  txcounter : UInt32
  length : UInt32
  txtime : UInt32
  curhash : Hash
  ins_len : ins.length = inCount.toNat
  outs_len : outs.length = outCount.toNat
  deriving DecidableEq

/-- What the outputs of a transaction add up to. -/
def Transaction.outSum (tx : Transaction) : ℕ := (tx.outs.map fun o => o.val.toNat).sum

/-- The 88 bytes in front of every block of a block file. -/
structure Blkheader where
  magic : UInt32
  blocksize : UInt32
  version : UInt32
  preBlockHash : Hash
  merkRoot : Hash
  timeStamp : UInt32
  bits : UInt32
  nonce : UInt32
  deriving DecidableEq

/-- The block being read; until its first transaction has been parsed the reward is
what the memory held, or `none`. -/
structure Block where
  head : Blkheader
  transCount : UInt32
  curhash : Hash
  blocknumber : UInt32
  blockReward : Option UInt64
  deriving DecidableEq

def oneBtc : UInt64 := 100000000

end BitcoinAnalysis
