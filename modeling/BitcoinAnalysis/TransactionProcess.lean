/-
`TransactionProcess.h`: what one transaction does to the stores.

The record of a transaction in LevelDB, under its byte-reversed hash, is

  `blocknumber txtime txcounter length in_count (28 bytes)* out_count (28 bytes)*`

where an input is replaced by the 28 bytes (address and value) of the output it
spends.  `readOutput` fetches these 28 bytes out of the record of an earlier
transaction; `transactionProcess` is the whole call.
-/
import BitcoinAnalysis.EntityProcess

open LittleEndian

namespace BitcoinAnalysis

/-- `sprintf_s(…, "%02x", b)` -/
def hex02 (b : UInt8) : List Char := [Nat.digitChar (b.toNat / 16), Nat.digitChar (b.toNat % 16)]

def addressHex (a : Address) : List Char := a.1.flatMap hex02

def coinbaseS : List Char := (List.replicate 20 ['3', '0']).flatten

/-- The row `Transaction2MySQL` inserts. -/
def transaction2MySQL (conn : Conn) (tx : Transaction) (invalueSum outvalueSum : UInt64) : Conn :=
  let invalueSum := if outvalueSum > invalueSum then outvalueSum else invalueSum
  let txfee := invalueSum - outvalueSum
  conn.query <| .insertTx
    { txhash := tx.curhash.reverse
      txcounter := tx.txcounter
      blocknumber := tx.blocknumber
      txtime := tx.txtime
      rawlength := tx.length
      txfee := txfee
      incounter := tx.inCount
      invalue := invalueSum
      outcounter := tx.outCount
      outvalue := outvalueSum }

def inputTransactionMysql (conn : Conn) (a : Address) (value : UInt64) (txtime : UInt32) : Conn :=
  if addressHex a = coinbaseS then conn else conn.query (.updateInput a value txtime)

def outputTransactionMysql (conn : Conn) (a : Address) (value : UInt64) (txtime : UInt32) : Conn :=
  (conn.query (.upsertOutput a value txtime)).query (.updateMaxbal a)

def coinbaseB : Hash := Bytes.replicate 32 0

/-- `memcpy` of `n` bytes out of a buffer. -/
def memcpy (buf : List UInt8) (off n : ℕ) : Except Fault (Bytes n) :=
  if h : off + n ≤ buf.length then
    .ok ⟨(buf.drop off).take n, by rw [List.length_take, List.length_drop]; omega⟩
  else .error .outOfRange

theorem length_coinbasePreout : (List.replicate 20 48 ++ leBytes 8 0).length = 28 := by
  rw [List.length_append, List.length_replicate, length_leBytes]

/-- The address and value an input refers to.  Each of the two products is a
`unit32` product; their sum is an address in memory. -/
def readOutput (txDb : KeyedTable Hash (List UInt8)) (txhash : Hash) (index : UInt32) :
    Except Fault (Bytes 28) :=
  if txhash = coinbaseB then
    .ok ⟨List.replicate 20 48 ++ leBytes 8 0, length_coinbasePreout⟩
  else do
    let valueS := (txDb.find? txhash).getD []
    let valueLen := UInt32.ofNat valueS.length
    let pretx := valueS.take valueLen.toNat
    let incounterB ← memcpy pretx 16 4
    let incounter := UInt32.ofNat (leNat incounterB.1)
    memcpy pretx (20 + (incounter * 28).toNat + 4 + (index * 28).toNat) 28

/-- `memcpy(preaddress, preout, 20)` -/
def preaddress (preout : Bytes 28) : Address :=
  ⟨preout.1.take 20, by rw [List.length_take, preout.2]; rfl⟩

/-- `memcpy(&invalue, preout + 20, 8)` -/
def invalue (preout : Bytes 28) : UInt64 := UInt64.ofNat (leNat (preout.1.drop 20))

/-- `memcpy(value_c + value_c_ptr, src, n); value_c_ptr += n`, where the buffer
holds `value_len + 1` bytes, `value_c_ptr` of them written, and `value_c_ptr` is
an `int`. -/
def bufWrite (valueLen : UInt32) (valueC src : List UInt8) : Except Fault (List UInt8) :=
  if valueC.length + src.length ≤ (valueLen + 1).toNat ∧ valueC.length + src.length < 2 ^ 31 then
    .ok (valueC ++ src)
  else .error .outOfRange

/-- The variables of the loop over the inputs. -/
structure InputLoop where
  conn : Conn
  valueC : List UInt8
  invalueSum : UInt64
  inputAddressBv : List Address

def inputStep (txDb : KeyedTable Hash (List UInt8)) (valueLen txtime : UInt32) (s : InputLoop)
    (txin : Txin) : Except Fault InputLoop := do
  let preout ← readOutput txDb txin.hash.reverse txin.index
  let valueC ← bufWrite valueLen s.valueC preout.1
  .ok
    { conn := inputTransactionMysql s.conn (preaddress preout) (invalue preout) txtime
      valueC := valueC
      invalueSum := s.invalueSum + invalue preout
      inputAddressBv := s.inputAddressBv ++ [preaddress preout] }

/-- The variables of the loop over the outputs. -/
structure OutputLoop where
  conn : Conn
  valueC : List UInt8
  outvalueSum : UInt64
  outputAddressBv : List Address

def outputStep (valueLen txtime : UInt32) (s : OutputLoop) (txout : Txout) :
    Except Fault OutputLoop := do
  let valueC ← bufWrite valueLen s.valueC txout.address.1
  let valueC ← bufWrite valueLen valueC (leBytes 8 txout.val.toNat)
  .ok
    { conn := outputTransactionMysql s.conn txout.address txout.val txtime
      valueC := valueC
      outvalueSum := s.outvalueSum + txout.val
      outputAddressBv := s.outputAddressBv ++ [txout.address] }

def transactionProcess (w : World) (tx : Transaction) : Except Fault World := do
  let keyC := tx.curhash.reverse
  let valueLen : UInt32 :=
    4 + 4 + 4 + 4 + 4 + tx.inCount * (20 + 8) + 4 + tx.outCount * (20 + 8)
  let valueC ← bufWrite valueLen [] (leBytes 4 tx.blocknumber.toNat)
  let valueC ← bufWrite valueLen valueC (leBytes 4 tx.txtime.toNat)
  let valueC ← bufWrite valueLen valueC (leBytes 4 tx.txcounter.toNat)
  let valueC ← bufWrite valueLen valueC (leBytes 4 tx.length.toNat)
  let valueC ← bufWrite valueLen valueC (leBytes 4 tx.inCount.toNat)
  let i ← Run.run (inputStep w.txDb valueLen tx.txtime) ⟨w.conn, valueC, 0, []⟩ tx.ins
  let w ← inputEntityMysql { w with conn := i.conn } i.inputAddressBv
  let valueC ← bufWrite valueLen i.valueC (leBytes 4 tx.outCount.toNat)
  let o ← Run.run (outputStep valueLen tx.txtime) ⟨w.conn, valueC, 0, []⟩ tx.outs
  let w ← outputEntityMysql { w with conn := o.conn } o.outputAddressBv
  let valueS := o.valueC.take valueLen.toNat
  .ok { w with
    conn := transaction2MySQL w.conn tx i.invalueSum o.outvalueSum
    txDb := w.txDb.upsert keyC valueS fun _ => valueS }

end BitcoinAnalysis
