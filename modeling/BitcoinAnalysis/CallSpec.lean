/-
The closed form of one call of `TransactionProcess`.

`transactionProcess_eq_ok` says, once and for all callers, what a call that
returns has done: it has resolved its inputs, sent the debit statements, merged
the input entities, sent the credit statements, numbered the output addresses,
put its record into LevelDB and its row into `txinfo` — and nothing else.  The
record fits its buffer exactly when it is shorter than `2^31` bytes.
-/
import BitcoinAnalysis.TransactionProcess
import Mathlib.Data.UInt

open LittleEndian Run

namespace BitcoinAnalysis

/-- The length of the record of a transaction, without wrap-around. -/
def Transaction.recordLength (tx : Transaction) : ℕ := 24 + 28 * (tx.ins.length + tx.outs.length)

def Transaction.valueLen (tx : Transaction) : UInt32 :=
  4 + 4 + 4 + 4 + 4 + tx.inCount * (20 + 8) + 4 + tx.outCount * (20 + 8)

def Transaction.recordHead (tx : Transaction) : List UInt8 :=
  leBytes 4 tx.blocknumber.toNat ++ leBytes 4 tx.txtime.toNat ++ leBytes 4 tx.txcounter.toNat
    ++ leBytes 4 tx.length.toNat ++ leBytes 4 tx.inCount.toNat

/-- The 28 bytes of an output in a record. -/
def Txout.bytes (o : Txout) : List UInt8 := o.address.1 ++ leBytes 8 o.val.toNat

/-- The record of a transaction whose inputs were resolved to `pres`. -/
def Transaction.record (tx : Transaction) (pres : List (Bytes 28)) : List UInt8 :=
  tx.recordHead ++ pres.flatMap Subtype.val ++ leBytes 4 tx.outCount.toNat
    ++ tx.outs.flatMap Txout.bytes

def resolve (txDb : KeyedTable Hash (List UInt8)) (txin : Txin) : Except Fault (Bytes 28) :=
  readOutput txDb txin.hash.reverse txin.index

def debitStmts (txtime : UInt32) (p : Bytes 28) : List Stmt :=
  if addressHex (preaddress p) = coinbaseS then []
  else [.updateInput (preaddress p) (invalue p) txtime]

def creditStmts (txtime : UInt32) (o : Txout) : List Stmt :=
  [.upsertOutput o.address o.val txtime, .updateMaxbal o.address]

theorem mem_debitStmts {t : UInt32} {pres : List (Bytes 28)} {j : Stmt} :
    j ∈ pres.flatMap (debitStmts t) ↔ ∃ p ∈ pres, addressHex (preaddress p) ≠ coinbaseS ∧
      j = .updateInput (preaddress p) (invalue p) t := by
  rw [List.mem_flatMap]
  refine exists_congr fun p => and_congr_right fun _ => ?_
  rw [debitStmts]
  split
  · rename_i h
    simp [h]
  · rename_i h
    simp [h]

theorem mem_creditStmts {t : UInt32} {outs : List Txout} {j : Stmt} :
    j ∈ outs.flatMap (creditStmts t) ↔
      ∃ o ∈ outs, j = .upsertOutput o.address o.val t ∨ j = .updateMaxbal o.address := by
  simp only [List.mem_flatMap, creditStmts, List.mem_cons, List.not_mem_nil, or_false]

@[simp] theorem length_recordHead (tx : Transaction) : tx.recordHead.length = 20 := by
  simp [Transaction.recordHead]

@[simp] theorem length_bytes (o : Txout) : o.bytes.length = 28 := by
  rw [Txout.bytes, List.length_append, o.address.2, length_leBytes]

theorem length_flatMap_val (pres : List (Bytes 28)) :
    (pres.flatMap Subtype.val).length = 28 * pres.length := by
  induction pres with
  | nil => rfl
  | cons p ps ih => rw [List.flatMap_cons, List.length_append, ih, p.2, List.length_cons]; omega

theorem length_flatMap_bytes (outs : List Txout) :
    (outs.flatMap Txout.bytes).length = 28 * outs.length := by
  induction outs with
  | nil => rfl
  | cons o os ih => rw [List.flatMap_cons, List.length_append, ih, length_bytes, List.length_cons]; omega

/-! ### The record buffer -/

/-- How many bytes the record buffer takes. -/
def room (valueLen : UInt32) : ℕ := min (valueLen + 1).toNat (2 ^ 31 - 1)

theorem bufWrite_eq_ok {n : UInt32} {buf src out : List UInt8} :
    bufWrite n buf src = .ok out ↔ buf.length + src.length ≤ room n ∧ out = buf ++ src := by
  rw [bufWrite, room]
  split
  · rename_i h
    rw [Except.ok.injEq]
    exact ⟨fun he => ⟨by omega, he.symm⟩, fun he => he.2.symm⟩
  · rename_i h
    constructor
    · intro he
      cases he
    · rintro ⟨he, -⟩
      omega

theorem bufWrite_bind_eq_ok {β : Type} {n : UInt32} {buf src : List UInt8}
    {k : List UInt8 → Except Fault β} {b : β} :
    bufWrite n buf src >>= k = .ok b ↔
      buf.length + src.length ≤ room n ∧ k (buf ++ src) = .ok b := by
  rw [bind_eq_ok]
  constructor
  · rintro ⟨out, hout, hk⟩
    obtain ⟨hroom, rfl⟩ := bufWrite_eq_ok.mp hout
    exact ⟨hroom, hk⟩
  · rintro ⟨hroom, hk⟩
    exact ⟨_, bufWrite_eq_ok.mpr ⟨hroom, rfl⟩, hk⟩

theorem toNat_valueLen {tx : Transaction} (h : tx.recordLength < 2 ^ 31) :
    tx.valueLen.toNat = tx.recordLength := by
  rw [Transaction.recordLength, tx.ins_len, tx.outs_len] at h ⊢
  rw [Transaction.valueLen]
  simp only [UInt32.toNat_add, UInt32.toNat_mul, UInt32.reduceToNat, UInt32.reduceAdd]
  omega

theorem recordLength_le_room {tx : Transaction} :
    tx.recordLength ≤ room tx.valueLen ↔ tx.recordLength < 2 ^ 31 := by
  constructor
  · intro h
    rw [room] at h
    omega
  · intro h
    rw [room, UInt32.toNat_add, toNat_valueLen h]
    simp only [UInt32.reduceToNat]
    omega

/-! ### The two loops -/

theorem inputTransactionMysql_eq (conn : Conn) (p : Bytes 28) (t : UInt32) :
    inputTransactionMysql conn (preaddress p) (invalue p) t = conn.queries (debitStmts t p) := by
  rw [inputTransactionMysql, debitStmts]
  split
  · rw [Conn.queries_nil]
  · rfl

theorem outputTransactionMysql_eq (conn : Conn) (o : Txout) (t : UInt32) :
    outputTransactionMysql conn o.address o.val t = conn.queries (creditStmts t o) := by
  rw [outputTransactionMysql, Conn.query, Conn.query, Conn.queries_queries]
  rfl

/-- The loop over the inputs, in closed form. -/
theorem run_inputStep {txDb : KeyedTable Hash (List UInt8)} {n t : UInt32} {ins : List Txin} :
    ∀ {s s' : InputLoop}, s.valueC.length ≤ room n →
      (run (inputStep txDb n t) s ins = .ok s' ↔
        s.valueC.length + 28 * ins.length ≤ room n ∧
        ∃ pres, ins.mapM (resolve txDb) = .ok pres ∧
          s' = { conn := s.conn.queries (pres.flatMap (debitStmts t))
                 valueC := s.valueC ++ pres.flatMap Subtype.val
                 invalueSum := s.invalueSum + (pres.map invalue).sum
                 inputAddressBv := s.inputAddressBv ++ pres.map preaddress }) := by
  -- induction on the inputs left; the bound on `valueC` says that the next write fits
  induction ins with
  | nil =>
    intro s s' hs
    rw [run_nil, Except.ok.injEq]
    simp only [mapM_eq_ok, List.forall₂_nil_left_iff, exists_eq_left, List.length_nil,
      List.flatMap_nil, Conn.queries_nil, List.append_nil, List.map_nil, List.sum_nil,
      UInt64.add_zero, Nat.mul_zero, Nat.add_zero]
    exact ⟨fun h => ⟨hs, h.symm⟩, fun h => h.2.symm⟩
  | cons i ins ih =>
    intro s s' hs
    rw [run_cons, bind_eq_ok]
    simp only [mapM_eq_ok, List.forall₂_cons_left_iff, List.length_cons]
    constructor
    · rintro ⟨u, hu, hrun⟩
      obtain ⟨p, hp, hu⟩ := bind_eq_ok.mp hu
      obtain ⟨buf, hbuf, hu⟩ := bind_eq_ok.mp hu
      obtain ⟨hroom, rfl⟩ := bufWrite_eq_ok.mp hbuf
      cases hu
      rw [p.2] at hroom
      have hlen : (s.valueC ++ p.1).length = s.valueC.length + 28 := by
        rw [List.length_append, p.2]
      obtain ⟨hfit, pres, hpres, rfl⟩ := (ih (by rw [hlen]; exact hroom)).mp hrun
      simp only [hlen] at hfit
      refine ⟨by omega, p :: pres, ⟨p, pres, hp, mapM_eq_ok.mp hpres, rfl⟩, ?_⟩
      simp only [List.flatMap_cons, List.map_cons, List.sum_cons, inputTransactionMysql_eq,
        Conn.queries_queries, List.append_assoc, UInt64.add_assoc, List.cons_append,
        List.nil_append]
    · rintro ⟨hfit, pres', ⟨p, pres, hp, hpres, rfl⟩, rfl⟩
      have hroom : s.valueC.length + p.1.length ≤ room n := by rw [p.2]; omega
      have hlen : (s.valueC ++ p.1).length = s.valueC.length + 28 := by
        rw [List.length_append, p.2]
      refine ⟨_, bind_eq_ok.mpr ⟨p, hp, bind_eq_ok.mpr ⟨_, bufWrite_eq_ok.mpr ⟨hroom, rfl⟩, rfl⟩⟩, ?_⟩
      refine (ih (by rw [hlen]; omega)).mpr ⟨by simp only [hlen]; omega, pres, mapM_eq_ok.mpr hpres, ?_⟩
      simp only [List.flatMap_cons, List.map_cons, List.sum_cons, inputTransactionMysql_eq,
        Conn.queries_queries, List.append_assoc, UInt64.add_assoc, List.cons_append,
        List.nil_append]

/-- The loop over the outputs, in closed form. -/
theorem run_outputStep {n t : UInt32} {outs : List Txout} :
    ∀ {s s' : OutputLoop}, s.valueC.length ≤ room n →
      (run (outputStep n t) s outs = .ok s' ↔
        s.valueC.length + 28 * outs.length ≤ room n ∧
          s' = { conn := s.conn.queries (outs.flatMap (creditStmts t))
                 valueC := s.valueC ++ outs.flatMap Txout.bytes
                 outvalueSum := s.outvalueSum + (outs.map Txout.val).sum
                 outputAddressBv := s.outputAddressBv ++ outs.map Txout.address }) := by
  induction outs with
  | nil =>
    intro s s' hs
    rw [run_nil, Except.ok.injEq]
    simp only [List.length_nil, List.flatMap_nil, Conn.queries_nil, List.append_nil,
      List.map_nil, List.sum_nil, UInt64.add_zero, Nat.mul_zero, Nat.add_zero]
    exact ⟨fun h => ⟨hs, h.symm⟩, fun h => h.2.symm⟩
  | cons o outs ih =>
    intro s s' hs
    rw [run_cons, bind_eq_ok]
    simp only [List.length_cons]
    have ha : o.address.1.length = 20 := o.address.2
    have hv : (leBytes 8 o.val.toNat).length = 8 := length_leBytes 8 _
    -- a round writes twice, the address and then the value
    have hlen : (s.valueC ++ o.address.1 ++ leBytes 8 o.val.toNat).length
        = s.valueC.length + 28 := by
      rw [List.length_append, List.length_append, ha, hv]
    constructor
    · rintro ⟨u, hu, hrun⟩
      obtain ⟨buf, hbuf, hu⟩ := bind_eq_ok.mp hu
      obtain ⟨hroom, rfl⟩ := bufWrite_eq_ok.mp hbuf
      obtain ⟨buf, hbuf, hu⟩ := bind_eq_ok.mp hu
      obtain ⟨hroom', rfl⟩ := bufWrite_eq_ok.mp hbuf
      cases hu
      rw [List.length_append, ha, hv] at hroom'
      obtain ⟨hfit, rfl⟩ := (ih (by rw [hlen]; omega)).mp hrun
      simp only [hlen] at hfit
      refine ⟨by omega, ?_⟩
      simp only [List.flatMap_cons, List.map_cons, List.sum_cons, outputTransactionMysql_eq,
        Conn.queries_queries, List.append_assoc, UInt64.add_assoc, List.cons_append,
        List.nil_append, Txout.bytes]
    · rintro ⟨hfit, rfl⟩
      have hroom : s.valueC.length + o.address.1.length ≤ room n := by rw [ha]; omega
      have hroom' : (s.valueC ++ o.address.1).length + (leBytes 8 o.val.toNat).length
          ≤ room n := by rw [List.length_append, ha, hv]; omega
      refine ⟨_, bind_eq_ok.mpr ⟨_, bufWrite_eq_ok.mpr ⟨hroom, rfl⟩,
        bind_eq_ok.mpr ⟨_, bufWrite_eq_ok.mpr ⟨hroom', rfl⟩, rfl⟩⟩, ?_⟩
      refine (ih (by rw [hlen]; omega)).mpr ⟨by simp only [hlen]; omega, ?_⟩
      simp only [List.flatMap_cons, List.map_cons, List.sum_cons, outputTransactionMysql_eq,
        Conn.queries_queries, List.append_assoc, UInt64.add_assoc, List.cons_append,
        List.nil_append, Txout.bytes]

/-! ### The whole call -/

/-- The row of `txinfo` a transaction gets. -/
def Transaction.txRow (tx : Transaction) (pres : List (Bytes 28)) : TxRow :=
  let invalueSum := (pres.map invalue).sum
  let outvalueSum := (tx.outs.map Txout.val).sum
  let invalueSum := if outvalueSum > invalueSum then outvalueSum else invalueSum
  { txhash := tx.curhash.reverse
    txcounter := tx.txcounter
    blocknumber := tx.blocknumber
    txtime := tx.txtime
    rawlength := tx.length
    txfee := invalueSum - outvalueSum
    incounter := tx.inCount
    invalue := invalueSum
    outcounter := tx.outCount
    outvalue := outvalueSum }

/-- The state in which the input entities are merged. -/
def afterDebits (w : World) (tx : Transaction) (pres : List (Bytes 28)) : World :=
  { w with conn := w.conn.queries (pres.flatMap (debitStmts tx.txtime)) }

/-- The state in which the output addresses are numbered. -/
def afterCredits (w : World) (tx : Transaction) : World :=
  { w with conn := w.conn.queries (tx.outs.flatMap (creditStmts tx.txtime)) }

/-- The state at the end of the call. -/
def afterPut (w : World) (tx : Transaction) (pres : List (Bytes 28)) : World :=
  { w with
    conn := w.conn.query (.insertTx (tx.txRow pres))
    txDb := w.txDb.upsert tx.curhash.reverse (tx.record pres) fun _ => tx.record pres }

theorem length_record {tx : Transaction} {pres : List (Bytes 28)}
    (h : tx.ins.length = pres.length) : (tx.record pres).length = tx.recordLength := by
  simp only [Transaction.record, List.length_append, length_recordHead, length_flatMap_val,
    length_leBytes, length_flatMap_bytes, Transaction.recordLength, h]
  omega

theorem take_record {tx : Transaction} {pres : List (Bytes 28)} (h : tx.ins.length = pres.length)
    (hfit : tx.recordLength < 2 ^ 31) :
    (tx.record pres).take tx.valueLen.toNat = tx.record pres := by
  rw [toNat_valueLen hfit, ← length_record h, List.take_length]

/-- The five fixed fields in front of the record. -/
theorem writeHead_eq_ok {β : Type} {n : UInt32} {tx : Transaction}
    {k : List UInt8 → Except Fault β} {b : β} :
    (do
      let valueC ← bufWrite n [] (leBytes 4 tx.blocknumber.toNat)
      let valueC ← bufWrite n valueC (leBytes 4 tx.txtime.toNat)
      let valueC ← bufWrite n valueC (leBytes 4 tx.txcounter.toNat)
      let valueC ← bufWrite n valueC (leBytes 4 tx.length.toNat)
      let valueC ← bufWrite n valueC (leBytes 4 tx.inCount.toNat)
      k valueC) = .ok b ↔ 20 ≤ room n ∧ k tx.recordHead = .ok b := by
  simp only [bufWrite_bind_eq_ok, List.nil_append, List.length_append, length_leBytes,
    List.length_nil]
  constructor
  · rintro ⟨-, -, -, -, h, hk⟩
    exact ⟨h, hk⟩
  · rintro ⟨h, hk⟩
    exact ⟨by omega, by omega, by omega, by omega, h, hk⟩

/-- **What a call that returns has done.** -/
theorem transactionProcess_eq_ok {w w' : World} {tx : Transaction} :
    transactionProcess w tx = .ok w' ↔
      tx.recordLength < 2 ^ 31 ∧ ∃ pres wi wo,
        tx.ins.mapM (resolve w.txDb) = .ok pres ∧
        inputEntityMysql (afterDebits w tx pres) (pres.map preaddress) = .ok wi ∧
        outputEntityMysql (afterCredits wi tx) (tx.outs.map Txout.address) = .ok wo ∧
        w' = afterPut wo tx pres := by
  rw [transactionProcess, writeHead_eq_ok, ← recordLength_le_room, ← Transaction.valueLen]
  constructor
  · rintro ⟨hhead, h⟩
    obtain ⟨i, hi, h⟩ := bind_eq_ok.mp h
    obtain ⟨hins, pres, hpres, rfl⟩ := (run_inputStep (by simpa using hhead)).mp hi
    obtain ⟨wi, hwi, h⟩ := bind_eq_ok.mp h
    obtain ⟨hmid, h⟩ := bufWrite_bind_eq_ok.mp h
    obtain ⟨o, ho, h⟩ := bind_eq_ok.mp h
    rw [← List.length_append] at hmid
    obtain ⟨houts, rfl⟩ := (run_outputStep hmid).mp ho
    obtain ⟨wo, hwo, h⟩ := bind_eq_ok.mp h
    have hlen := (mapM_eq_ok.mp hpres).length_eq
    simp only [List.length_append, length_recordHead, length_flatMap_val, length_leBytes] at houts
    -- the last write decides: all the earlier ones end before it
    have hfit : tx.recordLength ≤ room tx.valueLen := by
      rw [Transaction.recordLength]
      omega
    refine ⟨hfit, pres, wi, wo, hpres, hwi, hwo, ?_⟩
    have hrec := take_record hlen (recordLength_le_room.mp hfit)
    rw [Transaction.record] at hrec
    simp only [hrec, UInt64.zero_add] at h
    exact (Except.ok.inj h).symm
  · rintro ⟨hfit, pres, wi, wo, hpres, hwi, hwo, rfl⟩
    have hlen := (mapM_eq_ok.mp hpres).length_eq
    have hfit' := hfit
    rw [Transaction.recordLength] at hfit'
    refine ⟨by omega, ?_⟩
    refine bind_eq_ok.mpr ⟨_, (run_inputStep (by simp; omega)).mpr
      ⟨by simp; omega, pres, hpres, rfl⟩, ?_⟩
    refine bind_eq_ok.mpr ⟨wi, hwi, ?_⟩
    -- the number of outputs stands between the two parts of the record
    have hmid : (tx.recordHead ++ pres.flatMap Subtype.val).length
        + (leBytes 4 tx.outCount.toNat).length ≤ room tx.valueLen := by
      rw [List.length_append, length_recordHead, length_flatMap_val, length_leBytes]
      omega
    refine bufWrite_bind_eq_ok.mpr ⟨hmid, ?_⟩
    rw [← List.length_append] at hmid
    refine bind_eq_ok.mpr ⟨_, (run_outputStep hmid).mpr ⟨?_, rfl⟩, ?_⟩
    · simp only [List.length_append, length_recordHead, length_flatMap_val, length_leBytes]
      omega
    refine bind_eq_ok.mpr ⟨wo, hwo, ?_⟩
    have hrec := take_record hlen (recordLength_le_room.mp hfit)
    rw [Transaction.record] at hrec
    simp only [hrec, UInt64.zero_add]
    rfl

/-! ### A run of two calls -/

/-- Empty stores. -/
def World.fresh (d : EntityRow) : World where
  conn := ⟨Db.empty d, []⟩
  txDb := .empty
  entitycnt := 0
  entitychangeV := []

def EntityRow.null : EntityRow := ⟨none, none, none, none, none, none, none, none, none⟩

/-- An input without a script. -/
def Txin.plain (hash : Hash) (index : UInt32) : Txin := ⟨hash, index, 0, [], 0xffffffff, rfl⟩

/-- An output without a script. -/
def Txout.plain (address : Address) (val : UInt64) : Txout := ⟨val, 0, [], address, rfl⟩

/-- A coinbase transaction that pays two addresses. -/
def mined : Transaction where
  ver := 1
  inCount := 1
  ins := [.plain coinbaseB 0xffffffff]
  outCount := 2
  outs := [.plain (.replicate 20 7) 50, .plain (.replicate 20 8) 60]
  lockTime := 0
  blocknumber := 1
  txnumber := 1
  txcounter := 1
  length := 10
  txtime := 1000
  curhash := .replicate 32 1
  ins_len := rfl
  outs_len := rfl

/-- A transaction that spends both outputs of `mined` and leaves a fee. -/
def spending : Transaction where
  ver := 1
  inCount := 2
  ins := [.plain (.replicate 32 1) 0, .plain (.replicate 32 1) 1]
  outCount := 2
  outs := [.plain (.replicate 20 7) 30, .plain (.replicate 20 9) 70]
  lockTime := 0
  blocknumber := 2
  txnumber := 1
  txcounter := 2
  length := 20
  txtime := 2000
  curhash := .replicate 32 2
  ins_len := rfl
  outs_len := rfl

end BitcoinAnalysis
