/-
The parser inverts the wire format.

`RawTx.wire` is the serialization of a transaction in a block: little-endian
numbers, and counts and lengths in the shortest form (`compactSize`).  A payload
that consists of a count and that many serialized transactions is read back
transaction by transaction and field by field, with the serialized length and
the double hash of exactly the bytes of each transaction (`parser_inverts_wire`).

The parser takes counts and lengths in their other forms as well: what it reads as a
transaction are the bytes that spell one (`RawTx.Spelled`), and the transaction is the
same wherever these bytes stand (`readAll_spelled`).
-/
import BitcoinAnalysis.Readers
import BitcoinAnalysis.UnzipBlocks

open Cursor LittleEndian Run

namespace BitcoinAnalysis

/-! ### The wire format -/

/-- The shortest form of a count. -/
def compactSize (n : ℕ) : List UInt8 :=
  if n < 0xfd then [UInt8.ofNat n]
  else if n < 2 ^ 16 then 0xfd :: leBytes 2 n
  else if n < 2 ^ 32 then 0xfe :: leBytes 4 n
  else 0xff :: leBytes 8 n

structure RawTxin where
  hash : Hash
  index : UInt32
  script : List UInt8
  seq : UInt32
  deriving DecidableEq

structure RawTxout where
  val : UInt64
  script : List UInt8
  deriving DecidableEq

/-- What a block holds of a transaction. -/
structure RawTx where
  ver : UInt32
  ins : List RawTxin
  outs : List RawTxout
  lockTime : UInt32
  deriving DecidableEq

def RawTxin.wire (i : RawTxin) : List UInt8 :=
  i.hash.1 ++ (leBytes 4 i.index.toNat ++ (compactSize i.script.length ++ (i.script
    ++ leBytes 4 i.seq.toNat)))

def RawTxout.wire (o : RawTxout) : List UInt8 :=
  leBytes 8 o.val.toNat ++ (compactSize o.script.length ++ o.script)

def RawTx.wire (tx : RawTx) : List UInt8 :=
  leBytes 4 tx.ver.toNat ++ (compactSize tx.ins.length ++ (tx.ins.flatMap RawTxin.wire
    ++ (compactSize tx.outs.length ++ (tx.outs.flatMap RawTxout.wire
    ++ leBytes 4 tx.lockTime.toNat))))

/-- The payload of a block. -/
def blockPayload (txs : List RawTx) : List UInt8 :=
  compactSize txs.length ++ txs.flatMap RawTx.wire

def Txin.raw (i : Txin) : RawTxin := ⟨i.hash, i.index, i.script, i.seq⟩

def Txout.raw (o : Txout) : RawTxout := ⟨o.val, o.script⟩

def Transaction.raw (tx : Transaction) : RawTx :=
  ⟨tx.ver, tx.ins.map Txin.raw, tx.outs.map Txout.raw, tx.lockTime⟩

/-- An output whose address is the one of its script. -/
def Txout.Addressed (o : Txout) : Prop :=
  ∃ ok, outAddress o.script o.scriptLength = .ok (ok, o.address)

/-! ### Spellings -/

/-- The bytes that are read as an input. -/
def RawTxin.Spelled (i : RawTxin) (bs : List UInt8) : Prop :=
  ∃ count, VarLen i.script.length count ∧
    bs = i.hash.1 ++ (leBytes 4 i.index.toNat ++ (count ++ (i.script ++ leBytes 4 i.seq.toNat)))

/-- The bytes that are read as an output. -/
def RawTxout.Spelled (o : RawTxout) (bs : List UInt8) : Prop :=
  ∃ count, VarLen o.script.length count ∧ bs = leBytes 8 o.val.toNat ++ (count ++ o.script)

/-- The bytes that are read as a transaction: those of the wire format, but with
counts and lengths in any of their spellings. -/
def RawTx.Spelled (tx : RawTx) (bs : List UInt8) : Prop :=
  ∃ inCount ins outCount outs, VarLen tx.ins.length inCount ∧
    List.Forall₂ RawTxin.Spelled tx.ins ins ∧ VarLen tx.outs.length outCount ∧
    List.Forall₂ RawTxout.Spelled tx.outs outs ∧
    bs = leBytes 4 tx.ver.toNat ++ (inCount ++ (ins.flatten ++ (outCount ++ (outs.flatten
      ++ leBytes 4 tx.lockTime.toNat))))

theorem varLen_compactSize {n : ℕ} (h : n < 2 ^ 32) : VarLen n (compactSize n) := by
  rw [compactSize]
  by_cases h8 : n < 0xfd
  · rw [if_pos h8]
    exact .byte h8
  · rw [if_neg h8]
    by_cases h16 : n < 2 ^ 16
    · rw [if_pos h16]
      exact .word h16
    · rw [if_neg h16, if_pos h]
      exact .dword h

theorem RawTxin.spelled_wire (i : RawTxin) (h : i.wire.length < 2 ^ 32) : i.Spelled i.wire := by
  refine ⟨_, varLen_compactSize ?_, rfl⟩
  simp only [RawTxin.wire, List.length_append] at h
  omega

theorem RawTxout.spelled_wire (o : RawTxout) (h : o.wire.length < 2 ^ 32) : o.Spelled o.wire := by
  refine ⟨_, varLen_compactSize ?_, rfl⟩
  simp only [RawTxout.wire, List.length_append] at h
  omega

theorem length_le_flatMap {α : Type} {enc : α → List UInt8} {xs : List α} {x : α} (h : x ∈ xs) :
    (enc x).length ≤ (xs.flatMap enc).length := by
  obtain ⟨pre, post, rfl⟩ := List.append_of_mem h
  simp only [List.flatMap_append, List.flatMap_cons, List.length_append]
  omega

theorem count_le_flatMap {α : Type} {enc : α → List UInt8} (h : ∀ x, 0 < (enc x).length)
    (xs : List α) : xs.length ≤ (xs.flatMap enc).length := by
  induction xs with
  | nil => exact Nat.le_refl 0
  | cons x xs ih =>
    have hx := h x
    rw [List.flatMap_cons, List.length_append, List.length_cons]
    omega

/-- Parts that are spelled by their wire format, side by side. -/
theorem forall₂_wire {α : Type} {wire : α → List UInt8} {Spelled : α → List UInt8 → Prop}
    (h : ∀ x, (wire x).length < 2 ^ 32 → Spelled x (wire x)) {xs : List α}
    (hlen : (xs.flatMap wire).length < 2 ^ 32) : List.Forall₂ Spelled xs (xs.map wire) := by
  rw [List.forall₂_map_right_iff, List.forall₂_same]
  intro x hx
  exact h x (Nat.lt_of_le_of_lt (length_le_flatMap hx) hlen)

theorem RawTx.spelled_wire (tx : RawTx) (h : tx.wire.length < 2 ^ 32) : tx.Spelled tx.wire := by
  -- each input and output takes a byte at least, so the counts fit 32 bits too
  have hin : tx.ins.length ≤ (tx.ins.flatMap RawTxin.wire).length :=
    count_le_flatMap (fun i => by simp [RawTxin.wire, i.hash.2]) tx.ins
  have hout : tx.outs.length ≤ (tx.outs.flatMap RawTxout.wire).length :=
    count_le_flatMap (fun o => by simp [RawTxout.wire]) tx.outs
  simp only [RawTx.wire, List.length_append, length_leBytes] at h
  exact ⟨_, _, _, _, varLen_compactSize (by omega),
    forall₂_wire RawTxin.spelled_wire (by omega), varLen_compactSize (by omega),
    forall₂_wire RawTxout.spelled_wire (by omega), rfl⟩

/-! ### Transactions -/

variable {b : Buffer} {bs : List UInt8} {pos : ℕ}

/-- A length, and that many bytes. -/
theorem reads_script {α : Type} {k : (n : UInt32) → Bytes n.toNat → Reader Fault α}
    {scriptLength : UInt32} (script : Bytes scriptLength.toNat) {count cs : List UInt8} {v : α}
    (hcount : VarLen script.1.length count) (hk : Reads b.reachable (k scriptLength script) cs v) :
    Reads b.reachable (do
      let n ← readVarLen b
      let s ← readBufferAdvance b n
      k n s) (count ++ (script.1 ++ cs)) v := by
  have hlength := reads_readVarLen (b := b) hcount
  rw [script.2, UInt32.ofNat_toNat] at hlength
  exact hlength.bind ((reads_readBytes script).bind hk)

theorem reads_readTxin {i : Txin} (h : i.raw.Spelled bs) : Reads b.reachable (readTxin b) bs i := by
  obtain ⟨count, hcount, rfl⟩ := h
  refine (reads_readBytes i.hash).bind ((reads_readU32 i.index).bind ?_)
  refine reads_script ⟨i.script, i.script_len⟩ hcount ?_
  exact (reads_readU32 i.seq).bind_pure
    (f := fun seq => (⟨i.hash, i.index, i.scriptLength, i.script, seq, i.script_len⟩ : Txin))

theorem reads_readTxout {o : Txout} (ho : o.Addressed) (h : o.raw.Spelled bs) :
    Reads b.reachable (readTxout b) bs o := by
  obtain ⟨count, hcount, rfl⟩ := h
  obtain ⟨ok, hok⟩ := ho
  refine (reads_readU64 o.val).bind ?_
  rw [← List.append_nil o.raw.script]
  refine reads_script ⟨o.script, o.script_len⟩ hcount ?_
  exact (Reads.lift hok).bind_pure
    (f := fun p : Bool × Address =>
      (⟨o.val, o.scriptLength, o.script, p.2, o.script_len⟩ : Txout))

def TxFields.raw (f : TxFields) : RawTx :=
  ⟨f.ver, f.ins.map Txin.raw, f.outs.map Txout.raw, f.lockTime⟩

/-- The last number of a transaction only has to start in front of `2^31`. -/
theorem readFields_eq {f : TxFields} (ho : ∀ o ∈ f.outs, o.Addressed) (hsp : f.raw.Spelled bs)
    (hhas : b.Has pos bs) (hend : pos + bs.length < 2 ^ 31 + 4) :
    readFields b pos = .ok (f, pos + bs.length) := by
  obtain ⟨inCount, ins, outCount, outs, hin, hins, hout, houts, rfl⟩ := hsp
  rw [TxFields.raw, List.forall₂_map_left_iff] at hins houts
  rw [TxFields.raw, List.length_map, f.ins_len] at hin
  rw [TxFields.raw, List.length_map, f.outs_len] at hout
  have hver := length_leBytes 4 f.ver.toNat
  have hlock := length_leBytes 4 f.lockTime.toNat
  simp only [TxFields.raw, List.length_append] at hend ⊢
  simp only [TxFields.raw, Buffer.has_append, ← Nat.cast_add] at hhas
  obtain ⟨hasVer, hasInCount, hasIns, hasOutCount, hasOuts, hasLock⟩ := hhas
  -- the readers of the parts
  have hreadIn := reads_readVarLen (b := b) hin
  have hreadOut := reads_readVarLen (b := b) hout
  rw [UInt32.ofNat_toNat] at hreadIn hreadOut
  have hreadIns : Reads b.reachable (times (readTxin b) f.inCount.toNat) ins.flatten
      ⟨f.ins, f.ins_len⟩ := Reads.times (hins.imp fun _ _ h => reads_readTxin h) f.ins_len
  have hreadOuts : Reads b.reachable (times (readTxout b) f.outCount.toNat) outs.flatten
      ⟨f.outs, f.outs_len⟩ :=
    Reads.times (((List.forall₂_and_left _ _).mpr ⟨ho, houts⟩).imp fun _ _ h =>
      reads_readTxout h.1 h.2) f.outs_len
  -- all of them but the last number end in front of `2^31`
  refine ((reads_readU32 f.ver).bind_eq ⟨hasVer, fun _ => by omega⟩ _).trans ?_
  refine (hreadIn.bind_eq ⟨hasInCount, fun _ => by omega⟩ _).trans ?_
  refine (hreadIns.bind_eq ⟨hasIns, fun _ => by omega⟩ _).trans ?_
  refine (hreadOut.bind_eq ⟨hasOutCount, fun _ => by omega⟩ _).trans ?_
  refine (hreadOuts.bind_eq ⟨hasOuts, fun _ => by omega⟩ _).trans ?_
  refine bind_eq_ok.mpr ⟨_, readU32_eq hasLock (by omega), ?_⟩
  rw [hlock]
  simp only [Nat.add_assoc]
  rfl

theorem exists_map_eq {α β : Type} {f : α → β} {Spelled : β → List UInt8 → Prop}
    (h : ∀ {x bs}, Spelled x bs → ∃ y, f y = x) {xs : List β} {pieces : List (List UInt8)}
    (hxs : List.Forall₂ Spelled xs pieces) : ∃ ys : List α, ys.map f = xs := by
  induction hxs with
  | nil => exact ⟨[], rfl⟩
  | cons hx _ ih =>
    obtain ⟨y, rfl⟩ := h hx
    obtain ⟨ys, rfl⟩ := ih
    exact ⟨y :: ys, rfl⟩

theorem RawTxin.Spelled.exists_txin {i : RawTxin} (h : i.Spelled bs) : ∃ t : Txin, t.raw = i := by
  obtain ⟨count, hcount, -⟩ := h
  exact ⟨⟨i.hash, i.index, .ofNat i.script.length, i.script, i.seq, hcount.toNat_ofNat.symm⟩, rfl⟩

theorem RawTxout.Spelled.exists_txout {o : RawTxout} (h : o.Spelled bs) :
    ∃ t : { t : Txout // t.Addressed }, t.1.raw = o := by
  obtain ⟨count, hcount, -⟩ := h
  obtain ⟨⟨ok, address⟩, hok⟩ := outAddress_isOk hcount.toNat_ofNat.symm
  exact ⟨⟨⟨o.val, .ofNat o.script.length, o.script, address, hcount.toNat_ofNat.symm⟩, ok, hok⟩,
    rfl⟩

/-- What is spelled is a transaction with an address for each output. -/
theorem RawTx.Spelled.exists_fields {raw : RawTx} (h : raw.Spelled bs) :
    ∃ f : TxFields, (∀ o ∈ f.outs, o.Addressed) ∧ f.raw = raw := by
  obtain ⟨inCount, _, outCount, _, hin, hins, hout, houts, -⟩ := h
  obtain ⟨ins, hmapIn⟩ := exists_map_eq RawTxin.Spelled.exists_txin hins
  obtain ⟨outs, hmapOut⟩ := exists_map_eq RawTxout.Spelled.exists_txout houts
  rw [← hmapIn, List.length_map] at hin
  rw [← hmapOut, List.length_map] at hout
  refine ⟨⟨raw.ver, .ofNat ins.length, ins, .ofNat outs.length, outs.map Subtype.val, raw.lockTime,
    hin.toNat_ofNat.symm, ?_⟩, fun o ho => ?_, ?_⟩
  · rw [List.length_map, hout.toNat_ofNat]
  · obtain ⟨t, -, rfl⟩ := List.mem_map.mp ho
    exact t.2
  · rw [TxFields.raw, List.map_map, hmapIn]
    show RawTx.mk raw.ver raw.ins (outs.map fun t => t.1.raw) raw.lockTime = raw
    rw [hmapOut]

/-- A transaction is read with its own length and the hash of its own bytes. -/
theorem readTransaction_eq {f : TxFields} (no : TxNumbers) (ho : ∀ o ∈ f.outs, o.Addressed)
    (hsp : f.raw.Spelled bs) (hhas : b.Has pos bs) (hend : pos + bs.length < 2 ^ 31 + 4) :
    readTransaction b no pos
      = .ok (f.transaction no (.ofNat bs.length) (twiceSHA256 bs), pos + bs.length) := by
  have hstart : (UInt32.ofNat pos).toNat = pos := by
    rw [UInt32.toNat_ofNat']
    omega
  -- the length is the difference of two cursor positions, as 32-bit words
  have hlength : UInt32.ofNat (pos + bs.length) - UInt32.ofNat pos = UInt32.ofNat bs.length := by
    rw [UInt32.ofNat_add, UInt32.add_comm, UInt32.add_sub_cancel]
  have htoNat : (UInt32.ofNat bs.length).toNat = bs.length := by
    rw [UInt32.toNat_ofNat']
    omega
  have hraw : b.read (UInt32.ofNat pos).toNat
      (UInt32.ofNat (pos + bs.length) - UInt32.ofNat pos).toNat
        = .ok ⟨bs, by rw [hlength, htoNat]⟩ := by
    rw [Buffer.read_eq_ok, hstart]
    exact hhas
  rw [readTransaction, readFields_eq ho hsp hhas hend, ok_bind]
  dsimp only
  rw [hraw, ok_bind]
  show Except.ok (f.transaction no (UInt32.ofNat (pos + bs.length) - UInt32.ofNat pos)
    (twiceSHA256 bs), pos + bs.length) = _
  rw [hlength]

/-! ### Blocks -/

/-- A transaction read from bytes that spell a raw one: the same fields, the length
of these bytes and their double hash. -/
structure ReadFrom (raw : RawTx) (bs : List UInt8) (tx : Transaction) : Prop where
  fields : tx.raw = raw
  length : tx.length.toNat = bs.length
  curhash : tx.curhash.1 = Sha256.digest (Sha256.digest bs)

theorem twiceSHA256_eq (input : List UInt8) :
    (twiceSHA256 input).1 = Sha256.digest (Sha256.digest input) := by
  rw [twiceSHA256, BlockchainSha256.computeSHA256_eq, BlockchainSha256.computeSHA256_eq]

/-- The transaction depends on its bytes and its numbers only. -/
theorem readNext_spelled {raw : RawTx} (hsp : raw.Spelled bs) (curBlock : Block) {c : TxCursor}
    (hend : c.transPos + bs.length < 2 ^ 31 + 4) :
    ∃ tx, ReadFrom raw bs tx ∧ ∀ b : Buffer, b.Has c.transPos bs → readNext b curBlock c
      = .ok (tx, ⟨c.transPos + bs.length, c.txNum + 1, c.txcounter + 1⟩) := by
  obtain ⟨f, ho, rfl⟩ := hsp.exists_fields
  let no : TxNumbers :=
    ⟨curBlock.blocknumber, c.txNum, c.txcounter.toUInt32, curBlock.head.timeStamp⟩
  refine ⟨f.transaction no (.ofNat bs.length) (twiceSHA256 bs), ⟨rfl, ?_, twiceSHA256_eq bs⟩,
    fun b hhas => ?_⟩
  · show (UInt32.ofNat bs.length).toNat = _
    rw [UInt32.toNat_ofNat']
    omega
  · exact bind_eq_ok.mpr ⟨_, readTransaction_eq no ho hsp hhas hend, rfl⟩

/-- The loop over the transactions: the cursor stands behind the bytes of those
read so far. -/
theorem readAll_spelled {raws : List RawTx} {pieces : List (List UInt8)}
    (hsp : List.Forall₂ RawTx.Spelled raws pieces) (curBlock : Block) {c : TxCursor}
    (hend : c.transPos + pieces.flatten.length < 2 ^ 31 + 4) :
    ∃ txs c', List.Forall₂ (fun (p : RawTx × List UInt8) tx => ReadFrom p.1 p.2 tx)
        (raws.zip pieces) txs ∧
      c'.transPos = c.transPos + pieces.flatten.length ∧
      ∀ b : Buffer, b.Has c.transPos pieces.flatten →
        readAll b curBlock pieces.length c = .ok (txs, c') := by
  induction hsp generalizing c with
  | nil => exact ⟨[], c, .nil, rfl, fun b _ => rfl⟩
  | @cons raw bs raws pieces hraw _ ih =>
    rw [List.flatten_cons, List.length_append] at hend
    obtain ⟨tx, htx, hnext⟩ := readNext_spelled hraw curBlock (c := c) (by omega)
    obtain ⟨txs, c', htxs, hpos, hall⟩ := ih
      (c := ⟨c.transPos + bs.length, c.txNum + 1, c.txcounter + 1⟩) (by dsimp only; omega)
    refine ⟨tx :: txs, c', .cons htx htxs, ?_, fun b hhas => ?_⟩
    · rw [hpos, List.flatten_cons, List.length_append, Nat.add_assoc]
    · obtain ⟨hbs, hrest⟩ := Buffer.has_append.mp hhas
      rw [← Nat.cast_add] at hrest
      exact bind_eq_ok.mpr ⟨_, hnext b hbs, bind_eq_ok.mpr ⟨_, hall b hrest, rfl⟩⟩

/-- A buffer that the stream has filled. -/
def fullBuffer (payload : List UInt8) (heap : ℕ → UInt8) (outside : ℤ → Option UInt8) : Buffer :=
  ⟨payload.length, payload, heap, outside⟩

/-- **The parser inverts the wire format.**  The count is read, then as many
transactions as were written, and the cursor ends at the end of the payload; the
loop of `unzipBlocks` hands exactly these transactions to its last part. -/
theorem parser_inverts_wire (txs : List RawTx) (heap : ℕ → UInt8) (outside : ℤ → Option UInt8)
    (curBlock : Block) (txcounter : Int32) (hfit : (blockPayload txs).length < 2 ^ 31) :
    ∃ transCount transPos parsed c,
      readVarLen (fullBuffer (blockPayload txs) heap outside) 0 = .ok (transCount, transPos) ∧
      transCount.toNat = txs.length ∧
      readAll (fullBuffer (blockPayload txs) heap outside) curBlock transCount.toNat
        ⟨transPos, 0, txcounter⟩ = .ok (parsed, c) ∧
      List.Forall₂ (fun raw tx => ReadFrom raw raw.wire tx) txs parsed ∧
      c.transPos = (blockPayload txs).length ∧
      ∀ (σ : Type) (process : σ → Transaction → Except Fault σ) (reward : Option UInt64)
        (stores stores' : σ),
        (∃ s', transLoop process (fullBuffer (blockPayload txs) heap outside) curBlock
            transCount.toNat ⟨⟨transPos, 0, txcounter⟩, reward, stores⟩ = .ok s' ∧
            s'.stores = stores') ↔
          run process stores parsed = .ok stores' := by
  have hlen : (blockPayload txs).length
      = (compactSize txs.length).length + (txs.flatMap RawTx.wire).length := List.length_append
  -- the count fits 32 bits because every transaction takes a byte at least
  have hle : txs.length ≤ (txs.flatMap RawTx.wire).length :=
    count_le_flatMap (fun tx => by simp [RawTx.wire]) txs
  have hcount : VarLen txs.length (compactSize txs.length) := varLen_compactSize (by omega)
  have hhas : (fullBuffer (blockPayload txs) heap outside).Has 0 (blockPayload txs) :=
    (Buffer.has_zero_iff le_rfl le_rfl).mpr List.prefix_rfl
  obtain ⟨hfront, hrest⟩ := Buffer.has_append.mp hhas
  have hread := reads_readVarLen hcount 0 ⟨hfront, fun _ => by omega⟩
  have hsp : List.Forall₂ RawTx.Spelled txs (txs.map RawTx.wire) :=
    forall₂_wire RawTx.spelled_wire (by omega)
  have hflat : (txs.map RawTx.wire).flatten = txs.flatMap RawTx.wire := rfl
  obtain ⟨parsed, c, hparsed, hpos, hall⟩ := readAll_spelled hsp curBlock
    (c := ⟨0 + (compactSize txs.length).length, 0, txcounter⟩) (by rw [hflat]; dsimp only; omega)
  have hall := hall _ (by rw [← Nat.cast_zero, ← Nat.cast_add] at hrest; exact hrest)
  rw [List.length_map] at hall
  have hzip : txs.zip (txs.map RawTx.wire) = txs.map fun raw => (raw, raw.wire) := by
    simpa using List.zip_map' (f := id) (g := RawTx.wire) (l := txs)
  rw [hzip, List.forall₂_map_left_iff] at hparsed
  refine ⟨_, _, parsed, c, hread, hcount.toNat_ofNat, ?_, hparsed, ?_, ?_⟩
  · rw [hcount.toNat_ofNat]
    exact hall
  · rw [hpos, hflat, hlen, Nat.zero_add]
  · -- the loop reads like `readAll`, whatever it does with what it has read
    intro σ process reward stores stores'
    rw [hcount.toNat_ofNat]
    constructor
    · rintro ⟨s', hs', rfl⟩
      obtain ⟨txs', hall', hrun, -⟩ := transLoop_eq_ok.mp hs'
      obtain ⟨rfl, -⟩ := Prod.mk.inj (Except.ok.inj (hall'.symm.trans hall))
      exact hrun
    · intro hrun
      exact ⟨⟨c, _, stores'⟩, transLoop_eq_ok.mpr ⟨parsed, hall, hrun, rfl⟩, rfl⟩

/-- A coinbase transaction that pays one address. -/
def rawCoinbase : RawTx where
  ver := 1
  ins := [⟨coinbaseB, 0xffffffff, [4, 1], 0xffffffff⟩]
  outs := [⟨5000000000, [0x76, 0xa9, 20] ++ List.replicate 20 7 ++ [0x88, 0xac]⟩]
  lockTime := 0

def emptyBlock : Block where
  head := .ofBytes (.replicate 88 0)
  transCount := 0
  curhash := coinbaseB
  blocknumber := 0
  blockReward := none

theorem parser_inverts_wire_of_coinbase :
    (blockPayload [rawCoinbase, rawCoinbase]).length = 175 ∧
      ∃ parsed c,
        readAll (fullBuffer (blockPayload [rawCoinbase, rawCoinbase]) (fun _ => 0) fun _ => none)
          emptyBlock 2 ⟨1, 0, 0⟩ = .ok (parsed, c) ∧
        List.Forall₂ (fun raw tx => ReadFrom raw raw.wire tx) [rawCoinbase, rawCoinbase] parsed ∧
        c.transPos = 175 := by
  have hlen : (blockPayload [rawCoinbase, rawCoinbase]).length = 175 := by decide +kernel
  have hcount : readVarLen (fullBuffer (blockPayload [rawCoinbase, rawCoinbase]) (fun _ => 0)
      fun _ => none) 0 = .ok (2, 1) := by decide +kernel
  obtain ⟨n, pos, parsed, c, hread, -, hall, hparsed, hpos, -⟩ :=
    parser_inverts_wire [rawCoinbase, rawCoinbase] (fun _ => 0) (fun _ => none) emptyBlock 0
      (by rw [hlen]; decide)
  obtain ⟨rfl, rfl⟩ := Prod.mk.inj (Except.ok.inj (hread.symm.trans hcount))
  exact ⟨hlen, parsed, c, hall, hparsed, hpos.trans hlen⟩

end BitcoinAnalysis
