/-
Transactions that are not in the block file.

The payload of a block is read into memory of the size the header declares.  The
parser never asks how much of it the file has filled, nor where the memory ends: when
the file is cut short or the counts are too large it goes on in what it finds there.
The transactions of a block are independent of that memory if and only if the bytes
that were read spell them (`handsOver_iff_holds`); a block that is cut off in front of
its last number is processed all the same (`handsOver_cutShort`).
-/
import BitcoinAnalysis.Heads
import BitcoinAnalysis.Termination
import BitcoinAnalysis.Wire

open Cursor LittleEndian Run Trace

namespace BitcoinAnalysis

variable {b : Buffer} {curBlock : Block} {txcounter : Int32} {pos p n : ℕ} {c c' : TxCursor}
  {txs : List Transaction}

/-! ### What sealed memory spells -/

section Sealed

variable (hb : b.Sealed)

include hb

theorem accepts_readTxin :
    Accepts b.bytes b.size (readTxin b) fun i bs => i.raw.Spelled bs := by
  refine ((accepts_readBytes hb 32).bind fun _ => (accepts_readU32 hb).bind fun _ =>
    (accepts_readVarLen hb).bind fun _ => (accepts_readBytes hb _).bind fun _ =>
    (accepts_readU32 hb).bind_pure).mono ?_
  rintro i bs ⟨hash, _, _, rfl, ⟨index, _, _, rfl, ⟨scriptLength, count, _, hcount,
    ⟨script, _, _, rfl, ⟨seq, rfl, rfl⟩, rfl⟩, rfl⟩, rfl⟩, rfl⟩
  rw [← script.2] at hcount
  exact ⟨count, hcount, rfl⟩

theorem accepts_readTxout :
    Accepts b.bytes b.size (readTxout b) fun o bs => o.raw.Spelled bs := by
  refine ((accepts_readU64 hb).bind fun _ => (accepts_readVarLen hb).bind fun _ =>
    (accepts_readBytes hb _).bind fun _ => (Accepts.lift _).bind_pure).mono ?_
  rintro o bs ⟨val, _, _, rfl, ⟨scriptLength, count, _, hcount,
    ⟨script, _, _, rfl, ⟨address, ⟨-, rfl⟩, rfl⟩, rfl⟩, rfl⟩, rfl⟩
  rw [← script.2] at hcount
  exact ⟨count, hcount, by rw [List.append_nil]; rfl⟩

theorem lt_of_readU32 {x : UInt32} (hpos : pos ≤ b.size) (h : readU32 b pos = .ok (x, p)) :
    pos < 2 ^ 31 := by
  obtain ⟨⟨ret, q⟩, hret, -⟩ := bind_eq_ok.mp h
  obtain ⟨ret, hread, -⟩ := bind_eq_ok.mp hret
  have hne : ret.1 ≠ [] := List.length_pos_iff.mp (by rw [ret.2]; decide)
  exact (hb.of_has hpos hne (Buffer.read_eq_ok.mp hread)).1

/-- The last number of a transaction starts in front of `2^31`. -/
theorem readFields_sealed {f : TxFields} (hpos : pos ≤ b.size) (h : readFields b pos = .ok (f, p)) :
    p ≤ b.size ∧ p < 2 ^ 31 + 4 ∧ ∃ bs, b.Has pos bs ∧ p = pos + bs.length ∧ f.raw.Spelled bs := by
  obtain ⟨⟨ver, q⟩, hver, h⟩ := bind_eq_ok.mp h
  obtain ⟨hpos, _, hasVer, rfl, rfl⟩ := accepts_readU32 hb hpos hver
  obtain ⟨⟨inCount, q⟩, hin, h⟩ := bind_eq_ok.mp h
  obtain ⟨hpos, inBytes, hasIn, rfl, hinCount⟩ := accepts_readVarLen hb hpos hin
  obtain ⟨⟨ins, q⟩, hins, h⟩ := bind_eq_ok.mp h
  obtain ⟨hpos, _, hasIns, rfl, inPieces, hinPieces, rfl⟩ :=
    (accepts_readTxin hb).times _ hpos hins
  obtain ⟨⟨outCount, q⟩, hout, h⟩ := bind_eq_ok.mp h
  obtain ⟨hpos, outBytes, hasOut, rfl, houtCount⟩ := accepts_readVarLen hb hpos hout
  obtain ⟨⟨outs, q⟩, houts, h⟩ := bind_eq_ok.mp h
  obtain ⟨hpos, _, hasOuts, rfl, outPieces, houtPieces, rfl⟩ :=
    (accepts_readTxout hb).times _ hpos houts
  obtain ⟨⟨lockTime, q⟩, hlock, h⟩ := bind_eq_ok.mp h
  have hlt := lt_of_readU32 hb hpos hlock
  obtain ⟨hpos, _, hasLock, rfl, rfl⟩ := accepts_readU32 hb hpos hlock
  cases h
  have hword := length_leBytes 4 lockTime.toNat
  refine ⟨hpos, by omega, _, ?_, ?_, inBytes, inPieces, outBytes, outPieces, ?_, ?_, ?_, ?_, rfl⟩
  · simp only [Buffer.has_append, ← Nat.cast_add]
    exact ⟨hasVer, hasIn, hasIns, hasOut, hasOuts, hasLock⟩
  · simp only [List.length_append, Nat.add_assoc]
    rfl
  · rwa [TxFields.raw, List.length_map, ins.2]
  · exact List.forall₂_map_left_iff.mpr hinPieces
  · rwa [TxFields.raw, List.length_map, outs.2]
  · exact List.forall₂_map_left_iff.mpr houtPieces

theorem readNext_sealed {tx : Transaction} (hpos : c.transPos ≤ b.size)
    (h : readNext b curBlock c = .ok (tx, c')) :
    c'.transPos ≤ b.size ∧ c'.transPos < 2 ^ 31 + 4 ∧ ∃ bs, b.Has c.transPos bs ∧
      c'.transPos = c.transPos + bs.length ∧ tx.raw.Spelled bs := by
  obtain ⟨⟨tx, q⟩, htx, h⟩ := bind_eq_ok.mp h
  cases h
  obtain ⟨⟨f, q⟩, hf, htx⟩ := bind_eq_ok.mp htx
  obtain ⟨raw, -, htx⟩ := bind_eq_ok.mp htx
  cases htx
  exact readFields_sealed hb hpos hf

/-- The loop over the transactions reads what the memory spells. -/
theorem readAll_sealed (hpos : c.transPos ≤ b.size)
    (h : readAll b curBlock n c = .ok (txs, c')) :
    c'.transPos ≤ b.size ∧ (0 < n → c'.transPos < 2 ^ 31 + 4) ∧ ∃ pieces, pieces.length = n ∧
      b.Has c.transPos pieces.flatten ∧ c'.transPos = c.transPos + pieces.flatten.length ∧
      List.Forall₂ RawTx.Spelled (txs.map Transaction.raw) pieces := by
  induction n generalizing c txs with
  | zero =>
    cases h
    exact ⟨hpos, fun h => absurd h (Nat.lt_irrefl 0), [], rfl, b.has_nil _, rfl, .nil⟩
  | succ n ih =>
    obtain ⟨⟨tx, c₁⟩, hnext, h⟩ := bind_eq_ok.mp h
    obtain ⟨⟨rest, c₂⟩, hrest, h⟩ := bind_eq_ok.mp h
    cases h
    obtain ⟨hpos₁, hlt₁, bs, hbs, hc₁, htx⟩ := readNext_sealed hb hpos hnext
    obtain ⟨hpos₂, hlt₂, pieces, hlen, hpieces, hc₂, htxs⟩ := ih hpos₁ hrest
    rw [hc₁, Nat.cast_add] at hpieces
    refine ⟨hpos₂, fun _ => ?_, bs :: pieces, by rw [List.length_cons, hlen],
      Buffer.has_append.mpr ⟨hbs, hpieces⟩, ?_, .cons htx htxs⟩
    · cases n with
      | zero =>
        cases hrest
        exact hlt₁
      | succ n => exact hlt₂ (Nat.succ_pos n)
    · rw [hc₂, hc₁, List.flatten_cons, List.length_append, Nat.add_assoc]

end Sealed

/-! ### The last number of a transaction -/

theorem RawTx.Spelled.ends {raw : RawTx} {bs : List UInt8} (h : raw.Spelled bs) :
    ∃ front, bs = front ++ leBytes 4 raw.lockTime.toNat := by
  obtain ⟨inCount, ins, outCount, outs, -, -, -, -, rfl⟩ := h
  exact ⟨leBytes 4 raw.ver.toNat ++ (inCount ++ (ins.flatten ++ (outCount ++ outs.flatten))),
    by simp only [List.append_assoc]⟩

/-- The bytes of a list of transactions end with the `lock_time` of the last one. -/
theorem ends_of_spelled {raws : List RawTx} {pieces : List (List UInt8)}
    (h : List.Forall₂ RawTx.Spelled raws pieces) (hne : raws ≠ []) :
    ∃ raw front, raws.getLast? = some raw ∧
      pieces.flatten = front ++ leBytes 4 raw.lockTime.toNat := by
  induction h with
  | nil => exact absurd rfl hne
  | @cons raw bs raws pieces hraw hraws ih =>
    cases hraws with
    | nil =>
      obtain ⟨front, rfl⟩ := hraw.ends
      exact ⟨raw, front, rfl, by rw [List.flatten_cons, List.flatten_nil, List.append_nil]⟩
    | cons hraw' hraws' =>
      obtain ⟨last, front, hlast, hflat⟩ := ih (List.cons_ne_nil _ _)
      refine ⟨last, bs ++ front, ?_, ?_⟩
      · rw [List.getLast?_cons, hlast]
        rfl
      · rw [List.flatten_cons, hflat, List.append_assoc]

/-- The highest byte of a number that ends behind what was read is memory. -/
theorem lockTime_behind {x : UInt32} (h : b.Has pos (leBytes 4 x.toNat))
    (hfilled : b.filled.length < pos + 4) (hsize : pos + 4 ≤ b.size) :
    x.toNat / 2 ^ 24 = (b.heap (pos + 3)).toNat := by
  have hcell := h 3 (by rw [length_leBytes]; decide)
  rw [Buffer.cell, if_pos (by omega), ← Nat.cast_add, Int.toNat_natCast,
    List.getElem?_eq_none (by omega)] at hcell
  have hbyte : b.heap (pos + 3) = UInt8.ofNat (x.toNat / 256 / 256 / 256) := Option.some.inj hcell
  have hlt := x.toNat_lt
  rw [hbyte, UInt8.toNat_ofNat']
  omega

/-! ### What a block hands over -/

/-- The first `n` rounds of the loop over the transactions of a block, with a last
part that writes down what it is handed, end with `txs`. -/
def HandsOver (transSec : Buffer) (curBlock : Block) (txcounter : Int32) (n : ℕ)
    (txs : List Transaction) : Prop :=
  ∃ transCount transPos t, readVarLen transSec 0 = .ok (transCount, transPos) ∧
    n ≤ transCount.toNat ∧
    transLoop record transSec { curBlock with transCount := transCount } n
      ⟨⟨transPos, 0, txcounter⟩, none, []⟩ = .ok t ∧ t.stores = txs

/-- Bytes that begin with a count of `n` or more and with `n` transactions, the last
number of which starts in front of `2^31`. -/
def SpellsTransactions (bytes : List UInt8) (n : ℕ) : Prop :=
  ∃ count countBytes raws pieces, VarLen count countBytes ∧ n ≤ count ∧ pieces.length = n ∧
    List.Forall₂ RawTx.Spelled raws pieces ∧ countBytes ++ pieces.flatten <+: bytes ∧
    (countBytes ++ pieces.flatten).length < 2 ^ 31 + 4

theorem handsOver_iff :
    HandsOver b curBlock txcounter n txs ↔
      ∃ transCount transPos cursor, readVarLen b 0 = .ok (transCount, transPos) ∧
        n ≤ transCount.toNat ∧
        readAll b { curBlock with transCount := transCount } n ⟨transPos, 0, txcounter⟩
          = .ok (txs, cursor) := by
  constructor
  · rintro ⟨transCount, transPos, t, hcount, hn, hloop, rfl⟩
    obtain ⟨txs, hall, hrun, -⟩ := transLoop_eq_ok.mp hloop
    rw [run_record, List.nil_append, Except.ok.injEq] at hrun
    exact ⟨transCount, transPos, t.cursor, hcount, hn, hrun ▸ hall⟩
  · rintro ⟨transCount, transPos, cursor, hcount, hn, hall⟩
    exact ⟨transCount, transPos, ⟨cursor, _, txs⟩, hcount, hn,
      transLoop_eq_ok.mpr ⟨txs, hall, run_record [] txs, rfl⟩, rfl⟩

theorem HandsOver.unique {txs' : List Transaction} (h : HandsOver b curBlock txcounter n txs)
    (h' : HandsOver b curBlock txcounter n txs') : txs' = txs := by
  obtain ⟨transCount, transPos, t, hcount, -, hloop, rfl⟩ := h
  obtain ⟨transCount', transPos', t', hcount', -, hloop', rfl⟩ := h'
  rw [hcount] at hcount'
  cases hcount'
  rw [hloop] at hloop'
  cases hloop'
  rfl

theorem VarLen.length_le {bs : List UInt8} (h : VarLen n bs) : bs.length ≤ 5 := by
  cases h with
  | byte _ => exact Nat.le_add_left 1 4
  | word _ => rw [List.length_cons, length_leBytes]; decide
  | dword _ => rw [List.length_cons, length_leBytes]
  | marker => decide

/-- What the front of the memory spells is handed over, the same from all memory with
this front. -/
theorem handsOver_of_has {count : ℕ} {countBytes : List UInt8} {raws : List RawTx}
    {pieces : List (List UInt8)} (hcount : VarLen count countBytes) (hle : pieces.length ≤ count)
    (hsp : List.Forall₂ RawTx.Spelled raws pieces)
    (hend : (countBytes ++ pieces.flatten).length < 2 ^ 31 + 4) (curBlock : Block)
    (txcounter : Int32) :
    ∃ txs, List.Forall₂ (fun (p : RawTx × List UInt8) tx => ReadFrom p.1 p.2 tx)
        (raws.zip pieces) txs ∧
      ∀ b : Buffer, b.Has 0 (countBytes ++ pieces.flatten) →
        HandsOver b curBlock txcounter pieces.length txs := by
  have hshort := hcount.length_le
  rw [List.length_append] at hend
  obtain ⟨txs, cursor, htxs, -, hall⟩ := readAll_spelled hsp
    { curBlock with transCount := .ofNat count } (c := ⟨0 + countBytes.length, 0, txcounter⟩)
    (by dsimp only; omega)
  refine ⟨txs, htxs, fun b hhas => ?_⟩
  obtain ⟨hfront, hrest⟩ := Buffer.has_append.mp hhas
  rw [← Nat.cast_zero, ← Nat.cast_add] at hrest
  exact handsOver_iff.mpr ⟨_, _, cursor, reads_readVarLen hcount 0 ⟨hfront, fun _ => by omega⟩,
    by rwa [hcount.toNat_ofNat], hall b hrest⟩

/-- Of sealed memory, what was read spells the transactions, or the last of them ends
in unread memory. -/
theorem HandsOver.spells_or_behind (hb : b.Sealed) (hle : b.filled.length ≤ b.size) (hn : 0 < n)
    (h : HandsOver b curBlock txcounter n txs) :
    SpellsTransactions b.filled n ∨
      ∃ raw i, (txs.map Transaction.raw).getLast? = some raw ∧
        raw.lockTime.toNat / 2 ^ 24 = (b.heap i).toNat := by
  obtain ⟨transCount, transPos, cursor, hcount, hcnt, hall⟩ := handsOver_iff.mp h
  obtain ⟨hpos, countBytes, hasCount, rfl, hform⟩ := accepts_readVarLen hb (Nat.zero_le _) hcount
  obtain ⟨hsize, hlt, pieces, hlen, hpieces, hcur, hsp⟩ := readAll_sealed hb hpos hall
  have hhas : b.Has 0 (countBytes ++ pieces.flatten) :=
    Buffer.has_append.mpr ⟨hasCount, by rw [← Nat.cast_zero, ← Nat.cast_add]; exact hpieces⟩
  have hend : cursor.transPos = (countBytes ++ pieces.flatten).length := by
    rw [hcur, List.length_append, Nat.zero_add]
  by_cases hin : cursor.transPos ≤ b.filled.length
  · refine .inl ⟨transCount.toNat, countBytes, txs.map Transaction.raw, pieces, hform, hcnt, hlen,
      hsp, (Buffer.has_zero_iff hle (hend ▸ hin)).mp hhas, hend ▸ hlt hn⟩
  · have hne : txs.map Transaction.raw ≠ [] := by
      intro hnil
      rw [hnil] at hsp
      cases hsp
      exact hn.ne hlen
    obtain ⟨raw, front, hlast, hflat⟩ := ends_of_spelled hsp hne
    rw [hflat, Buffer.has_append] at hpieces
    obtain ⟨-, hlock⟩ := hpieces
    rw [hcur, hflat, List.length_append, length_leBytes, ← Nat.add_assoc] at hin hsize
    rw [← Nat.cast_add] at hlock
    exact .inr ⟨raw, _, hlast, lockTime_behind hlock (not_le.mp hin) hsize⟩

/-! ### The blocks of a file -/

theorem length_read_le (s : IfStream) (n : ℕ) : (s.read n).1.length ≤ n := by
  unfold IfStream.read
  dsimp only
  split
  · split
    · exact List.length_take_le _ _
    · exact List.length_take_le _ _
  · exact Nat.zero_le n

/-- The round at this head hands over `txs` first. -/
def Progress.HandsOver (env : Env) (p : Progress) (n : ℕ) (txs : List Transaction) : Prop :=
  BitcoinAnalysis.HandsOver (transSec env p.curBlock p.opened).1 p.curBlock p.txcounter n txs

/-- What the file gives of the payload of the round's block. -/
def Progress.payload (p : Progress) : List UInt8 :=
  ((p.opened.blockFile.seekg (p.opened.blockPos + 88).toInt).read
    (p.curBlock.head.blocksize - 80).toNat).1

/-- The bytes that were read for the round's block spell `n` transactions. -/
def Progress.Holds (p : Progress) (n : ℕ) : Prop := SpellsTransactions p.payload n

/-- **The first transactions of a block** are those of its payload, whatever stands in
and around the memory it is read into, if and only if the bytes that were read spell
them. -/
theorem handsOver_iff_holds {env : Env} {p : Progress} (hn : 0 < n) (h : p.HandsOver env n txs) :
    (∀ heap outside, p.HandsOver { env with heap := heap, outside := outside } n txs) ↔
      p.Holds n := by
  have hle : p.payload.length ≤ (p.curBlock.head.blocksize - 80).toNat := length_read_le _ _
  have hsize : (p.curBlock.head.blocksize - 80).toNat < 2 ^ 32 := UInt32.toNat_lt _
  constructor
  · intro hall
    -- two sealed memories that differ in every byte
    rcases (hall (fun _ _ => 0) fun _ _ => none).spells_or_behind ⟨hsize, fun _ => rfl⟩ hle hn with
      h₀ | ⟨raw, i, hraw, h₀⟩
    · exact h₀
    rcases (hall (fun _ _ => 1) fun _ _ => none).spells_or_behind ⟨hsize, fun _ => rfl⟩ hle hn with
      h₁ | ⟨raw', j, hraw', h₁⟩
    · exact h₁
    rw [hraw, Option.some.injEq] at hraw'
    rw [← hraw', h₀] at h₁
    exact absurd h₁ Nat.zero_ne_one
  · rintro ⟨count, countBytes, raws, pieces, hcount, hcnt, rfl, hsp, hpre, hend⟩ heap outside
    obtain ⟨txs', -, hover⟩ := handsOver_of_has hcount hcnt hsp hend p.curBlock p.txcounter
    -- every memory with this payload has these bytes in front
    have hhas : ∀ env' : Env, (transSec env' p.curBlock p.opened).1.Has 0
        (countBytes ++ pieces.flatten) :=
      fun env' => (Buffer.has_zero_iff (b := (transSec env' p.curBlock p.opened).1) hle
        hpre.length_le).mpr hpre
    rw [BitcoinAnalysis.HandsOver.unique (hover _ (hhas env)) h]
    exact hover _ (hhas _)

/-- The head in front of a block with the given number, one transaction a
block. -/
def headAtBlock (data : List UInt8) (blockPos number : Int32) : Progress :=
  ⟨number, number, blockPos, false, streamAt data blockPos⟩

/-- The first block of `minedTwice` is whole. -/
theorem handsOver_of_minedTwice :
    ∃ txs, ∀ heap outside, (headAtBlock (minedTwice.contents 0) 0 0).HandsOver
      { minedTwice with heap := heap, outside := outside } 1 txs := by
  have hpayload : (headAtBlock (minedTwice.contents 0) 0 0).payload
      = [1] ++ [rawCoinbase.wire].flatten := by decide +kernel
  have hcount : VarLen 1 [1] := .byte (by decide)
  have hsp : List.Forall₂ RawTx.Spelled [rawCoinbase] [rawCoinbase.wire] :=
    .cons (rawCoinbase.spelled_wire (by decide +kernel)) .nil
  have hend : ([1] ++ [rawCoinbase.wire].flatten).length < 2 ^ 31 + 4 := by decide +kernel
  have hholds : (headAtBlock (minedTwice.contents 0) 0 0).Holds 1 :=
    ⟨1, [1], _, _, hcount, le_rfl, rfl, hsp, hpayload ▸ List.prefix_rfl, hend⟩
  obtain ⟨txs, -, hover⟩ := handsOver_of_has hcount le_rfl hsp hend
    (headAtBlock (minedTwice.contents 0) 0 0).curBlock 0
  have hfirst : (headAtBlock (minedTwice.contents 0) 0 0).HandsOver minedTwice 1 txs :=
    hover _ (by decide +kernel)
  exact ⟨txs, (handsOver_iff_holds (by decide) hfirst).mpr hholds⟩

/-! ### Cut short -/

/-- The bytes of a transaction in front of its `lock_time`. -/
def RawTx.front (tx : RawTx) : List UInt8 :=
  leBytes 4 tx.ver.toNat ++ (compactSize tx.ins.length ++ (tx.ins.flatMap RawTxin.wire
    ++ (compactSize tx.outs.length ++ tx.outs.flatMap RawTxout.wire)))

theorem RawTx.wire_eq (tx : RawTx) : tx.wire = tx.front ++ leBytes 4 tx.lockTime.toNat := by
  simp only [RawTx.wire, RawTx.front, List.append_assoc]

theorem Buffer.has_map_range {f : ℕ → UInt8} :
    b.Has pos ((List.range n).map f) ↔ ∀ i < n, b.cell (pos + i : ℕ) = some (f i) := by
  rw [Buffer.Has, List.length_map, List.length_range]
  refine forall₂_congr fun i hi => ?_
  rw [List.getElem?_map, List.getElem?_range hi, Nat.cast_add]
  rfl

theorem Buffer.cell_behind {i : ℕ} (hi : b.filled.length ≤ i) :
    b.cell i = if i < b.size then some (b.heap i) else b.outside i := by
  rw [Buffer.cell]
  by_cases hlt : i < b.size
  · rw [if_pos (by omega), if_pos hlt, Int.toNat_natCast, List.getElem?_eq_none hi]
    rfl
  · rw [if_neg (by omega), if_neg hlt]

/-- Four bytes that stand behind all of a coinbase transaction but its last number
complete it. -/
theorem handsOver_of_front {env : Env} {p : Progress} {f : ℕ → UInt8}
    (hpayload : p.payload = 1 :: rawCoinbase.front)
    (hcell : ∀ i < 4, (transSec env p.curBlock p.opened).1.cell (84 + i : ℕ) = some (f i)) :
    ∃ tx : Transaction, p.HandsOver env 1 [tx] ∧
      leBytes 4 tx.lockTime.toNat = (List.range 4).map f := by
  generalize hbs : (List.range 4).map f = bs
  have hlen : bs.length = 4 := by rw [← hbs]; rfl
  have hlt : leNat bs < 2 ^ 32 := by
    have := leNat_lt bs
    rwa [hlen] at this
  let raw : RawTx := { rawCoinbase with lockTime := .ofNat (leNat bs) }
  have hlock : leBytes 4 raw.lockTime.toNat = bs := by
    show leBytes 4 (UInt32.ofNat (leNat bs)).toNat = bs
    rw [UInt32.toNat_ofNat_of_lt' hlt, leBytes_leNat hlen]
  have hwire : raw.wire = rawCoinbase.front ++ bs := by
    rw [raw.wire_eq, hlock]
    rfl
  have hfront : rawCoinbase.front.length = 83 := by decide +kernel
  have hshort : raw.wire.length = 87 := by rw [hwire, List.length_append, hfront, hlen]
  have hsp : List.Forall₂ RawTx.Spelled [raw] [raw.wire] :=
    .cons (raw.spelled_wire (by rw [hshort]; decide)) .nil
  have hflat : [raw.wire].flatten = raw.wire := by
    rw [List.flatten_cons, List.flatten_nil, List.append_nil]
  obtain ⟨txs, htxs, hover⟩ := handsOver_of_has (.byte (by decide : 1 < 0xfd)) le_rfl hsp
    (by rw [List.length_append, hflat, hshort]; decide) p.curBlock p.txcounter
  have hhas : (transSec env p.curBlock p.opened).1.Has 0 ([1] ++ [raw.wire].flatten) := by
    have hspelled : [1] ++ [raw.wire].flatten = p.payload ++ bs := by
      rw [hflat, hwire, hpayload]
      rfl
    have hread : p.payload.length = 84 := by rw [hpayload, List.length_cons, hfront]
    rw [hspelled, Buffer.has_append, zero_add, hread, ← hbs]
    exact ⟨(Buffer.has_zero_iff (length_read_le _ _) le_rfl).mpr List.prefix_rfl,
      Buffer.has_map_range.mpr hcell⟩
  cases htxs with
  | @cons _ tx _ _ htx hnil =>
    cases hnil
    have hfields : tx.raw = raw := htx.fields
    refine ⟨tx, hover _ hhas, ?_⟩
    rw [← hlock, ← hfields]
    rfl

/-- A block file that ends in front of the last number of its only block. -/
def cutShort : Env where
  blkfile i := if i = 0 then some ((minedBlock 1000).take 172) else none
  heap _ _ := 0
  outside _ _ := none
  blockReward _ := none

/-- A block whose header declares four bytes too few, so that what is read of it ends
in front of the last number as well. -/
def sizedShort : Env where
  blkfile i := if i = 0 then
      some ((minedBlock 1000).take 4 ++ leBytes 4 164 ++ (minedBlock 1000).drop 8) else none
  heap _ _ := 0
  outside _ _ := none
  blockReward _ := none

theorem handsOver_of_cutShort (heap : UInt32 → ℕ → UInt8) (outside : UInt32 → ℤ → Option UInt8) :
    ∃ tx : Transaction, (headAtBlock (cutShort.contents 0) 0 0).HandsOver
        { cutShort with heap := heap, outside := outside } 1 [tx] ∧
      leBytes 4 tx.lockTime.toNat = [heap 0 84, heap 0 85, heap 0 86, heap 0 87] := by
  have hsize : ((headAtBlock (cutShort.contents 0) 0 0).curBlock.head.blocksize - 80).toNat
      = 88 := by decide +kernel
  have hread : (headAtBlock (cutShort.contents 0) 0 0).payload.length = 84 := by decide +kernel
  refine handsOver_of_front (f := fun i => heap 0 (84 + i)) (by decide +kernel) fun i hi => ?_
  rw [Buffer.cell_behind (hread.le.trans (Nat.le_add_right _ _)), if_pos]
  · rfl
  · exact Nat.lt_of_lt_of_eq (by omega) hsize.symm

theorem handsOver_of_sizedShort (heap : UInt32 → ℕ → UInt8) (behind : ℕ → UInt8) :
    ∃ tx : Transaction, (headAtBlock (sizedShort.contents 0) 0 0).HandsOver
        { sizedShort with heap := heap, outside := fun _ i => some (behind i.toNat) } 1 [tx] ∧
      leBytes 4 tx.lockTime.toNat = [behind 84, behind 85, behind 86, behind 87] := by
  have hsize : ((headAtBlock (sizedShort.contents 0) 0 0).curBlock.head.blocksize - 80).toNat
      = 84 := by decide +kernel
  have hread : (headAtBlock (sizedShort.contents 0) 0 0).payload.length = 84 := by decide +kernel
  refine handsOver_of_front (f := fun i => behind (84 + i)) (by decide +kernel) fun i _ => ?_
  rw [Buffer.cell_behind (hread.le.trans (Nat.le_add_right _ _)), if_neg]
  · rfl
  · exact Nat.not_lt.mpr (hsize.le.trans (Nat.le_add_right _ _))

/-- Whatever stands behind the payload that was read, in the memory or, at the smaller
size, behind it, becomes the `lock_time` of a transaction that is handed over. -/
theorem handsOver_cutShort :
    Reached cutShort 3000 ⟨0, 0, -1, -1, 0⟩ [] 0 (headAtBlock (cutShort.contents 0) 0 0) ∧
      (∀ heap outside, ∃ tx : Transaction,
        (headAtBlock (cutShort.contents 0) 0 0).HandsOver
          { cutShort with heap := heap, outside := outside } 1 [tx] ∧
        leBytes 4 tx.lockTime.toNat = [heap 0 84, heap 0 85, heap 0 86, heap 0 87]) ∧
      (¬ ∃ txs, ∀ heap outside, (headAtBlock (cutShort.contents 0) 0 0).HandsOver
        { cutShort with heap := heap, outside := outside } 1 txs) ∧
      Reached sizedShort 3000 ⟨0, 0, -1, -1, 0⟩ [] 0 (headAtBlock (sizedShort.contents 0) 0 0) ∧
      (∀ heap (behind : ℕ → UInt8), ∃ tx : Transaction,
        (headAtBlock (sizedShort.contents 0) 0 0).HandsOver
          { sizedShort with heap := heap, outside := fun _ i => some (behind i.toNat) } 1 [tx] ∧
        leBytes 4 tx.lockTime.toNat = [behind 84, behind 85, behind 86, behind 87]) ∧
      ∃ o, unzipBlocks cutShort 3000 (.fresh .null) startText = .ok o ∧
        payee o.world.conn.db = some (5000000000, 1) := by
  have hrun : ∃ o, unzipBlocks cutShort 3000 (.fresh .null) startText = .ok o ∧
      payee o.world.conn.db = some (5000000000, 1) := by
    decide +kernel
  refine ⟨.first (by decide) (by decide), handsOver_of_cutShort, ?_,
    .first (by decide) (by decide), handsOver_of_sizedShort, hrun⟩
  rintro ⟨txs, hall⟩
  -- two memories give two numbers
  obtain ⟨tx₀, h₀, hlock₀⟩ := handsOver_of_cutShort (fun _ _ => 0) fun _ _ => none
  obtain ⟨tx₁, h₁, hlock₁⟩ := handsOver_of_cutShort (fun _ _ => 1) fun _ _ => none
  have heq₀ : txs = [tx₀] := h₀.unique (hall _ _)
  have heq₁ : txs = [tx₁] := h₁.unique (hall _ _)
  rw [heq₀] at heq₁
  cases heq₁
  rw [hlock₀] at hlock₁
  exact absurd hlock₁ (by decide)

end BitcoinAnalysis
