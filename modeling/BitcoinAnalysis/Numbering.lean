/-
The numbers of blocks and transactions.

A block gets the number `BlockNum` has when its header is read, a transaction the
number `txcounter` has when it is read; both count up by one and are never reset
during a run (`readAll_numbers`, `Reached.lastNumbers`).
-/
import BitcoinAnalysis.Heads

open Run Trace

namespace BitcoinAnalysis

variable {env : Env} {stoptm : ℤ} {c : Checkpoint} {evs es : List Event} {num : Int32}
  {p q : Progress}

/-! ### One block -/

theorem readNext_numbers {b : Buffer} {blk : Block} {s s' : TxCursor} {tx : Transaction}
    (h : readNext b blk s = .ok (tx, s')) :
    s'.txNum = s.txNum + 1 ∧ s'.txcounter = s.txcounter + 1 ∧ tx.blocknumber = blk.blocknumber ∧
      tx.txtime = blk.head.timeStamp ∧ tx.txnumber = s.txNum ∧
      tx.txcounter = s.txcounter.toUInt32 := by
  obtain ⟨⟨tx', pos⟩, hread, h⟩ := bind_eq_ok.mp h
  cases h
  obtain ⟨⟨f, pos'⟩, -, hread⟩ := bind_eq_ok.mp hread
  obtain ⟨raw, -, hread⟩ := bind_eq_ok.mp hread
  cases hread
  exact ⟨rfl, rfl, rfl, rfl, rfl, rfl⟩

/-- The numbers of the transactions of a block: the `k`-th one has the numbers
the loop starts with and `k` more, in 16 and in 32 bits. -/
theorem readAll_numbers {b : Buffer} {blk : Block} {n : ℕ} {s s' : TxCursor}
    {txs : List Transaction} (h : readAll b blk n s = .ok (txs, s')) :
    txs.length = n ∧ s'.txcounter = s.txcounter + Int32.ofNat n ∧
      ∀ k tx, txs[k]? = some tx → tx.blocknumber = blk.blocknumber ∧
        tx.txtime = blk.head.timeStamp ∧ tx.txnumber = s.txNum + UInt16.ofNat k ∧
        tx.txcounter = (s.txcounter + Int32.ofNat k).toUInt32 := by
  induction n generalizing s txs with
  | zero =>
    cases h
    refine ⟨rfl, (Int32.add_zero _).symm, ?_⟩
    intro k tx hk
    cases hk
  | succ n ih =>
    obtain ⟨⟨tx, s₁⟩, hnext, h⟩ := bind_eq_ok.mp h
    obtain ⟨⟨rest, s₂⟩, hrest, h⟩ := bind_eq_ok.mp h
    cases h
    obtain ⟨hnum, hcnt, hblk, htime, hno, htx⟩ := readNext_numbers hnext
    obtain ⟨hlen, hend, hall⟩ := ih hrest
    -- one step of the loop is one more in both counters
    have hshift : ∀ k, s₁.txcounter + Int32.ofNat k = s.txcounter + Int32.ofNat (k + 1) := by
      intro k
      rw [hcnt, Int32.ofNat_add, Int32.add_assoc, Int32.add_comm 1]
      rfl
    have hshift' : ∀ k, s₁.txNum + UInt16.ofNat k = s.txNum + UInt16.ofNat (k + 1) := by
      intro k
      rw [hnum, UInt16.ofNat_add, UInt16.add_assoc, UInt16.add_comm 1]
      rfl
    refine ⟨by rw [List.length_cons, hlen], hend.trans (hshift n), ?_⟩
    intro k t hk
    cases k with
    | zero =>
      cases hk
      refine ⟨hblk, htime, hno.trans (UInt16.add_zero _).symm, ?_⟩
      rw [htx]
      exact congrArg Int32.toUInt32 (Int32.add_zero _).symm
    | succ k =>
      obtain ⟨hblk', htime', hno', htx'⟩ := hall k t hk
      rw [hshift'] at hno'
      rw [hshift] at htx'
      exact ⟨hblk', htime', hno', htx'⟩

/-- What a round that reads a block hands over: the transactions and then the
block, with their numbers. -/
structure BlockRead (p : Progress) (txs : List Transaction) (blk : Block) (q : Progress) :
    Prop where
  head : blk.head = p.curBlock.head
  blocknumber : blk.blocknumber = p.blockNum.toUInt32
  count : txs.length = blk.transCount.toNat
  reward : ∃ before, blk.blockReward = rewardOf p.blockNum.toUInt32 txs before
  blockNum : q.blockNum = p.blockNum + 1
  txcounter : q.txcounter = p.txcounter + Int32.ofNat txs.length
  numbers : ∀ k tx, txs[k]? = some tx → tx.blocknumber = p.blockNum.toUInt32 ∧
    tx.txtime = p.curBlock.head.timeStamp ∧ tx.txnumber = UInt16.ofNat k ∧
    tx.txcounter = (p.txcounter + Int32.ofNat k).toUInt32

theorem Progress.Goes.exists_block (h : p.Goes env stoptm es q) :
    ∃ txs blk, es = txs.map .tx ++ [.block blk] ∧ BlockRead p txs blk q := by
  obtain ⟨transCount, transPos, txs, cursor, -, hall, rfl, rfl⟩ := h.reads
  obtain ⟨hlen, hend, hnumbers⟩ := readAll_numbers hall
  refine ⟨txs, _, rfl, rfl, rfl, hlen, ⟨_, rfl⟩, rfl, ?_, ?_⟩
  · rw [hlen]
    exact hend
  · intro k tx hk
    obtain ⟨hblk, htime, hno, htx⟩ := hnumbers k tx hk
    exact ⟨hblk, htime, hno.trans (UInt16.zero_add _), htx⟩

/-! ### A whole run -/

/-- The number of the last block processed, or the one saved before. -/
def lastBlocknumber (c : Checkpoint) (evs : List Event) : UInt32 :=
  ((processedBlocks evs).getLast?.map Block.blocknumber).getD c.blocknum.toUInt32

/-- The number of the last transaction read, or the one saved before. -/
def lastTxcounter (c : Checkpoint) (evs : List Event) : UInt32 :=
  ((parsed evs).getLast?.map Transaction.txcounter).getD c.txcounter.toUInt32

theorem processedBlocks_append (evs es : List Event) :
    processedBlocks (evs ++ es) = processedBlocks evs ++ processedBlocks es := List.filterMap_append

theorem parsed_append (evs es : List Event) : parsed (evs ++ es) = parsed evs ++ parsed es :=
  List.filterMap_append

theorem processedBlocks_block (txs : List Transaction) (blk : Block) :
    processedBlocks (txs.map .tx ++ [.block blk]) = [blk] := by
  rw [processedBlocks_append]
  have hnone : processedBlocks (txs.map .tx) = [] := by
    simp [processedBlocks]
  rw [hnone]
  rfl

theorem parsed_block (txs : List Transaction) (blk : Block) :
    parsed (txs.map .tx ++ [.block blk]) = txs := by
  rw [parsed_append]
  have htxs : parsed (txs.map .tx) = txs := by
    rw [parsed, List.filterMap_map]
    exact List.filterMap_some
  rw [htxs]
  exact List.append_nil txs

/-- What is known of the transactions and the block of a round. -/
theorem Progress.Goes.blockRead {txs : List Transaction} {blk : Block}
    (h : p.Goes env stoptm (txs.map .tx ++ [.block blk]) q) : BlockRead p txs blk q := by
  obtain ⟨txs', blk', hes, hread⟩ := h.exists_block
  have htxs : txs = txs' := by
    rw [← parsed_block txs blk, hes, parsed_block]
  have hblk : [blk] = [blk'] := by
    rw [← processedBlocks_block txs blk, hes, processedBlocks_block]
  cases hblk
  rw [htxs]
  exact hread

/-- The last number of a list of transactions numbered in a row. -/
theorem BlockRead.last {txs : List Transaction} {blk : Block} (h : BlockRead p txs blk q) :
    (q.txcounter - 1).toUInt32
      = (txs.getLast?.map Transaction.txcounter).getD (p.txcounter - 1).toUInt32 := by
  rw [h.txcounter, List.getLast?_eq_getElem?]
  cases hlen : txs.length with
  | zero =>
    rw [List.length_eq_zero_iff.mp hlen]
    exact congrArg (fun x => (x - 1).toUInt32) (Int32.add_zero _)
  | succ n =>
    have hlt : n < txs.length := by omega
    obtain ⟨-, -, -, htx⟩ := h.numbers n _ (List.getElem?_eq_getElem hlt)
    rw [Nat.add_sub_cancel, List.getElem?_eq_getElem hlt, Option.map_some, Option.getD_some, htx,
      Int32.ofNat_add]
    exact congrArg Int32.toUInt32 (by grind)

/-- A new file does not touch the counters. -/
theorem counters_enter (num : Int32) (p : Progress) :
    (p.enter env c num).blockNum = p.blockNum ∧ (p.enter env c num).txcounter = p.txcounter := by
  unfold Progress.enter
  dsimp only
  split
  · exact ⟨rfl, rfl⟩
  · exact ⟨rfl, rfl⟩

/-- At every head the counters stand one behind the last block and the last
transaction. -/
theorem Reached.lastNumbers (h : Reached env stoptm c evs num p) :
    (p.blockNum - 1).toUInt32 = lastBlocknumber c evs ∧
      (p.txcounter - 1).toUInt32 = lastTxcounter c evs := by
  induction h with
  | first =>
    rw [(counters_enter _ _).1, (counters_enter _ _).2]
    constructor
    · exact congrArg Int32.toUInt32 (Int32.add_sub_cancel c.blocknum 1)
    · exact congrArg Int32.toUInt32 (Int32.add_sub_cancel c.txcounter 1)
  | round _ hgoes ih =>
    obtain ⟨txs, blk, rfl, hread⟩ := hgoes.exists_block
    constructor
    · rw [lastBlocknumber, processedBlocks_append, processedBlocks_block, List.getLast?_concat,
        Option.map_some, Option.getD_some, hread.blocknumber, hread.blockNum]
      exact congrArg Int32.toUInt32 (by grind)
    · rw [hread.last, lastTxcounter, parsed_append, parsed_block, List.getLast?_append, ih.2]
      cases txs.getLast? with
      | none => rfl
      | some tx => rfl
  | file _ _ _ ih =>
    rw [(counters_enter _ _).1, (counters_enter _ _).2]
    exact ih

end BitcoinAnalysis
