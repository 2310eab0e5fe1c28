/-
The reward that is stored with a block.

The reward is the sum the first transaction pays without the subsidy, in
unsigned 64-bit numbers.  The first transaction is the one whose 16-bit number is
0, so in a block of more than `2^16` transactions a later one sets the reward
again.  The stored number is right if and only if the first transaction claims
the whole subsidy and no later one changes the sum (`rewardExact_iff`).
-/
import BitcoinAnalysis.Numbering
import BitcoinAnalysis.Termination

open LittleEndian Run

namespace BitcoinAnalysis

variable {txs : List Transaction} {tx : Transaction}

/-- The subsidy of a block, in Satoshi. -/
def subsidy (blocknumber : UInt32) : ℕ :=
  if blocknumber < 210000 then 50 * 10 ^ 8 else 25 * 10 ^ 8

/-- The stored reward and the subsidy are what the first transaction pays. -/
def RewardExact (blk : Block) (first : Transaction) : Prop :=
  ∃ reward, blk.blockReward = some reward ∧ reward.toNat + subsidy blk.blocknumber = first.outSum

/-- Where the last transaction of a block stands that has the number 0. -/
def lastZero (n : ℕ) : ℕ := 65536 * ((n - 1) / 65536)

/-! ### Which transaction sets the reward -/

theorem toNat_foldl_add (vals : List UInt64) (x : UInt64) :
    (vals.foldl (· + ·) x).toNat = (x.toNat + (vals.map UInt64.toNat).sum) % 2 ^ 64 := by
  induction vals generalizing x with
  | nil =>
    have := x.toNat_lt
    simp only [List.foldl_nil, List.map_nil, List.sum_nil]
    omega
  | cons v vals ih =>
    rw [List.foldl_cons, ih, UInt64.toNat_add, List.map_cons, List.sum_cons]
    omega

theorem toNat_sumoutvalue (h : tx.txnumber = 0) : (sumoutvalue tx).toNat = tx.outSum % 2 ^ 64 := by
  rw [sumoutvalue, if_pos h, toNat_foldl_add, List.map_map, Transaction.outSum]
  simp [Function.comp_def]

theorem rewardAfter_of_zero (blocknumber : UInt32) (h : tx.txnumber = 0) (reward : Option UInt64) :
    rewardAfter blocknumber tx reward
      = some (sumoutvalue tx - UInt64.ofNat (subsidy blocknumber)) := by
  rw [rewardAfter, if_pos h, subsidy]
  split
  · rfl
  · rfl

theorem ofNat_eq_zero_iff (k : ℕ) : UInt16.ofNat k = 0 ↔ k % 65536 = 0 := by
  rw [← UInt16.toNat_inj, UInt16.toNat_ofNat']
  rfl

/-- The last transaction with the number 0 sets the reward. -/
theorem rewardOf_eq (blocknumber : UInt32) (before : Option UInt64)
    (hnum : ∀ k tx, txs[k]? = some tx → tx.txnumber = UInt16.ofNat k) (hne : txs ≠ []) :
    ∃ last, txs[lastZero txs.length]? = some last ∧ last.txnumber = 0 ∧
      rewardOf blocknumber txs before
        = some (sumoutvalue last - UInt64.ofNat (subsidy blocknumber)) := by
  induction txs using List.reverseRecOn with
  | nil => exact absurd rfl hne
  | append_singleton txs tx ih =>
    have hfold : rewardOf blocknumber (txs ++ [tx]) before
        = rewardAfter blocknumber tx (rewardOf blocknumber txs before) := by
      rw [rewardOf, List.foldl_append]
      rfl
    have htx : tx.txnumber = UInt16.ofNat txs.length := hnum _ _ (by simp)
    rw [hfold, List.length_append, List.length_singleton]
    by_cases hzero : txs.length % 65536 = 0
    · -- the number has wrapped around, or this is the first transaction
      have htx₀ : tx.txnumber = 0 := htx.trans ((ofNat_eq_zero_iff _).mpr hzero)
      have hlast : lastZero (txs.length + 1) = txs.length := by
        rw [lastZero]
        omega
      refine ⟨tx, ?_, htx₀, rewardAfter_of_zero blocknumber htx₀ _⟩
      rw [hlast]
      simp
    · -- not a multiple of 65536: the reward of the transactions before stays
      have hne' : txs ≠ [] := by
        rintro rfl
        exact hzero rfl
      have hlen := List.length_pos_iff.mpr hne'
      have hsame : lastZero (txs.length + 1) = lastZero txs.length := by
        rw [lastZero, lastZero]
        omega
      have hlt : lastZero txs.length < txs.length := by
        rw [lastZero]
        omega
      obtain ⟨last, hlast, hnum₀, hreward⟩ := ih (fun k t hk => hnum k t (by
        rw [List.getElem?_append_left (List.getElem?_eq_some_iff.mp hk).1]
        exact hk)) hne'
      refine ⟨last, ?_, hnum₀, ?_⟩
      · rw [hsame, List.getElem?_append_left hlt, hlast]
      · rw [rewardAfter, if_neg, hreward]
        rw [htx, ofNat_eq_zero_iff]
        exact hzero

/-! ### The reward of a block -/

/-- An unsigned difference and what was subtracted. -/
theorem toNat_sub_add_eq_iff {x : UInt64} {s n : ℕ} (hs : s < 2 ^ 64) (hn : n < 2 ^ 64) :
    (x - UInt64.ofNat s).toNat + s = n ↔ s ≤ n ∧ x.toNat = n := by
  have hx := x.toNat_lt
  have hsub : (UInt64.ofNat s).toNat = s := UInt64.toNat_ofNat_of_lt (by show s < 2 ^ 64; omega)
  rw [UInt64.toNat_sub, hsub]
  constructor
  · intro h
    omega
  · rintro ⟨hle, hxn⟩
    omega

/-- **The stored reward is exact** if and only if the first transaction claims
the whole subsidy and the last one with the number 0 pays the same sum. -/
theorem rewardExact_iff {env : Env} {stoptm : ℤ} {p q : Progress} {blk : Block}
    {first : Transaction} (h : p.Goes env stoptm (txs.map .tx ++ [.block blk]) q)
    (hfirst : txs.head? = some first) (hsum : first.outSum < 2 ^ 64) :
    RewardExact blk first ↔ subsidy blk.blocknumber ≤ first.outSum ∧
      ∃ last, txs[lastZero txs.length]? = some last ∧ last.outSum % 2 ^ 64 = first.outSum := by
  have hread := h.blockRead
  have hnum : ∀ k tx, txs[k]? = some tx → tx.txnumber = UInt16.ofNat k :=
    fun k tx hk => (hread.numbers k tx hk).2.2.1
  have hne : txs ≠ [] := by
    rintro rfl
    cases hfirst
  obtain ⟨before, hbefore⟩ := hread.reward
  obtain ⟨last, hlast, hzero, hreward⟩ := rewardOf_eq blk.blocknumber before hnum hne
  -- the reward that is stored is that of the last transaction with number 0
  have hstored : blk.blockReward
      = some (sumoutvalue last - UInt64.ofNat (subsidy blk.blocknumber)) := by
    rw [hbefore, ← hread.blocknumber, hreward]
  have hsubsidy : subsidy blk.blocknumber < 2 ^ 64 := by
    rw [subsidy]
    split
    · decide
    · decide
  have hexact : RewardExact blk first ↔
      subsidy blk.blocknumber ≤ first.outSum ∧ last.outSum % 2 ^ 64 = first.outSum := by
    rw [← toNat_sumoutvalue hzero, ← toNat_sub_add_eq_iff hsubsidy hsum, RewardExact, hstored]
    simp
  rw [hexact, hlast]
  simp

/-- The first block of `minedTwice` claims the subsidy and no fees. -/
theorem rewardExact_of_minedTwice :
    ∃ (p : Progress) (txs : List Transaction) (blk : Block) (q : Progress) (first : Transaction),
      p.Goes minedTwice 3000 (txs.map .tx ++ [.block blk]) q ∧ txs.head? = some first ∧
      RewardExact blk first := by
  have hopen : ((Checkpoint.start ⟨0, 0, -1, -1, 0⟩).enter minedTwice ⟨0, 0, -1, -1, 0⟩ 0).Open := by
    decide +kernel
  have hround : ∃ r, blockBody Trace.record minedTwice 3000 []
      ((Checkpoint.start ⟨0, 0, -1, -1, 0⟩).enter minedTwice ⟨0, 0, -1, -1, 0⟩ 0) = .ok r ∧
      (r.2.testflag = false ∧ (parsed r.1).map Transaction.outSum = [5000000000] ∧
        (processedBlocks r.1).map Block.blocknumber = [0]) := by
    decide +kernel
  obtain ⟨⟨evs, q⟩, hbody, hflag, hsums, hnums⟩ := hround
  obtain ⟨es, hgoes, rfl⟩ := goes_of_record hopen (not_late_of_blockBody hbody hflag) hbody
  obtain ⟨txs, blk, rfl, -⟩ := hgoes.exists_block
  dsimp only at hsums hnums
  rw [parsed_block] at hsums
  rw [processedBlocks_block, List.map_singleton, List.cons.injEq] at hnums
  obtain ⟨tx, rfl, hsum⟩ := List.map_eq_singleton_iff.mp hsums
  refine ⟨_, [tx], blk, q, tx, hgoes, rfl, ?_⟩
  refine (rewardExact_iff hgoes rfl (by omega)).mpr ⟨?_, tx, by simp [lastZero], by omega⟩
  rw [hsum, hnums.1]
  decide

/-- A block whose coinbase transaction pays one Satoshi. -/
def underpaid : Env where
  blkfile i := if i = 0 then some (leBytes 4 0xd9b4bef9 ++ leBytes 4 168 ++ List.replicate 68 0
      ++ leBytes 4 1000 ++ List.replicate 8 0
      ++ blockPayload [{ rawCoinbase with outs := [⟨1, (rawCoinbase.outs.flatMap RawTxout.script)⟩] }])
    else none
  heap _ _ := 0
  outside _ _ := none
  blockReward _ := none

/-- The stored reward is about `2^64`. -/
theorem reward_wraps :
    ∃ r o, trace underpaid 3000 ⟨0, 0, -1, -1, 0⟩ = .ok r ∧ (parsed r.1).map Transaction.outSum = [1] ∧
      (processedBlocks r.1).map Block.blockReward = [some 18446744068709551617] ∧
      (∀ tx ∈ parsed r.1, ∀ blk ∈ processedBlocks r.1, ¬ RewardExact blk tx) ∧
      unzipBlocks underpaid 3000 (.fresh .null) startText = .ok o ∧
      o.world.conn.db.blkinfo.map BlkRow.reward = [18446744068709551617] := by
  have htrace : ∃ r, trace underpaid 3000 ⟨0, 0, -1, -1, 0⟩ = .ok r ∧
      (parsed r.1).map Transaction.outSum = [1] ∧
      (processedBlocks r.1).map Block.blockReward = [some 18446744068709551617] := by
    decide +kernel
  have hrun : ∃ o, unzipBlocks underpaid 3000 (.fresh .null) startText = .ok o ∧
      o.world.conn.db.blkinfo.map BlkRow.reward = [18446744068709551617] := by
    decide +kernel
  obtain ⟨r, hr, hsums, hrewards⟩ := htrace
  obtain ⟨o, ho, hstored⟩ := hrun
  refine ⟨r, o, hr, hsums, hrewards, ?_, ho, hstored⟩
  rintro tx htx blk hblk ⟨reward, hreward, hexact⟩
  have hsum : tx.outSum = 1 := by
    have := List.mem_map_of_mem (f := Transaction.outSum) htx
    rw [hsums] at this
    exact List.mem_singleton.mp this
  have hbig : some reward = some 18446744068709551617 := by
    have := List.mem_map_of_mem (f := Block.blockReward) hblk
    rw [hrewards] at this
    exact hreward.symm.trans (List.mem_singleton.mp this)
  rw [Option.some.inj hbig, hsum] at hexact
  have htoNat : (18446744068709551617 : UInt64).toNat = 18446744068709551617 := by decide
  omega

end BitcoinAnalysis
