/-
Agreement of the two stores.

`storedOutputs` reads every output out of LevelDB with the program's own reader.
Along a run in which no output is spent twice, `addressinfo` has a row for an
address exactly when a stored output pays it, and the balance of the row is the
sum of the stored outputs that pay it and that no input has named
(`addressinfo_agrees`).
-/
import BitcoinAnalysis.Ledger

open LittleEndian Postings Run

namespace BitcoinAnalysis

/-- `out_count` of a record. -/
def outCounter (value : List UInt8) : ℕ :=
  leNat ((value.drop (20 + 28 * leNat ((value.drop 16).take 4))).take 4)

/-- The outputs in LevelDB, each under its hash and index. -/
def storedOutputs (txDb : KeyedTable Hash (List UInt8)) : List ((Hash × ℕ) × Bytes 28) :=
  txDb.entries.flatMap fun e => (List.range (outCounter e.2)).filterMap fun k =>
    (readOutput txDb e.1 (UInt32.ofNat k)).toOption.map fun p => ((e.1.reverse, k), p)

/-- The outputs an input names, over a list of transactions. -/
def outpoints (txs : List Transaction) : List (Hash × ℕ) :=
  (txs.flatMap Transaction.spends).map fun i => (i.hash, i.index.toNat)

/-- The outputs of a transaction under its hash and their index. -/
def Transaction.indexedOuts (tx : Transaction) : List ((Hash × ℕ) × Txout) :=
  tx.outs.zipIdx.map fun p => ((tx.curhash, p.2), p.1)

/-! ### What LevelDB holds -/

theorem outCounter_record {tx : Transaction} {pres : List (Bytes 28)}
    (hlen : tx.ins.length = pres.length) : outCounter (tx.record pres) = tx.outs.length := by
  have hin : ((tx.record pres).drop 16).take 4 = leBytes 4 tx.inCount.toNat :=
    take_drop_append _ _ (record_inCount tx pres) (length_recordStamp tx) (length_leBytes 4 _)
  have hcount : leNat (leBytes 4 tx.inCount.toNat) = pres.length := by
    rw [leNat_leBytes_of_lt tx.inCount.toNat_lt, ← tx.ins_len, hlen]
  have hout : ((tx.record pres).drop (20 + 28 * pres.length)).take 4
      = leBytes 4 tx.outCount.toNat := by
    refine take_drop_append (tx.recordHead ++ pres.flatMap Subtype.val)
      (tx.outs.flatMap Txout.bytes) ?_ ?_ (length_leBytes 4 _)
    · simp only [Transaction.record, List.append_assoc]
    · rw [List.length_append, length_recordHead, length_flatMap_val]
  rw [outCounter, hin, hcount, hout, leNat_leBytes_of_lt tx.outCount.toNat_lt, ← tx.outs_len]

theorem readOutput_stored {txs : List Transaction} {txDb : KeyedTable Hash (List UInt8)}
    (hc : Chain txs) (h : Stored txs txDb) {tx : Transaction} (htx : tx ∈ txs) {k : ℕ} {o : Txout}
    (ho : tx.outs[k]? = some o) :
    readOutput txDb tx.curhash.reverse (UInt32.ofNat k) = .ok o.preout := by
  have hkey : tx.curhash.reverse ≠ coinbaseB := fun hz =>
    hc.nonzero tx htx (reverse_eq_coinbaseB.mp hz)
  obtain ⟨hk, rfl⟩ := List.getElem?_eq_some_iff.mp ho
  have hlt : k < 2 ^ 32 := by
    have hcount := tx.outCount.toNat_lt
    have hlen := tx.outs_len
    omega
  have hidx : (UInt32.ofNat k).toNat = k := by
    rw [UInt32.toNat_ofNat', Nat.mod_eq_of_lt hlt]
  have hk' : (UInt32.ofNat k).toNat < tx.outs.length := by rwa [hidx]
  rw [readOutput_record hkey (h.find? htx) (by rw [List.length_map]) (hc.short tx htx) hk']
  simp only [hidx]

/-- LevelDB holds the outputs of the run, each under its hash and index. -/
theorem storedOutputs_eq {txs : List Transaction} {txDb : KeyedTable Hash (List UInt8)}
    (hc : Chain txs) (h : Stored txs txDb) :
    storedOutputs txDb
      = (txs.flatMap Transaction.indexedOuts).map fun o => (o.1, o.2.preout) := by
  rw [storedOutputs, h, List.flatMap_map, List.map_flatMap]
  refine List.flatMap_congr fun tx htx => ?_
  rw [entryOf, outCounter_record (by rw [List.length_map]), List.range_eq_range',
    ← List.zipIdx_map_snd 0 tx.outs, List.filterMap_map, Transaction.indexedOuts, List.map_map]
  refine (List.filterMap_congr fun p hp => ?_).trans (congrFun List.filterMap_eq_map _)
  have hget : tx.outs[p.2]? = some p.1 := List.mem_zipIdx_iff_getElem?.mp hp
  rw [Function.comp_apply, readOutput_stored hc h htx hget, Bytes.reverse_reverse]
  rfl

/-! ### Unspent outputs -/

theorem map_fst_indexedOuts (tx : Transaction) :
    tx.indexedOuts.map Prod.fst = (List.range tx.outs.length).map fun k => (tx.curhash, k) := by
  rw [Transaction.indexedOuts, List.map_map, List.range_eq_range', ← List.zipIdx_map_snd 0 tx.outs,
    List.map_map]
  rfl

theorem map_snd_indexedOuts (tx : Transaction) : tx.indexedOuts.map Prod.snd = tx.outs := by
  rw [Transaction.indexedOuts, List.map_map]
  exact List.zipIdx_map_fst 0 tx.outs

theorem flatMap_outs (txs : List Transaction) :
    txs.flatMap Transaction.outs = (txs.flatMap Transaction.indexedOuts).map Prod.snd := by
  rw [List.map_flatMap]
  exact List.flatMap_congr fun t _ => (map_snd_indexedOuts t).symm

theorem nodup_keys_indexedOuts {txs : List Transaction}
    (h : (txs.map Transaction.curhash).Nodup) :
    ((txs.flatMap Transaction.indexedOuts).map Prod.fst).Nodup := by
  rw [List.map_flatMap, List.nodup_flatMap]
  refine ⟨fun tx _ => ?_, ?_⟩
  · rw [map_fst_indexedOuts]
    exact List.nodup_range.map fun k l hkl => (Prod.mk.injEq .. ▸ hkl).2
  · refine (List.pairwise_map.mp h).imp fun hne => ?_
    rw [Function.onFun, List.disjoint_left]
    intro key hkey hkey'
    rw [map_fst_indexedOuts] at hkey hkey'
    obtain ⟨k, -, rfl⟩ := List.mem_map.mp hkey
    obtain ⟨l, -, hl⟩ := List.mem_map.mp hkey'
    exact hne (congrArg Prod.fst hl).symm

theorem mem_indexedOuts {txs : List Transaction} (hnd : (txs.map Transaction.curhash).Nodup)
    {o : (Hash × ℕ) × Txout} (ho : o ∈ txs.flatMap Transaction.indexedOuts) :
    outputAt txs o.1.1 o.1.2 = some o.2 := by
  obtain ⟨t, ht, ho⟩ := List.mem_flatMap.mp ho
  obtain ⟨p, hp, rfl⟩ := List.mem_map.mp ho
  rw [outputAt_eq hnd ht]
  exact List.mem_zipIdx_iff_getElem?.mp hp

theorem mem_outpoints {txs : List Transaction} (hc : Chain txs) {n : Hash × ℕ}
    (hn : n ∈ outpoints txs) : n ∈ (txs.flatMap Transaction.indexedOuts).map Prod.fst := by
  obtain ⟨i, hi, rfl⟩ := List.mem_map.mp hn
  obtain ⟨u, hu, hi⟩ := List.mem_flatMap.mp hi
  obtain ⟨hi, hz⟩ := List.mem_filter.mp hi
  have hnames := (hc.linked_all u hu i hi).resolve_left (by simpa using hz)
  obtain ⟨t, ht, hh, hidx⟩ := hnames
  rw [List.map_flatMap, List.mem_flatMap]
  refine ⟨t, ht, ?_⟩
  rw [map_fst_indexedOuts, hh]
  exact List.mem_map.mpr ⟨i.index.toNat, List.mem_range.mpr hidx, rfl⟩

/-- What an output adds to the balance of an address. -/
def Txout.toward (a : Address) (o : Txout) : ℕ := if o.address = a then o.val.toNat else 0

theorem amount_creditsOf (txs : List Transaction) (a : Address) :
    amount (creditsOf txs) a
      = ((txs.flatMap Transaction.indexedOuts).map fun o => o.2.toward a).sum := by
  rw [amount_eq_sum_ite, creditsOf, List.map_map, flatMap_outs, List.map_map]
  rfl

theorem amount_debitsOf {txs : List Transaction} (hc : Chain txs) (a : Address) :
    amount (debitsOf txs) a
      = ((outpoints txs).map fun n => ((outputAt txs n.1 n.2).map (Txout.toward a)).getD 0).sum := by
  rw [amount_eq_sum_ite, debitsOf, outpoints, List.map_map, List.map_map]
  congr 1
  refine List.map_congr_left fun i hi => ?_
  obtain ⟨u, hu, hi⟩ := List.mem_flatMap.mp hi
  obtain ⟨hi, hz⟩ := List.mem_filter.mp hi
  have hz' : i.hash ≠ coinbaseB := by simpa using hz
  obtain ⟨t, ht, hh, hidx⟩ := (hc.linked_all u hu i hi).resolve_left hz'
  have hat : outputAt txs i.hash i.index.toNat = some t.outs[i.index.toNat] := by
    rw [← hh, outputAt_eq hc.hashes ht, List.getElem?_eq_getElem hidx]
  have hpre : inputPreout txs i = t.outs[i.index.toNat].preout := by
    rw [inputPreout, if_neg hz', hat]
    rfl
  simp only [Function.comp_apply, inputPosting, inputAddress, inputValue, hpre,
    preaddress_preout, invalue_preout, hat, Option.map_some, Option.getD_some, Txout.toward]

/-- The credits of an address are its debits and its unspent outputs. -/
theorem amount_creditsOf_eq {txs : List Transaction} (hc : Chain txs)
    (hnd : (outpoints txs).Nodup) (a : Address) :
    amount (creditsOf txs) a = amount (debitsOf txs) a
      + (((txs.flatMap Transaction.indexedOuts).filter fun o => o.1 ∉ outpoints txs).map
          fun o => o.2.toward a).sum := by
  rw [amount_creditsOf, amount_debitsOf hc]
  refine sum_eq_named_add_unnamed (nodup_keys_indexedOuts hc.hashes) hnd
    (fun n hn => mem_outpoints hc hn) fun o ho => ?_
  rw [mem_indexedOuts hc.hashes ho]
  rfl

/-- The unspent outputs of an address, read from LevelDB. -/
theorem sum_unspent {txs : List Transaction} {txDb : KeyedTable Hash (List UInt8)}
    (hc : Chain txs) (h : Stored txs txDb) (a : Address) :
    (((storedOutputs txDb).filter fun o => preaddress o.2 = a ∧ o.1 ∉ outpoints txs).map
        fun o => (invalue o.2).toNat).sum
      = (((txs.flatMap Transaction.indexedOuts).filter fun o => o.1 ∉ outpoints txs).map
          fun o => o.2.toward a).sum := by
  have hsplit : ((storedOutputs txDb).filter fun o => preaddress o.2 = a ∧ o.1 ∉ outpoints txs)
      = ((storedOutputs txDb).filter fun o => o.1 ∉ outpoints txs).filter
          fun o => preaddress o.2 = a := by
    rw [List.filter_filter]
    exact List.filter_congr fun o _ => by rw [Bool.decide_and]
  rw [hsplit, ← amount_map (fun o : (Hash × ℕ) × Bytes 28 => (preaddress o.2, (invalue o.2).toNat)),
    amount_eq_sum_ite, storedOutputs_eq hc h, List.filter_map, List.map_map, List.map_map]
  congr 1
  refine List.map_congr_left fun o _ => ?_
  simp only [Function.comp_apply, preaddress_preout, invalue_preout, Txout.toward]

/-- **Ledger agreement.**  After every call `addressinfo` has a row for an
address exactly when an output in LevelDB pays it, and the balance of the row
is the sum of the outputs in LevelDB that pay it and that no input has named,
hence never negative.  The run returns if its transactions are servable. -/
theorem addressinfo_agrees {w₀ : World} {txs : List Transaction} (h₀ : EmptyStores w₀)
    (hc : Chain txs) (hs : NoSentinel txs) (hnd : (outpoints txs).Nodup) :
    (∀ pre w a, pre <+: txs → run transactionProcess w₀ pre = .ok w →
      ((∃ row, w.conn.db.addressinfo.find? a = some row) ↔
        ∃ o ∈ storedOutputs w.txDb, preaddress o.2 = a) ∧
      ∀ row, w.conn.db.addressinfo.find? a = some row →
        row.bal = (((storedOutputs w.txDb).filter fun o =>
          preaddress o.2 = a ∧ o.1 ∉ outpoints pre).map fun o => (invalue o.2).toNat).sum ∧
        0 ≤ row.bal) ∧
    ((∀ tx ∈ txs, tx.Servable) → ∃ w, run transactionProcess w₀ txs = .ok w) := by
  refine ⟨fun pre w a hpre hw => ?_, run_isOk h₀ hc⟩
  have hc' := hc.of_initial hpre
  have hl := ledger_run h₀ hc' (hs.of_initial hpre) hw
  constructor
  · rw [← KeyedTable.mem_keys, hl.processed.rows, storedOutputs_eq hc' hl.processed.stored,
      flatMap_outs]
    simp only [List.mem_map, exists_exists_and_eq_and, preaddress_preout]
  · intro row hrow
    have hset := hl.settled hrow
    have hnd' : (outpoints pre).Nodup := by
      obtain ⟨more, rfl⟩ := hpre
      rw [outpoints, List.flatMap_append, List.map_append] at hnd
      exact hnd.of_append_left
    -- what was paid is what was spent and what is unspent
    have hbal : row.bal = (((storedOutputs w.txDb).filter fun o =>
        preaddress o.2 = a ∧ o.1 ∉ outpoints pre).map fun o => (invalue o.2).toNat).sum := by
      have hcredits := amount_creditsOf_eq hc' hnd' a
      have houtval : row.outval = amount (creditsOf pre) a := hset.outval
      have hinval : row.inval = amount (debitsOf pre) a := hset.inval
      have hdiff : row.bal = row.outval - row.inval := hset.bal
      rw [sum_unspent hc' hl.processed.stored, hdiff, houtval, hinval, hcredits]
      omega
    refine ⟨hbal, ?_⟩
    rw [hbal]
    exact Int.natCast_nonneg _

theorem addressinfo_agrees_of_spending :
    ∃ w row, run transactionProcess (World.fresh .null) [mined, spending] = .ok w ∧
      w.conn.db.addressinfo.find? (.replicate 20 7) = some row ∧
      row.bal = (((storedOutputs w.txDb).filter fun o => preaddress o.2 = .replicate 20 7 ∧
        o.1 ∉ [(.replicate 32 1, 0), (.replicate 32 1, 1)]).map fun o => (invalue o.2).toNat).sum := by
  have hc : Chain [mined, spending] := by decide +kernel
  obtain ⟨hagree, hreturn⟩ := addressinfo_agrees (World.emptyStores_fresh .null) hc
    (by decide +kernel) (by decide +kernel)
  obtain ⟨w, hw⟩ := hreturn (by decide +kernel)
  have hmem : (.replicate 20 7 : Address) ∈ w.conn.db.addressinfo.keys := by
    rw [(processed_run (World.emptyStores_fresh .null) hc hw).rows]
    decide +kernel
  obtain ⟨row, hrow⟩ := KeyedTable.mem_keys.mp hmem
  exact ⟨w, row, hw, hrow, ((hagree _ w _ List.prefix_rfl hw).2 row hrow).1⟩

end BitcoinAnalysis
