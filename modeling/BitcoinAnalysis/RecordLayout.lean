/-
Decoding undoes encoding for the records in LevelDB.

The writer advances one pointer over a variable number of inputs; the reader
computes `20 + in_count*28 + 4 + index*28`.  `readOutput_record` shows that on
the record of a transaction the two agree, and `readOutput_of_stored` that they
still do after any number of later calls with other hashes.
-/
import BitcoinAnalysis.CallSpec
import BitcoinAnalysis.EntitySpec

open LittleEndian Run

namespace BitcoinAnalysis

/-- The 28 bytes of an output, with their length. -/
def Txout.preout (o : Txout) : Bytes 28 := ⟨o.bytes, length_bytes o⟩

@[simp] theorem preaddress_preout (o : Txout) : preaddress o.preout = o.address := by
  apply Subtype.ext
  show (o.address.1 ++ leBytes 8 o.val.toNat).take 20 = o.address.1
  rw [List.take_append_of_le_length o.address.2.ge, List.take_of_length_le o.address.2.le]

@[simp] theorem invalue_preout (o : Txout) : invalue o.preout = o.val := by
  have hdrop : (o.address.1 ++ leBytes 8 o.val.toNat).drop 20 = leBytes 8 o.val.toNat := by
    have h := o.address.2
    rw [List.drop_append_of_le_length h.ge, List.drop_of_length_le h.le, List.nil_append]
  have hlt : o.val.toNat < 256 ^ 8 := o.val.toNat_lt
  show UInt64.ofNat (leNat ((o.address.1 ++ leBytes 8 o.val.toNat).drop 20)) = o.val
  rw [hdrop, leNat_leBytes_of_lt hlt, UInt64.ofNat_toNat]

theorem take_drop_append {buf mid : List UInt8} {off n : ℕ} (hd tl : List UInt8)
    (hbuf : buf = hd ++ (mid ++ tl)) (hoff : hd.length = off) (hn : mid.length = n) :
    (buf.drop off).take n = mid := by
  subst hbuf hoff hn
  rw [List.drop_left, List.take_left]

theorem memcpy_append {buf mid : List UInt8} {off n : ℕ} (hd tl : List UInt8)
    (hbuf : buf = hd ++ (mid ++ tl)) (hoff : hd.length = off) (hn : mid.length = n) :
    memcpy buf off n = .ok ⟨mid, hn⟩ := by
  have hslice := take_drop_append hd tl hbuf hoff hn
  have hlen : off + n ≤ buf.length := by
    rw [hbuf, List.length_append, List.length_append]
    omega
  rw [memcpy, dif_pos hlen]
  congr 1
  exact Subtype.ext hslice

/-- The fields of the head in front of `in_count`. -/
def Transaction.recordStamp (tx : Transaction) : List UInt8 :=
  leBytes 4 tx.blocknumber.toNat ++ leBytes 4 tx.txtime.toNat ++ leBytes 4 tx.txcounter.toNat
    ++ leBytes 4 tx.length.toNat

theorem record_inCount (tx : Transaction) (pres : List (Bytes 28)) :
    tx.record pres = tx.recordStamp ++ (leBytes 4 tx.inCount.toNat ++ (pres.flatMap Subtype.val
      ++ (leBytes 4 tx.outCount.toNat ++ tx.outs.flatMap Txout.bytes))) := by
  simp only [Transaction.record, Transaction.recordHead, Transaction.recordStamp,
    List.append_assoc]

theorem length_recordStamp (tx : Transaction) : tx.recordStamp.length = 16 := by
  simp [Transaction.recordStamp]

/-- An output stands behind the outputs before it. -/
theorem flatMap_bytes_split {outs : List Txout} {i : ℕ} (hi : i < outs.length) :
    outs.flatMap Txout.bytes = (outs.take i).flatMap Txout.bytes
      ++ (outs[i].bytes ++ (outs.drop (i + 1)).flatMap Txout.bytes) := by
  conv_lhs => rw [← List.take_append_drop i outs, List.drop_eq_getElem_cons hi]
  rw [List.flatMap_append, List.flatMap_cons]

/-- The reader's offset, without wrap-around. -/
theorem offset_eq {tx : Transaction} {index : UInt32} (hfit : tx.recordLength < 2 ^ 31)
    (hi : index.toNat < tx.outs.length) :
    20 + (tx.inCount * 28).toNat + 4 + (index * 28).toNat
      = 24 + 28 * tx.ins.length + 28 * index.toNat := by
  rw [Transaction.recordLength] at hfit
  have hin := tx.ins_len
  simp only [UInt32.toNat_mul, UInt32.reduceToNat]
  omega

/-- **Decode undoes encode**, on the record of one transaction. -/
theorem readOutput_record {txDb : KeyedTable Hash (List UInt8)} {key : Hash} {tx : Transaction}
    {pres : List (Bytes 28)} {index : UInt32} (hkey : key ≠ coinbaseB)
    (hfind : txDb.find? key = some (tx.record pres)) (hlen : tx.ins.length = pres.length)
    (hfit : tx.recordLength < 2 ^ 31) (hi : index.toNat < tx.outs.length) :
    readOutput txDb key index = .ok tx.outs[index.toNat].preout := by
  have hrec := length_record hlen
  have htake : (tx.record pres).take (UInt32.ofNat (tx.record pres).length).toNat
      = tx.record pres := by
    rw [hrec, UInt32.toNat_ofNat', Nat.mod_eq_of_lt (by omega), ← hrec, List.take_length]
  -- bytes 16 to 19 are `in_count`
  have hin : memcpy (tx.record pres) 16 4
      = .ok ⟨leBytes 4 tx.inCount.toNat, length_leBytes 4 _⟩ :=
    memcpy_append _ _ (record_inCount tx pres) (length_recordStamp tx) (length_leBytes 4 _)
  have hcount : UInt32.ofNat (leNat (leBytes 4 tx.inCount.toNat)) = tx.inCount := by
    have hlt : tx.inCount.toNat < 256 ^ 4 := tx.inCount.toNat_lt
    rw [leNat_leBytes_of_lt hlt, UInt32.ofNat_toNat]
  rw [readOutput, if_neg hkey]
  simp only [hfind, Option.getD_some, htake, hin, ok_bind, hcount, offset_eq hfit hi]
  refine memcpy_append (tx.recordHead ++ pres.flatMap Subtype.val
    ++ leBytes 4 tx.outCount.toNat ++ (tx.outs.take index.toNat).flatMap Txout.bytes)
    ((tx.outs.drop (index.toNat + 1)).flatMap Txout.bytes) ?_ ?_ (length_bytes _)
  · rw [Transaction.record, flatMap_bytes_split hi]
    simp only [List.append_assoc]
  · simp only [List.length_append, length_recordHead, length_flatMap_val, length_leBytes,
      length_flatMap_bytes, List.length_take, hlen]
    omega

/-! ### What a call does to LevelDB -/

theorem inputEntityMysql_txDb {w w' : World} {as : List Address}
    (h : inputEntityMysql w as = .ok w') : w'.txDb = w.txDb := by
  rcases inputEntityMysql_eq_ok.mp h with ⟨-, rfl⟩ | ⟨-, _, _, _, -, -, rfl⟩
  · rfl
  · rfl

theorem outputEntityStep_txDb {w w' : World} {a : Address} (h : outputEntityStep w a = .ok w') :
    w'.txDb = w.txDb := by
  obtain ⟨row, -, rfl⟩ := outputEntityStep_eq_ok.mp h
  split
  · rfl
  · rfl

theorem outputEntityMysql_txDb {w w' : World} {as : List Address}
    (h : outputEntityMysql w as = .ok w') : w'.txDb = w.txDb :=
  run_invariant (V := fun _ => True) (P := fun _ u => u.txDb = w.txDb) (fun _ _ _ => trivial) rfl
    (fun _ _ _ _ _ hu hstep => (outputEntityStep_txDb hstep).trans hu) trivial h

/-- A call puts one record, under its own key. -/
theorem transactionProcess_txDb {w w' : World} {tx : Transaction}
    (h : transactionProcess w tx = .ok w') :
    tx.recordLength < 2 ^ 31 ∧ ∃ pres, tx.ins.mapM (resolve w.txDb) = .ok pres ∧
      w'.txDb = w.txDb.upsert tx.curhash.reverse (tx.record pres) fun _ => tx.record pres := by
  obtain ⟨hfit, pres, wi, wo, hpres, hwi, hwo, rfl⟩ := transactionProcess_eq_ok.mp h
  refine ⟨hfit, pres, hpres, ?_⟩
  show wo.txDb.upsert _ _ _ = _
  rw [outputEntityMysql_txDb hwo, afterCredits, inputEntityMysql_txDb hwi, afterDebits]

theorem transactionProcess_find?_ne {w w' : World} {tx : Transaction} {key : Hash}
    (h : transactionProcess w tx = .ok w') (hne : key ≠ tx.curhash.reverse) :
    w'.txDb.find? key = w.txDb.find? key := by
  obtain ⟨-, pres, -, hdb⟩ := transactionProcess_txDb h
  rw [hdb, KeyedTable.find?_upsert_ne _ hne]

/-- Later calls with other hashes leave a record alone. -/
theorem run_find?_of_ne {w w' : World} {txs : List Transaction} {key : Hash}
    (hne : ∀ t ∈ txs, key ≠ t.curhash.reverse) (h : run transactionProcess w txs = .ok w') :
    w'.txDb.find? key = w.txDb.find? key :=
  run_invariant (V := fun ts => ∀ t ∈ ts, key ≠ Bytes.reverse (Transaction.curhash t))
    (P := fun _ u => u.txDb.find? key = w.txDb.find? key)
    (fun _ t hts u hu => hts u (List.mem_append_left [t] hu)) rfl
    (fun _ _ t _ hts hu hstep =>
      (transactionProcess_find?_ne hstep (hts t (by simp))).trans hu) hne h

/-- **Decode undoes encode for transaction records.**  Once a call has stored a
transaction, and after any later calls with other hashes, an input that names
it by its hash reads the address and value of the output it indexes. -/
theorem readOutput_of_stored {w w₁ w₂ : World} {tx : Transaction} {later : List Transaction}
    {txin : Txin} (hcur : tx.curhash ≠ coinbaseB) (hcall : transactionProcess w tx = .ok w₁)
    (hother : ∀ t ∈ later, t.curhash ≠ tx.curhash)
    (hlater : run transactionProcess w₁ later = .ok w₂) (hname : txin.hash = tx.curhash)
    (hi : txin.index.toNat < tx.outs.length) :
    ∃ preout, readOutput w₂.txDb txin.hash.reverse txin.index = .ok preout ∧
      preaddress preout = tx.outs[txin.index.toNat].address ∧
      invalue preout = tx.outs[txin.index.toNat].val ∧
      preout.1 = tx.outs[txin.index.toNat].address.1
        ++ leBytes 8 tx.outs[txin.index.toNat].val.toNat := by
  obtain ⟨hfit, pres, hpres, hdb⟩ := transactionProcess_txDb hcall
  have hkey : tx.curhash.reverse ≠ coinbaseB := by
    intro h
    have hrev : coinbaseB.reverse = coinbaseB := by decide
    exact hcur (Bytes.reverse_inj.mp (h.trans hrev.symm))
  have hfind : w₂.txDb.find? tx.curhash.reverse = some (tx.record pres) := by
    rw [run_find?_of_ne (fun t ht h => hother t ht (Bytes.reverse_inj.mp h).symm) hlater, hdb,
      KeyedTable.find?_upsert_self]
    cases w.txDb.find? tx.curhash.reverse <;> rfl
  have hlen := (mapM_eq_ok.mp hpres).length_eq
  rw [hname]
  exact ⟨_, readOutput_record hkey hfind hlen hfit hi, preaddress_preout _, invalue_preout _, rfl⟩

theorem readOutput_of_stored_mined :
    ∃ w preout, run transactionProcess (World.fresh .null) [mined, spending] = .ok w ∧
      readOutput w.txDb mined.curhash.reverse 1 = .ok preout ∧
      preaddress preout = .replicate 20 8 ∧ invalue preout = 60 := by
  obtain ⟨w₂, hw₂⟩ := exists_ok
    (show (run transactionProcess (World.fresh .null) [mined, spending]).toOption.isSome by
      decide +kernel)
  obtain ⟨w₁, hcall, hlater⟩ := bind_eq_ok.mp ((run_cons _ _ _).symm.trans hw₂)
  have hname : (Txin.plain mined.curhash 1).hash = mined.curhash := rfl
  obtain ⟨preout, hread, haddr, hval, -⟩ :=
    readOutput_of_stored (by decide) hcall (by decide) hlater hname (by decide)
  exact ⟨w₂, preout, hw₂, hread, haddr, hval⟩

end BitcoinAnalysis
