/-
Runs of calls in which every input resolves.

`Chain txs` is what the callers of `TransactionProcess` are taken to promise
about the transactions of a run: distinct nonzero hashes, records below `2^31`
bytes, and inputs that are coinbase inputs or name an output of an earlier
call.  Along such a run LevelDB holds exactly the records of the calls so far
(`Stored`), the bytes an input is resolved to are those of the output it names
(`resolve_of_stored`), and `addressinfo` has a row for exactly the addresses
paid so far (`Processed`).  The run returns if every transaction is a coinbase
transaction with one input or spends at least one output and no coinbase input
(`run_isOk`).
-/
import BitcoinAnalysis.RecordLayout
import BitcoinAnalysis.Rows

open LittleEndian Run

namespace BitcoinAnalysis

/-- The stores are empty and nothing has been sent yet. -/
structure EmptyStores (w : World) : Prop where
  journal : w.conn.journal = []
  start : ∃ d, w.conn.start = Db.empty d
  txDb : w.txDb = .empty

/-- An input names an output of one of the transactions. -/
def NamesOutput (txs : List Transaction) (i : Txin) : Prop :=
  ∃ t ∈ txs, t.curhash = i.hash ∧ i.index.toNat < t.outs.length

structure Chain (txs : List Transaction) : Prop where
  hashes : (txs.map Transaction.curhash).Nodup
  nonzero : ∀ tx ∈ txs, tx.curhash ≠ coinbaseB
  short : ∀ tx ∈ txs, tx.recordLength < 2 ^ 31
  linked : AtEvery (fun pre tx => ∀ i ∈ tx.ins, i.hash = coinbaseB ∨ NamesOutput pre i) txs

instance (txs : List Transaction) (i : Txin) : Decidable (NamesOutput txs i) :=
  inferInstanceAs (Decidable (∃ t ∈ txs, t.curhash = i.hash ∧ i.index.toNat < t.outs.length))

instance (txs : List Transaction) : Decidable (Chain txs) :=
  decidable_of_iff
    ((txs.map Transaction.curhash).Nodup ∧ (∀ tx ∈ txs, tx.curhash ≠ coinbaseB) ∧
      (∀ tx ∈ txs, tx.recordLength < 2 ^ 31) ∧
      AtEvery (fun pre tx => ∀ i ∈ tx.ins, i.hash = coinbaseB ∨ NamesOutput pre i) txs)
    ⟨fun ⟨h₁, h₂, h₃, h₄⟩ => ⟨h₁, h₂, h₃, h₄⟩, fun ⟨h₁, h₂, h₃, h₄⟩ => ⟨h₁, h₂, h₃, h₄⟩⟩

/-- No output pays the made-up address of the coinbase. -/
def NoSentinel (txs : List Transaction) : Prop :=
  ∀ tx ∈ txs, ∀ o ∈ tx.outs, o.address ≠ coinbaseH

instance (txs : List Transaction) : Decidable (NoSentinel txs) :=
  inferInstanceAs (Decidable (∀ tx ∈ txs, ∀ o ∈ tx.outs, o.address ≠ coinbaseH))

/-- The output with a hash and an index. -/
def outputAt (txs : List Transaction) (hash : Hash) (index : ℕ) : Option Txout :=
  (txs.find? fun t => t.curhash = hash).bind fun t => t.outs[index]?

/-- What `ReadOutput` makes of a coinbase input. -/
def coinbasePreout : Bytes 28 :=
  ⟨List.replicate 20 48 ++ leBytes 8 0, length_coinbasePreout⟩

/-- The bytes an input resolves to. -/
def inputPreout (txs : List Transaction) (i : Txin) : Bytes 28 :=
  if i.hash = coinbaseB then coinbasePreout
  else ((outputAt txs i.hash i.index.toNat).map Txout.preout).getD coinbasePreout

def inputAddress (txs : List Transaction) (i : Txin) : Address := preaddress (inputPreout txs i)

def inputValue (txs : List Transaction) (i : Txin) : UInt64 := invalue (inputPreout txs i)

/-! ### The coinbase address -/

theorem digitChar_inj {m n : ℕ} (hm : m < 16) (hn : n < 16)
    (h : Nat.digitChar m = Nat.digitChar n) : m = n := by
  have key : ∀ i j : Fin 16, Nat.digitChar i = Nat.digitChar j → i = j := by decide
  exact congrArg Fin.val (key ⟨m, hm⟩ ⟨n, hn⟩ h)

theorem hex02_inj {b c : UInt8} (h : hex02 b = hex02 c) : b = c := by
  have hb : b.toNat < 256 := b.toNat_lt
  have hc : c.toNat < 256 := c.toNat_lt
  rw [hex02, hex02, List.cons.injEq, List.cons.injEq] at h
  have hdiv := digitChar_inj (by omega) (by omega) h.1
  have hmod := digitChar_inj (by omega) (by omega) h.2.1
  exact UInt8.toNat.inj (by omega)

theorem flatMap_hex02_inj {l m : List UInt8} (h : l.flatMap hex02 = m.flatMap hex02) : l = m := by
  induction l generalizing m with
  | nil =>
    cases m with
    | nil => rfl
    | cons c m => simp [hex02] at h
  | cons b l ih =>
    cases m with
    | nil => simp [hex02] at h
    | cons c m =>
      rw [List.flatMap_cons, List.flatMap_cons] at h
      obtain ⟨hbc, hlm⟩ := List.append_inj h rfl
      rw [hex02_inj hbc, ih hlm]

/-- The text comparison finds the same address as the byte comparison. -/
theorem addressHex_eq_coinbaseS {a : Address} : addressHex a = coinbaseS ↔ a = coinbaseH := by
  have hs : addressHex coinbaseH = coinbaseS := by decide
  constructor
  · intro h
    exact Subtype.ext (flatMap_hex02_inj (h.trans hs.symm))
  · rintro rfl
    exact hs

@[simp] theorem preaddress_coinbasePreout : preaddress coinbasePreout = coinbaseH := by decide

@[simp] theorem invalue_coinbasePreout : invalue coinbasePreout = 0 := by decide

/-! ### Resolution of inputs -/

theorem coinbaseB_reverse : coinbaseB.reverse = coinbaseB := by decide

theorem reverse_eq_coinbaseB {h : Hash} : h.reverse = coinbaseB ↔ h = coinbaseB := by
  rw [← Bytes.reverse_inj (b := h) (c := coinbaseB), coinbaseB_reverse]

theorem inputPreout_coinbase {txs : List Transaction} {i : Txin} (h : i.hash = coinbaseB) :
    inputPreout txs i = coinbasePreout := if_pos h

theorem outputAt_eq {txs : List Transaction} (hnd : (txs.map Transaction.curhash).Nodup)
    {t : Transaction} (ht : t ∈ txs) (k : ℕ) : outputAt txs t.curhash k = t.outs[k]? := by
  have hfind : (txs.find? fun u => u.curhash = t.curhash) = some t := by
    have hsome : (txs.find? fun u => u.curhash = t.curhash).isSome := by
      rw [List.find?_isSome]
      exact ⟨t, ht, by simp⟩
    obtain ⟨t', ht'⟩ := Option.isSome_iff_exists.mp hsome
    have hh' : t'.curhash = t.curhash := by simpa using List.find?_some ht'
    rw [ht', List.inj_on_of_nodup_map hnd (List.mem_of_find?_eq_some ht') ht hh']
  rw [outputAt, hfind, Option.bind_some]

theorem NamesOutput.mono {txs : List Transaction} {i : Txin} (h : NamesOutput txs i)
    (more : List Transaction) : NamesOutput (txs ++ more) i := by
  obtain ⟨t, ht, hi⟩ := h
  exact ⟨t, List.mem_append_left more ht, hi⟩

/-- Later transactions do not change what an input resolves to. -/
theorem inputPreout_append {txs : List Transaction} {i : Txin}
    (h : i.hash = coinbaseB ∨ NamesOutput txs i) (more : List Transaction) :
    inputPreout (txs ++ more) i = inputPreout txs i := by
  rcases h with h | ⟨t, ht, hh, -⟩
  · rw [inputPreout_coinbase h, inputPreout_coinbase h]
  · have hsome : (txs.find? fun t => t.curhash = i.hash).isSome := by
      rw [List.find?_isSome]
      exact ⟨t, ht, by simpa using hh⟩
    obtain ⟨t', ht'⟩ := Option.isSome_iff_exists.mp hsome
    rw [inputPreout, inputPreout, outputAt, outputAt, List.find?_append, ht']
    rfl

theorem map_inputPreout_append {txs : List Transaction} {ins : List Txin}
    (h : ∀ i ∈ ins, i.hash = coinbaseB ∨ NamesOutput txs i) (more : List Transaction) :
    ins.map (inputPreout (txs ++ more)) = ins.map (inputPreout txs) :=
  List.map_congr_left fun i hi => inputPreout_append (h i hi) more

/-! ### Runs -/

theorem Chain.of_snoc {txs : List Transaction} {tx : Transaction} (h : Chain (txs ++ [tx])) :
    Chain txs where
  hashes := by
    have hnd := h.hashes
    rw [List.map_append] at hnd
    exact hnd.of_append_left
  nonzero t ht := h.nonzero t (List.mem_append_left _ ht)
  short t ht := h.short t (List.mem_append_left _ ht)
  linked := (atEvery_snoc.mp h.linked).1

theorem Chain.of_initial {pre txs : List Transaction} (h : Chain txs) (hp : pre <+: txs) :
    Chain pre where
  hashes := h.hashes.sublist (hp.sublist.map _)
  nonzero t ht := h.nonzero t (hp.subset ht)
  short t ht := h.short t (hp.subset ht)
  linked := h.linked.of_initial hp

theorem Chain.last_linked {txs : List Transaction} {tx : Transaction} (h : Chain (txs ++ [tx])) :
    ∀ i ∈ tx.ins, i.hash = coinbaseB ∨ NamesOutput txs i := (atEvery_snoc.mp h.linked).2

theorem Chain.last_fresh {txs : List Transaction} {tx : Transaction} (h : Chain (txs ++ [tx])) :
    ∀ t ∈ txs, t.curhash ≠ tx.curhash := by
  intro t ht heq
  have hnd := h.hashes
  rw [List.map_append, List.nodup_append] at hnd
  exact hnd.2.2 t.curhash (List.mem_map_of_mem ht) tx.curhash (by simp) heq

theorem Chain.linked_all {txs : List Transaction} (h : Chain txs) :
    ∀ tx ∈ txs, ∀ i ∈ tx.ins, i.hash = coinbaseB ∨ NamesOutput txs i := by
  intro tx htx i hi
  obtain ⟨pre, post, rfl⟩ := List.append_of_mem htx
  exact (h.linked pre tx post rfl i hi).imp_right fun hn => hn.mono _

/-- The entry LevelDB holds for a transaction of a run. -/
def entryOf (txs : List Transaction) (tx : Transaction) : Hash × List UInt8 :=
  (tx.curhash.reverse, tx.record (tx.ins.map (inputPreout txs)))

/-- LevelDB holds the records of the transactions, in order. -/
def Stored (txs : List Transaction) (txDb : KeyedTable Hash (List UInt8)) : Prop :=
  txDb.entries = txs.map (entryOf txs)

theorem Stored.find? {txs : List Transaction} {txDb : KeyedTable Hash (List UInt8)}
    (h : Stored txs txDb) {tx : Transaction} (htx : tx ∈ txs) :
    txDb.find? tx.curhash.reverse = some (tx.record (tx.ins.map (inputPreout txs))) := by
  rw [KeyedTable.find?_eq_some, h]
  exact List.mem_map.mpr ⟨tx, htx, rfl⟩

theorem Stored.keys {txs : List Transaction} {txDb : KeyedTable Hash (List UInt8)}
    (h : Stored txs txDb) : txDb.keys = txs.map fun tx => tx.curhash.reverse := by
  rw [KeyedTable.keys, h, List.map_map]
  rfl

/-- An input of the next call is resolved to the output it names. -/
theorem resolve_of_stored {txs : List Transaction} {txDb : KeyedTable Hash (List UInt8)}
    (hc : Chain txs) (h : Stored txs txDb) {i : Txin}
    (hi : i.hash = coinbaseB ∨ NamesOutput txs i) :
    resolve txDb i = .ok (inputPreout txs i) := by
  by_cases hz : i.hash = coinbaseB
  · rw [inputPreout_coinbase hz, resolve, readOutput, if_pos (reverse_eq_coinbaseB.mpr hz)]
    rfl
  · obtain ⟨t, ht, hh, hidx⟩ := hi.resolve_left hz
    have hkey : i.hash.reverse ≠ coinbaseB := fun h => hz (reverse_eq_coinbaseB.mp h)
    have hfind := h.find? ht
    rw [hh] at hfind
    rw [resolve, readOutput_record hkey hfind (by rw [List.length_map]) (hc.short t ht) hidx,
      inputPreout, if_neg hz, ← hh, outputAt_eq hc.hashes ht, List.getElem?_eq_getElem hidx]
    rfl

theorem resolve_all_of_stored {txs : List Transaction} {txDb : KeyedTable Hash (List UInt8)}
    (hc : Chain txs) (h : Stored txs txDb) {ins : List Txin}
    (hins : ∀ i ∈ ins, i.hash = coinbaseB ∨ NamesOutput txs i) :
    ins.mapM (resolve txDb) = .ok (ins.map (inputPreout txs)) := by
  rw [mapM_eq_ok, List.forall₂_map_right_iff, List.forall₂_same]
  exact fun i hi => resolve_of_stored hc h (hins i hi)

/-- A call appends its record. -/
theorem Stored.snoc {txs : List Transaction} {tx : Transaction} {w w' : World}
    (hc : Chain (txs ++ [tx])) (h : Stored txs w.txDb) (hstep : transactionProcess w tx = .ok w') :
    Stored (txs ++ [tx]) w'.txDb := by
  obtain ⟨-, pres, hpres, hdb⟩ := transactionProcess_txDb hstep
  have hpres' := resolve_all_of_stored hc.of_snoc h hc.last_linked
  obtain rfl : tx.ins.map (inputPreout txs) = pres := Except.ok.inj (hpres'.symm.trans hpres)
  have hfresh : tx.curhash.reverse ∉ w.txDb.keys := by
    rw [h.keys]
    intro hmem
    obtain ⟨t, ht, heq⟩ := List.mem_map.mp hmem
    exact hc.last_fresh t ht (Bytes.reverse_inj.mp heq)
  rw [Stored, hdb, KeyedTable.entries_upsert_of_notMem hfresh, h, List.map_append]
  congr 1
  · refine List.map_congr_left fun t ht => ?_
    rw [entryOf, entryOf, map_inputPreout_append (hc.of_snoc.linked_all t ht)]
  · rw [List.map_singleton, entryOf, map_inputPreout_append hc.last_linked]

/-- What a run of calls leaves in the two stores. -/
structure Processed (txs : List Transaction) (w : World) : Prop where
  stored : Stored txs w.txDb
  rows : ∀ a, a ∈ w.conn.db.addressinfo.keys ↔
    a ∈ (txs.flatMap Transaction.outs).map Txout.address
  txinfo : w.conn.db.txinfo = txs.map fun tx => tx.txRow (tx.ins.map (inputPreout txs))

theorem EmptyStores.db {w : World} (h : EmptyStores w) : ∃ d, w.conn.db = Db.empty d := by
  obtain ⟨d, hd⟩ := h.start
  refine ⟨d, ?_⟩
  rw [Conn.db, h.journal, hd]
  rfl

theorem EmptyStores.processed {w : World} (h : EmptyStores w) : Processed [] w := by
  obtain ⟨d, hd⟩ := h.db
  refine ⟨?_, fun a => ?_, ?_⟩
  · rw [Stored, h.txDb]
    rfl
  · rw [hd]
    rfl
  · rw [hd]
    rfl

theorem Processed.snoc {txs : List Transaction} {tx : Transaction} {w w' : World}
    (hc : Chain (txs ++ [tx])) (h : Processed txs w) (hw : transactionProcess w tx = .ok w') :
    Processed (txs ++ [tx]) w' := by
  have hres := resolve_all_of_stored hc.of_snoc h.stored hc.last_linked
  refine ⟨h.stored.snoc hc hw, fun a => ?_, ?_⟩
  · rw [mem_keys_call hw, h.rows, List.flatMap_append, List.flatMap_singleton, List.map_append,
      List.mem_append]
  · rw [transactionProcess_txinfo hw hres, h.txinfo, List.map_append, List.map_singleton,
      map_inputPreout_append hc.last_linked]
    congr 1
    refine List.map_congr_left fun t ht => ?_
    rw [map_inputPreout_append (hc.of_snoc.linked_all t ht)]

theorem processed_run {txs : List Transaction} {w₀ w : World} (h₀ : EmptyStores w₀)
    (hc : Chain txs) (hw : run transactionProcess w₀ txs = .ok w) : Processed txs w :=
  run_invariant (fun _ _ h => h.of_snoc) h₀.processed
    (fun _ _ _ _ hc hu hstep => hu.snoc hc hstep) hc hw

/-! ### Runs return -/

/-- The only input has the all-zero previous hash. -/
def Transaction.IsCoinbase (tx : Transaction) : Prop := tx.ins.map Txin.hash = [coinbaseB]

instance (tx : Transaction) : Decidable tx.IsCoinbase :=
  inferInstanceAs (Decidable (tx.ins.map Txin.hash = [coinbaseB]))

/-- One coinbase input, or at least one input and no coinbase input. -/
def Transaction.Servable (tx : Transaction) : Prop :=
  tx.IsCoinbase ∨ (tx.ins ≠ [] ∧ ∀ i ∈ tx.ins, i.hash ≠ coinbaseB)

instance (tx : Transaction) : Decidable tx.Servable :=
  inferInstanceAs
    (Decidable (tx.IsCoinbase ∨ (tx.ins ≠ [] ∧ ∀ i ∈ tx.ins, i.hash ≠ coinbaseB)))

theorem Transaction.IsCoinbase.map_inputPreout {tx : Transaction} (h : tx.IsCoinbase)
    (txs : List Transaction) : tx.ins.map (inputPreout txs) = [coinbasePreout] := by
  obtain ⟨i, hins, hz⟩ := List.map_eq_singleton_iff.mp h
  rw [hins, List.map_singleton, inputPreout_coinbase hz]

theorem inputPreout_of_names {txs : List Transaction} (hc : Chain txs) {i : Txin}
    (hz : i.hash ≠ coinbaseB) (hn : NamesOutput txs i) :
    ∃ o ∈ txs.flatMap Transaction.outs, inputPreout txs i = o.preout := by
  obtain ⟨t, ht, hh, hidx⟩ := hn
  refine ⟨t.outs[i.index.toNat], List.mem_flatMap.mpr ⟨t, ht, List.getElem_mem hidx⟩, ?_⟩
  rw [inputPreout, if_neg hz, ← hh, outputAt_eq hc.hashes ht, List.getElem?_eq_getElem hidx]
  rfl

theorem inputAddress_mem {txs : List Transaction} (hc : Chain txs) {i : Txin}
    (hz : i.hash ≠ coinbaseB) (hn : NamesOutput txs i) :
    inputAddress txs i ∈ (txs.flatMap Transaction.outs).map Txout.address := by
  obtain ⟨o, ho, hpre⟩ := inputPreout_of_names hc hz hn
  rw [inputAddress, hpre, preaddress_preout]
  exact List.mem_map_of_mem ho

theorem Processed.call_isOk {txs : List Transaction} {tx : Transaction} {w : World}
    (hc : Chain (txs ++ [tx])) (hserv : tx.Servable) (h : Processed txs w) :
    ∃ w', transactionProcess w tx = .ok w' := by
  refine transactionProcess_total (hc.short tx (by simp))
    (resolve_all_of_stored hc.of_snoc h.stored hc.last_linked) ?_
  rcases hserv with hcb | ⟨hne, hspend⟩
  · left
    rw [hcb.map_inputPreout, List.map_singleton, preaddress_coinbasePreout]
  · right
    refine ⟨by rwa [ne_eq, List.map_eq_nil_iff], fun p hp => ?_⟩
    obtain ⟨i, hi, rfl⟩ := List.mem_map.mp hp
    have hz := hspend i hi
    exact (h.rows _).mpr (inputAddress_mem hc.of_snoc hz ((hc.last_linked i hi).resolve_left hz))

/-- **A run of servable transactions returns.** -/
theorem run_isOk {txs : List Transaction} {w₀ : World} (h₀ : EmptyStores w₀) (hc : Chain txs)
    (hserv : ∀ tx ∈ txs, tx.Servable) : ∃ w, run transactionProcess w₀ txs = .ok w := by
  have htotal : ∃ w, run transactionProcess w₀ txs = .ok w ∧ Processed txs w := by
    refine run_total (V := fun ts => Chain ts ∧ ∀ tx ∈ ts, Transaction.Servable tx)
      (fun ts t hV => ⟨hV.1.of_snoc, fun u hu => hV.2 u (List.mem_append_left _ hu)⟩)
      h₀.processed ?_ ⟨hc, hserv⟩
    intro ts u t hV hu
    obtain ⟨w', hw'⟩ := hu.call_isOk hV.1 (hV.2 t (by simp))
    exact ⟨w', hw', hu.snoc hV.1 hw'⟩
  obtain ⟨w, hw, -⟩ := htotal
  exact ⟨w, hw⟩

theorem World.emptyStores_fresh (d : EntityRow) : EmptyStores (World.fresh d) :=
  ⟨rfl, ⟨d, rfl⟩, rfl⟩

end BitcoinAnalysis
