/-
The books of a run of calls.

Along a run from empty stores, `addressinfo` keeps exact books of the outputs
processed so far (`creditsOf`) and of the inputs that spent one (`debitsOf`):
`ledger_run`.  From it follow every account column of every row, and `maxbal` as
the maximum over all moments (`addressinfo_exact`).
-/
import BitcoinAnalysis.Chain
import BitcoinAnalysis.Books

open Postings Run

namespace BitcoinAnalysis

/-- The outputs that pay an address. -/
def paid (txs : List Transaction) (a : Address) : List Txout :=
  (txs.flatMap Transaction.outs).filter fun o => o.address = a

/-- The inputs that resolve to an address. -/
def spent (txs : List Transaction) (a : Address) : List Txin :=
  (txs.flatMap Transaction.ins).filter fun i => inputAddress txs i = a

/-- The inputs that spend an output. -/
def Transaction.spends (tx : Transaction) : List Txin := tx.ins.filter fun i => i.hash ≠ coinbaseB

def Txout.posting (o : Txout) : Address × ℕ := (o.address, o.val.toNat)

def inputPosting (txs : List Transaction) (i : Txin) : Address × ℕ :=
  (inputAddress txs i, (inputValue txs i).toNat)

def creditsOf (txs : List Transaction) : List (Address × ℕ) :=
  (txs.flatMap Transaction.outs).map Txout.posting

def debitsOf (txs : List Transaction) : List (Address × ℕ) :=
  (txs.flatMap Transaction.spends).map (inputPosting txs)

/-! ### One call -/

section Call

variable {conn : Conn} {credits debits : List (Address × ℕ)} {t : UInt32}

/-- The debits of the inputs of a transaction. -/
theorem Books.debit_all (h : Books conn credits debits) {pres : List (Bytes 28)}
    (hpres : ∀ p ∈ pres, preaddress p ≠ coinbaseH → preaddress p ∈ credits.map Prod.fst) :
    Books (conn.queries (pres.flatMap (debitStmts t))) credits
      (debits ++ (pres.filter fun p => preaddress p ≠ coinbaseH).map
        fun p => (preaddress p, (invalue p).toNat)) := by
  induction pres generalizing conn debits with
  | nil => simpa using h
  | cons p ps ih =>
    have hps := fun q hq => hpres q (List.mem_cons_of_mem p hq)
    rw [List.flatMap_cons, ← Conn.queries_queries, debitStmts]
    by_cases hp : preaddress p = coinbaseH
    · rw [if_pos (addressHex_eq_coinbaseS.mpr hp), Conn.queries_nil,
        List.filter_cons_of_neg (by simpa using hp)]
      exact ih h hps
    · rw [if_neg (fun hs => hp (addressHex_eq_coinbaseS.mp hs)),
        List.filter_cons_of_pos (by simpa using hp), List.map_cons, List.append_cons]
      exact ih (h.debit (invalue p) t (hpres p List.mem_cons_self hp)) hps

/-- The credits of the outputs of a transaction. -/
theorem Books.credit_all (h : Books conn credits debits) (outs : List Txout) :
    Books (conn.queries (outs.flatMap (creditStmts t)))
      (credits ++ outs.map Txout.posting) debits := by
  induction outs generalizing conn credits with
  | nil => simpa using h
  | cons o os ih =>
    rw [List.flatMap_cons, ← Conn.queries_queries, List.map_cons, List.append_cons]
    exact ih (h.credit o.address o.val t)

theorem Books.inputEntityMysql {w w' : World} {as : List Address}
    (h : Books w.conn credits debits) (hw : inputEntityMysql w as = .ok w') :
    Books w'.conn credits debits := by
  obtain ⟨js, hconn, hjs⟩ := inputEntityMysql_journal hw
  rw [hconn]
  refine h.frame_all fun j hj => ?_
  rcases hjs j hj with ⟨e0, e, rfl⟩ | ⟨e, rfl⟩
  · exact id
  · exact id

theorem Books.outputEntityMysql {w w' : World} {as : List Address}
    (h : Books w.conn credits debits) (hw : outputEntityMysql w as = .ok w') :
    Books w'.conn credits debits := by
  obtain ⟨js, hconn, hjs⟩ := outputEntityMysql_journal hw
  rw [hconn]
  refine h.frame_all fun j hj => ?_
  rcases hjs j hj with ⟨a, e, rfl⟩ | ⟨e, rfl⟩
  · exact id
  · exact id

/-- A call posts its outputs and the inputs that resolve to an address. -/
theorem Books.call {w w' : World} {tx : Transaction} {pres : List (Bytes 28)}
    (h : Books w.conn credits debits) (hw : transactionProcess w tx = .ok w')
    (hres : tx.ins.mapM (resolve w.txDb) = .ok pres)
    (hpres : ∀ p ∈ pres, preaddress p ≠ coinbaseH → preaddress p ∈ credits.map Prod.fst) :
    Books w'.conn (credits ++ tx.outs.map Txout.posting)
      (debits ++ (pres.filter fun p => preaddress p ≠ coinbaseH).map
        fun p => (preaddress p, (invalue p).toNat)) := by
  obtain ⟨-, pres', wi, wo, hres', hwi, hwo, rfl⟩ := transactionProcess_eq_ok.mp hw
  obtain rfl : pres = pres' := Except.ok.inj (hres.symm.trans hres')
  have hi : Books wi.conn credits _ := (h.debit_all hpres).inputEntityMysql hwi
  have ho := Books.outputEntityMysql (hi.credit_all tx.outs) hwo
  exact ho.frame id

end Call

/-! ### Runs -/

/-- An input of a run resolves to the made-up address exactly when it is a
coinbase input. -/
theorem inputAddress_eq_coinbaseH {txs : List Transaction} (hc : Chain txs) (hs : NoSentinel txs)
    {i : Txin} (hi : i.hash = coinbaseB ∨ NamesOutput txs i) :
    inputAddress txs i = coinbaseH ↔ i.hash = coinbaseB := by
  constructor
  · intro h
    by_contra hz
    obtain ⟨o, ho, hpre⟩ := inputPreout_of_names hc hz (hi.resolve_left hz)
    obtain ⟨t, ht, hot⟩ := List.mem_flatMap.mp ho
    rw [inputAddress, hpre, preaddress_preout] at h
    exact hs t ht o hot h
  · intro h
    rw [inputAddress, inputPreout_coinbase h, preaddress_coinbasePreout]

theorem inputAddress_mem_credits {txs : List Transaction} (hc : Chain txs) {i : Txin}
    (hz : i.hash ≠ coinbaseB) (hn : NamesOutput txs i) :
    inputAddress txs i ∈ (creditsOf txs).map Prod.fst := by
  rw [creditsOf, List.map_map]
  exact inputAddress_mem hc hz hn

theorem creditsOf_snoc (txs : List Transaction) (tx : Transaction) :
    creditsOf (txs ++ [tx]) = creditsOf txs ++ tx.outs.map Txout.posting := by
  rw [creditsOf, creditsOf, List.flatMap_append, List.map_append, List.flatMap_singleton]

theorem inputPosting_append {txs : List Transaction} {i : Txin}
    (h : i.hash = coinbaseB ∨ NamesOutput txs i) (more : List Transaction) :
    inputPosting (txs ++ more) i = inputPosting txs i := by
  rw [inputPosting, inputPosting, inputAddress, inputAddress, inputValue, inputValue,
    inputPreout_append h]

theorem debitsOf_snoc {txs : List Transaction} {tx : Transaction} (hc : Chain (txs ++ [tx])) :
    debitsOf (txs ++ [tx]) = debitsOf txs ++ tx.spends.map (inputPosting txs) := by
  rw [debitsOf, debitsOf, List.flatMap_append, List.map_append, List.flatMap_singleton]
  congr 1
  · refine List.map_congr_left fun i hi => inputPosting_append ?_ [tx]
    obtain ⟨t, ht, hi⟩ := List.mem_flatMap.mp hi
    exact hc.of_snoc.linked_all t ht i (List.mem_of_mem_filter hi)
  · refine List.map_congr_left fun i hi => inputPosting_append ?_ [tx]
    exact hc.last_linked i (List.mem_of_mem_filter hi)

/-- The two stores agree with the transactions of the run. -/
structure Ledger (txs : List Transaction) (w : World) : Prop where
  processed : Processed txs w
  books : Books w.conn (creditsOf txs) (debitsOf txs)

theorem NoSentinel.of_initial {pre txs : List Transaction} (h : NoSentinel txs) (hp : pre <+: txs) :
    NoSentinel pre := fun t ht => h t (hp.subset ht)

theorem EmptyStores.ledger {w : World} (h : EmptyStores w) : Ledger [] w := by
  obtain ⟨d, hdb⟩ := h.db
  have hnone : ∀ a, (Db.empty d).account a = none := fun a => rfl
  refine ⟨h.processed, ⟨fun a => ?_, fun a _ => ?_, ?_, fun a acc ha => ?_, ?_⟩⟩
  · rw [hdb, hnone]
    simp [creditsOf]
  · rw [Set.eq_empty_iff_forall_notMem]
    rintro b ⟨db, row, ⟨js, hjs, rfl⟩, hrow, -⟩
    obtain ⟨d, hd⟩ := h.start
    rw [h.journal, List.prefix_nil] at hjs
    rw [hjs, hd] at hrow
    cases hrow
  · intro p hp
    cases hp
  · rw [hdb, hnone] at ha
    cases ha
  · rw [hdb]
    rfl

/-- **A call extends the books by its own postings.** -/
theorem Ledger.snoc {txs : List Transaction} {tx : Transaction} {w w' : World}
    (hc : Chain (txs ++ [tx])) (hs : NoSentinel txs) (h : Ledger txs w)
    (hw : transactionProcess w tx = .ok w') : Ledger (txs ++ [tx]) w' := by
  refine ⟨h.processed.snoc hc hw, ?_⟩
  have hres := resolve_all_of_stored hc.of_snoc h.processed.stored hc.last_linked
  have hbooks := h.books.call hw hres ?_
  · have hfilter : ((tx.ins.map (inputPreout txs)).filter fun p => preaddress p ≠ coinbaseH)
        = tx.spends.map (inputPreout txs) := by
      rw [List.filter_map, Transaction.spends]
      congr 1
      refine List.filter_congr fun i hi => ?_
      rw [Function.comp_apply, decide_eq_decide, not_iff_not]
      exact inputAddress_eq_coinbaseH hc.of_snoc hs (hc.last_linked i hi)
    rw [hfilter, List.map_map] at hbooks
    rw [creditsOf_snoc, debitsOf_snoc hc]
    exact hbooks
  · intro p hp hne
    obtain ⟨i, hi, rfl⟩ := List.mem_map.mp hp
    have hz : i.hash ≠ coinbaseB := fun hz =>
      hne ((inputAddress_eq_coinbaseH hc.of_snoc hs (hc.last_linked i hi)).mpr hz)
    exact inputAddress_mem_credits hc.of_snoc hz ((hc.last_linked i hi).resolve_left hz)

theorem ledger_run {txs : List Transaction} {w₀ w : World} (h₀ : EmptyStores w₀) (hc : Chain txs)
    (hs : NoSentinel txs) (hw : run transactionProcess w₀ txs = .ok w) : Ledger txs w :=
  run_invariant (V := fun ts => Chain ts ∧ NoSentinel ts) (P := Ledger)
    (fun _ t hV => ⟨hV.1.of_snoc, hV.2.of_initial (List.prefix_append _ [t])⟩) h₀.ledger
    (fun _ _ t _ hV hu hstep => hu.snoc hV.1 (hV.2.of_initial (List.prefix_append _ [t])) hstep)
    ⟨hc, hs⟩ hw

/-! ### The account columns -/

theorem flatMap_spends (txs : List Transaction) :
    txs.flatMap Transaction.spends
      = (txs.flatMap Transaction.ins).filter fun i => i.hash ≠ coinbaseB := by
  rw [List.filter_flatMap]
  rfl

/-- Coinbase inputs resolve to no address with a row. -/
theorem spent_eq {txs : List Transaction} {a : Address} (ha : a ≠ coinbaseH) :
    spent txs a = (txs.flatMap Transaction.spends).filter fun i => inputAddress txs i = a := by
  rw [spent, flatMap_spends, List.filter_filter]
  refine List.filter_congr fun i _ => ?_
  by_cases hz : i.hash = coinbaseB
  · have hi : inputAddress txs i = coinbaseH := by
      rw [inputAddress, inputPreout_coinbase hz, preaddress_coinbasePreout]
    simp [hz, hi, ha.symm]
  · simp [hz]

theorem Ledger.settled {txs : List Transaction} {w : World} (h : Ledger txs w) {a : Address}
    {row : AddressRow} (hrow : w.conn.db.addressinfo.find? a = some row) :
    Settled w.conn (creditsOf txs) (debitsOf txs) a row.account :=
  h.books.settled a row.account (by rw [Db.account, hrow]; rfl)

theorem Ledger.address_ne {txs : List Transaction} {w : World} (hs : NoSentinel txs)
    (h : Ledger txs w) {a : Address} {row : AddressRow}
    (hrow : w.conn.db.addressinfo.find? a = some row) : a ≠ coinbaseH := by
  obtain ⟨o, ho, rfl⟩ := List.mem_map.mp ((h.processed.rows a).mp (KeyedTable.mem_keys.mpr ⟨_, hrow⟩))
  obtain ⟨t, ht, ho⟩ := List.mem_flatMap.mp ho
  exact hs t ht o ho

/-- **The account columns are exact after every call**: amounts and counts are
those of the outputs that pay the address and the inputs that resolve to it,
`bal` is their difference, and `maxbal` is the greatest balance the row has had
after any statement since it was created.  The run returns if its transactions
are servable. -/
theorem addressinfo_exact {w₀ : World} {txs : List Transaction} (h₀ : EmptyStores w₀)
    (hc : Chain txs) (hs : NoSentinel txs) :
    (∀ pre w a row, pre <+: txs → run transactionProcess w₀ pre = .ok w →
      w.conn.db.addressinfo.find? a = some row →
        row.outval = ((paid pre a).map fun o => o.val.toNat).sum ∧
        row.inval = ((spent pre a).map fun i => (inputValue pre i).toNat).sum ∧
        row.outcnt = (paid pre a).length ∧
        row.incnt = (spent pre a).length ∧
        row.bal = row.outval - row.inval ∧
        IsGreatest (w.conn.balances a) row.maxbal) ∧
    ((∀ tx ∈ txs, tx.Servable) → ∃ w, run transactionProcess w₀ txs = .ok w) := by
  refine ⟨fun pre w a row hpre hw hrow => ?_, run_isOk h₀ hc⟩
  have hs' := hs.of_initial hpre
  have hl := ledger_run h₀ (hc.of_initial hpre) hs' hw
  have hset := hl.settled hrow
  -- the coinbase marker has no row, so every spend of `a` is a debit
  have hne := hl.address_ne hs' hrow
  refine ⟨hset.outval.trans ?_, hset.inval.trans ?_, hset.outcnt.trans ?_, hset.incnt.trans ?_,
    hset.bal, hset.peak⟩
  · rw [creditsOf, amount_map]
    rfl
  · rw [debitsOf, amount_map, spent_eq hne]
    rfl
  · rw [creditsOf, count_map]
    rfl
  · rw [debitsOf, count_map, spent_eq hne]
    rfl

theorem addressinfo_exact_of_spending :
    ∃ w row, run transactionProcess (World.fresh .null) [mined, spending] = .ok w ∧
      w.conn.db.addressinfo.find? (.replicate 20 7) = some row ∧
      row.outval = 80 ∧ row.inval = 50 ∧ row.outcnt = 2 ∧ row.incnt = 1 ∧ row.bal = 30 ∧
      IsGreatest (w.conn.balances (.replicate 20 7)) row.maxbal := by
  have hc : Chain [mined, spending] := by decide +kernel
  obtain ⟨hexact, hreturn⟩ :=
    addressinfo_exact (World.emptyStores_fresh .null) hc (by decide +kernel)
  obtain ⟨w, hw⟩ := hreturn (by decide +kernel)
  have hmem : (.replicate 20 7 : Address) ∈ w.conn.db.addressinfo.keys := by
    rw [(processed_run (World.emptyStores_fresh .null) hc hw).rows]
    decide +kernel
  obtain ⟨row, hrow⟩ := KeyedTable.mem_keys.mp hmem
  obtain ⟨houtval, hinval, houtcnt, hincnt, hbal, hpeak⟩ :=
    hexact _ w _ row List.prefix_rfl hw hrow
  have houtval' : row.outval = 80 := houtval.trans (by decide +kernel)
  have hinval' : row.inval = 50 := hinval.trans (by decide +kernel)
  refine ⟨w, row, hw, hrow, houtval', hinval', houtcnt.trans (by decide +kernel),
    hincnt.trans (by decide +kernel), ?_, hpeak⟩
  rw [hbal, houtval', hinval']
  rfl

end BitcoinAnalysis
