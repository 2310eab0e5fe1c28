/-
The address that stands for the coinbase.

`ReadOutput` answers an input with the all-zero previous hash by twenty bytes
`0x30`, and two functions later take an input with this address for a coinbase
input: `input_transaction_mysql` compares it as text, `input_entity_mysql` as
bytes.  But the twenty bytes are an address a script can pay to.

In every state the program can reach, with the calls that led to it
(`Reachable`), LevelDB holds the records of these calls and the addresses they
paid have a row (`Kept`).  So an input that names a stored output is resolved to
it, and it is debited and recorded exactly when the output does not pay the
twenty bytes (`spent_iff`).
-/
import BitcoinAnalysis.Chain
import BitcoinAnalysis.Duplicates
import BitcoinAnalysis.PublicKeys

open Run

namespace BitcoinAnalysis

/-- The states of the program, with the transactions processed so far: whatever
the calls are, and wherever a run of `unzipBlocks` ends and the next one begins. -/
inductive Reachable : List Transaction → World → Prop
  | start {w : World} : EmptyStores w → Reachable [] w
  | call {txs : List Transaction} {w w' : World} {tx : Transaction} :
    Reachable txs w → transactionProcess w tx = .ok w' → Reachable (txs ++ [tx]) w'
  | block {txs : List Transaction} {w w' : World} {blk : Block} :
    Reachable txs w → blockProcess w blk = .ok w' → Reachable txs w'
  /-- The end of a run. -/
  | finish {txs : List Transaction} {w : World} : Reachable txs w → Reachable txs (updateEntityMysql w)
  /-- The start of a run, which reads the counter from a file. -/
  | resume {txs : List Transaction} {w : World} (entitycnt : UInt32) :
    Reachable txs w → Reachable txs { w with entitycnt := entitycnt }

/-- The transaction LevelDB holds under a hash: the last one processed. -/
def lastWith (txs : List Transaction) (hash : Hash) : Option Transaction :=
  txs.reverse.find? fun t => t.curhash = hash

/-- The stored output an input names. -/
def storedOutput (txs : List Transaction) (i : Txin) : Option Txout :=
  (lastWith txs i.hash).bind fun t => t.outs[i.index.toNat]?

theorem lastWith_snoc (txs : List Transaction) (tx : Transaction) (hash : Hash) :
    lastWith (txs ++ [tx]) hash = if tx.curhash = hash then some tx else lastWith txs hash := by
  rw [lastWith, lastWith, List.reverse_append, List.reverse_singleton, List.singleton_append,
    List.find?_cons]
  by_cases h : tx.curhash = hash
  · simp [h]
  · simp [h]

theorem storedOutput_eq_some {txs : List Transaction} {i : Txin} {o : Txout} :
    storedOutput txs i = some o ↔
      ∃ t, lastWith txs i.hash = some t ∧ t.outs[i.index.toNat]? = some o := by
  rw [storedOutput, Option.bind_eq_some_iff]

/-! ### Runs of the program -/

variable {txs : List Transaction} {w w' : World}

theorem Reachable.run_perform {evs : List Event} (h : Reachable txs w)
    (hrun : run perform w evs = .ok w') : Reachable (txs ++ applied evs) w' := by
  induction evs generalizing txs w with
  | nil =>
    cases hrun
    rw [applied, parsed, List.filterMap_nil, List.filter_nil, List.append_nil]
    exact h
  | cons e evs ih =>
    rw [run_cons] at hrun
    obtain ⟨v, hv, hrest⟩ := bind_eq_ok.mp hrun
    cases e with
    | block blk => exact ih (h.block hv) hrest
    | tx tx =>
      rw [perform] at hv
      rw [applied_tx]
      by_cases hskip : tx.Skipped
      · rw [if_pos hskip] at hv ⊢
        cases hv
        exact ih h hrest
      · rw [if_neg hskip] at hv ⊢
        have hreach := ih (h.call hv) hrest
        rwa [List.append_assoc, List.singleton_append] at hreach

/-- A run of `unzipBlocks` ends in a reachable state. -/
theorem Reachable.unzipBlocks {env : Env} {stoptm : ℤ} {parameter : List Char} {o : Outcome}
    (h : Reachable txs w) (hrun : unzipBlocks env stoptm w parameter = .ok o) :
    ∃ more, Reachable (txs ++ more) o.world := by
  obtain ⟨c, evs, blkfileNum, p, v, -, -, hv, rfl⟩ := unzipBlocks_eq_ok.mp hrun
  exact ⟨applied evs, ((h.resume c.entitycnt).run_perform hv).finish⟩

/-! ### What every reachable state holds -/

/-- LevelDB holds the last record for every hash, and every address paid has a row. -/
structure Kept (txs : List Transaction) (w : World) : Prop where
  record : ∀ {hash t}, lastWith txs hash = some t →
    ∃ pres, w.txDb.find? hash.reverse = some (t.record pres) ∧ t.ins.length = pres.length ∧
      t.recordLength < 2 ^ 31
  rows : ∀ t ∈ txs, ∀ o ∈ t.outs, o.address ∈ w.conn.db.addressinfo.keys

theorem Kept.of_alike {u : World} (h : Kept txs w) (halike : w.Alike u) : Kept txs u where
  record ht := by
    rw [halike.txDb]
    exact h.record ht
  rows t ht o ho := by
    rw [halike.addressinfo]
    exact h.rows t ht o ho

/-- A call replaces the record under its own hash and opens the rows it lacks. -/
theorem Kept.call {tx : Transaction} (h : Kept txs w) (hcall : transactionProcess w tx = .ok w') :
    Kept (txs ++ [tx]) w' where
  record {hash t} ht := by
    obtain ⟨hfit, pres, hpres, hdb⟩ := transactionProcess_txDb hcall
    rw [lastWith_snoc] at ht
    split at ht
    · rename_i hhash
      cases ht
      refine ⟨pres, ?_, (mapM_eq_ok.mp hpres).length_eq, hfit⟩
      rw [hdb, ← hhash, KeyedTable.find?_upsert_self]
      cases w.txDb.find? tx.curhash.reverse <;> rfl
    · rename_i hhash
      have hne : hash.reverse ≠ tx.curhash.reverse := fun he => hhash (Bytes.reverse_inj.mp he).symm
      rw [transactionProcess_find?_ne hcall hne]
      exact h.record ht
  rows t ht o ho := by
    rw [mem_keys_call hcall]
    rcases List.mem_append.mp ht with ht | ht
    · exact .inl (h.rows t ht o ho)
    · rw [List.mem_singleton.mp ht] at ho
      exact .inr (List.mem_map_of_mem ho)

theorem Reachable.kept (h : Reachable txs w) : Kept txs w := by
  induction h with
  | start h₀ =>
    refine ⟨fun ht => ?_, fun t ht => ?_⟩
    · cases ht
    · cases ht
  | call _ hcall ih => exact ih.call hcall
  | block _ hblk ih => exact ih.of_alike (alike_blockProcess (.refl _) hblk).symm
  | @finish txs w _ ih => exact ih.of_alike (alike_updateEntityMysql w)
  | resume entitycnt _ ih => exact ⟨ih.record, ih.rows⟩

/-- An input that names a stored output is resolved to it. -/
theorem Kept.resolve {i : Txin} {o : Txout} (h : Kept txs w) (hz : i.hash ≠ coinbaseB)
    (ho : storedOutput txs i = some o) : resolve w.txDb i = .ok o.preout := by
  obtain ⟨t, ht, hto⟩ := storedOutput_eq_some.mp ho
  obtain ⟨pres, hfind, hlen, hfit⟩ := h.record ht
  obtain ⟨hidx, rfl⟩ := List.getElem?_eq_some_iff.mp hto
  have hkey : i.hash.reverse ≠ coinbaseB := fun he => hz (reverse_eq_coinbaseB.mp he)
  exact readOutput_record hkey hfind hlen hfit hidx

theorem lastWith_mem {hash : Hash} {t : Transaction} (h : lastWith txs hash = some t) : t ∈ txs :=
  List.mem_reverse.mp (List.mem_of_find?_eq_some h)

theorem Kept.row {i : Txin} {o : Txout} (h : Kept txs w) (ho : storedOutput txs i = some o) :
    o.address ∈ w.conn.db.addressinfo.keys := by
  obtain ⟨t, ht, hto⟩ := storedOutput_eq_some.mp ho
  exact h.rows t (lastWith_mem ht) o (List.mem_of_getElem? hto)

/-! ### One input -/

variable {tx : Transaction} {i : Txin} {o : Txout} {s s' : InputLoop}

/-- The round of the loop over the inputs that took `s` to `s'` has spent an
output: the row of its address is debited, and the number of the row is recorded
when there are no other inputs. -/
structure Spent (w : World) (tx : Transaction) (s s' : InputLoop) (a : Address) (v : UInt64) :
    Prop where
  debited : ∃ row row', s.conn.db.addressinfo.find? a = some row ∧
    s'.conn.db.addressinfo.find? a = some row' ∧
    row'.inval = row.inval + v.toNat ∧ row'.incnt = row.incnt + 1
  recorded : tx.ins.length = 1 → ∃ wi row,
    inputEntityMysql { w with conn := s'.conn } s'.inputAddressBv = .ok wi ∧
    s'.conn.db.addressinfo.find? a = some row ∧
    wi.entitychangeV = w.entitychangeV ++ [row.entity]

/-- What `addressinfo` says of the spends of an address. -/
def debits (db : Db) (a : Address) : Option (ℤ × ℕ) :=
  (db.addressinfo.find? a).map fun row => (row.inval, row.incnt)

theorem not_spent_of_debits {a : Address} {v : UInt64}
    (h : debits s'.conn.db a = debits s.conn.db a) : ¬ Spent w tx s s' a v := by
  rintro ⟨⟨row, row', hrow, hrow', -, hcnt⟩, -⟩
  rw [debits, debits, hrow, hrow', Option.map_some, Option.map_some, Option.some.injEq,
    Prod.mk.injEq] at h
  omega

theorem inputStep_eq_ok {txDb : KeyedTable Hash (List UInt8)} {n t : UInt32} {p : Bytes 28}
    (hp : resolve txDb i = .ok p) (h : inputStep txDb n t s i = .ok s') :
    s'.conn = s.conn.queries (debitStmts t p) ∧
      s'.inputAddressBv = s.inputAddressBv ++ [preaddress p] := by
  obtain ⟨p', hp', h⟩ := bind_eq_ok.mp h
  obtain rfl : p = p' := Except.ok.inj (hp.symm.trans hp')
  obtain ⟨buf, -, h⟩ := bind_eq_ok.mp h
  cases h
  exact ⟨inputTransactionMysql_eq s.conn p t, rfl⟩

/-- The rounds before an input neither open nor remove a row. -/
theorem mem_keys_run_inputStep {txDb : KeyedTable Hash (List UInt8)} {n t : UInt32}
    {ins : List Txin} {a : Address} (h : run (inputStep txDb n t) s ins = .ok s') :
    a ∈ s'.conn.db.addressinfo.keys ↔ a ∈ s.conn.db.addressinfo.keys := by
  refine run_invariant (V := fun _ => True)
    (P := fun _ u => a ∈ u.conn.db.addressinfo.keys ↔ a ∈ s.conn.db.addressinfo.keys)
    (fun _ _ _ => trivial) Iff.rfl ?_ trivial h
  intro _ u i u' _ hu hstep
  obtain ⟨p, hp, -⟩ := bind_eq_ok.mp hstep
  obtain ⟨hconn, -⟩ := inputStep_eq_ok hp hstep
  have hnone : ¬ ∃ v t', Stmt.upsertOutput a v t' ∈ debitStmts t p := by
    rintro ⟨v, t', hmem⟩
    exact not_mem_debitStmts (List.mem_flatMap.mpr ⟨p, List.mem_singleton_self p, hmem⟩)
  rw [hconn, Conn.db_queries, Db.mem_keys_foldl, or_iff_left hnone, hu]

theorem debitStmts_preout (t : UInt32) (o : Txout) :
    debitStmts t o.preout
      = if o.address = coinbaseH then [] else [.updateInput o.address o.val t] := by
  rw [debitStmts, preaddress_preout, invalue_preout]
  simp only [addressHex_eq_coinbaseS]

/-- **The marker is an address like any other.**  In every reachable state, an
input whose previous hash is not all zero and which names a stored output is
processed as a spend of this output exactly when the output does not pay the
twenty bytes that stand for the coinbase. -/
theorem spent_iff {before after : List Txin} (hw : Reachable txs w)
    (hins : tx.ins = before ++ i :: after) (hz : i.hash ≠ coinbaseB)
    (ho : storedOutput txs i = some o)
    (hs : run (inputStep w.txDb tx.valueLen tx.txtime) ⟨w.conn, tx.recordHead, 0, []⟩ before
      = .ok s)
    (hs' : inputStep w.txDb tx.valueLen tx.txtime s i = .ok s') :
    Spent w tx s s' o.address o.val ↔ o.address ≠ coinbaseH := by
  have hkept := hw.kept
  obtain ⟨row, hrow⟩ : ∃ row, s.conn.db.addressinfo.find? o.address = some row :=
    KeyedTable.mem_keys.mp ((mem_keys_run_inputStep hs).mpr (hkept.row ho))
  obtain ⟨hconn, haddr⟩ := inputStep_eq_ok (hkept.resolve hz ho) hs'
  rw [debitStmts_preout] at hconn
  rw [preaddress_preout] at haddr
  constructor
  · -- no statement is sent for the marker, so the counter stays
    intro hspent hmark
    rw [if_pos hmark, Conn.queries_nil] at hconn
    exact not_spent_of_debits (by rw [hconn]) hspent
  · intro hne
    rw [if_neg hne] at hconn
    have hrow' : s'.conn.db.addressinfo.find? o.address = some (row.debit o.val tx.txtime) := by
      rw [hconn, Conn.db_queries, List.foldl_cons, List.foldl_nil, Db.exec,
        KeyedTable.find?_modify_self, hrow, Option.map_some]
    refine ⟨⟨row, row.debit o.val tx.txtime, hrow, hrow', rfl, rfl⟩, fun hone => ?_⟩
    -- the only input is the first one
    obtain rfl : before = [] := by
      rw [hins, List.length_append, List.length_cons] at hone
      exact List.length_eq_zero_iff.mp (by omega)
    cases hs
    have hsel : selectEntity s'.conn.db o.address = .ok (row.debit o.val tx.txtime).entity :=
      selectEntity_eq_ok.mpr ⟨_, hrow', rfl⟩
    refine ⟨{ w with
      conn := s'.conn
      entitychangeV := w.entitychangeV ++ [(row.debit o.val tx.txtime).entity] }, _, ?_, hrow', rfl⟩
    rw [haddr, List.nil_append, inputEntityMysql, if_pos hne, hsel]
    rfl

theorem spent_of_spending :
    ∃ w s s', Reachable [mined] w ∧
      run (inputStep w.txDb spending.valueLen spending.txtime)
        ⟨w.conn, spending.recordHead, 0, []⟩ [.plain mined.curhash 0] = .ok s ∧
      inputStep w.txDb spending.valueLen spending.txtime s (.plain mined.curhash 1) = .ok s' ∧
      Spent w spending s s' (.replicate 20 8) 60 := by
  have hcall : (transactionProcess (.fresh .null) mined).toOption.any fun w =>
      (run (inputStep w.txDb spending.valueLen spending.txtime)
        ⟨w.conn, spending.recordHead, 0, []⟩ [.plain mined.curhash 0]).toOption.any fun s =>
      (inputStep w.txDb spending.valueLen spending.txtime s
        (.plain mined.curhash 1)).toOption.isSome := by decide +kernel
  obtain ⟨w, hw, hloop⟩ := exists_ok_of_any hcall
  obtain ⟨s, hs, hstep⟩ := exists_ok_of_any hloop
  obtain ⟨s', hs'⟩ := exists_ok hstep
  have hreach : Reachable [mined] w := .call (.start (World.emptyStores_fresh _)) hw
  have hspent : Spent w spending s s' (Txout.plain (.replicate 20 8) 60).address 60 :=
    (spent_iff hreach (show spending.ins = [.plain mined.curhash 0] ++ .plain mined.curhash 1 :: []
      from rfl) (by decide) (by decide) hs hs').mpr (by decide)
  exact ⟨w, s, s', hreach, hs, hs', hspent⟩

/-- A coinbase transaction with a script that pays to the twenty bytes `0x30`. -/
def minedMarker : Transaction :=
  { mined with
    outCount := 1
    outs := [⟨50, 25, payToKeyHash coinbaseH, coinbaseH, rfl⟩]
    outs_len := rfl }

def spendingMarker : Transaction :=
  { spending with
    inCount := 1
    ins := [.plain minedMarker.curhash 0]
    ins_len := rfl }

/-- The address is the one `outAddress` finds in the script.  Its row is not
debited by the transaction that spends the output, and no number is recorded. -/
theorem marker_not_spent :
    outAddress (payToKeyHash coinbaseH) 25 = .ok (true, coinbaseH) ∧
    storedOutput [minedMarker] (.plain minedMarker.curhash 0)
      = some ⟨50, 25, payToKeyHash coinbaseH, coinbaseH, rfl⟩ ∧
    ∃ w s, Reachable [minedMarker] w ∧
      inputStep w.txDb spendingMarker.valueLen spendingMarker.txtime
        ⟨w.conn, spendingMarker.recordHead, 0, []⟩ (.plain minedMarker.curhash 0) = .ok s ∧
      ¬ Spent w spendingMarker ⟨w.conn, spendingMarker.recordHead, 0, []⟩ s coinbaseH 50 ∧
      debits w.conn.db coinbaseH = some (0, 0) ∧ debits s.conn.db coinbaseH = some (0, 0) ∧
      ∃ wi, inputEntityMysql { w with conn := s.conn } s.inputAddressBv = .ok wi ∧
        wi.entitychangeV = w.entitychangeV := by
  have hcall : ∃ w, transactionProcess (.fresh .null) minedMarker = .ok w ∧
      debits w.conn.db coinbaseH = some (0, 0) ∧
      ∃ s, inputStep w.txDb spendingMarker.valueLen spendingMarker.txtime
        ⟨w.conn, spendingMarker.recordHead, 0, []⟩ (.plain minedMarker.curhash 0) = .ok s ∧
      debits s.conn.db coinbaseH = some (0, 0) ∧
      ∃ wi, inputEntityMysql { w with conn := s.conn } s.inputAddressBv = .ok wi ∧
        wi.entitychangeV = w.entitychangeV := by
    decide +kernel
  obtain ⟨w, hw, hbefore, s, hs, hafter, hentity⟩ := hcall
  exact ⟨outAddress_payToKeyHash _, rfl, w, s, .call (.start (World.emptyStores_fresh _)) hw, hs,
    not_spent_of_debits (hafter.trans hbefore.symm), hbefore, hafter, hentity⟩

end BitcoinAnalysis
