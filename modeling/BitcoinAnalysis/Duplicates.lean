/-
How often a transaction is applied.

Nothing compares the hash of a transaction with those read before: a transaction
that stands in two blocks is applied twice (`applied_twice`).  What a run does to
`addressinfo` is one call of `TransactionProcess` for every transaction it has
read, in the order of the files, except for the two whose counters the loop
skips (`addressinfo_of_calls`).
-/
import BitcoinAnalysis.Footprint
import BitcoinAnalysis.Wire

open LittleEndian Run

namespace BitcoinAnalysis

variable {env : Env} {stoptm : ℤ} {w u w' : World}

/-- The transactions among the events of a run, in the order they are read. -/
def parsed (evs : List Event) : List Transaction :=
  evs.filterMap fun
    | .tx tx => some tx
    | .block _ => none

/-- The transactions that are processed. -/
def applied (evs : List Event) : List Transaction := (parsed evs).filter fun tx => ¬ tx.Skipped

theorem applied_tx (tx : Transaction) (evs : List Event) :
    applied (.tx tx :: evs) = if tx.Skipped then applied evs else tx :: applied evs := by
  split
  · rename_i hskip
    exact List.filter_cons_of_neg (by simpa using hskip)
  · rename_i hskip
    exact List.filter_cons_of_pos (by simpa using hskip)

theorem alike_blockProcess {blk : Block} (h : w.Alike u) (hw : blockProcess w blk = .ok w') :
    w'.Alike u := by
  rw [blockProcess] at hw
  split at hw
  · cases hw
  · cases hw
    refine ⟨h.txDb, h.entitycnt, ?_⟩
    rw [Conn.db_query]
    exact h.addressinfo

/-- A run of events does what the calls among them do. -/
theorem run_applied {evs : List Event} (h : w.Alike u) (hw : run perform w evs = .ok w') :
    ∃ u', run transactionProcess u (applied evs) = .ok u' ∧ w'.Alike u' := by
  induction evs generalizing w u with
  | nil =>
    cases hw
    exact ⟨u, rfl, h⟩
  | cons e evs ih =>
    rw [run_cons] at hw
    obtain ⟨v, hv, hrest⟩ := bind_eq_ok.mp hw
    cases e with
    | block blk => exact ih (alike_blockProcess h hv) hrest
    | tx tx =>
      rw [perform] at hv
      rw [applied_tx]
      by_cases hskip : tx.Skipped
      · rw [if_pos hskip] at hv ⊢
        cases hv
        exact ih h hrest
      · rw [if_neg hskip] at hv ⊢
        obtain ⟨x, hx, hvx⟩ := abreast_transactionProcess h hv
        obtain ⟨u', hu', hwu⟩ := ih hvx.alike hrest
        refine ⟨u', ?_, hwu⟩
        rw [run_cons]
        exact bind_eq_ok.mpr ⟨x, hx, hu'⟩

/-- **Every transaction read is applied once**, whatever the block files hold,
but for those with the counters 142783 and 142841, which are not applied. -/
theorem addressinfo_of_calls {parameter : List Char} {o : Outcome}
    (h : unzipBlocks env stoptm w parameter = .ok o) :
    ∃ c evs r w', readCheckpoint parameter = some c ∧ trace env stoptm c = .ok (evs, r) ∧
      run transactionProcess { w with entitycnt := c.entitycnt }
        ((parsed evs).filter fun tx => ¬ tx.Skipped) = .ok w' ∧
      o.world.conn.db.addressinfo = w'.conn.db.addressinfo := by
  obtain ⟨c, evs, blkfileNum, p, v, hc, htrace, hrun, rfl⟩ := unzipBlocks_eq_ok.mp h
  obtain ⟨w', hw', halike⟩ := run_applied (.refl _) hrun
  refine ⟨c, evs, (blkfileNum, p), w', hc, htrace, hw', ?_⟩
  rw [halike.addressinfo]
  exact (sameTables_updateEntityMysql v).addressinfo

/-! ### A transaction in two blocks -/

/-- A block with the transaction `rawCoinbase` and a time stamp. -/
def minedBlock (time : ℕ) : List UInt8 :=
  leBytes 4 0xd9b4bef9 ++ leBytes 4 168 ++ List.replicate 68 0 ++ leBytes 4 time
    ++ List.replicate 8 0 ++ blockPayload [rawCoinbase]

/-- One block file, with the same transaction in both of its blocks. -/
def minedTwice : Env where
  blkfile i := if i = 0 then some (minedBlock 1000 ++ minedBlock 2000) else none
  heap _ _ := 0
  outside _ _ := none
  blockReward _ := none

def startText : List Char := ['0', '\n', '0', '\n', '-', '1', '\n', '-', '1', '\n', '0', '\n']

theorem addressinfo_of_calls_of_minedTwice :
    ∃ o c evs r w', unzipBlocks minedTwice 3000 (.fresh .null) startText = .ok o ∧
      trace minedTwice 3000 c = .ok (evs, r) ∧
      run transactionProcess { World.fresh .null with entitycnt := c.entitycnt }
        ((parsed evs).filter fun tx => ¬ tx.Skipped) = .ok w' ∧
      o.world.conn.db.addressinfo = w'.conn.db.addressinfo := by
  have hrun : (unzipBlocks minedTwice 3000 (.fresh .null) startText).toOption.isSome := by
    decide +kernel
  obtain ⟨o, ho⟩ := exists_ok hrun
  obtain ⟨c, evs, r, w', -, htrace, hcalls, htable⟩ := addressinfo_of_calls ho
  exact ⟨o, c, evs, r, w', ho, htrace, hcalls, htable⟩

/-- What `addressinfo` says of the address `rawCoinbase` pays. -/
def payee (db : Db) : Option (ℤ × ℕ) :=
  (db.addressinfo.find? (.replicate 20 7)).map fun row => (row.outval, row.outcnt)

/-- The two transactions read have one hash.  A call for either of them is one
payment, and the run makes two. -/
theorem applied_twice :
    ∃ r o, trace minedTwice 3000 ⟨0, 0, -1, -1, 0⟩ = .ok r ∧
      (parsed r.1).length = 2 ∧ ((parsed r.1).map (·.curhash)).Pairwise (· = ·) ∧
      (∀ tx ∈ parsed r.1, ∃ u, transactionProcess (.fresh .null) tx = .ok u ∧
        payee u.conn.db = some (5000000000, 1)) ∧
      unzipBlocks minedTwice 3000 (.fresh .null) startText = .ok o ∧
      payee o.world.conn.db = some (10000000000, 2) := by
  have htrace : ∃ r, trace minedTwice 3000 ⟨0, 0, -1, -1, 0⟩ = .ok r ∧
      (parsed r.1).length = 2 ∧ ((parsed r.1).map (·.curhash)).Pairwise (· = ·) ∧
      ∀ tx ∈ parsed r.1, ∃ u, transactionProcess (.fresh .null) tx = .ok u ∧
        payee u.conn.db = some (5000000000, 1) := by
    decide +kernel
  have hrun : ∃ o, unzipBlocks minedTwice 3000 (.fresh .null) startText = .ok o ∧
      payee o.world.conn.db = some (10000000000, 2) := by
    decide +kernel
  obtain ⟨r, hr, hlen, hhash, hone⟩ := htrace
  obtain ⟨o, ho, htwo⟩ := hrun
  exact ⟨r, o, hr, hlen, hhash, hone, ho, htwo⟩

end BitcoinAnalysis
