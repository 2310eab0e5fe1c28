/-
How the rows of `txinfo` and `blkinfo` belong together.

A block adds one row to `blkinfo` and, in front of it, a row to `txinfo` for each of
its transactions but the two that are skipped.  Nothing in the database ties the
two tables; that they fit is a property of the runs:

* `months_filed` — after any run of consecutive months the new rows fall into
  groups, one for each block, with block numbers and transaction counters that go
  on without a gap from the first checkpoint, over all files and all months;
* `restart_repeats` — when a run is broken off and started again from the
  checkpoint it had started from, the new process sends the rows of everything the
  old one had processed a second time.
-/
import BitcoinAnalysis.Numbering
import BitcoinAnalysis.Reruns

open Run Trace

namespace BitcoinAnalysis

variable {env : Env} {stoptm : ℤ} {c : Checkpoint} {evs es : List Event} {num : Int32}
  {p q : Progress} {w w' : World} {tx : Transaction} {txs : List Transaction} {blk : Block}

/-! ### Groups of rows -/

/-- The rows of a block. -/
structure RowGroup where
  txs : List TxRow
  blk : BlkRow

/-- The counters of `n` transactions in a row, without those that are skipped. -/
def counters (first : Int32) (n : ℕ) : List UInt32 :=
  ((List.range n).map fun k => (first + Int32.ofNat k).toUInt32).filter fun x =>
    !(x == 142783 || x == 142841)

/-- Groups numbered in a row from a checkpoint on; the next block has the number
`blocknum`, the next transaction the counter `txcounter`. -/
inductive Filed (c : Checkpoint) : List RowGroup → Int32 → Int32 → Prop
  | nil : Filed c [] (c.blocknum + 1) (c.txcounter + 1)
  | snoc {gs : List RowGroup} {blocknum txcounter : Int32} {g : RowGroup} :
      Filed c gs blocknum txcounter →
      g.blk.blocknumber = blocknum.toUInt32 →
      (∀ row ∈ g.txs, row.blocknumber = g.blk.blocknumber ∧ row.txtime = g.blk.blktime) →
      g.txs.map TxRow.txcounter = counters txcounter g.blk.transCount.toNat →
      Filed c (gs ++ [g]) (blocknum + 1) (txcounter + Int32.ofNat g.blk.transCount.toNat)

/-! ### The rows of a round -/

/-- The row is one `Transaction2MySQL` writes for the transaction. -/
def TxRow.Of (row : TxRow) (tx : Transaction) : Prop := ∃ pres, row = tx.txRow pres

/-- The row is the one `BlockProcess` writes for the block. -/
def BlkRow.Of (row : BlkRow) (blk : Block) : Prop :=
  row.curhash = blk.curhash.reverse ∧ row.blocknumber = blk.blocknumber ∧
    row.transCount = blk.transCount ∧ row.blktime = blk.head.timeStamp

theorem sends_transactionProcess (h : transactionProcess w tx = .ok w') :
    ∃ js row, w'.conn = w.conn.queries js ∧ txRows js = [row] ∧ row.Of tx ∧ blkRows js = [] := by
  obtain ⟨-, pres, _, _, hpres, -⟩ := transactionProcess_eq_ok.mp h
  obtain ⟨js, hconn, hjs⟩ := transactionProcess_journal h hpres
  obtain ⟨htx, hblk⟩ := rows_ofCall hjs
  refine ⟨_, tx.txRow pres, hconn, ?_, ⟨pres, rfl⟩, ?_⟩
  · rw [txRows_append, htx]
    rfl
  · rw [blkRows_append, hblk]
    rfl

theorem sends_blockProcess (h : blockProcess w blk = .ok w') :
    ∃ row, w'.conn = w.conn.queries [.insertBlk row] ∧ row.Of blk := by
  rw [blockProcess] at h
  split at h
  · cases h
  · cases h
    exact ⟨_, rfl, rfl, rfl, rfl, rfl⟩

/-- **The rows a run sends**: one for each transaction it has processed, and one for
each block. -/
theorem sends_run (h : run perform w evs = .ok w') :
    ∃ js, w'.conn = w.conn.queries js ∧ List.Forall₂ TxRow.Of (txRows js) (applied evs) ∧
      List.Forall₂ BlkRow.Of (blkRows js) (processedBlocks evs) := by
  induction evs generalizing w with
  | nil =>
    cases h
    exact ⟨[], (Conn.queries_nil _).symm, .nil, .nil⟩
  | cons e evs ih =>
    rw [run_cons] at h
    obtain ⟨v, hv, hrest⟩ := bind_eq_ok.mp h
    obtain ⟨ks, hks, hof, hofb⟩ := ih hrest
    cases e with
    | block blk =>
      obtain ⟨row, hconn, hrow⟩ := sends_blockProcess hv
      exact ⟨.insertBlk row :: ks, by rw [hks, hconn, Conn.queries_queries]; rfl, hof,
        .cons hrow hofb⟩
    | tx tx =>
      rw [perform] at hv
      rw [applied_tx]
      by_cases hskip : tx.Skipped
      · rw [if_pos hskip] at hv ⊢
        cases hv
        exact ⟨ks, hks, hof, hofb⟩
      · rw [if_neg hskip] at hv ⊢
        obtain ⟨js, row, hconn, htx, hrow, hblk⟩ := sends_transactionProcess hv
        refine ⟨js ++ ks, by rw [hks, hconn, Conn.queries_queries], ?_, ?_⟩
        · rw [txRows_append, htx]
          exact .cons hrow hof
        · rw [blkRows_append, hblk]
          exact hofb

/-- What a run inserts. -/
theorem rows_run (h : run perform w evs = .ok w') :
    ∃ rows blks, w'.conn.db.txinfo = w.conn.db.txinfo ++ rows ∧
      w'.conn.db.blkinfo = w.conn.db.blkinfo ++ blks ∧
      List.Forall₂ TxRow.Of rows (applied evs) ∧
      List.Forall₂ BlkRow.Of blks (processedBlocks evs) := by
  obtain ⟨js, hconn, hof, hofb⟩ := sends_run h
  refine ⟨txRows js, blkRows js, ?_, ?_, hof, hofb⟩
  · rw [hconn, Conn.db_queries, Db.txinfo_foldl]
  · rw [hconn, Conn.db_queries, Db.blkinfo_foldl]

theorem TxRow.Of.mem {rows : List TxRow} (h : List.Forall₂ TxRow.Of rows txs) {row : TxRow}
    (hrow : row ∈ rows) : ∃ tx ∈ txs, row.Of tx := by
  induction h with
  | nil => cases hrow
  | @cons r tx rows txs hof _ ih =>
    rcases List.mem_cons.mp hrow with rfl | hrow
    · exact ⟨tx, by simp, hof⟩
    · obtain ⟨tx', htx', hof'⟩ := ih hrow
      exact ⟨tx', by simp [htx'], hof'⟩

/-- A column of the rows that the transactions have as well. -/
theorem TxRow.Of.map_eq {α : Type} {f : TxRow → α} {g : Transaction → α}
    (hfg : ∀ (tx : Transaction) pres, f (tx.txRow pres) = g tx) {rows : List TxRow}
    (h : List.Forall₂ TxRow.Of rows txs) : rows.map f = txs.map g := by
  induction h with
  | nil => rfl
  | cons hof _ ih =>
    obtain ⟨pres, rfl⟩ := hof
    rw [List.map_cons, List.map_cons, ih, hfg]

/-! ### The rounds of a run -/

theorem map_txcounter_blockRead (h : BlockRead p txs blk q) :
    (txs.filter fun tx => ¬ tx.Skipped).map Transaction.txcounter
      = counters p.txcounter blk.transCount.toNat := by
  have hall : txs.map Transaction.txcounter
      = (List.range blk.transCount.toNat).map fun k => (p.txcounter + Int32.ofNat k).toUInt32 := by
    refine List.ext_getElem? fun k => ?_
    rw [List.getElem?_map, List.getElem?_map, ← h.count]
    by_cases hk : k < txs.length
    · have hget : txs[k]? = some txs[k] := List.getElem?_eq_getElem hk
      rw [hget, List.getElem?_range hk, Option.map_some, Option.map_some,
        (h.numbers k _ hget).2.2.2]
    · simp [Nat.le_of_not_lt hk]
  rw [counters, ← hall, List.filter_map]
  congr 1
  refine List.filter_congr fun tx _ => ?_
  rw [Bool.eq_iff_iff]
  simp [Transaction.Skipped]

/-- The rows of one round make a group. -/
theorem filed_round {gs : List RowGroup} (hgs : Filed c gs p.blockNum p.txcounter)
    (hread : BlockRead p txs blk q)
    (hrun : run perform w (txs.map .tx ++ [.block blk]) = .ok w') :
    ∃ g, Filed c (gs ++ [g]) q.blockNum q.txcounter ∧
      w'.conn.db.txinfo = w.conn.db.txinfo ++ g.txs ∧
      w'.conn.db.blkinfo = w.conn.db.blkinfo ++ [g.blk] := by
  obtain ⟨rows, blks, hrows, hblks, hof, hofb⟩ := rows_run hrun
  rw [processedBlocks_block] at hofb
  rw [applied, parsed_block] at hof
  obtain ⟨row, none, ⟨-, hnum, hcount, htime⟩, hnone, rfl⟩ :=
    List.forall₂_cons_right_iff.mp hofb
  obtain rfl : none = [] := List.forall₂_nil_right_iff.mp hnone
  refine ⟨⟨rows, row⟩, ?_, hrows, hblks⟩
  have hfiled := Filed.snoc (g := ⟨rows, row⟩) hgs (hnum.trans hread.blocknumber) ?_ ?_
  · rw [hread.blockNum, hread.txcounter, hread.count, ← hcount]
    exact hfiled
  · intro r hr
    obtain ⟨tx, htx, pres, rfl⟩ := TxRow.Of.mem hof hr
    obtain ⟨k, hk⟩ := List.mem_iff_getElem?.mp (List.mem_of_mem_filter htx)
    obtain ⟨hb, ht, -, -⟩ := hread.numbers k tx hk
    exact ⟨hb.trans (hnum.trans hread.blocknumber).symm, by rw [htime, hread.head]; exact ht⟩
  · rw [TxRow.Of.map_eq (g := Transaction.txcounter) (fun _ _ => rfl) hof,
      map_txcounter_blockRead hread, hcount]

/-- At every head the rows so far fall into groups. -/
theorem Reached.filed (h : Reached env stoptm c evs num p) {w₀ v : World}
    (hrun : run perform w₀ evs = .ok v) :
    ∃ gs, Filed c gs p.blockNum p.txcounter ∧
      v.conn.db.txinfo = w₀.conn.db.txinfo ++ gs.flatMap RowGroup.txs ∧
      v.conn.db.blkinfo = w₀.conn.db.blkinfo ++ gs.map RowGroup.blk := by
  induction h generalizing v with
  | first =>
    cases hrun
    rw [(counters_enter _ _).1, (counters_enter _ _).2]
    exact ⟨[], .nil, by simp, by simp⟩
  | round _ hgoes ih =>
    obtain ⟨u, hu, hround⟩ := run_append_ok.mp hrun
    obtain ⟨gs, hgs, htx, hblk⟩ := ih hu
    obtain ⟨txs, blk, rfl, hread⟩ := hgoes.exists_block
    obtain ⟨g, hg, htx', hblk'⟩ := filed_round hgs hread hround
    refine ⟨gs ++ [g], hg, ?_, ?_⟩
    · rw [htx', htx, List.flatMap_append, List.append_assoc]
      simp
    · rw [hblk', hblk, List.map_append, List.append_assoc]
      rfl
  | file _ _ _ ih =>
    rw [(counters_enter _ _).1, (counters_enter _ _).2]
    exact ih hrun

/-- **The rows of consecutive months** fall into groups that are numbered in a row
from the first checkpoint on, whatever the reports of the months print. -/
theorem months_filed {ρ : Type} {report : Report ρ} {printed : ρ} {parameter : List Char}
    {a n : ℕ} {s : Console ρ} (hc : readCheckpoint parameter = some c)
    (h : months report env a n ⟨w, parameter, printed⟩ = .ok s) :
    ∃ gs blocknum txcounter, Filed c gs blocknum txcounter ∧
      s.world.conn.db.txinfo = w.conn.db.txinfo ++ gs.flatMap RowGroup.txs ∧
      s.world.conn.db.blkinfo = w.conn.db.blkinfo ++ gs.map RowGroup.blk := by
  obtain ⟨evs, t, hcaught, -, hzero, htrace⟩ := caught_months hc h
  obtain ⟨c', -, ⟨v, hv, -, htables⟩, -⟩ := hcaught.next
  rw [htables.txinfo, htables.blkinfo]
  -- what was read, was read in front of a head
  have hends : evs = [] ∨ ∃ t num p, Reached env t c evs num p := by
    by_cases hn : n = 0
    · exact .inl (hzero hn)
    · obtain ⟨r, hr⟩ := htrace hn
      rcases (trace_ends hr).reached with hnil | ⟨num, p, hreached⟩
      · exact .inl hnil
      · exact .inr ⟨_, num, p, hreached⟩
  rcases hends with rfl | ⟨t, num, p, hreached⟩
  · cases hv
    exact ⟨[], _, _, .nil, by simp, by simp⟩
  · obtain ⟨gs, hgs, htx, hblk⟩ := hreached.filed hv
    exact ⟨gs, _, _, hgs, htx, hblk⟩

theorem readCheckpoint_startText : readCheckpoint startText = some ⟨0, 0, -1, -1, 0⟩ := by
  decide +kernel

/-- A block of September and one of October 2010, with the reports of both months. -/
theorem months_filed_autumn :
    ∃ s gs blocknum txcounter,
      fullMonths (fun _ => 1) (fun _ => []) autumn 20 2 beginning = .ok s ∧
      s.world.conn.db.blkinfo.length = 2 ∧ Filed ⟨0, 0, -1, -1, 0⟩ gs blocknum txcounter ∧
      s.world.conn.db.txinfo = gs.flatMap RowGroup.txs ∧
      s.world.conn.db.blkinfo = gs.map RowGroup.blk := by
  obtain ⟨s, hs⟩ : Returns (fullMonths (fun _ => 1) (fun _ => []) autumn 20 2 beginning) :=
    fullMonths_of_allReportable allReportable_autumn
  have hlength : (months noReport autumn 20 2 beginning.stores).toOption.all
      (fun t => t.world.conn.db.blkinfo.length = 2) = true := by
    decide +kernel
  rw [months_stores hs] at hlength
  obtain ⟨gs, blocknum, txcounter, hgs, htx, hblk⟩ := months_filed readCheckpoint_startText hs
  exact ⟨s, gs, blocknum, txcounter, hs, of_decide_eq_true hlength, hgs, htx, hblk⟩

/-! ### A run that is broken off -/

/-- The stores as a new process finds them: with a connection of its own, and nothing
remembered. -/
def World.reopened (w : World) : World := { w with conn := ⟨w.conn.db, []⟩, entitychangeV := [] }

theorem rows_aggregates (es : List UInt32) :
    txRows (es.map .aggregateEntity) = [] ∧ blkRows (es.map .aggregateEntity) = [] := by
  constructor
  · exact List.filterMap_eq_nil_iff.mpr (by simp)
  · exact List.filterMap_eq_nil_iff.mpr (by simp)

/-- **Starting again after a break.**  A process is broken off when it has handled the
first `k` of its events, and a new one is started with the checkpoint it had started
from.  The old process has sent the rows of these events, and the new one sends the
rows of all of them. -/
theorem restart_repeats {parameter : List Char} {k : ℕ} {r : Int32 × Progress} {w₁ : World}
    {heap : UInt32 → ℕ → UInt8} {o : Outcome} (hc : readCheckpoint parameter = some c)
    (htrace : trace env stoptm c = .ok (evs, r))
    (hbroken : run perform { w with entitycnt := c.entitycnt } (evs.take k) = .ok w₁)
    (hmem : heap = env.heap ∨ WholeFiles env c)
    (h : unzipBlocks { env with heap := heap } stoptm w₁.reopened parameter = .ok o) :
    ∃ js, w₁.conn.journal = w.conn.journal ++ js ∧
      List.Forall₂ TxRow.Of (txRows js) (applied (evs.take k)) ∧
      List.Forall₂ BlkRow.Of (blkRows js) (processedBlocks (evs.take k)) ∧
      List.Forall₂ TxRow.Of (txRows o.world.conn.journal) (applied evs) ∧
      List.Forall₂ BlkRow.Of (blkRows o.world.conn.journal) (processedBlocks evs) := by
  obtain ⟨c', evs', num, p, w', hc', htrace', hrun, rfl⟩ := unzipBlocks_eq_ok.mp h
  obtain rfl : c = c' := Option.some.inj (hc.symm.trans hc')
  -- the new process reads what the old one was reading
  have hsame : trace env stoptm c = .ok (evs', num, p) := (trace_memory hmem).mp htrace'
  obtain rfl : evs = evs' := congrArg Prod.fst (Except.ok.inj (htrace.symm.trans hsame))
  obtain ⟨js, hjs, hof, hofb⟩ := sends_run hbroken
  obtain ⟨ks, hks, hof', hofb'⟩ := sends_run hrun
  have hjournal : w'.conn.journal = ks := by rw [hks]; rfl
  obtain ⟨htx, hblk⟩ := rows_aggregates (unique (w'.entitychangeV.insertionSort (· ≤ ·)))
  refine ⟨js, by rw [hjs]; rfl, hof, hofb, ?_, ?_⟩
  · show List.Forall₂ TxRow.Of (txRows (w'.conn.journal ++ _)) _
    rw [txRows_append, htx, List.append_nil, hjournal]
    exact hof'
  · show List.Forall₂ BlkRow.Of (blkRows (w'.conn.journal ++ _)) _
    rw [blkRows_append, hblk, List.append_nil, hjournal]
    exact hofb'

/-- Broken off behind the first of two blocks: its rows are sent twice. -/
theorem restart_repeats_minedTwice :
    ∃ r w₁ o, trace minedTwice 3000 ⟨0, 0, -1, -1, 0⟩ = .ok r ∧
      run perform { World.fresh .null with entitycnt := 0 } (r.1.take 2) = .ok w₁ ∧
      unzipBlocks minedTwice 3000 w₁.reopened startText = .ok o ∧
      List.Forall₂ TxRow.Of (txRows w₁.conn.journal) (applied (r.1.take 2)) ∧
      List.Forall₂ TxRow.Of (txRows o.world.conn.journal) (applied r.1) ∧
      (applied (r.1.take 2)).length = 1 := by
  have hall : ∃ r, trace minedTwice 3000 ⟨0, 0, -1, -1, 0⟩ = .ok r ∧
      ∃ w₁, run perform { World.fresh .null with entitycnt := 0 } (r.1.take 2) = .ok w₁ ∧
        (unzipBlocks minedTwice 3000 w₁.reopened startText).toOption.isSome = true ∧
        (applied (r.1.take 2)).length = 1 := by
    decide +kernel
  obtain ⟨r, hr, w₁, hw₁, hok, hlength⟩ := hall
  obtain ⟨o, ho⟩ := exists_ok hok
  obtain ⟨js, hjs, hof, -, hof', -⟩ :=
    restart_repeats (w := .fresh .null) readCheckpoint_startText hr hw₁ (.inl rfl) ho
  rw [← List.nil_append js] at hof
  exact ⟨r, w₁, o, hr, hw₁, ho, by rw [hjs]; exact hof, hof', hlength⟩

end BitcoinAnalysis
