/-
Which addresses have a row, and when a call returns.

Only `INSERT … ON DUPLICATE KEY` opens a row of `addressinfo` and nothing
removes one (`Db.mem_keys_exec`), so after a call the addresses with a row are
those that had one and those the call pays (`mem_keys_call`).  A call returns
whenever its inputs resolve to addresses with a row and there is at least one
of them, or when its only input is a coinbase input
(`transactionProcess_total`).

`txinfo` and `blkinfo` only grow, by the rows the statements insert
(`Db.txinfo_foldl`, `Db.blkinfo_foldl`).
-/
import BitcoinAnalysis.CallSpec
import BitcoinAnalysis.EntitySpec

open Run

namespace BitcoinAnalysis

theorem Db.mem_keys_exec {db : Db} {j : Stmt} {a : Address} :
    a ∈ (db.exec j).addressinfo.keys ↔
      a ∈ db.addressinfo.keys ∨ ∃ v t, j = .upsertOutput a v t := by
  cases j with
  | upsertOutput b v t =>
    rw [Db.exec, KeyedTable.mem_keys_upsert, or_comm]
    refine or_congr_right ⟨?_, ?_⟩
    · rintro rfl
      exact ⟨v, t, rfl⟩
    · rintro ⟨v', t', h⟩
      cases h
      rfl
  | relabelEntity e0 e => simp [Db.exec]
  | setEntity b e => simp [Db.exec]
  | updateInput b v t => simp [Db.exec]
  | updateMaxbal b => simp [Db.exec]
  | _ => simp [Db.exec]

theorem Db.mem_keys_foldl {db : Db} {js : List Stmt} {a : Address} :
    a ∈ (js.foldl Db.exec db).addressinfo.keys ↔
      a ∈ db.addressinfo.keys ∨ ∃ v t, .upsertOutput a v t ∈ js := by
  induction js generalizing db with
  | nil => simp
  | cons j js ih =>
    rw [List.foldl_cons, ih, Db.mem_keys_exec, or_assoc]
    refine or_congr_right ⟨?_, ?_⟩
    · rintro (⟨v, t, rfl⟩ | ⟨v, t, h⟩)
      · exact ⟨v, t, List.mem_cons_self⟩
      · exact ⟨v, t, List.mem_cons_of_mem j h⟩
    · rintro ⟨v, t, h⟩
      rcases List.mem_cons.mp h with h | h
      · exact .inl ⟨v, t, h.symm⟩
      · exact .inr ⟨v, t, h⟩

theorem not_mem_debitStmts {pres : List (Bytes 28)} {t t' : UInt32} {a : Address} {v : UInt64} :
    .upsertOutput a v t' ∉ pres.flatMap (debitStmts t) := by
  intro h
  obtain ⟨p, -, -, hp⟩ := mem_debitStmts.mp h
  cases hp

theorem exists_mem_creditStmts {outs : List Txout} {t : UInt32} {a : Address} :
    (∃ v t', .upsertOutput a v t' ∈ outs.flatMap (creditStmts t)) ↔
      a ∈ outs.map Txout.address := by
  constructor
  · rintro ⟨v, t', h⟩
    obtain ⟨o, ho, h | h⟩ := mem_creditStmts.mp h
    · cases h
      exact List.mem_map_of_mem ho
    · cases h
  · intro h
    obtain ⟨o, ho, rfl⟩ := List.mem_map.mp h
    exact ⟨o.val, t, mem_creditStmts.mpr ⟨o, ho, .inl rfl⟩⟩

/-! ### The rows after each part of a call -/

variable {w w' : World} {tx : Transaction} {a : Address}

theorem mem_keys_afterDebits {pres : List (Bytes 28)} :
    a ∈ (afterDebits w tx pres).conn.db.addressinfo.keys ↔ a ∈ w.conn.db.addressinfo.keys := by
  rw [afterDebits, Conn.db_queries, Db.mem_keys_foldl]
  refine or_iff_left ?_
  rintro ⟨_, _, h⟩
  exact not_mem_debitStmts h

theorem mem_keys_inputEntityMysql {as : List Address} (h : inputEntityMysql w as = .ok w') :
    a ∈ w'.conn.db.addressinfo.keys ↔ a ∈ w.conn.db.addressinfo.keys := by
  obtain ⟨js, hconn, hjs⟩ := inputEntityMysql_journal h
  rw [hconn, Conn.db_queries, Db.mem_keys_foldl]
  refine or_iff_left ?_
  rintro ⟨v, t, h⟩
  rcases hjs _ h with ⟨e0, e, h⟩ | ⟨e, h⟩
  · cases h
  · cases h

theorem mem_keys_afterCredits :
    a ∈ (afterCredits w tx).conn.db.addressinfo.keys ↔
      a ∈ w.conn.db.addressinfo.keys ∨ a ∈ tx.outs.map Txout.address := by
  rw [afterCredits, Conn.db_queries, Db.mem_keys_foldl, exists_mem_creditStmts]

theorem mem_keys_outputEntityMysql {as : List Address} (h : outputEntityMysql w as = .ok w') :
    a ∈ w'.conn.db.addressinfo.keys ↔ a ∈ w.conn.db.addressinfo.keys := by
  obtain ⟨js, hconn, hjs⟩ := outputEntityMysql_journal h
  rw [hconn, Conn.db_queries, Db.mem_keys_foldl]
  refine or_iff_left ?_
  rintro ⟨v, t, h⟩
  rcases hjs _ h with ⟨b, e, h⟩ | ⟨e, h⟩
  · cases h
  · cases h

theorem mem_keys_afterPut {pres : List (Bytes 28)} :
    a ∈ (afterPut w tx pres).conn.db.addressinfo.keys ↔ a ∈ w.conn.db.addressinfo.keys := by
  rw [afterPut, Conn.db_query]
  rfl

/-- **The rows after a call** are the rows before it and those of its outputs. -/
theorem mem_keys_call (h : transactionProcess w tx = .ok w') :
    a ∈ w'.conn.db.addressinfo.keys ↔
      a ∈ w.conn.db.addressinfo.keys ∨ a ∈ tx.outs.map Txout.address := by
  obtain ⟨-, pres, wi, wo, -, hwi, hwo, rfl⟩ := transactionProcess_eq_ok.mp h
  rw [mem_keys_afterPut, mem_keys_outputEntityMysql hwo, mem_keys_afterCredits,
    mem_keys_inputEntityMysql hwi, mem_keys_afterDebits]

/-! ### The statements of a call -/

/-- The statements a call sends before its row of `txinfo`. -/
def Stmt.OfCall : Stmt → Prop
  | .aggregateEntity .. | .insertTx .. | .insertBlk .. => False
  | _ => True

theorem ofCall_debitStmts {t : UInt32} {pres : List (Bytes 28)} {j : Stmt}
    (h : j ∈ pres.flatMap (debitStmts t)) : j.OfCall := by
  obtain ⟨p, -, -, rfl⟩ := mem_debitStmts.mp h
  trivial

theorem ofCall_creditStmts {t : UInt32} {outs : List Txout} {j : Stmt}
    (h : j ∈ outs.flatMap (creditStmts t)) : j.OfCall := by
  obtain ⟨o, -, rfl | rfl⟩ := mem_creditStmts.mp h
  · trivial
  · trivial

/-- **The statements of a call**, the row of `txinfo` last. -/
theorem transactionProcess_journal {pres : List (Bytes 28)}
    (h : transactionProcess w tx = .ok w') (hres : tx.ins.mapM (resolve w.txDb) = .ok pres) :
    ∃ js, w'.conn = w.conn.queries (js ++ [.insertTx (tx.txRow pres)]) ∧ ∀ j ∈ js, j.OfCall := by
  obtain ⟨-, pres', wi, wo, hres', hwi, hwo, rfl⟩ := transactionProcess_eq_ok.mp h
  obtain rfl : pres = pres' := Except.ok.inj (hres.symm.trans hres')
  obtain ⟨js, hjs, hjs'⟩ := inputEntityMysql_journal hwi
  obtain ⟨ks, hks, hks'⟩ := outputEntityMysql_journal hwo
  refine ⟨pres.flatMap (debitStmts tx.txtime) ++ js ++ tx.outs.flatMap (creditStmts tx.txtime)
    ++ ks, ?_, fun j hj => ?_⟩
  · rw [afterPut, hks, afterCredits, hjs, afterDebits]
    simp only [Conn.queries_query, Conn.queries_queries, List.append_assoc]
  · simp only [List.mem_append] at hj
    rcases hj with ((hj | hj) | hj) | hj
    · exact ofCall_debitStmts hj
    · rcases hjs' j hj with ⟨e0, e, rfl⟩ | ⟨e, rfl⟩
      · trivial
      · trivial
    · exact ofCall_creditStmts hj
    · rcases hks' j hj with ⟨b, e, rfl⟩ | ⟨e, rfl⟩
      · trivial
      · trivial

/-- The rows of `txinfo` that statements insert. -/
def txRows (js : List Stmt) : List TxRow :=
  js.filterMap fun
    | .insertTx row => some row
    | _ => none

/-- The rows of `blkinfo` that statements insert. -/
def blkRows (js : List Stmt) : List BlkRow :=
  js.filterMap fun
    | .insertBlk row => some row
    | _ => none

theorem txRows_append (js ks : List Stmt) : txRows (js ++ ks) = txRows js ++ txRows ks :=
  List.filterMap_append

theorem blkRows_append (js ks : List Stmt) : blkRows (js ++ ks) = blkRows js ++ blkRows ks :=
  List.filterMap_append

theorem Db.txinfo_foldl (db : Db) (js : List Stmt) :
    (js.foldl Db.exec db).txinfo = db.txinfo ++ txRows js := by
  induction js generalizing db with
  | nil => exact (List.append_nil _).symm
  | cons j js ih =>
    rw [List.foldl_cons, ih]
    cases j with
    | insertTx row => exact List.append_assoc _ _ _
    | _ => rfl

theorem Db.blkinfo_foldl (db : Db) (js : List Stmt) :
    (js.foldl Db.exec db).blkinfo = db.blkinfo ++ blkRows js := by
  induction js generalizing db with
  | nil => exact (List.append_nil _).symm
  | cons j js ih =>
    rw [List.foldl_cons, ih]
    cases j with
    | insertBlk row => exact List.append_assoc _ _ _
    | _ => rfl

/-- Statements of a call insert no rows of these tables. -/
theorem rows_ofCall {js : List Stmt} (h : ∀ j ∈ js, j.OfCall) :
    txRows js = [] ∧ blkRows js = [] := by
  constructor
  · refine List.filterMap_eq_nil_iff.mpr fun j hj => ?_
    cases j with
    | insertTx row => exact (h _ hj).elim
    | _ => rfl
  · refine List.filterMap_eq_nil_iff.mpr fun j hj => ?_
    cases j with
    | insertBlk row => exact (h _ hj).elim
    | _ => rfl

/-- A call adds one row to `txinfo`. -/
theorem transactionProcess_txinfo {pres : List (Bytes 28)}
    (h : transactionProcess w tx = .ok w') (hres : tx.ins.mapM (resolve w.txDb) = .ok pres) :
    w'.conn.db.txinfo = w.conn.db.txinfo ++ [tx.txRow pres] := by
  obtain ⟨js, hconn, hjs⟩ := transactionProcess_journal h hres
  rw [hconn, Conn.db_queries, Db.txinfo_foldl, txRows_append, (rows_ofCall hjs).1]
  rfl

/-! ### Calls return -/

/-- **A call returns** when its inputs resolve to addresses with a row. -/
theorem transactionProcess_total {pres : List (Bytes 28)} (hfit : tx.recordLength < 2 ^ 31)
    (hres : tx.ins.mapM (resolve w.txDb) = .ok pres)
    (hrows : pres.map preaddress = [coinbaseH] ∨
      pres ≠ [] ∧ ∀ p ∈ pres, preaddress p ∈ w.conn.db.addressinfo.keys) :
    ∃ w', transactionProcess w tx = .ok w' := by
  obtain ⟨wi, hwi⟩ : ∃ wi, inputEntityMysql (afterDebits w tx pres) (pres.map preaddress)
      = .ok wi := by
    refine inputEntityMysql_total (hrows.imp_right ?_)
    rintro ⟨hne, hmem⟩
    constructor
    · rwa [ne_eq, List.map_eq_nil_iff]
    · intro b hb
      obtain ⟨p, hp, rfl⟩ := List.mem_map.mp hb
      exact mem_keys_afterDebits.mpr (hmem p hp)
  obtain ⟨wo, hwo⟩ : ∃ wo, outputEntityMysql (afterCredits wi tx) (tx.outs.map Txout.address)
      = .ok wo :=
    outputEntityMysql_total fun b hb => mem_keys_afterCredits.mpr (.inr hb)
  exact ⟨_, transactionProcess_eq_ok.mpr ⟨hfit, pres, wi, wo, hres, hwi, hwo, rfl⟩⟩

end BitcoinAnalysis
