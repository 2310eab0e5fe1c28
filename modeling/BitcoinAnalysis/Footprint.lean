/-
What a run looks at.

`TransactionProcess` sees of the stores LevelDB, the entity counter and
`addressinfo`, and nothing else.  From two states that agree on these (`Alike`)
the same transactions send the same statements (`abreast_run`), so tables that
were equal stay equal (`SameTables.foldl`), whatever stands in the aggregate
columns of `entityinfo`.
-/
import BitcoinAnalysis.Rows
import BitcoinAnalysis.UnzipTrace

open Run

namespace BitcoinAnalysis

variable {w u w' u' w'' u'' : World}

/-- The two states show the same to `TransactionProcess`. -/
structure World.Alike (w u : World) : Prop where
  txDb : u.txDb = w.txDb
  entitycnt : u.entitycnt = w.entitycnt
  addressinfo : u.conn.db.addressinfo = w.conn.db.addressinfo

theorem World.Alike.refl (w : World) : w.Alike w := ⟨rfl, rfl, rfl⟩

theorem World.Alike.symm (h : w.Alike u) : u.Alike w :=
  ⟨h.txDb.symm, h.entitycnt.symm, h.addressinfo.symm⟩

/-- From `w` and from `u` the same statements were sent. -/
structure Abreast (w u w' u' : World) : Prop where
  alike : w'.Alike u'
  sent : ∃ js, w'.conn = w.conn.queries js ∧ u'.conn = u.conn.queries js

theorem Abreast.refl (h : w.Alike u) : Abreast w u w u :=
  ⟨h, [], by rw [Conn.queries_nil], by rw [Conn.queries_nil]⟩

theorem Abreast.trans (h : Abreast w u w' u') (h' : Abreast w' u' w'' u'') :
    Abreast w u w'' u'' := by
  obtain ⟨-, js, hw, hu⟩ := h
  obtain ⟨halike, ks, hw', hu'⟩ := h'
  refine ⟨halike, js ++ ks, ?_, ?_⟩
  · rw [hw', hw, Conn.queries_queries]
  · rw [hu', hu, Conn.queries_queries]

/-! ### Statements -/

theorem Db.addressinfo_exec {db db' : Db} (h : db'.addressinfo = db.addressinfo) (j : Stmt) :
    (db'.exec j).addressinfo = (db.exec j).addressinfo := by
  cases j <;> simp only [Db.exec, h]

theorem Db.addressinfo_foldl {db db' : Db} (h : db'.addressinfo = db.addressinfo)
    (js : List Stmt) : (js.foldl Db.exec db').addressinfo = (js.foldl Db.exec db).addressinfo := by
  induction js generalizing db db' with
  | nil => exact h
  | cons j js ih => exact ih (Db.addressinfo_exec h j)

theorem World.Alike.queries (h : w.Alike u) (js : List Stmt) (d : KeyedTable Hash (List UInt8))
    (n : UInt32) (v v' : List UInt32) :
    World.Alike ⟨w.conn.queries js, d, n, v⟩ ⟨u.conn.queries js, d, n, v'⟩ := by
  refine ⟨rfl, rfl, ?_⟩
  rw [Conn.db_queries, Conn.db_queries]
  exact Db.addressinfo_foldl h.addressinfo js

/-- Equal tables, as far as the aggregate columns of `entityinfo` are left out. -/
structure SameTables (db db' : Db) : Prop where
  addressinfo : db'.addressinfo = db.addressinfo
  txinfo : db'.txinfo = db.txinfo
  blkinfo : db'.blkinfo = db.blkinfo
  entities : db'.entityinfo.keys = db.entityinfo.keys

theorem SameTables.refl (db : Db) : SameTables db db := ⟨rfl, rfl, rfl, rfl⟩

theorem SameTables.symm {db db' : Db} (h : SameTables db db') : SameTables db' db :=
  ⟨h.addressinfo.symm, h.txinfo.symm, h.blkinfo.symm, h.entities.symm⟩

theorem SameTables.trans {db db' db'' : Db} (h : SameTables db db') (h' : SameTables db' db'') :
    SameTables db db'' :=
  ⟨h'.addressinfo.trans h.addressinfo, h'.txinfo.trans h.txinfo, h'.blkinfo.trans h.blkinfo,
    h'.entities.trans h.entities⟩

theorem SameTables.exec {db db' : Db} (h : SameTables db db') (j : Stmt) :
    SameTables (db.exec j) (db'.exec j) := by
  refine ⟨Db.addressinfo_exec h.addressinfo j, ?_, ?_, ?_⟩
  · cases j <;> simp only [Db.exec, h.txinfo]
  · cases j <;> simp only [Db.exec, h.blkinfo]
  · cases j <;> simp only [Db.exec, KeyedTable.keys_delete, KeyedTable.keys_upsert,
      KeyedTable.keys_modify, h.entities]

theorem SameTables.foldl {db db' : Db} (h : SameTables db db') (js : List Stmt) :
    SameTables (js.foldl Db.exec db) (js.foldl Db.exec db') := by
  induction js generalizing db db' with
  | nil => exact h
  | cons j js ih => exact ih (h.exec j)

theorem Abreast.sameTables (h : Abreast w u w' u') (h₀ : SameTables w.conn.db u.conn.db) :
    SameTables w'.conn.db u'.conn.db := by
  obtain ⟨-, js, hw, hu⟩ := h
  rw [hw, hu, Conn.db_queries, Conn.db_queries]
  exact h₀.foldl js

/-! ### Calls -/

theorem World.Alike.selectEntity (h : w.Alike u) :
    selectEntity u.conn.db = selectEntity w.conn.db := by
  funext a
  rw [BitcoinAnalysis.selectEntity, BitcoinAnalysis.selectEntity, h.addressinfo]

theorem abreast_inputEntityMysql {as : List Address} (h : w.Alike u)
    (hw : inputEntityMysql w as = .ok w') :
    ∃ u', inputEntityMysql u as = .ok u' ∧ Abreast w u w' u' := by
  rcases inputEntityMysql_eq_ok.mp hw with ⟨has, rfl⟩ | ⟨has, entityV, e0, es, hV, hsort, rfl⟩
  · exact ⟨u, inputEntityMysql_eq_ok.mpr (.inl ⟨has, rfl⟩), .refl h⟩
  · rw [← h.selectEntity] at hV
    refine ⟨_, inputEntityMysql_eq_ok.mpr (.inr ⟨has, entityV, e0, es, hV, hsort, rfl⟩), ?_, ?_⟩
    · rw [h.txDb, h.entitycnt]
      exact h.queries _ _ _ _ _
    · exact ⟨mergeStmts e0 e0 es, rfl, rfl⟩

theorem abreast_outputEntityStep {a : Address} (h : w.Alike u)
    (hw : outputEntityStep w a = .ok w') :
    ∃ u', outputEntityStep u a = .ok u' ∧ Abreast w u w' u' := by
  obtain ⟨row, hrow, rfl⟩ := outputEntityStep_eq_ok.mp hw
  rw [← h.addressinfo] at hrow
  refine ⟨_, outputEntityStep_eq_ok.mpr ⟨row, hrow, rfl⟩, ?_⟩
  rw [h.txDb, h.entitycnt]
  split
  · exact ⟨h.queries _ _ _ _ _, _, rfl, rfl⟩
  · exact ⟨⟨rfl, rfl, h.addressinfo⟩, [], by rw [Conn.queries_nil], by rw [Conn.queries_nil]⟩

theorem abreast_outputEntityMysql {as : List Address} (h : w.Alike u)
    (hw : outputEntityMysql w as = .ok w') :
    ∃ u', outputEntityMysql u as = .ok u' ∧ Abreast w u w' u' := by
  refine run_simulation (R := Abreast w u) (fun hR hstep => ?_) (.refl h) hw
  obtain ⟨t', ht', hR'⟩ := abreast_outputEntityStep hR.alike hstep
  exact ⟨t', ht', hR.trans hR'⟩

/-- **What a call looks at**: from states that show it the same, the same call
returns and sends the same statements. -/
theorem abreast_transactionProcess {tx : Transaction} (h : w.Alike u)
    (hw : transactionProcess w tx = .ok w') :
    ∃ u', transactionProcess u tx = .ok u' ∧ Abreast w u w' u' := by
  obtain ⟨hfit, pres, wi, wo, hres, hwi, hwo, rfl⟩ := transactionProcess_eq_ok.mp hw
  have hdebits : Abreast w u (afterDebits w tx pres) (afterDebits u tx pres) := by
    rw [afterDebits, afterDebits, h.txDb, h.entitycnt]
    exact ⟨h.queries _ _ _ _ _, _, rfl, rfl⟩
  obtain ⟨ui, hui, hin⟩ := abreast_inputEntityMysql hdebits.alike hwi
  have hcredits : Abreast wi ui (afterCredits wi tx) (afterCredits ui tx) := by
    rw [afterCredits, afterCredits, hin.alike.txDb, hin.alike.entitycnt]
    exact ⟨hin.alike.queries _ _ _ _ _, _, rfl, rfl⟩
  obtain ⟨uo, huo, hout⟩ := abreast_outputEntityMysql hcredits.alike hwo
  have hput : Abreast wo uo (afterPut wo tx pres) (afterPut uo tx pres) := by
    rw [afterPut, afterPut, hout.alike.txDb, hout.alike.entitycnt]
    exact ⟨hout.alike.queries _ _ _ _ _, _, rfl, rfl⟩
  rw [← h.txDb] at hres
  refine ⟨_, transactionProcess_eq_ok.mpr ⟨hfit, pres, ui, uo, hres, hui, huo, rfl⟩, ?_⟩
  exact (((hdebits.trans hin).trans hcredits).trans hout).trans hput

/-! ### Runs -/

theorem abreast_perform {e : Event} (h : w.Alike u) (hw : perform w e = .ok w') :
    ∃ u', perform u e = .ok u' ∧ Abreast w u w' u' := by
  cases e with
  | tx tx =>
    rw [perform] at hw ⊢
    by_cases hskip : tx.Skipped
    · rw [if_pos hskip] at hw ⊢
      cases hw
      exact ⟨u, rfl, .refl h⟩
    · rw [if_neg hskip] at hw ⊢
      exact abreast_transactionProcess h hw
  | block blk =>
    rw [perform, blockProcess] at hw ⊢
    split at hw
    · cases hw
    · cases hw
      refine ⟨_, rfl, ?_, _, rfl, rfl⟩
      rw [h.txDb, h.entitycnt]
      exact h.queries _ _ _ _ _

/-- **What a run looks at.** -/
theorem abreast_run {evs : List Event} (h : w.Alike u) (hw : run perform w evs = .ok w') :
    ∃ u', run perform u evs = .ok u' ∧ Abreast w u w' u' := by
  refine run_simulation (R := Abreast w u) (fun hR hstep => ?_) (.refl h) hw
  obtain ⟨t', ht', hR'⟩ := abreast_perform hR.alike hstep
  exact ⟨t', ht', hR.trans hR'⟩

/-! ### The end of a run -/

theorem sameTables_aggregateEntity (es : List UInt32) (db : Db) :
    SameTables db ((es.map Stmt.aggregateEntity).foldl Db.exec db) := by
  induction es generalizing db with
  | nil => exact .refl db
  | cons e es ih =>
    obtain ⟨haddr, htx, hblk, hent⟩ := ih (db.exec (.aggregateEntity e))
    refine ⟨haddr, htx, hblk, hent.trans ?_⟩
    exact KeyedTable.keys_modify _ _ _

theorem sameTables_updateEntityMysql (w : World) :
    SameTables w.conn.db (updateEntityMysql w).conn.db := by
  rw [updateEntityMysql, Conn.db_queries]
  exact sameTables_aggregateEntity _ _

theorem alike_updateEntityMysql (w : World) : w.Alike (updateEntityMysql w) :=
  ⟨rfl, rfl, (sameTables_updateEntityMysql w).addressinfo⟩

end BitcoinAnalysis
