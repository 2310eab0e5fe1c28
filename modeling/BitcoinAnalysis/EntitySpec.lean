/-
What the functions of `EntityProcess.h` do.

A merge of the input entities is the same whether there is one input or many:
the rows that carry one of the numbers get the smallest of them, and the other
numbers leave `entityinfo` (`inputEntityMysql_eq_ok`,
`find?_mergeStmts_addressinfo`, `find?_mergeStmts_entityinfo`).
The only exception is the lone coinbase input, which does nothing.
-/
import BitcoinAnalysis.EntityProcess

open Run

namespace BitcoinAnalysis

/-! ### Merging -/

theorem mergeStmts_eq_nil {e0 : UInt32} {es : List UInt32} (h : ∀ e ∈ es, e0 = e) :
    mergeStmts e0 e0 es = [] := by
  induction es with
  | nil => rfl
  | cons e es ih =>
    have he : e0 = e := h e List.mem_cons_self
    subst he
    rw [mergeStmts, if_neg (fun hne => hne rfl), List.nil_append]
    exact ih fun e he => h e (List.mem_cons_of_mem _ he)

/-- The test `unequal` only saves queries that would not be sent. -/
theorem queries_of_unequal (conn : Conn) (e0 : UInt32) (es : List UInt32) :
    (if es.any (e0 ≠ ·) then conn.queries (mergeStmts e0 e0 es) else conn)
      = conn.queries (mergeStmts e0 e0 es) := by
  split
  · rfl
  · rename_i hany
    rw [mergeStmts_eq_nil, Conn.queries_nil]
    intro e he
    by_contra hne
    exact hany (List.any_eq_true.mpr ⟨e, he, by simpa using hne⟩)

/-- One input is a merge of one number. -/
theorem inputEntityMysql_one {w w' : World} {a : Address} (ha : a ≠ coinbaseH) :
    inputEntityMysql w [a] = .ok w' ↔ ∃ entityV e0 es,
      [a].mapM (selectEntity w.conn.db) = .ok entityV ∧
      entityV.insertionSort (· ≤ ·) = e0 :: es ∧
      w' = { w with
        conn := w.conn.queries (mergeStmts e0 e0 es)
        entitychangeV := w.entitychangeV ++ [e0] } := by
  rw [inputEntityMysql, if_pos ha]
  simp only [bind_eq_ok, mapM_eq_ok, List.forall₂_cons_left_iff, List.forall₂_nil_left_iff]
  constructor
  · rintro ⟨e, he, h⟩
    refine ⟨[e], e, [], ⟨e, [], he, rfl, rfl⟩, rfl, ?_⟩
    rw [mergeStmts, Conn.queries_nil]
    exact (Except.ok.inj h).symm
  · rintro ⟨entityV, e0, es, ⟨e, _, he, rfl, rfl⟩, hsort, rfl⟩
    cases hsort
    refine ⟨e0, he, ?_⟩
    rw [mergeStmts, Conn.queries_nil]

theorem inputEntityMysql_many {w w' : World} {as : List Address} (h : ∀ a, as = [a] → False) :
    inputEntityMysql w as = .ok w' ↔ ∃ entityV e0 es,
      as.mapM (selectEntity w.conn.db) = .ok entityV ∧
      entityV.insertionSort (· ≤ ·) = e0 :: es ∧
      w' = { w with
        conn := w.conn.queries (mergeStmts e0 e0 es)
        entitychangeV := w.entitychangeV ++ [e0] } := by
  rw [inputEntityMysql.eq_2 w as h, bind_eq_ok]
  refine exists_congr fun entityV => ?_
  cases hsort : entityV.insertionSort (· ≤ ·) with
  | nil => simp
  | cons e0 es =>
    simp only [List.cons.injEq, Except.ok.injEq, queries_of_unequal]
    constructor
    · rintro ⟨hmap, rfl⟩
      exact ⟨e0, es, hmap, ⟨rfl, rfl⟩, rfl⟩
    · rintro ⟨_, _, hmap, ⟨rfl, rfl⟩, rfl⟩
      exact ⟨hmap, rfl⟩

/-- `input_entity_mysql` in closed form: nothing for the lone coinbase, and the
same merge for any other number of inputs. -/
theorem inputEntityMysql_eq_ok {w w' : World} {as : List Address} :
    inputEntityMysql w as = .ok w' ↔
      (as = [coinbaseH] ∧ w' = w) ∨
      (as ≠ [coinbaseH] ∧ ∃ entityV e0 es,
        as.mapM (selectEntity w.conn.db) = .ok entityV ∧
        entityV.insertionSort (· ≤ ·) = e0 :: es ∧
        w' = { w with
          conn := w.conn.queries (mergeStmts e0 e0 es)
          entitychangeV := w.entitychangeV ++ [e0] }) := by
  by_cases hcb : as = [coinbaseH]
  · subst hcb
    simp [inputEntityMysql, eq_comm]
  · simp only [hcb, false_and, false_or, ne_eq, not_false_eq_true, true_and]
    by_cases hone : ∃ a, as = [a]
    · obtain ⟨a, rfl⟩ := hone
      exact inputEntityMysql_one fun ha => hcb (by rw [ha])
    · exact inputEntityMysql_many fun a ha => hone ⟨a, ha⟩

@[simp] theorem relabel_self (row : AddressRow) : row.relabel row.entity = row := rfl

@[simp] theorem relabel_relabel (e e' : UInt32) (row : AddressRow) :
    (row.relabel e').relabel e = row.relabel e := rfl

/-- In a sorted list, what differs from the head's predecessor is the head or
differs from the head. -/
theorem mem_cons_and_ne {prev e k : UInt32} {es : List UInt32}
    (hsort : (prev :: e :: es).Pairwise (· ≤ ·)) (hpe : prev ≠ e) :
    k ∈ e :: es ∧ k ≠ prev ↔ k = e ∨ k ∈ es ∧ k ≠ e := by
  obtain ⟨hprev, hsort⟩ := List.pairwise_cons.mp hsort
  have he : prev ≤ e := hprev e List.mem_cons_self
  have hes : ∀ x ∈ es, e ≤ x := (List.pairwise_cons.mp hsort).1
  -- everything behind `e` is at least `e`, hence above `prev`
  have hgt : k ∈ es → k ≠ prev := fun hk hkp =>
    hpe (UInt32.le_antisymm he (hkp ▸ hes k hk))
  rw [List.mem_cons]
  constructor
  · rintro ⟨rfl | hk, -⟩
    · exact .inl rfl
    · by_cases hke : k = e
      · exact .inl hke
      · exact .inr ⟨hk, hke⟩
  · rintro (rfl | ⟨hk, -⟩)
    · exact ⟨.inl rfl, fun h => hpe h.symm⟩
    · exact ⟨.inr hk, hgt hk⟩

theorem mem_cons_self_and_ne {prev k : UInt32} {es : List UInt32} :
    k ∈ prev :: es ∧ k ≠ prev ↔ k ∈ es ∧ k ≠ prev := by
  rw [List.mem_cons]
  exact and_congr_left fun hne => or_iff_right hne

/-- The loop over sorted numbers: the rows of a number that differs from its
predecessor are relabelled. -/
theorem find?_mergeStmts_rows (e0 : UInt32) {prev : UInt32} {es : List UInt32} (db : Db)
    (hsort : (prev :: es).Pairwise (· ≤ ·)) (a : Address) :
    ((mergeStmts e0 prev es).foldl Db.exec db).addressinfo.find? a
      = (db.addressinfo.find? a).map fun row =>
          if row.entity ∈ es ∧ row.entity ≠ prev then row.relabel e0 else row := by
  induction es generalizing prev db with
  | nil => simp [mergeStmts]
  | cons e es ih =>
    have htail := (List.pairwise_cons.mp hsort).2
    by_cases hpe : prev = e
    · subst hpe
      rw [mergeStmts, if_neg (fun hne => hne rfl), List.nil_append, ih db htail]
      simp only [mem_cons_self_and_ne]
    · rw [mergeStmts, if_pos hpe, List.foldl_append, ih _ htail]
      simp only [List.foldl_cons, List.foldl_nil, Db.exec, KeyedTable.find?_update,
        Option.map_map, decide_eq_true_eq, mem_cons_and_ne hsort hpe]
      refine congrArg (Option.map · _) (funext fun row => ?_)
      rw [Function.comp_apply]
      by_cases hre : row.entity = e
      · -- relabelled here, and perhaps once more behind, to the same number
        rw [if_pos hre, if_pos (Or.inl hre), relabel_relabel, ite_self]
      · rw [if_neg hre]
        simp only [hre, false_or]

/-- The loop over sorted numbers: such a number leaves `entityinfo`. -/
theorem find?_mergeStmts_entityinfo (e0 : UInt32) {prev : UInt32} {es : List UInt32} (db : Db)
    (hsort : (prev :: es).Pairwise (· ≤ ·)) (k : UInt32) :
    ((mergeStmts e0 prev es).foldl Db.exec db).entityinfo.find? k
      = if k ∈ es ∧ k ≠ prev then none else db.entityinfo.find? k := by
  induction es generalizing prev db with
  | nil => simp [mergeStmts]
  | cons e es ih =>
    have htail := (List.pairwise_cons.mp hsort).2
    by_cases hpe : prev = e
    · subst hpe
      rw [mergeStmts, if_neg (fun hne => hne rfl), List.nil_append, ih db htail]
      simp only [mem_cons_self_and_ne]
    · rw [mergeStmts, if_pos hpe, List.foldl_append, ih _ htail]
      simp only [List.foldl_cons, List.foldl_nil, Db.exec, KeyedTable.find?_delete,
        mem_cons_and_ne hsort hpe]
      by_cases hke : k = e
      · simp only [hke, if_true, ite_self, true_or]
      · simp only [hke, if_false, false_or]

/-- The rows of `addressinfo` after a merge of sorted numbers. -/
theorem find?_mergeStmts_addressinfo {e0 : UInt32} {es : List UInt32} (db : Db)
    (hsort : (e0 :: es).Pairwise (· ≤ ·)) (a : Address) :
    ((mergeStmts e0 e0 es).foldl Db.exec db).addressinfo.find? a
      = (db.addressinfo.find? a).map fun row =>
          if row.entity ∈ e0 :: es then row.relabel e0 else row := by
  rw [find?_mergeStmts_rows e0 db hsort]
  congr 1
  funext row
  by_cases h : row.entity = e0
  · have hself : row.relabel e0 = row := by rw [← h, relabel_self]
    simp [h, hself]
  · simp [h]

/-! ### The statements sent, and when all of them are -/

theorem mem_mergeStmts {e0 prev : UInt32} {es : List UInt32} {j : Stmt}
    (h : j ∈ mergeStmts e0 prev es) :
    (∃ e, j = .relabelEntity e0 e) ∨ ∃ e, j = .deleteEntity e := by
  induction es generalizing prev with
  | nil => cases h
  | cons e es ih =>
    rcases List.mem_append.mp h with h | h
    · split at h
      · rcases List.mem_cons.mp h with rfl | h
        · exact .inl ⟨e, rfl⟩
        · exact .inr ⟨e, List.mem_singleton.mp h⟩
      · cases h
    · exact ih h

theorem inputEntityMysql_journal {w w' : World} {as : List Address}
    (h : inputEntityMysql w as = .ok w') :
    ∃ js, w'.conn = w.conn.queries js ∧
      ∀ j ∈ js, (∃ e0 e, j = .relabelEntity e0 e) ∨ ∃ e, j = .deleteEntity e := by
  rcases inputEntityMysql_eq_ok.mp h with ⟨-, rfl⟩ | ⟨-, _, e0, es, -, -, rfl⟩
  · exact ⟨[], by rw [Conn.queries_nil], by simp⟩
  · refine ⟨mergeStmts e0 e0 es, rfl, fun j hj => ?_⟩
    rcases mem_mergeStmts hj with ⟨e, rfl⟩ | ⟨e, rfl⟩
    · exact .inl ⟨e0, e, rfl⟩
    · exact .inr ⟨e, rfl⟩

theorem mapM_selectEntity_of_mem {db : Db} {as : List Address}
    (h : ∀ a ∈ as, a ∈ db.addressinfo.keys) :
    ∃ entityV, as.mapM (selectEntity db) = .ok entityV ∧ entityV.length = as.length := by
  induction as with
  | nil => exact ⟨[], rfl, rfl⟩
  | cons a as ih =>
    obtain ⟨row, hrow⟩ := KeyedTable.mem_keys.mp (h a List.mem_cons_self)
    obtain ⟨es, hes, hlen⟩ := ih fun b hb => h b (List.mem_cons_of_mem a hb)
    refine ⟨row.entity :: es, mapM_eq_ok.mpr (.cons ?_ (mapM_eq_ok.mp hes)), by simp [hlen]⟩
    exact selectEntity_eq_ok.mpr ⟨row, hrow, rfl⟩

/-- A merge returns when there is an input and every input has a row, or when
the only input is the coinbase. -/
theorem inputEntityMysql_total {w : World} {as : List Address}
    (h : as = [coinbaseH] ∨ as ≠ [] ∧ ∀ a ∈ as, a ∈ w.conn.db.addressinfo.keys) :
    ∃ w', inputEntityMysql w as = .ok w' := by
  by_cases hone : as = [coinbaseH]
  · exact ⟨w, inputEntityMysql_eq_ok.mpr (.inl ⟨hone, rfl⟩)⟩
  · obtain ⟨hne, hmem⟩ := h.resolve_left hone
    obtain ⟨entityV, hV, hlen⟩ := mapM_selectEntity_of_mem hmem
    cases hsort : entityV.insertionSort (· ≤ ·) with
    | nil =>
      have hzero : (entityV.insertionSort (· ≤ ·)).length = as.length := by
        rw [List.length_insertionSort, hlen]
      rw [hsort] at hzero
      exact absurd (List.length_eq_zero_iff.mp hzero.symm) hne
    | cons e0 es =>
      exact ⟨_, inputEntityMysql_eq_ok.mpr (.inr ⟨hone, entityV, e0, es, hV, hsort, rfl⟩)⟩

/-- One iteration of `output_entity_mysql`, in closed form. -/
theorem outputEntityStep_eq_ok {w w' : World} {a : Address} :
    outputEntityStep w a = .ok w' ↔ ∃ row, w.conn.db.addressinfo.find? a = some row ∧
      w' = if row.entity = 0 then
          { w with
            conn := w.conn.queries
              [.setEntity a (w.entitycnt + 1), .insertEntity (w.entitycnt + 1)]
            entitycnt := w.entitycnt + 1
            entitychangeV := w.entitychangeV ++ [w.entitycnt + 1] }
        else { w with entitychangeV := w.entitychangeV ++ [w.entitycnt] } := by
  -- the source compares 0 with the number read, hence the `symm`
  rw [outputEntityStep, bind_eq_ok]
  simp only [selectEntity_eq_ok]
  constructor
  · rintro ⟨_, ⟨row, hrow, rfl⟩, h⟩
    refine ⟨row, hrow, ?_⟩
    split at h
    · rename_i h0
      rw [if_pos h0.symm, ← Except.ok.inj h, insertEntityMysql, Conn.query, Conn.query,
        Conn.queries_queries]
      rfl
    · rename_i h0
      rw [if_neg (fun h => h0 h.symm), ← Except.ok.inj h]
  · rintro ⟨row, hrow, rfl⟩
    refine ⟨row.entity, ⟨row, hrow, rfl⟩, ?_⟩
    split
    · rename_i h0
      rw [if_pos h0.symm, insertEntityMysql, Conn.query, Conn.query, Conn.queries_queries]
      rfl
    · rename_i h0
      rw [if_neg (fun h => h0 h.symm)]

theorem outputEntityMysql_journal {w w' : World} {as : List Address}
    (h : outputEntityMysql w as = .ok w') :
    ∃ js, w'.conn = w.conn.queries js ∧
      ∀ j ∈ js, (∃ a e, j = .setEntity a e) ∨ ∃ e, j = .insertEntity e := by
  refine run_invariant (V := fun _ => True)
    (P := fun _ u => ∃ js, u.conn = w.conn.queries js ∧
      ∀ j ∈ js, (∃ a e, j = Stmt.setEntity a e) ∨ ∃ e, j = Stmt.insertEntity e)
    (fun _ _ _ => trivial) ⟨[], by rw [Conn.queries_nil], by simp⟩ ?_ trivial h
  rintro _ u a t - ⟨js, hu, hjs⟩ hstep
  obtain ⟨row, -, rfl⟩ := outputEntityStep_eq_ok.mp hstep
  split
  · refine ⟨js ++ [.setEntity a (u.entitycnt + 1), .insertEntity (u.entitycnt + 1)], ?_, ?_⟩
    · rw [hu, Conn.queries_queries]
    · intro j hj
      rcases List.mem_append.mp hj with hj | hj
      · exact hjs j hj
      · rcases List.mem_cons.mp hj with rfl | hj
        · exact .inl ⟨_, _, rfl⟩
        · exact .inr ⟨_, List.mem_singleton.mp hj⟩
  · exact ⟨js, hu, hjs⟩

theorem outputEntityStep_keys {w w' : World} {a : Address} (h : outputEntityStep w a = .ok w') :
    w'.conn.db.addressinfo.keys = w.conn.db.addressinfo.keys := by
  obtain ⟨row, -, rfl⟩ := outputEntityStep_eq_ok.mp h
  split
  · rw [Conn.db_queries]
    exact KeyedTable.keys_modify _ _ _
  · rfl

theorem outputEntityMysql_total {w : World} {as : List Address}
    (h : ∀ a ∈ as, a ∈ w.conn.db.addressinfo.keys) :
    ∃ w', outputEntityMysql w as = .ok w' := by
  have htotal : ∃ w', run outputEntityStep w as = .ok w' ∧
      w'.conn.db.addressinfo.keys = w.conn.db.addressinfo.keys := by
    refine run_total (V := fun bs => ∀ b ∈ bs, b ∈ w.conn.db.addressinfo.keys)
      (P := fun _ (u : World) => u.conn.db.addressinfo.keys = w.conn.db.addressinfo.keys)
      (fun bs b hbs c hc => hbs c (List.mem_append_left _ hc)) rfl ?_ h
    intro bs u b hbs hu
    obtain ⟨row, hrow⟩ := KeyedTable.mem_keys.mp (hu ▸ hbs b (by simp))
    have hstep := outputEntityStep_eq_ok.mpr ⟨row, hrow, rfl⟩
    exact ⟨_, hstep, (outputEntityStep_keys hstep).trans hu⟩
  obtain ⟨w', hw', -⟩ := htotal
  exact ⟨w', hw'⟩

/-! ### Aggregates -/

theorem foldl_aggregateEntity (es : List UInt32) (db : Db) :
    ((es.map Stmt.aggregateEntity).foldl Db.exec db).addressinfo = db.addressinfo ∧
      ((es.map Stmt.aggregateEntity).foldl Db.exec db).txinfo = db.txinfo := by
  induction es generalizing db with
  | nil => exact ⟨rfl, rfl⟩
  | cons e es ih => exact ih (db.exec (.aggregateEntity e))

theorem find?_aggregateEntity (es : List UInt32) (db : Db) (e : UInt32) :
    ((es.map Stmt.aggregateEntity).foldl Db.exec db).entityinfo.find? e
      = (db.entityinfo.find? e).map fun row =>
          if e ∈ es then .aggregate (db.rowsOf e) else row := by
  induction es generalizing db with
  | nil => simp
  | cons k es ih =>
    have hrows : ∀ e', (db.exec (.aggregateEntity k)).rowsOf e' = db.rowsOf e' := fun _ => rfl
    rw [List.map_cons, List.foldl_cons, ih, hrows, Db.exec, KeyedTable.find?_modify]
    by_cases hek : e = k
    · subst hek
      simp [Function.comp_def]
    · simp [hek]

theorem mem_unique {e : UInt32} {es : List UInt32} : e ∈ unique es ↔ e ∈ es := by
  induction es using unique.induct with
  | case1 a l ih =>
    rw [unique, if_pos rfl, ih, List.mem_cons (b := a) (l := a :: l), or_iff_right_of_imp]
    rintro rfl
    exact List.mem_cons_self
  | case2 a b l hne ih => rw [unique, if_neg hne, List.mem_cons, ih, ← List.mem_cons]
  | case3 l h =>
    rw [unique]
    exact h

theorem find?_updateEntityMysql (w : World) (e : UInt32) :
    (updateEntityMysql w).conn.db.entityinfo.find? e
      = (w.conn.db.entityinfo.find? e).map fun row =>
          if e ∈ w.entitychangeV then .aggregate (w.conn.db.rowsOf e) else row := by
  rw [updateEntityMysql, Conn.db_queries, find?_aggregateEntity]
  simp only [mem_unique, List.mem_insertionSort]

end BitcoinAnalysis
