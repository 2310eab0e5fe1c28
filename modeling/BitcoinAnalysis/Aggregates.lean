/-
The aggregate columns of `entityinfo`.

They are recomputed at the end of a run, for the entities recorded in
`entitychange_v`.  For an output to a known address `output_entity_mysql`
records the counter and not the entity of the address, so an entity touched in
this way only may be left with old aggregates
(`stale_aggregate`).  `Tracked` is a condition on a call and the state before
it under which every entity the call touches is recorded; if all calls meet it,
every row of `entityinfo` is up to date after every run (`aggregates_current`).
-/
import BitcoinAnalysis.Books
import BitcoinAnalysis.Chain

open Run

namespace BitcoinAnalysis

/-- The entity column of an address. -/
def Db.entity (db : Db) (a : Address) : Option UInt32 :=
  (db.addressinfo.find? a).map AddressRow.entity

/-- An entity of the inputs, unless the only input is the coinbase. -/
def InputEntity (w : World) (tx : Transaction) (e : UInt32) : Prop :=
  ∃ pres, tx.ins.mapM (resolve w.txDb) = .ok pres ∧ pres.map preaddress ≠ [coinbaseH] ∧
    ∃ p ∈ pres, w.conn.db.entity (preaddress p) = some e

/-- An output, with the outputs before it: if its address has a row, the entity
of the row is recorded already, or is an entity of the inputs, or has the number
of the counter while no earlier output opens a row. -/
def TrackedOut (w : World) (tx : Transaction) (pre : List Txout) (o : Txout) : Prop :=
  ∀ e ∈ w.conn.db.entity o.address, e ∈ w.entitychangeV ∨ InputEntity w tx e ∨
    (e = w.entitycnt ∧ (∀ b ∈ w.conn.db.addressinfo.keys, w.conn.db.entity b ≠ some 0) ∧
      ∀ o' ∈ pre, o'.address ∈ w.conn.db.addressinfo.keys)

/-- All outputs of a transaction are tracked. -/
def Tracked (w : World) (tx : Transaction) : Prop := AtEvery (TrackedOut w tx) tx.outs

instance (w : World) (tx : Transaction) (e : UInt32) : Decidable (InputEntity w tx e) :=
  inferInstanceAs (Decidable (∃ _, _ ∧ _))

instance (w : World) (tx : Transaction) (pre : List Txout) (o : Txout) :
    Decidable (TrackedOut w tx pre o) :=
  Option.decidableForallMem (w.conn.db.entity o.address)

instance (w : World) (tx : Transaction) : Decidable (Tracked w tx) :=
  inferInstanceAs (Decidable (AtEvery (TrackedOut w tx) tx.outs))

/-- Every row of `entityinfo` is up to date or recorded. -/
def Fresh (w : World) : Prop :=
  ∀ e row, w.conn.db.entityinfo.find? e = some row →
    e ∈ w.entitychangeV ∨ row = EntityRow.aggregate (w.conn.db.rowsOf e)

variable {w w' : World} {tx : Transaction}

/-! ### Rows a statement leaves alone -/

/-- The address whose row a statement changes. -/
def Stmt.rowOf : Stmt → Option Address
  | .updateInput a .. | .upsertOutput a .. | .updateMaxbal a | .setEntity a _ => some a
  | _ => none

def Stmt.Relabels : Stmt → Prop
  | .relabelEntity .. => True
  | _ => False

theorem Db.find?_exec_of_ne {j : Stmt} {a : Address} (hrow : j.rowOf ≠ some a)
    (hrel : ¬ j.Relabels) (db : Db) :
    (db.exec j).addressinfo.find? a = db.addressinfo.find? a := by
  have hne : ∀ b, some b ≠ some a → a ≠ b := by
    rintro b hb rfl
    exact hb rfl
  cases j with
  | relabelEntity => exact absurd trivial hrel
  | updateInput b v t => exact KeyedTable.find?_modify_ne _ (hne b hrow) _
  | updateMaxbal b => exact KeyedTable.find?_modify_ne _ (hne b hrow) _
  | setEntity b e => exact KeyedTable.find?_modify_ne _ (hne b hrow) _
  | upsertOutput b v t => exact KeyedTable.find?_upsert_ne _ (hne b hrow) _ _
  | _ => rfl

theorem Db.find?_foldl_of_ne {js : List Stmt} {a : Address}
    (h : ∀ j ∈ js, j.rowOf ≠ some a ∧ ¬ j.Relabels) (db : Db) :
    (js.foldl Db.exec db).addressinfo.find? a = db.addressinfo.find? a := by
  induction js generalizing db with
  | nil => rfl
  | cons j js ih =>
    obtain ⟨hrow, hrel⟩ := h j List.mem_cons_self
    rw [List.foldl_cons, ih fun k hk => h k (List.mem_cons_of_mem j hk),
      Db.find?_exec_of_ne hrow hrel]

/-- Rows are only appended. -/
theorem Db.keys_foldl_initial (js : List Stmt) (db : Db) :
    db.addressinfo.keys <+: (js.foldl Db.exec db).addressinfo.keys := by
  induction js generalizing db with
  | nil => exact List.prefix_rfl
  | cons j js ih =>
    refine List.IsPrefix.trans ?_ (ih (db.exec j))
    cases j with
    | relabelEntity => rw [Db.exec, KeyedTable.keys_update]
    | updateInput => rw [Db.exec, KeyedTable.keys_modify]
    | updateMaxbal => rw [Db.exec, KeyedTable.keys_modify]
    | setEntity => rw [Db.exec, KeyedTable.keys_modify]
    | upsertOutput a v t =>
      rw [Db.exec, KeyedTable.keys_upsert]
      split
      · exact List.prefix_rfl
      · exact List.prefix_append _ _
    | _ => exact List.prefix_rfl

/-! ### Debits and credits keep the entity -/

theorem Db.entity_updateInput (db : Db) (a b : Address) (v : UInt64) (t : UInt32) :
    (db.exec (.updateInput b v t)).entity a = db.entity a := by
  rw [Db.entity, Db.entity, Db.exec]
  exact KeyedTable.map_find?_update_of_eq _ _ (.debit v t) AddressRow.entity (fun _ => rfl) a

theorem Db.entity_updateMaxbal (db : Db) (a b : Address) :
    (db.exec (.updateMaxbal b)).entity a = db.entity a := by
  rw [Db.entity, Db.entity, Db.exec]
  refine KeyedTable.map_find?_update_of_eq _ _ _ AddressRow.entity (fun row => ?_) a
  rw [AddressRow.raiseMaxbal]
  split
  · rfl
  · rfl

/-- A new row starts without a number. -/
theorem Db.entity_upsertOutput (db : Db) (a b : Address) (v : UInt64) (t : UInt32) :
    (db.exec (.upsertOutput b v t)).entity a
      = if a = b then some ((db.entity a).getD 0) else db.entity a := by
  rw [Db.entity, Db.exec]
  split
  · rename_i hab
    subst hab
    rw [KeyedTable.find?_upsert_self, Db.entity]
    cases db.addressinfo.find? a with
    | none => rfl
    | some row => rfl
  · rename_i hab
    rw [KeyedTable.find?_upsert_ne _ hab, Db.entity]

theorem Db.entity_exec_of_some {j : Stmt} (hj : j.MovesMoney) {db : Db} {a : Address} {e : UInt32}
    (h : db.entity a = some e) : (db.exec j).entity a = some e := by
  cases j with
  | updateInput b v t => rw [Db.entity_updateInput, h]
  | upsertOutput b v t =>
    rw [Db.entity_upsertOutput, h]
    split
    · rfl
    · rfl
  | updateMaxbal b => rw [Db.entity_updateMaxbal, h]
  | _ => exact hj.elim

theorem Db.entity_exec_of_none {j : Stmt} (hj : j.MovesMoney) {db : Db} {a : Address}
    (h : db.entity a = none) : (db.exec j).entity a = none ∨ (db.exec j).entity a = some 0 := by
  cases j with
  | updateInput b v t =>
    left
    rw [Db.entity_updateInput, h]
  | upsertOutput b v t =>
    rw [Db.entity_upsertOutput, h]
    split
    · exact .inr rfl
    · exact .inl rfl
  | updateMaxbal b =>
    left
    rw [Db.entity_updateMaxbal, h]
  | _ => exact hj.elim

theorem Db.entity_foldl {js : List Stmt} (hjs : ∀ j ∈ js, j.MovesMoney) (db : Db) (a : Address) :
    (∀ e, db.entity a = some e → (js.foldl Db.exec db).entity a = some e) ∧
      (db.entity a = none → (js.foldl Db.exec db).entity a = none ∨
        (js.foldl Db.exec db).entity a = some 0) := by
  induction js generalizing db with
  | nil => exact ⟨fun e h => h, .inl⟩
  | cons j js ih =>
    have hj := hjs j List.mem_cons_self
    obtain ⟨hsome, hnone⟩ := ih (fun k hk => hjs k (List.mem_cons_of_mem j hk)) (db.exec j)
    refine ⟨fun e h => hsome e (Db.entity_exec_of_some hj h), fun h => ?_⟩
    rcases Db.entity_exec_of_none hj h with h | h
    · exact hnone h
    · exact .inr (hsome 0 h)

theorem Db.entityinfo_foldl {js : List Stmt} (hjs : ∀ j ∈ js, j.MovesMoney) (db : Db) :
    (js.foldl Db.exec db).entityinfo = db.entityinfo := by
  induction js generalizing db with
  | nil => rfl
  | cons j js ih =>
    have hj := hjs j List.mem_cons_self
    rw [List.foldl_cons, ih fun k hk => hjs k (List.mem_cons_of_mem j hk)]
    cases j with
    | updateInput => rfl
    | upsertOutput => rfl
    | updateMaxbal => rfl
    | _ => exact hj.elim

theorem movesMoney_debitStmts {t : UInt32} {pres : List (Bytes 28)} :
    ∀ j ∈ pres.flatMap (debitStmts t), j.MovesMoney := by
  intro j hj
  obtain ⟨p, -, -, rfl⟩ := mem_debitStmts.mp hj
  trivial

theorem movesMoney_creditStmts {t : UInt32} {outs : List Txout} :
    ∀ j ∈ outs.flatMap (creditStmts t), j.MovesMoney := by
  intro j hj
  obtain ⟨o, -, rfl | rfl⟩ := mem_creditStmts.mp hj
  · trivial
  · trivial

/-- Only the addresses of the inputs are debited. -/
theorem find?_afterDebits {pres : List (Bytes 28)} {a : Address}
    (h : ∀ p ∈ pres, preaddress p ≠ coinbaseH → preaddress p ≠ a) :
    (afterDebits w tx pres).conn.db.addressinfo.find? a = w.conn.db.addressinfo.find? a := by
  rw [afterDebits, Conn.db_queries]
  refine Db.find?_foldl_of_ne (fun j hj => ?_) _
  obtain ⟨p, hp, hs, rfl⟩ := mem_debitStmts.mp hj
  refine ⟨fun heq => ?_, id⟩
  exact h p hp (fun hc => hs (addressHex_eq_coinbaseS.mpr hc)) (Option.some.inj heq)

/-- Only the addresses of the outputs are credited. -/
theorem find?_afterCredits {a : Address} (h : a ∉ tx.outs.map Txout.address) :
    (afterCredits w tx).conn.db.addressinfo.find? a = w.conn.db.addressinfo.find? a := by
  rw [afterCredits, Conn.db_queries]
  refine Db.find?_foldl_of_ne (fun j hj => ?_) _
  obtain ⟨o, ho, hj⟩ := mem_creditStmts.mp hj
  have hne : some o.address ≠ some a := fun heq =>
    h (List.mem_map.mpr ⟨o, ho, Option.some.inj heq⟩)
  rcases hj with rfl | rfl
  · exact ⟨hne, id⟩
  · exact ⟨hne, id⟩

/-! ### Inputs -/

/-- What the input half of a call does to rows and entities: `merged` are the
entities of the inputs. -/
structure Merged (w wi : World) (merged : List UInt32) : Prop where
  keeps : ∀ a row, w.conn.db.addressinfo.find? a = some row → row.entity ∉ merged →
    wi.conn.db.addressinfo.find? a = some row
  comes : ∀ a e, wi.conn.db.entity a = some e → e ∉ wi.entitychangeV → w.conn.db.entity a = some e
  known : ∀ a e, w.conn.db.entity a = some e → ∃ e', wi.conn.db.entity a = some e'
  gone : ∀ e ∈ merged, e ∈ wi.entitychangeV ∨ wi.conn.db.entityinfo.find? e = none
  stays : ∀ e ∉ merged, wi.conn.db.entityinfo.find? e = w.conn.db.entityinfo.find? e
  records : w.entitychangeV ⊆ wi.entitychangeV
  entitycnt : wi.entitycnt = w.entitycnt
  nonzero : (∀ a, w.conn.db.entity a ≠ some 0) → ∀ a, wi.conn.db.entity a ≠ some 0

theorem entity_afterDebits {pres : List (Bytes 28)} {a : Address} :
    (afterDebits w tx pres).conn.db.entity a = w.conn.db.entity a := by
  cases h : w.conn.db.entity a with
  | some e =>
    rw [afterDebits, Conn.db_queries]
    exact (Db.entity_foldl movesMoney_debitStmts _ a).1 e h
  | none =>
    have hnot : a ∉ (afterDebits w tx pres).conn.db.addressinfo.keys := by
      rw [mem_keys_afterDebits, ← KeyedTable.find?_eq_none]
      exact Option.map_eq_none_iff.mp h
    exact Option.map_eq_none_iff.mpr (KeyedTable.find?_eq_none.mpr hnot)

theorem entityinfo_afterDebits {pres : List (Bytes 28)} :
    (afterDebits w tx pres).conn.db.entityinfo = w.conn.db.entityinfo := by
  rw [afterDebits, Conn.db_queries, Db.entityinfo_foldl movesMoney_debitStmts]

/-- The lone coinbase input is not debited, and nothing is merged. -/
theorem merged_of_coinbase {pres : List (Bytes 28)} (hone : pres.map preaddress = [coinbaseH]) :
    Merged w (afterDebits w tx pres) [] := by
  have hfind : ∀ a, (afterDebits w tx pres).conn.db.addressinfo.find? a
      = w.conn.db.addressinfo.find? a := by
    refine fun a => find?_afterDebits fun p hp hc => ?_
    have hmem := List.mem_map_of_mem (f := preaddress) hp
    rw [hone] at hmem
    exact absurd (List.mem_singleton.mp hmem) hc
  refine ⟨fun a row h _ => ?_, fun a e h _ => ?_, fun a e h => ⟨e, ?_⟩, ?_, fun e _ => ?_, ?_, ?_,
    fun h a => ?_⟩
  · rw [hfind, h]
  · rwa [entity_afterDebits] at h
  · rwa [entity_afterDebits]
  · intro e he
    cases he
  · rw [entityinfo_afterDebits]
  · exact fun e he => he
  · rfl
  · rw [entity_afterDebits]
    exact h a

theorem entity_mergeStmts {e0 : UInt32} {es : List UInt32} (db : Db)
    (hsort : (e0 :: es).Pairwise (· ≤ ·)) (a : Address) :
    ((mergeStmts e0 e0 es).foldl Db.exec db).entity a
      = (db.entity a).map fun e => if e ∈ e0 :: es then e0 else e := by
  rw [Db.entity, find?_mergeStmts_addressinfo db hsort, Db.entity, Option.map_map, Option.map_map]
  refine congrArg (Option.map · _) (funext fun row => ?_)
  show AddressRow.entity (if row.entity ∈ e0 :: es then row.relabel e0 else row) = _
  rw [apply_ite AddressRow.entity]
  rfl

/-- Several inputs, or one that is not the coinbase: the entities merged are
those the inputs had before the call. -/
theorem merged_of_inputs {pres : List (Bytes 28)} {e0 : UInt32} {es : List UInt32}
    (hpair : (e0 :: es).Pairwise (· ≤ ·))
    (hmem : ∀ e, e ∈ e0 :: es ↔ ∃ p ∈ pres, w.conn.db.entity (preaddress p) = some e) :
    Merged w { afterDebits w tx pres with
      conn := (afterDebits w tx pres).conn.queries (mergeStmts e0 e0 es)
      entitychangeV := (afterDebits w tx pres).entitychangeV ++ [e0] } (e0 :: es) := by
  -- debits change no entity, so only the merge is seen
  have hentity : ∀ a, ((afterDebits w tx pres).conn.queries (mergeStmts e0 e0 es)).db.entity a
      = (w.conn.db.entity a).map fun e => if e ∈ e0 :: es then e0 else e := by
    intro a
    rw [Conn.db_queries, entity_mergeStmts _ hpair, entity_afterDebits]
  have hinfo := fun e => find?_mergeStmts_entityinfo e0 (afterDebits w tx pres).conn.db hpair e
  refine ⟨fun a row h hnot => ?_, fun a e h hnot => ?_, fun a e h => ?_, fun e he => ?_,
    fun e he => ?_, ?_, ?_, fun h a => ?_⟩
  · -- a row that is not merged is not that of an input, so it is not debited either
    have hfind : (afterDebits w tx pres).conn.db.addressinfo.find? a
        = w.conn.db.addressinfo.find? a := by
      refine find?_afterDebits fun p hp _ hpa => hnot ((hmem _).mpr ⟨p, hp, ?_⟩)
      rw [hpa, Db.entity, h]
      rfl
    rw [Conn.db_queries, find?_mergeStmts_addressinfo _ hpair, hfind, h, Option.map_some,
      if_neg hnot]
  · rw [hentity] at h
    obtain ⟨e', he', hite⟩ := Option.map_eq_some_iff.mp h
    split at hite
    · exact absurd (hite ▸ List.mem_append_right _ List.mem_cons_self) hnot
    · rw [he', hite]
  · rw [hentity, h]
    exact ⟨_, rfl⟩
  · by_cases hee : e = e0
    · exact .inl (hee ▸ List.mem_append_right _ List.mem_cons_self)
    · right
      rw [Conn.db_queries, hinfo, if_pos ⟨(List.mem_cons.mp he).resolve_left hee, hee⟩]
  · rw [Conn.db_queries, hinfo, if_neg fun hc => he (List.mem_cons_of_mem _ hc.1),
      entityinfo_afterDebits]
  · exact fun e he => List.mem_append_left _ he
  · rfl
  · rw [hentity]
    intro hzero
    obtain ⟨e', he', hite⟩ := Option.map_eq_some_iff.mp hzero
    split at hite
    · obtain ⟨p, -, hp⟩ := (hmem e0).mp List.mem_cons_self
      exact h _ (hite ▸ hp)
    · exact h a (hite ▸ he')

theorem merged_of_ok {pres : List (Bytes 28)} {wi : World}
    (hwi : inputEntityMysql (afterDebits w tx pres) (pres.map preaddress) = .ok wi) :
    ∃ merged, Merged w wi merged ∧ (pres.map preaddress ≠ [coinbaseH] →
      ∀ p ∈ pres, ∀ e, w.conn.db.entity (preaddress p) = some e → e ∈ merged) := by
  rcases inputEntityMysql_eq_ok.mp hwi with ⟨hone, rfl⟩ | ⟨-, entityV, e0, es, hV, hsort, rfl⟩
  · exact ⟨[], merged_of_coinbase hone, fun hne => absurd hone hne⟩
  · have hpair : (e0 :: es).Pairwise (· ≤ ·) := hsort ▸ List.pairwise_insertionSort (· ≤ ·) entityV
    have hmem : ∀ e, e ∈ e0 :: es ↔ ∃ p ∈ pres, w.conn.db.entity (preaddress p) = some e := by
      intro e
      rw [← hsort, List.mem_insertionSort, mem_mapM_ok hV]
      simp only [List.mem_map, exists_exists_and_eq_and, selectEntity_eq_ok,
        ← Option.map_eq_some_iff]
      refine exists_congr fun p => and_congr_right fun _ => ?_
      show (afterDebits w tx pres).conn.db.entity (preaddress p) = some e ↔ _
      rw [entity_afterDebits]
    exact ⟨e0 :: es, merged_of_inputs hpair hmem, fun _ p hp e he => (hmem e).mpr ⟨p, hp, he⟩⟩

/-! ### Outputs -/

/-- What numbering the output addresses `as` does to rows and entities. -/
structure Numbered (w : World) (as : List Address) (u : World) : Prop where
  keeps : ∀ a row, w.conn.db.addressinfo.find? a = some row → a ∉ as ∨ row.entity ≠ 0 →
    u.conn.db.addressinfo.find? a = some row
  comes : ∀ a e, u.conn.db.entity a = some e → e ∉ u.entitychangeV → w.conn.db.entity a = some e
  numbers : ∀ a ∈ as, w.conn.db.entity a = some 0 → ∀ e, u.conn.db.entity a = some e →
    e ∈ u.entitychangeV
  stays : ∀ e ∉ u.entitychangeV, u.conn.db.entityinfo.find? e = w.conn.db.entityinfo.find? e
  records : w.entitychangeV ⊆ u.entitychangeV

/-- A row without a number gets the next one, which is recorded. -/
theorem Numbered.new {as : List Address} {u : World} {a : Address} {row : AddressRow}
    (h : Numbered w as u) (hrow : u.conn.db.addressinfo.find? a = some row)
    (hzero : row.entity = 0) :
    Numbered w (as ++ [a]) { u with
      conn := u.conn.queries [.setEntity a (u.entitycnt + 1), .insertEntity (u.entitycnt + 1)]
      entitycnt := u.entitycnt + 1
      entitychangeV := u.entitychangeV ++ [u.entitycnt + 1] } := by
  -- only the row of `a` is touched
  have hself : ∀ e, (([Stmt.setEntity a (u.entitycnt + 1), .insertEntity (u.entitycnt + 1)].foldl
      Db.exec u.conn.db).entity a = some e → e = u.entitycnt + 1) := by
    intro e he
    rw [Db.entity, show (List.foldl Db.exec u.conn.db _).addressinfo
      = u.conn.db.addressinfo.modify a (.relabel (u.entitycnt + 1)) from rfl,
      KeyedTable.find?_modify_self, hrow] at he
    exact (Option.some.inj he).symm
  have hother : ∀ b ≠ a, ([Stmt.setEntity a (u.entitycnt + 1), .insertEntity (u.entitycnt + 1)].foldl
      Db.exec u.conn.db).addressinfo.find? b = u.conn.db.addressinfo.find? b :=
    fun b hb => KeyedTable.find?_modify_ne _ hb _
  have hlast : u.entitycnt + 1 ∈ u.entitychangeV ++ [u.entitycnt + 1] :=
    List.mem_append_right _ List.mem_cons_self
  refine ⟨fun b row' hb hor => ?_, fun b e he hnot => ?_, fun b hb hb0 e he => ?_, fun e hnot => ?_,
    fun e he => List.mem_append_left _ (h.records he)⟩
  · have hu := h.keeps b row' hb (hor.imp_left fun hn hmem => hn (List.mem_append_left _ hmem))
    by_cases hba : b = a
    · -- the row of `a` has no number yet
      subst hba
      rcases hor with hn | hne
      · exact absurd (List.mem_append_right _ List.mem_cons_self) hn
      · rw [hrow] at hu
        exact absurd (Option.some.inj hu ▸ hzero) hne
    · rw [Conn.db_queries, hother b hba, hu]
  · rw [Conn.db_queries] at he
    by_cases hba : b = a
    · subst hba
      exact absurd (hself e he ▸ hlast) hnot
    · rw [Db.entity, hother b hba] at he
      exact h.comes b e he fun hmem => hnot (List.mem_append_left _ hmem)
  · rw [Conn.db_queries] at he
    by_cases hba : b = a
    · subst hba
      exact hself e he ▸ hlast
    · rw [Db.entity, hother b hba] at he
      have hmem := (List.mem_append.mp hb).resolve_right fun hb => hba (List.mem_singleton.mp hb)
      exact List.mem_append_left _ (h.numbers b hmem hb0 e he)
  · have hne : e ≠ u.entitycnt + 1 := fun heq => hnot (heq ▸ hlast)
    rw [Conn.db_queries]
    refine (KeyedTable.find?_upsert_ne _ hne _ _).trans ?_
    exact h.stays e fun hmem => hnot (List.mem_append_left _ hmem)

/-- A row with a number keeps it; what is recorded is the counter. -/
theorem Numbered.old {as : List Address} {u : World} {a : Address} {row : AddressRow}
    (h : Numbered w as u) (hrow : u.conn.db.addressinfo.find? a = some row)
    (hzero : row.entity ≠ 0) :
    Numbered w (as ++ [a]) { u with entitychangeV := u.entitychangeV ++ [u.entitycnt] } := by
  refine ⟨fun b row' hb hor => ?_, fun b e he hnot => ?_, fun b hb hb0 e he => ?_, fun e hnot => ?_,
    fun e he => List.mem_append_left _ (h.records he)⟩
  · exact h.keeps b row' hb (hor.imp_left fun hn hmem => hn (List.mem_append_left _ hmem))
  · exact h.comes b e he fun hmem => hnot (List.mem_append_left _ hmem)
  · refine List.mem_append_left _ ?_
    by_cases hmem : b ∈ as
    · exact h.numbers b hmem hb0 e he
    · -- an address that comes for the first time still has the row it had
      have hba : b = a := List.mem_singleton.mp ((List.mem_append.mp hb).resolve_left hmem)
      subst hba
      obtain ⟨row', hrow', h0⟩ := Option.map_eq_some_iff.mp hb0
      have hu := h.keeps b row' hrow' (.inl hmem)
      rw [hrow] at hu
      exact absurd (Option.some.inj hu ▸ h0) hzero
  · exact h.stays e fun hmem => hnot (List.mem_append_left _ hmem)

theorem Numbered.step {as : List Address} {u t : World} {a : Address} (h : Numbered w as u)
    (ht : outputEntityStep u a = .ok t) : Numbered w (as ++ [a]) t := by
  obtain ⟨row, hrow, rfl⟩ := outputEntityStep_eq_ok.mp ht
  split
  · rename_i hzero
    exact h.new hrow hzero
  · rename_i hzero
    exact h.old hrow hzero

theorem numbered_of_ok {as : List Address} {u : World} (hu : outputEntityMysql w as = .ok u) :
    Numbered w as u := by
  have hinit : Numbered w [] w :=
    ⟨fun a row h _ => h, fun a e h _ => h, fun a ha => absurd ha List.not_mem_nil, fun e _ => rfl,
      fun e he => he⟩
  exact run_invariant (V := fun _ => True) (P := Numbered w) (fun _ _ _ => trivial) hinit
    (fun _ _ _ _ _ h ht => h.step ht) trivial hu

/-- As long as the addresses are known, the counter stands still and is recorded. -/
theorem entitycnt_recorded {as : List Address} {u : World}
    (has : ∀ a ∈ as, ∃ e, w.conn.db.entity a = some e ∧ e ≠ 0)
    (hu : outputEntityMysql w as = .ok u) :
    u.conn = w.conn ∧ u.entitycnt = w.entitycnt ∧ (as ≠ [] → w.entitycnt ∈ u.entitychangeV) := by
  refine run_invariant (V := fun as => ∀ a ∈ as, ∃ e, w.conn.db.entity a = some e ∧ e ≠ 0)
    (P := fun as u => u.conn = w.conn ∧ u.entitycnt = w.entitycnt ∧
      (as ≠ [] → w.entitycnt ∈ u.entitychangeV))
    (fun xs x h a ha => h a (List.mem_append_left _ ha)) ⟨rfl, rfl, fun h => absurd rfl h⟩ ?_ has hu
  rintro as v a t has ⟨hconn, hcnt, -⟩ ht
  obtain ⟨row, hrow, rfl⟩ := outputEntityStep_eq_ok.mp ht
  obtain ⟨e, he, hne⟩ := has a (List.mem_append_right _ List.mem_cons_self)
  rw [hconn] at hrow
  rw [Db.entity, hrow] at he
  rw [if_neg (Option.some.inj he ▸ hne)]
  exact ⟨hconn, hcnt, fun _ => hcnt ▸ List.mem_append_right _ List.mem_cons_self⟩

/-! ### One call -/

theorem entity_eq_some {db : Db} {a : Address} {e : UInt32} :
    db.entity a = some e ↔ ∃ row, db.addressinfo.find? a = some row ∧ row.entity = e :=
  Option.map_eq_some_iff

theorem mem_keys_of_entity {db : Db} {a : Address} :
    a ∈ db.addressinfo.keys ↔ ∃ e, db.entity a = some e := by
  simp only [KeyedTable.mem_keys, entity_eq_some]
  constructor
  · rintro ⟨row, h⟩
    exact ⟨row.entity, row, h, rfl⟩
  · rintro ⟨_, row, h, -⟩
    exact ⟨row, h⟩

theorem entity_afterCredits {a : Address} :
    (∀ e, w.conn.db.entity a = some e → (afterCredits w tx).conn.db.entity a = some e) ∧
      (w.conn.db.entity a = none → (afterCredits w tx).conn.db.entity a = none ∨
        (afterCredits w tx).conn.db.entity a = some 0) := by
  rw [afterCredits, Conn.db_queries]
  exact Db.entity_foldl movesMoney_creditStmts _ a

section Call

variable {wi wo : World} {merged : List UInt32} {e : UInt32}
  (hm : Merged w wi merged)
  (hn : Numbered (afterCredits wi tx) (tx.outs.map Txout.address) wo)

include hm hn

/-- An address that carries an entity not recorded carried it before the call. -/
theorem entity_before {a : Address} (ha : wo.conn.db.entity a = some e)
    (hnot : e ∉ wo.entitychangeV) : w.conn.db.entity a = some e := by
  have hc := hn.comes a e ha hnot
  cases hi : wi.conn.db.entity a with
  | some e' =>
    obtain rfl : e' = e := Option.some.inj ((entity_afterCredits.1 e' hi).symm.trans hc)
    exact hm.comes a e' hi fun hmem => hnot (hn.records hmem)
  | none =>
    -- the row is new, so it is that of an output and gets a number
    have hout : a ∈ tx.outs.map Txout.address := by
      by_contra hout
      rw [Db.entity, find?_afterCredits hout] at hc
      exact absurd (hi.symm.trans hc) (by simp)
    have hnew : (afterCredits wi tx).conn.db.entity a = none ∨
        (afterCredits wi tx).conn.db.entity a = some 0 := entity_afterCredits.2 hi
    rcases hnew with h | h
    · exact absurd (h.symm.trans hc) (by simp)
    · exact absurd (hn.numbers a hout h e ha) hnot

omit hn in
/-- Up to an output before which no row is opened, the counter is recorded. -/
theorem counter_recorded {pre post : List Txout} {o : Txout} (hsplit : tx.outs = pre ++ o :: post)
    (hzero : ∀ b ∈ w.conn.db.addressinfo.keys, w.conn.db.entity b ≠ some 0)
    (hpre : ∀ o' ∈ pre ++ [o], o'.address ∈ w.conn.db.addressinfo.keys)
    (hwo : outputEntityMysql (afterCredits wi tx) (tx.outs.map Txout.address) = .ok wo) :
    w.entitycnt ∈ wo.entitychangeV := by
  have hsplit' : tx.outs.map Txout.address
      = (pre ++ [o]).map Txout.address ++ post.map Txout.address := by
    rw [hsplit, ← List.map_append, List.append_assoc]
    rfl
  have hnonzero := hm.nonzero fun b hb => hzero b (mem_keys_of_entity.mpr ⟨0, hb⟩) hb
  rw [hsplit'] at hwo
  obtain ⟨u, hu, hrest⟩ := run_append_ok.mp hwo
  have hknown : ∀ a ∈ (pre ++ [o]).map Txout.address,
      ∃ e, (afterCredits wi tx).conn.db.entity a = some e ∧ e ≠ 0 := by
    intro a ha
    obtain ⟨o', ho', rfl⟩ := List.mem_map.mp ha
    obtain ⟨e, he⟩ := mem_keys_of_entity.mp (hpre o' ho')
    obtain ⟨e', he'⟩ := hm.known _ e he
    exact ⟨e', entity_afterCredits.1 e' he', fun h0 => hnonzero _ (h0 ▸ he')⟩
  obtain ⟨-, -, hmem⟩ := entitycnt_recorded hknown hu
  have hcnt : (afterCredits wi tx).entitycnt = w.entitycnt := hm.entitycnt
  exact (numbered_of_ok hrest).records (hcnt ▸ hmem (by simp))

/-- The row of such an address is not touched. -/
theorem row_after {a : Address} {row : AddressRow} (ht : Tracked w tx)
    (hin : ∀ e, InputEntity w tx e → e ∈ merged)
    (hwo : outputEntityMysql (afterCredits wi tx) (tx.outs.map Txout.address) = .ok wo)
    (hrow : w.conn.db.addressinfo.find? a = some row) (hnot : row.entity ∉ wo.entitychangeV)
    (hmerged : row.entity ∉ merged) : wo.conn.db.addressinfo.find? a = some row := by
  have hi := hm.keeps a row hrow hmerged
  by_cases hout : a ∈ tx.outs.map Txout.address
  · exfalso
    obtain ⟨o, ho, rfl⟩ := List.mem_map.mp hout
    obtain ⟨pre, post, hsplit⟩ := List.append_of_mem ho
    rcases ht pre o post hsplit row.entity (entity_eq_some.mpr ⟨row, hrow, rfl⟩) with
      hrec | hinput | ⟨hcnt, hzero, hpre⟩
    · exact hnot (hn.records (hm.records hrec))
    · exact hmerged (hin _ hinput)
    · refine hnot (hcnt ▸ counter_recorded hm hsplit hzero (fun o' ho' => ?_) hwo)
      rcases List.mem_append.mp ho' with ho' | ho'
      · exact hpre o' ho'
      · rw [List.mem_singleton.mp ho']
        exact KeyedTable.mem_keys.mpr ⟨row, hrow⟩
  · refine hn.keeps a row ?_ (.inl hout)
    rw [find?_afterCredits hout, hi]

end Call

/-- **An entity that a call does not record** has the rows it had. -/
theorem rowsOf_call {e : UInt32} (ht : Tracked w tx) (hw : transactionProcess w tx = .ok w')
    (hnot : e ∉ w'.entitychangeV) (hlive : ∃ row, w'.conn.db.entityinfo.find? e = some row) :
    e ∉ w.entitychangeV ∧ w'.conn.db.entityinfo.find? e = w.conn.db.entityinfo.find? e ∧
      w'.conn.db.rowsOf e = w.conn.db.rowsOf e := by
  obtain ⟨-, pres, wi, wo, hres, hwi, hwo, rfl⟩ := transactionProcess_eq_ok.mp hw
  obtain ⟨merged, hm, hin⟩ := merged_of_ok hwi
  have hn := numbered_of_ok hwo
  have hput : (afterPut wo tx pres).conn.db.addressinfo = wo.conn.db.addressinfo ∧
      (afterPut wo tx pres).conn.db.entityinfo = wo.conn.db.entityinfo := by
    rw [afterPut, Conn.db_query]
    exact ⟨rfl, rfl⟩
  have hinputs : ∀ e, InputEntity w tx e → e ∈ merged := by
    rintro e ⟨pres', hres', hne, p, hp, he⟩
    obtain rfl : pres' = pres := Except.ok.inj (hres'.symm.trans hres)
    exact hin hne p hp e he
  have hinfo : wo.conn.db.entityinfo.find? e = wi.conn.db.entityinfo.find? e := by
    rw [hn.stays e hnot, afterCredits, Conn.db_queries, Db.entityinfo_foldl movesMoney_creditStmts]
  -- a merged entity is recorded or has left `entityinfo`
  have hmerged : e ∉ merged := by
    intro he
    obtain ⟨row, hrow⟩ := hlive
    rw [hput.2, hinfo] at hrow
    rcases hm.gone e he with h | h
    · exact hnot (hn.records h)
    · exact absurd (h.symm.trans hrow) (by simp)
  refine ⟨fun he => hnot (hn.records (hm.records he)),
    by rw [hput.2, hinfo, hm.stays e hmerged], ?_⟩
  rw [Db.rowsOf, hput.1]
  refine KeyedTable.valuesWhere_congr ?_ (fun a v v' hv hv' hor => ?_) (fun a v' hv hv' => ?_)
  · obtain ⟨js, hjs, -⟩ := transactionProcess_journal hw hres
    rw [← hput.1, hjs, Conn.db_queries]
    exact Db.keys_foldl_initial _ _
  · have hve : v.entity = e := by
      rcases hor with h | h
      · exact of_decide_eq_true h
      · have hbefore := entity_before hm hn
          (entity_eq_some.mpr ⟨v', hv', of_decide_eq_true h⟩) hnot
        obtain ⟨v'', hv'', hent⟩ := entity_eq_some.mp hbefore
        exact Option.some.inj (hv''.symm.trans hv) ▸ hent
    have hafter := row_after hm hn ht hinputs hwo hv (hve ▸ hnot) (hve ▸ hmerged)
    exact Option.some.inj (hafter.symm.trans hv')
  · refine decide_eq_false fun h => ?_
    obtain ⟨v, hv'', -⟩ := entity_eq_some.mp
      (entity_before hm hn (entity_eq_some.mpr ⟨v', hv', h⟩) hnot)
    exact absurd (hv.symm.trans hv'') (by simp)

theorem Fresh.call (h : Fresh w) (ht : Tracked w tx) (hw : transactionProcess w tx = .ok w') :
    Fresh w' := by
  intro e row hrow
  by_cases hmem : e ∈ w'.entitychangeV
  · exact .inl hmem
  · right
    obtain ⟨hnot, hinfo, hrows⟩ := rowsOf_call ht hw hmem ⟨row, hrow⟩
    rw [hrows]
    exact (h e row (hinfo ▸ hrow)).resolve_left hnot

/-! ### Runs -/

/-- A run of `unzipBlocks`, as far as the tables go. -/
def unzipRun (w : World) (txs : List Transaction) : Except Fault World := do
  let w ← run transactionProcess w txs
  .ok (updateEntityMysql w)

/-- Every row of `entityinfo` is the aggregate of the rows of its entity. -/
def Current (w : World) : Prop :=
  ∀ e row, w.conn.db.entityinfo.find? e = some row → row = EntityRow.aggregate (w.conn.db.rowsOf e)

/-- All calls of a run are tracked, each in the state before it. -/
def TrackedCalls (w : World) (txs : List Transaction) : Prop :=
  AtEvery (fun pre tx => ∀ u, run transactionProcess w pre = .ok u → Tracked u tx) txs

/-- All calls of all runs are tracked. -/
def TrackedRuns (w : World) (runs : List (List Transaction)) : Prop :=
  AtEvery (fun pre txs => ∀ u, run unzipRun w pre = .ok u → TrackedCalls u txs) runs

instance (w : World) (txs : List Transaction) : Decidable (TrackedCalls w txs) :=
  inferInstanceAs (Decidable (AtEvery _ _))

instance (w : World) (runs : List (List Transaction)) : Decidable (TrackedRuns w runs) :=
  inferInstanceAs (Decidable (AtEvery _ _))

theorem Fresh.update (h : Fresh w) : Current (updateEntityMysql w) := by
  intro e row hrow
  have hrows : (updateEntityMysql w).conn.db.rowsOf e = w.conn.db.rowsOf e := by
    rw [Db.rowsOf, updateEntityMysql, Conn.db_queries, (foldl_aggregateEntity _ _).1]
    rfl
  rw [find?_updateEntityMysql] at hrow
  obtain ⟨row', hrow', hite⟩ := Option.map_eq_some_iff.mp hrow
  rw [hrows]
  by_cases hmem : e ∈ w.entitychangeV
  · rw [if_pos hmem] at hite
    exact hite.symm
  · rw [if_neg hmem] at hite
    exact hite ▸ (h e row' hrow').resolve_left hmem

theorem Fresh.calls {txs : List Transaction} (h : Fresh w) (ht : TrackedCalls w txs)
    (hw : run transactionProcess w txs = .ok w') : Fresh w' := by
  have hboth : run transactionProcess w txs = .ok w' ∧ Fresh w' := by
    refine run_invariant (V := TrackedCalls w)
      (P := fun done u => run transactionProcess w done = .ok u ∧ Fresh u)
      (fun xs x hV => (atEvery_snoc.mp hV).1) ⟨rfl, h⟩ ?_ ht hw
    rintro done u tx v hV ⟨hu, hfresh⟩ hv
    exact ⟨run_snoc_ok.mpr ⟨u, hu, hv⟩, hfresh.call ((atEvery_snoc.mp hV).2 u hu) hv⟩
  exact hboth.2

/-- **The aggregates are current after every run** whose calls record what they
touch. -/
theorem aggregates_current {w₀ : World} {runs : List (List Transaction)}
    (hempty : w₀.entitychangeV = []) (hstart : Current w₀) (ht : TrackedRuns w₀ runs) :
    ∀ done, done <+: runs → ∀ w, run unzipRun w₀ done = .ok w →
      w.entitychangeV = [] ∧ Current w := by
  intro done hdone w hw
  have hall : run unzipRun w₀ done = .ok w ∧ w.entitychangeV = [] ∧ Current w := by
    refine run_invariant (V := TrackedRuns w₀)
      (P := fun done u => run unzipRun w₀ done = .ok u ∧ u.entitychangeV = [] ∧ Current u)
      (fun xs x hV => (atEvery_snoc.mp hV).1) ⟨rfl, hempty, hstart⟩ ?_ (ht.of_initial hdone) hw
    rintro done u txs v hV ⟨hu, -, hcurrent⟩ hv
    refine ⟨run_snoc_ok.mpr ⟨u, hu, hv⟩, ?_⟩
    obtain ⟨u', hu', hv⟩ := bind_eq_ok.mp hv
    have hfresh : Fresh u := fun e row hrow => .inr (hcurrent e row hrow)
    cases hv
    exact ⟨rfl, (hfresh.calls ((atEvery_snoc.mp hV).2 u hu) hu').update⟩
  exact hall.2

theorem aggregates_current_of_spending :
    TrackedRuns (.fresh .null) [[mined], [spending]] ∧
      ∃ w, run unzipRun (.fresh .null) [[mined], [spending]] = .ok w ∧
        w.conn.db.entityinfo.keys = [1, 3] ∧ Current w := by
  have ht : TrackedRuns (.fresh .null) [[mined], [spending]] := by decide +kernel
  obtain ⟨w, hw, hkeys⟩ := exists_ok_of_any
    (x := run unzipRun (.fresh .null) [[mined], [spending]])
    (p := fun w => w.conn.db.entityinfo.keys = [1, 3]) (by decide +kernel)
  have hstart : Current (.fresh .null) := by
    intro e row hrow
    exact absurd hrow (by simp [World.fresh, Conn.db, Db.empty])
  exact ⟨ht, w, hw, of_decide_eq_true hkeys,
    (aggregates_current rfl hstart ht _ List.prefix_rfl w hw).2⟩

/-- A coinbase transaction that pays an address `mined` has paid. -/
def minedAgain : Transaction :=
  { mined with
    outCount := 1
    outs := [.plain (.replicate 20 7) 25]
    blocknumber := 2
    txcounter := 2
    txtime := 2000
    curhash := .replicate 32 3
    outs_len := rfl }

/-- The second run pays an address of entity `1` but records the counter, `2`,
so the row of entity `1` keeps the sums of the first run. -/
theorem stale_aggregate :
    ∃ w, run unzipRun (.fresh .null) [[mined], [minedAgain]] = .ok w ∧ ¬ Current w := by
  obtain ⟨w, hw, hrow⟩ := exists_ok_of_any
    (x := run unzipRun (.fresh .null) [[mined], [minedAgain]])
    (p := fun w => (w.conn.db.entityinfo.find? 1).any fun row =>
      row.outval = some 50 ∧ (EntityRow.aggregate (w.conn.db.rowsOf 1)).outval = some 75)
    (by decide +kernel)
  refine ⟨w, hw, fun hcurrent => ?_⟩
  obtain ⟨row, hfind, hvals⟩ := (Option.any_eq_true _ _).mp hrow
  obtain ⟨hold, hnew⟩ := of_decide_eq_true hvals
  rw [← hcurrent 1 row hfind, hold] at hnew
  cases hnew

end BitcoinAnalysis
