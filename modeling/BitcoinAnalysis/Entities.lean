/-
Entity numbers along a run.

The label of an address is its entity number, if it is not zero.  `Entities R n₀ w`
says that the numbers given so far are `n₀ + 1, n₀ + 2, …` in the order in which
`output_entity_mysql` gave them, each to a new address; that an address now
carries the least number given to an address of its class under `R`; and that
`entityinfo` has a row for exactly the numbers in use.  The invariant holds
through the whole of a call, also between its parts: rows just opened have the
entity 0, hence no label yet.
-/
import BitcoinAnalysis.Clusters
import BitcoinAnalysis.Rows

open Run Clusters

namespace BitcoinAnalysis

def AddressRow.label (row : AddressRow) : Option ℕ :=
  if row.entity = 0 then none else some row.entity.toNat

def Db.label (db : Db) (a : Address) : Option ℕ := (db.addressinfo.find? a).bind AddressRow.label

/-- The number `output_entity_mysql` gives, and to whom. -/
def Stmt.assignment : Stmt → Option (Address × UInt32)
  | .setEntity a e => some (a, e)
  | _ => none

/-- The numbers given so far. -/
def Conn.assigned (conn : Conn) : List (Address × UInt32) := conn.journal.filterMap Stmt.assignment

def Conn.Given (conn : Conn) (a : Address) (i : ℕ) : Prop :=
  ∃ e, (a, e) ∈ conn.assigned ∧ e.toNat = i

structure Entities (R : Address → Address → Prop) (n₀ : ℕ) (w : World) : Prop where
  addresses : (w.conn.assigned.map Prod.fst).Nodup
  ids : w.conn.assigned.map (fun p => p.2.toNat) = List.range' (n₀ + 1) w.conn.assigned.length
  count : w.entitycnt.toNat = n₀ + w.conn.assigned.length
  labelling : Labelling R w.conn.Given w.conn.db.label
  entities : ∀ e, e ∈ w.conn.db.entityinfo.keys ↔ ∃ a, w.conn.db.label a = some e.toNat

variable {R : Address → Address → Prop} {n₀ : ℕ} {w w' : World}

theorem Conn.assigned_queries (conn : Conn) (js : List Stmt) :
    (conn.queries js).assigned = conn.assigned ++ js.filterMap Stmt.assignment := by
  rw [Conn.assigned, Conn.queries, List.filterMap_append]
  rfl

theorem Conn.given_congr {conn conn' : Conn} (h : conn'.assigned = conn.assigned) :
    conn'.Given = conn.Given := by
  funext a i
  rw [Conn.Given, Conn.Given, h]

/-- One more number given. -/
theorem Conn.given_concat {conn conn' : Conn} {a : Address} {e : UInt32}
    (h : conn'.assigned = conn.assigned ++ [(a, e)]) :
    conn'.Given = fun b i => conn.Given b i ∨ b = a ∧ i = e.toNat := by
  funext b i
  rw [Conn.Given, h, eq_iff_iff]
  constructor
  · rintro ⟨e', hmem, rfl⟩
    rcases List.mem_append.mp hmem with hmem | hmem
    · exact .inl ⟨e', hmem, rfl⟩
    · obtain ⟨rfl, rfl⟩ := Prod.mk.inj (List.mem_singleton.mp hmem)
      exact .inr ⟨rfl, rfl⟩
  · rintro (⟨e', hmem, rfl⟩ | ⟨rfl, rfl⟩)
    · exact ⟨e', List.mem_append_left _ hmem, rfl⟩
    · exact ⟨e, List.mem_append_right _ List.mem_cons_self, rfl⟩

theorem AddressRow.label_eq_some {row : AddressRow} {i : ℕ} :
    row.label = some i ↔ row.entity ≠ 0 ∧ row.entity.toNat = i := by
  rw [AddressRow.label]
  split
  · rename_i h
    simp [h]
  · rename_i h
    simp [h]

theorem Db.label_eq_some {db : Db} {a : Address} {i : ℕ} :
    db.label a = some i ↔
      ∃ row, db.addressinfo.find? a = some row ∧ row.entity ≠ 0 ∧ row.entity.toNat = i := by
  simp only [Db.label, Option.bind_eq_some_iff, AddressRow.label_eq_some]

theorem Db.mem_keys_of_label {db : Db} {a : Address} {i : ℕ} (h : db.label a = some i) :
    a ∈ db.addressinfo.keys := by
  obtain ⟨row, hrow, -⟩ := Db.label_eq_some.mp h
  exact KeyedTable.mem_keys.mpr ⟨row, hrow⟩

/-! ### Statements that number nothing -/

def Stmt.Renumbers : Stmt → Prop
  | .relabelEntity .. | .deleteEntity .. | .insertEntity .. | .setEntity .. => True
  | _ => False

theorem Db.label_exec {j : Stmt} (h : ¬ j.Renumbers) (db : Db) : (db.exec j).label = db.label := by
  funext b
  cases j with
  | updateInput a v t =>
    exact KeyedTable.bind_find?_update_of_eq _ _ (.debit v t) AddressRow.label (fun _ => rfl) b
  | upsertOutput a v t =>
    rw [Db.label, Db.label, Db.exec]
    by_cases hba : b = a
    · subst hba
      rw [KeyedTable.find?_upsert_self]
      -- a new row has the entity 0
      cases db.addressinfo.find? b with
      | none => rfl
      | some row => rfl
    · rw [KeyedTable.find?_upsert_ne _ hba]
  | updateMaxbal a =>
    refine KeyedTable.bind_find?_update_of_eq _ _ .raiseMaxbal AddressRow.label (fun row => ?_) b
    rw [AddressRow.raiseMaxbal]
    split
    · rfl
    · rfl
  | relabelEntity => exact absurd trivial h
  | deleteEntity => exact absurd trivial h
  | insertEntity => exact absurd trivial h
  | setEntity => exact absurd trivial h
  | _ => rfl

theorem Db.entityinfo_keys_exec {j : Stmt} (h : ¬ j.Renumbers) (db : Db) :
    (db.exec j).entityinfo.keys = db.entityinfo.keys := by
  cases j with
  | aggregateEntity e => exact KeyedTable.keys_modify _ _ _
  | relabelEntity => exact absurd trivial h
  | deleteEntity => exact absurd trivial h
  | insertEntity => exact absurd trivial h
  | setEntity => exact absurd trivial h
  | _ => rfl

theorem Db.foldl_not_renumbers {js : List Stmt} (h : ∀ j ∈ js, ¬ j.Renumbers) (db : Db) :
    (js.foldl Db.exec db).label = db.label ∧
      (js.foldl Db.exec db).entityinfo.keys = db.entityinfo.keys := by
  induction js generalizing db with
  | nil => exact ⟨rfl, rfl⟩
  | cons j js ih =>
    have hj := h j List.mem_cons_self
    rw [List.foldl_cons]
    obtain ⟨hlabel, hkeys⟩ := ih (fun k hk => h k (List.mem_cons_of_mem j hk)) (db.exec j)
    rw [hlabel, hkeys]
    exact ⟨Db.label_exec hj db, Db.entityinfo_keys_exec hj db⟩

theorem filterMap_assignment_eq_nil {js : List Stmt} (h : ∀ j ∈ js, ¬ j.Renumbers) :
    js.filterMap Stmt.assignment = [] := by
  rw [List.filterMap_eq_nil_iff]
  intro j hj
  cases j with
  | setEntity a e => exact absurd trivial (h _ hj)
  | _ => rfl

theorem Entities.frame (h : Entities R n₀ w) {js : List Stmt} (hjs : ∀ j ∈ js, ¬ j.Renumbers)
    (hconn : w'.conn = w.conn.queries js) (hcnt : w'.entitycnt = w.entitycnt) :
    Entities R n₀ w' := by
  have hassigned : w'.conn.assigned = w.conn.assigned := by
    rw [hconn, Conn.assigned_queries, filterMap_assignment_eq_nil hjs, List.append_nil]
  obtain ⟨hlabel, hkeys⟩ := Db.foldl_not_renumbers hjs w.conn.db
  rw [← Conn.db_queries, ← hconn] at hlabel hkeys
  refine ⟨?_, ?_, ?_, ?_, fun e => ?_⟩
  · rw [hassigned]
    exact h.addresses
  · rw [hassigned]
    exact h.ids
  · rw [hassigned, hcnt]
    exact h.count
  · rw [Conn.given_congr hassigned, hlabel]
    exact h.labelling
  · rw [hlabel, hkeys]
    exact h.entities e

/-- An address keeps having a label. -/
theorem Entities.labelled_mono {R' : Address → Address → Prop} (h : Entities R n₀ w)
    (h' : Entities R' n₀ w') {js : List Stmt} (hconn : w'.conn = w.conn.queries js) {a : Address}
    (ha : ∃ i, w.conn.db.label a = some i) : ∃ i, w'.conn.db.label a = some i := by
  obtain ⟨i, e, hmem, hi⟩ := (h.labelling.entered a).mp ha
  refine (h'.labelling.entered a).mpr ⟨i, e, ?_, hi⟩
  rw [hconn, Conn.assigned_queries]
  exact List.mem_append_left _ hmem

/-! ### Merging -/

/-- The labels after a merge of sorted numbers without 0. -/
theorem label_mergeStmts {e0 : UInt32} {es : List UInt32} (db : Db)
    (hsort : (e0 :: es).Pairwise (· ≤ ·)) (h0 : e0 ≠ 0) {a : Address} {row : AddressRow}
    (hrow : db.addressinfo.find? a = some row) :
    ((mergeStmts e0 e0 es).foldl Db.exec db).label a
      = if row.entity ∈ e0 :: es then some e0.toNat else row.label := by
  rw [Db.label, find?_mergeStmts_addressinfo db hsort, hrow, Option.map_some, Option.bind_some]
  split
  · rw [AddressRow.label_eq_some]
    exact ⟨h0, rfl⟩
  · rfl

theorem mem_keys_mergeStmts {e0 : UInt32} {es : List UInt32} (db : Db)
    (hsort : (e0 :: es).Pairwise (· ≤ ·)) {k : UInt32} :
    k ∈ ((mergeStmts e0 e0 es).foldl Db.exec db).entityinfo.keys ↔
      k ∈ db.entityinfo.keys ∧ (k ∈ e0 :: es → k = e0) := by
  rw [KeyedTable.mem_keys, find?_mergeStmts_entityinfo e0 db hsort, KeyedTable.mem_keys]
  by_cases hk : k ∈ es ∧ k ≠ e0
  · simp [hk.1, hk.2]
  · rw [if_neg hk]
    refine (and_iff_left fun hmem => ?_).symm
    rcases List.mem_cons.mp hmem with hmem | hmem
    · exact hmem
    · by_contra hne
      exact hk ⟨hmem, hne⟩

theorem filterMap_assignment_mergeStmts (e0 : UInt32) (es : List UInt32) :
    (mergeStmts e0 e0 es).filterMap Stmt.assignment = [] := by
  rw [List.filterMap_eq_nil_iff]
  intro j hj
  rcases mem_mergeStmts hj with ⟨e, rfl⟩ | ⟨e, rfl⟩
  · rfl
  · rfl

section Merge

variable {db : Db} {as : List Address} {entityV : List UInt32} {e0 : UInt32} {es : List UInt32}

/-- The numbers merged are the labels of the inputs. -/
theorem mem_merged_iff (hlab : ∀ a ∈ as, ∃ i, db.label a = some i)
    (hV : as.mapM (selectEntity db) = .ok entityV)
    (hsort : entityV.insertionSort (· ≤ ·) = e0 :: es) (k : UInt32) :
    k ∈ e0 :: es ↔ ∃ x ∈ as, db.label x = some k.toNat := by
  rw [← hsort, List.mem_insertionSort, mem_mapM_ok hV]
  refine exists_congr fun x => and_congr_right fun hx => ?_
  obtain ⟨i, hi⟩ := hlab x hx
  obtain ⟨row, hrow, hne, -⟩ := Db.label_eq_some.mp hi
  rw [selectEntity_eq_ok, Db.label_eq_some]
  constructor
  · rintro ⟨row', hrow', rfl⟩
    obtain rfl := Option.some.inj (hrow.symm.trans hrow')
    exact ⟨row, hrow, hne, rfl⟩
  · rintro ⟨row', hrow', -, hk⟩
    exact ⟨row', hrow', UInt32.toNat.inj hk⟩

variable (hmem : ∀ k : UInt32, k ∈ e0 :: es ↔ ∃ x ∈ as, db.label x = some k.toNat)
  (hpair : (e0 :: es).Pairwise (· ≤ ·))
include hmem

/-- The entity 0 stands for no label, so it is never merged. -/
theorem merged_ne_zero {k : UInt32} (hk : k ∈ e0 :: es) : k ≠ 0 := by
  obtain ⟨x, -, hx⟩ := (hmem k).mp hk
  obtain ⟨row, -, hne, heq⟩ := Db.label_eq_some.mp hx
  exact UInt32.toNat.inj heq ▸ hne

include hpair

theorem isLeast_merged : IsLeast {i | ∃ x ∈ {a | a ∈ as}, db.label x = some i} e0.toNat := by
  refine ⟨(hmem e0).mp List.mem_cons_self, ?_⟩
  rintro i ⟨x, hx, hxi⟩
  obtain ⟨row, -, -, rfl⟩ := Db.label_eq_some.mp hxi
  rcases List.mem_cons.mp ((hmem row.entity).mpr ⟨x, hx, hxi⟩) with heq | hes
  · rw [heq]
  · exact UInt32.le_iff_toNat_le.mp ((List.pairwise_cons.mp hpair).1 _ hes)

/-- Who carries the label of an input carries the least of them after the merge;
every other label stays. -/
theorem label_mergeStmts_of_some {a : Address} {i : ℕ} (ha : db.label a = some i) :
    ((mergeStmts e0 e0 es).foldl Db.exec db).label a
      = if ∃ x ∈ as, db.label x = some i then some e0.toNat else some i := by
  obtain ⟨row, hrow, hne, rfl⟩ := Db.label_eq_some.mp ha
  rw [label_mergeStmts db hpair (merged_ne_zero hmem List.mem_cons_self) hrow]
  simp only [hmem, AddressRow.label_eq_some.mpr ⟨hne, rfl⟩]

theorem label_mergeStmts_of_none {a : Address} (ha : db.label a = none) :
    ((mergeStmts e0 e0 es).foldl Db.exec db).label a = none := by
  cases hrow : db.addressinfo.find? a with
  | none =>
    rw [Db.label, find?_mergeStmts_addressinfo _ hpair, hrow]
    rfl
  | some row =>
    have hzero : row.label = none := by
      rw [Db.label, hrow] at ha
      exact ha
    rw [label_mergeStmts db hpair (merged_ne_zero hmem List.mem_cons_self) hrow, if_neg, hzero]
    intro hk
    rw [AddressRow.label, if_neg (merged_ne_zero hmem hk)] at hzero
    cases hzero

/-- The rows of `entityinfo` are still those of the numbers in use. -/
theorem mem_keys_mergeStmts_iff
    (hent : ∀ e, e ∈ db.entityinfo.keys ↔ ∃ a, db.label a = some e.toNat) (k : UInt32) :
    k ∈ ((mergeStmts e0 e0 es).foldl Db.exec db).entityinfo.keys ↔
      ∃ a, ((mergeStmts e0 e0 es).foldl Db.exec db).label a = some k.toNat := by
  rw [mem_keys_mergeStmts _ hpair, hent]
  constructor
  · rintro ⟨⟨a, ha⟩, hk⟩
    refine ⟨a, ?_⟩
    rw [label_mergeStmts_of_some hmem hpair ha]
    split
    · rename_i hL
      rw [hk ((hmem k).mpr hL)]
    · rfl
  · rintro ⟨a, ha⟩
    cases hold : db.label a with
    | none =>
      rw [label_mergeStmts_of_none hmem hpair hold] at ha
      cases ha
    | some i =>
      rw [label_mergeStmts_of_some hmem hpair hold] at ha
      split at ha
      · -- `a` was merged: `k` is the least number, which an input carried before
        obtain rfl := UInt32.toNat.inj (Option.some.inj ha)
        obtain ⟨x, -, hx⟩ := (hmem e0).mp List.mem_cons_self
        exact ⟨⟨x, hx⟩, fun _ => rfl⟩
      · rename_i hL
        obtain rfl := Option.some.inj ha
        exact ⟨⟨a, hold⟩, fun hk => absurd ((hmem k).mp hk) hL⟩

end Merge

/-- **A merge joins the classes of the inputs.** -/
theorem Entities.merge (h : Entities R n₀ w) {as : List Address} {entityV : List UInt32}
    {e0 : UInt32} {es : List UInt32} (hlab : ∀ a ∈ as, ∃ i, w.conn.db.label a = some i)
    (hV : as.mapM (selectEntity w.conn.db) = .ok entityV)
    (hsort : entityV.insertionSort (· ≤ ·) = e0 :: es)
    (hconn : w'.conn = w.conn.queries (mergeStmts e0 e0 es)) (hcnt : w'.entitycnt = w.entitycnt) :
    Entities (withClique R {a | a ∈ as}) n₀ w' := by
  have hpair : (e0 :: es).Pairwise (· ≤ ·) := hsort ▸ List.pairwise_insertionSort (· ≤ ·) entityV
  have hmem := mem_merged_iff hlab hV hsort
  have hdb : w'.conn.db = (mergeStmts e0 e0 es).foldl Db.exec w.conn.db := by
    rw [hconn, Conn.db_queries]
  have hassigned : w'.conn.assigned = w.conn.assigned := by
    rw [hconn, Conn.assigned_queries, filterMap_assignment_mergeStmts, List.append_nil]
  refine ⟨hassigned ▸ h.addresses, hassigned ▸ h.ids, hassigned ▸ hcnt ▸ h.count, ?_, ?_⟩
  · rw [Conn.given_congr hassigned, hdb]
    refine h.labelling.merge hlab (isLeast_merged hmem hpair) ?_ ?_ ?_
    · intro a i ha hL
      exact (label_mergeStmts_of_some hmem hpair ha).trans (if_pos hL)
    · intro a i ha hL
      exact (label_mergeStmts_of_some hmem hpair ha).trans (if_neg hL)
    · intro a ha
      exact label_mergeStmts_of_none hmem hpair ha
  · rw [hdb]
    exact mem_keys_mergeStmts_iff hmem hpair h.entities

theorem Entities.inputEntityMysql (h : Entities R n₀ w) {as : List Address}
    (hlab : as = [coinbaseH] ∨ ∀ a ∈ as, ∃ i, w.conn.db.label a = some i)
    (hw : inputEntityMysql w as = .ok w') : Entities (withClique R {a | a ∈ as}) n₀ w' := by
  rcases inputEntityMysql_eq_ok.mp hw with ⟨rfl, rfl⟩ | ⟨hne, entityV, e0, es, hV, hsort, rfl⟩
  · have hset : {a | a ∈ [coinbaseH]} = {coinbaseH} := by simp
    refine { h with labelling := h.labelling.congr fun a b => ?_ }
    rw [hset, eqvGen_withClique_singleton]
  · exact h.merge (hlab.resolve_left hne) hV hsort rfl rfl

/-! ### Numbering -/

theorem label_setEntity (db : Db) {a : Address} {e : UInt32} (ha : a ∈ db.addressinfo.keys)
    (he : e ≠ 0) :
    ([.setEntity a e, .insertEntity e].foldl Db.exec db).label
      = fun b => if b = a then some e.toNat else db.label b := by
  obtain ⟨row, hrow⟩ := KeyedTable.mem_keys.mp ha
  funext b
  show ((db.addressinfo.modify a (.relabel e)).find? b).bind AddressRow.label = _
  rw [KeyedTable.find?_modify]
  split
  · rw [hrow]
    exact AddressRow.label_eq_some.mpr ⟨he, rfl⟩
  · rfl

/-- The new row of `entityinfo` is that of the new number. -/
theorem mem_keys_setEntity_iff {db : Db} {a : Address} {e : UInt32}
    (ha : a ∈ db.addressinfo.keys) (he : e ≠ 0) (hnone : db.label a = none)
    (hent : ∀ k, k ∈ db.entityinfo.keys ↔ ∃ b, db.label b = some k.toNat) (k : UInt32) :
    k ∈ ([.setEntity a e, .insertEntity e].foldl Db.exec db).entityinfo.keys ↔
      ∃ b, ([.setEntity a e, .insertEntity e].foldl Db.exec db).label b = some k.toNat := by
  rw [label_setEntity db ha he]
  show k ∈ (db.entityinfo.upsert e db.entityDefault id).keys ↔ _
  rw [KeyedTable.mem_keys_upsert, hent]
  constructor
  · rintro (rfl | ⟨b, hb⟩)
    · exact ⟨a, if_pos rfl⟩
    · refine ⟨b, (if_neg ?_).trans hb⟩
      rintro rfl
      rw [hnone] at hb
      cases hb
  · rintro ⟨b, hb⟩
    by_cases hba : b = a
    · exact .inl (UInt32.toNat.inj (Option.some.inj ((if_pos hba).symm.trans hb))).symm
    · exact .inr ⟨b, (if_neg hba).symm.trans hb⟩

theorem Entities.labelled_of_assigned (h : Entities R n₀ w) {b : Address}
    (hb : b ∈ w.conn.assigned.map Prod.fst) : ∃ i, w.conn.db.label b = some i := by
  obtain ⟨p, hp, rfl⟩ := List.mem_map.mp hb
  exact (h.labelling.entered p.1).mpr ⟨_, p.2, hp, rfl⟩

theorem Entities.not_assigned (h : Entities R n₀ w) {a : Address}
    (hnone : w.conn.db.label a = none) : a ∉ w.conn.assigned.map Prod.fst := by
  intro hmem
  obtain ⟨i, hi⟩ := h.labelled_of_assigned hmem
  rw [hnone] at hi
  cases hi

/-- There is a number left for one more address. -/
theorem Entities.room (h : Entities R n₀ w) {S : Finset Address} {a : Address}
    (hS : ∀ b ∈ w.conn.db.addressinfo.keys, b ∈ S) (ha : a ∈ w.conn.db.addressinfo.keys)
    (hnone : w.conn.db.label a = none) : w.conn.assigned.length + 1 ≤ S.card := by
  have hnd : (a :: w.conn.assigned.map Prod.fst).Nodup :=
    List.nodup_cons.mpr ⟨h.not_assigned hnone, h.addresses⟩
  have hsub : (a :: w.conn.assigned.map Prod.fst).toFinset ⊆ S := by
    intro b hb
    rcases List.mem_cons.mp (List.mem_toFinset.mp hb) with rfl | hb
    · exact hS b ha
    · obtain ⟨i, hi⟩ := h.labelled_of_assigned hb
      exact hS b (Db.mem_keys_of_label hi)
  have hcard := Finset.card_le_card hsub
  rwa [List.toFinset_card_of_nodup hnd, List.length_cons, List.length_map] at hcard

theorem Entities.given_le (h : Entities R n₀ w) {b : Address} {i : ℕ} (hi : w.conn.Given b i) :
    n₀ < i ∧ i ≤ w.entitycnt.toNat := by
  obtain ⟨e, he, rfl⟩ := hi
  have hmem : e.toNat ∈ w.conn.assigned.map fun p => p.2.toNat := List.mem_map.mpr ⟨_, he, rfl⟩
  rw [h.ids, List.mem_range'_1] at hmem
  rw [h.count]
  omega

/-- **A new address enters under the next number.** -/
theorem Entities.number (h : Entities R n₀ w) {a : Address} {e : UInt32}
    (ha : a ∈ w.conn.db.addressinfo.keys) (hnone : w.conn.db.label a = none)
    (he : e.toNat = w.entitycnt.toNat + 1)
    (hconn : w'.conn = w.conn.queries [.setEntity a e, .insertEntity e])
    (hcnt : w'.entitycnt = e) : Entities R n₀ w' := by
  have hne : e ≠ 0 := by
    rintro rfl
    rw [UInt32.toNat_zero] at he
    omega
  have hlabel := label_setEntity w.conn.db ha hne
  rw [← Conn.db_queries, ← hconn] at hlabel
  -- the new number is the last of the numbers given, and the greatest
  have hassigned : w'.conn.assigned = w.conn.assigned ++ [(a, e)] := by
    rw [hconn, Conn.assigned_queries]
    rfl
  refine ⟨?_, ?_, ?_, ?_, fun k => ?_⟩
  · rw [hassigned, List.map_append, List.map_singleton, ← List.concat_eq_append]
    exact h.addresses.concat (h.not_assigned hnone)
  · rw [hassigned, List.map_append, h.ids, List.length_append, List.length_singleton,
      List.range'_concat, List.map_singleton, he, h.count]
    congr 2
    omega
  · rw [hassigned, hcnt, he, h.count, List.length_append, List.length_singleton]
    omega
  · rw [Conn.given_concat hassigned, hlabel]
    refine h.labelling.enter hnone fun b j hj => ?_
    have hle := (h.given_le hj).2
    omega
  · rw [hconn, Conn.db_queries]
    exact mem_keys_setEntity_iff ha hne hnone h.entities k

/-- One iteration of `output_entity_mysql`. -/
theorem Entities.outputEntityStep (h : Entities R n₀ w) {S : Finset Address} {a : Address}
    (hS : ∀ b ∈ w.conn.db.addressinfo.keys, b ∈ S) (hbound : n₀ + S.card < 2 ^ 32)
    (hw : outputEntityStep w a = .ok w') :
    Entities R n₀ w' ∧ (∃ i, w'.conn.db.label a = some i) ∧
      ∀ b i, w.conn.db.label b = some i → ∃ i', w'.conn.db.label b = some i' := by
  obtain ⟨row, hrow, rfl⟩ := outputEntityStep_eq_ok.mp hw
  have ha : a ∈ w.conn.db.addressinfo.keys := KeyedTable.mem_keys.mpr ⟨row, hrow⟩
  split
  · rename_i h0
    have hnone : w.conn.db.label a = none := by
      rw [Db.label, hrow, Option.bind_some, AddressRow.label, if_pos h0]
    -- there is an address without a number, so the counter has room for one more
    have hroom := h.room hS ha hnone
    have hcount := h.count
    have he : (w.entitycnt + 1).toNat = w.entitycnt.toNat + 1 := by
      rw [UInt32.toNat_add, UInt32.toNat_one, Nat.mod_eq_of_lt (by omega)]
    have hne : w.entitycnt + 1 ≠ 0 := by
      intro hz
      rw [hz, UInt32.toNat_zero] at he
      omega
    have hlabel := label_setEntity w.conn.db ha hne
    rw [← Conn.db_queries] at hlabel
    refine ⟨h.number ha hnone he rfl rfl, ⟨(w.entitycnt + 1).toNat, ?_⟩, fun b i hb => ?_⟩
    · show (w.conn.queries _).db.label a = _
      rw [hlabel]
      exact if_pos rfl
    · by_cases hba : b = a
      · exact ⟨_, (congrFun hlabel b).trans (if_pos hba)⟩
      · exact ⟨i, ((congrFun hlabel b).trans (if_neg hba)).trans hb⟩
  · rename_i h0
    have hlabel : w.conn.db.label a = some row.entity.toNat :=
      Db.label_eq_some.mpr ⟨row, hrow, h0, rfl⟩
    exact ⟨{ h with }, ⟨_, hlabel⟩, fun b i hb => ⟨i, hb⟩⟩

/-- The whole loop: every output address ends with a label. -/
theorem Entities.outputEntityMysql (h : Entities R n₀ w) {S : Finset Address} {as : List Address}
    (hS : ∀ b ∈ w.conn.db.addressinfo.keys, b ∈ S) (hbound : n₀ + S.card < 2 ^ 32)
    (hw : outputEntityMysql w as = .ok w') :
    Entities R n₀ w' ∧ ∀ a, (a ∈ as ∨ ∃ i, w.conn.db.label a = some i) →
      ∃ i, w'.conn.db.label a = some i := by
  have hinv := run_invariant (V := fun _ => True)
    (P := fun bs u => Entities R n₀ u ∧ u.conn.db.addressinfo.keys = w.conn.db.addressinfo.keys ∧
      ∀ a, (a ∈ bs ∨ ∃ i, w.conn.db.label a = some i) → ∃ i, u.conn.db.label a = some i)
    (fun _ _ _ => trivial) ⟨h, rfl, fun a ha => ha.resolve_left (by simp)⟩ ?_ trivial hw
  · exact ⟨hinv.1, hinv.2.2⟩
  · rintro bs u b t - ⟨hu, hkeys, hlab⟩ hstep
    obtain ⟨ht, hb, hkeep⟩ := hu.outputEntityStep (hkeys ▸ hS) hbound hstep
    refine ⟨ht, (outputEntityStep_keys hstep).trans hkeys, fun a ha => ?_⟩
    rw [List.mem_append, List.mem_singleton, or_right_comm] at ha
    rcases ha with ha | rfl
    · obtain ⟨i, hi⟩ := hlab a ha
      exact hkeep a i hi
    · exact hb

end BitcoinAnalysis
