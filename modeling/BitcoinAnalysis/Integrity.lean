/-
Referential integrity between the stores.

Between two calls every output address in LevelDB has a row of `addressinfo`,
every row has a nonzero entity not above the counter, and `entityinfo` has a
row for exactly the entities in use.  Hence no `SELECT entity` of the next call
comes back empty, and the next call returns (`referential_integrity`).
-/
import BitcoinAnalysis.Agreement
import BitcoinAnalysis.Clustering

open Run

namespace BitcoinAnalysis

/-- Plain runs are runs without cuts. -/
theorem run_call (w : World) (txs : List Transaction) :
    run Action.step w (txs.map .call) = run transactionProcess w txs := by
  induction txs generalizing w with
  | nil => rfl
  | cons tx txs ih =>
    rw [List.map_cons, run_cons, run_cons]
    exact congrArg _ (funext ih)

theorem calls_map_call (txs : List Transaction) : calls (txs.map .call) = txs := by
  rw [calls, List.filterMap_map]
  exact List.filterMap_some

theorem clustered_calls {w₀ : World} {txs : List Transaction} (h₀ : EmptyStores w₀)
    (hn : Numberable w₀.entitycnt.toNat txs) :
    ∃ w, run transactionProcess w₀ txs = .ok w ∧ Clustered w₀.entitycnt.toNat txs w := by
  rw [← calls_map_call txs] at hn
  obtain ⟨w, hw, hcl⟩ := clustered_run h₀ hn
  rw [run_call] at hw
  rw [calls_map_call] at hcl
  exact ⟨w, hw, hcl⟩

/-- The entities in use are the keys of `entityinfo`. -/
theorem Clustered.mem_entityinfo {n₀ : ℕ} {txs : List Transaction} {w : World}
    (h : Clustered n₀ txs w) (e : UInt32) :
    e ∈ w.conn.db.entityinfo.keys ↔
      ∃ a row, w.conn.db.addressinfo.find? a = some row ∧ row.entity = e := by
  rw [h.entities.entities]
  refine exists_congr fun a => ?_
  rw [Db.label_eq_some]
  constructor
  · rintro ⟨row, hrow, -, he⟩
    exact ⟨row, hrow, UInt32.toNat.inj he⟩
  · rintro ⟨row, hrow, rfl⟩
    exact ⟨row, hrow, (h.label_of_row hrow).1, rfl⟩

theorem Clustered.entity_le {n₀ : ℕ} {txs : List Transaction} {w : World}
    (h : Clustered n₀ txs w) {a : Address} {row : AddressRow}
    (hrow : w.conn.db.addressinfo.find? a = some row) : row.entity ≤ w.entitycnt := by
  obtain ⟨b, -, hb⟩ := (h.entities.labelling.least a _ (h.label_of_row hrow).2).1
  exact UInt32.le_iff_toNat_le.mpr (h.entities.given_le hb).2

/-- **Referential integrity and no missing row**, after every call of a run. -/
theorem referential_integrity {w₀ : World} {txs : List Transaction} (h₀ : EmptyStores w₀)
    (hn : Numberable w₀.entitycnt.toNat txs) :
    ∀ pre, pre <+: txs → ∃ w, run transactionProcess w₀ pre = .ok w ∧
      (∀ o ∈ storedOutputs w.txDb, ∃ row, w.conn.db.addressinfo.find? (preaddress o.2) = some row) ∧
      (∀ a row, w.conn.db.addressinfo.find? a = some row →
        row.entity ≠ 0 ∧ row.entity ≤ w.entitycnt) ∧
      (∀ e, e ∈ w.conn.db.entityinfo.keys ↔
        ∃ a row, w.conn.db.addressinfo.find? a = some row ∧ row.entity = e) ∧
      ∀ tx, pre ++ [tx] <+: txs → ∃ w', transactionProcess w tx = .ok w' := by
  rintro pre ⟨post, rfl⟩
  have hpre := hn.of_append
  obtain ⟨w, hw, hcl⟩ := clustered_calls h₀ hpre
  refine ⟨w, hw, fun o ho => ?_, fun a row hrow => ?_, hcl.mem_entityinfo, fun tx htx => ?_⟩
  · rw [storedOutputs_eq hpre.chain hcl.processed.stored] at ho
    obtain ⟨p, hp, rfl⟩ := List.mem_map.mp ho
    refine KeyedTable.mem_keys.mp ((hcl.processed.rows _).mpr ?_)
    rw [preaddress_preout, flatMap_outs, List.map_map]
    exact List.mem_map.mpr ⟨p, hp, rfl⟩
  · exact ⟨(hcl.label_of_row hrow).1, hcl.entity_le hrow⟩
  · obtain ⟨rest, hrest⟩ := htx
    rw [← hrest] at hn
    obtain ⟨w', hw', -⟩ := hcl.call hn.of_append
    exact ⟨w', hw'⟩

theorem referential_integrity_of_spending :
    ∃ w, run transactionProcess (World.fresh .null) [mined] = .ok w ∧
      (∀ e, e ∈ w.conn.db.entityinfo.keys ↔
        ∃ a row, w.conn.db.addressinfo.find? a = some row ∧ row.entity = e) ∧
      ∃ w', transactionProcess w spending = .ok w' := by
  have hn : Numberable (World.fresh .null).entitycnt.toNat [mined, spending] :=
    ⟨by decide +kernel, by decide +kernel, by decide +kernel⟩
  obtain ⟨w, hw, -, -, hkeys, hnext⟩ := referential_integrity (World.emptyStores_fresh .null) hn
    [mined] ⟨[spending], rfl⟩
  exact ⟨w, hw, hkeys, hnext spending List.prefix_rfl⟩

end BitcoinAnalysis
