/-
Entities are the classes of the common-input relation.

Two addresses are joined when both appear among the input addresses of one
processed transaction (`CoInput`).  Along a run from empty stores two rows carry
the same entity exactly when the equivalence closure of this relation joins
them, and the entity they carry is the least number ever given to an address of
their class (`entity_eq_iff`).  The run may be cut between two calls: the
program then ends, leaves its counter in the checkpoint file and starts again.
-/
import BitcoinAnalysis.Chain
import BitcoinAnalysis.Entities
import BitcoinAnalysis.Checkpoint

open Run Clusters Relation

namespace BitcoinAnalysis

/-- Both addresses are input addresses of one transaction. -/
def CoInput (txs : List Transaction) (a b : Address) : Prop :=
  ∃ tx ∈ txs, a ∈ tx.ins.map (inputAddress txs) ∧ b ∈ tx.ins.map (inputAddress txs)

/-- The addresses the outputs pay. -/
def paidAddresses (txs : List Transaction) : Finset Address :=
  ((txs.flatMap Transaction.outs).map Txout.address).toFinset

/-- What holds between two calls. -/
structure Clustered (n₀ : ℕ) (txs : List Transaction) (w : World) : Prop where
  processed : Processed txs w
  entities : Entities (CoInput txs) n₀ w
  labelled : ∀ a ∈ w.conn.db.addressinfo.keys, ∃ i, w.conn.db.label a = some i

variable {n₀ : ℕ} {txs : List Transaction} {tx : Transaction} {w w' : World}

/-! ### One call -/

theorem map_inputAddress_append {ins : List Txin}
    (h : ∀ i ∈ ins, i.hash = coinbaseB ∨ NamesOutput txs i) (more : List Transaction) :
    ins.map (inputAddress (txs ++ more)) = ins.map (inputAddress txs) :=
  List.map_congr_left fun i hi => by rw [inputAddress, inputAddress, inputPreout_append (h i hi)]

theorem coInput_snoc (hc : Chain (txs ++ [tx])) :
    CoInput (txs ++ [tx]) = withClique (CoInput txs) {a | a ∈ tx.ins.map (inputAddress txs)} := by
  funext a b
  rw [eq_iff_iff]
  constructor
  · rintro ⟨t, ht, hab⟩
    rcases List.mem_append.mp ht with ht | ht
    · rw [map_inputAddress_append (hc.of_snoc.linked_all t ht)] at hab
      exact .inl ⟨t, ht, hab⟩
    · obtain rfl := List.mem_singleton.mp ht
      rw [map_inputAddress_append hc.last_linked] at hab
      exact .inr hab
  · rintro (⟨t, ht, hab⟩ | hab)
    · refine ⟨t, List.mem_append_left _ ht, ?_⟩
      rwa [map_inputAddress_append (hc.of_snoc.linked_all t ht)]
    · refine ⟨tx, List.mem_append_right _ List.mem_cons_self, ?_⟩
      rwa [map_inputAddress_append hc.last_linked]

theorem paidAddresses_mono (txs more : List Transaction) :
    paidAddresses txs ⊆ paidAddresses (txs ++ more) := by
  intro a ha
  rw [paidAddresses, List.mem_toFinset] at ha ⊢
  rw [List.flatMap_append, List.map_append]
  exact List.mem_append_left _ ha

/-- The input addresses of a servable transaction have labels, unless its only
input is the coinbase. -/
theorem Clustered.inputs_labelled (hc : Chain (txs ++ [tx])) (hserv : tx.Servable)
    (h : Clustered n₀ txs w) :
    tx.ins.map (inputAddress txs) = [coinbaseH] ∨
      ∀ a ∈ tx.ins.map (inputAddress txs), ∃ i, w.conn.db.label a = some i := by
  rcases hserv with hcb | ⟨-, hspend⟩
  · left
    have hpre := congrArg (List.map preaddress) (hcb.map_inputPreout txs)
    rw [List.map_map, List.map_singleton, preaddress_coinbasePreout] at hpre
    exact hpre
  · right
    intro a ha
    obtain ⟨i, hi, rfl⟩ := List.mem_map.mp ha
    have hz := hspend i hi
    refine h.labelled _ ((h.processed.rows _).mpr ?_)
    exact inputAddress_mem hc.of_snoc hz ((hc.last_linked i hi).resolve_left hz)

theorem not_renumbers_debitStmts {t : UInt32} {pres : List (Bytes 28)} :
    ∀ j ∈ pres.flatMap (debitStmts t), ¬ j.Renumbers := by
  intro j hj
  obtain ⟨p, -, -, rfl⟩ := mem_debitStmts.mp hj
  exact id

theorem not_renumbers_creditStmts {t : UInt32} {outs : List Txout} :
    ∀ j ∈ outs.flatMap (creditStmts t), ¬ j.Renumbers := by
  intro j hj
  obtain ⟨o, -, rfl | rfl⟩ := mem_creditStmts.mp hj
  · exact id
  · exact id

/-- **A call joins its input addresses and numbers its new output addresses.** -/
theorem Clustered.snoc (hc : Chain (txs ++ [tx])) (hserv : tx.Servable)
    (hbound : n₀ + (paidAddresses (txs ++ [tx])).card < 2 ^ 32) (h : Clustered n₀ txs w)
    (hw : transactionProcess w tx = .ok w') : Clustered n₀ (txs ++ [tx]) w' := by
  have hproc := h.processed.snoc hc hw
  have hinputs := h.inputs_labelled hc hserv
  obtain ⟨-, pres, wi, wo, hres, hwi, hwo, rfl⟩ := transactionProcess_eq_ok.mp hw
  obtain rfl : tx.ins.map (inputPreout txs) = pres := Except.ok.inj
    ((resolve_all_of_stored hc.of_snoc h.processed.stored hc.last_linked).symm.trans hres)
  have haddr : (tx.ins.map (inputPreout txs)).map preaddress = tx.ins.map (inputAddress txs) := by
    rw [List.map_map]
    rfl
  rw [haddr] at hwi
  -- the five parts of the call in order: debits, merge, credits, numbering, record
  have hdebits : Entities (CoInput txs) n₀ (afterDebits w tx (tx.ins.map (inputPreout txs))) :=
    h.entities.frame not_renumbers_debitStmts rfl rfl
  have hmerge : Entities (CoInput (txs ++ [tx])) n₀ wi := by
    rw [coInput_snoc hc]
    refine hdebits.inputEntityMysql (hinputs.imp_right fun hlab a ha => ?_) hwi
    exact h.entities.labelled_mono hdebits rfl (hlab a ha)
  have hcredits : Entities (CoInput (txs ++ [tx])) n₀ (afterCredits wi tx) :=
    hmerge.frame not_renumbers_creditStmts rfl rfl
  have hrows : ∀ a ∈ (afterCredits wi tx).conn.db.addressinfo.keys,
      a ∈ paidAddresses (txs ++ [tx]) := by
    intro a ha
    rw [← mem_keys_outputEntityMysql hwo] at ha
    exact List.mem_toFinset.mpr ((hproc.rows a).mp (mem_keys_afterPut.mpr ha))
  obtain ⟨hnumber, hlab⟩ := hcredits.outputEntityMysql hrows hbound hwo
  have hput : Entities (CoInput (txs ++ [tx])) n₀ (afterPut wo tx (tx.ins.map (inputPreout txs))) := by
    refine hnumber.frame (fun j hj => ?_) rfl rfl
    rw [List.mem_singleton.mp hj]
    exact id
  refine ⟨hproc, hput, fun a ha => hnumber.labelled_mono hput rfl (hlab a ?_)⟩
  rcases (mem_keys_call hw).mp ha with ha | ha
  · right
    obtain ⟨js, hjs, -⟩ := inputEntityMysql_journal hwi
    exact hmerge.labelled_mono hcredits rfl (hdebits.labelled_mono hmerge hjs
      (h.entities.labelled_mono hdebits rfl (h.labelled a ha)))
  · exact .inl ha

theorem EmptyStores.clustered (h : EmptyStores w) : Clustered w.entitycnt.toNat [] w := by
  obtain ⟨d, hd⟩ := h.db
  have hassigned : w.conn.assigned = [] := by rw [Conn.assigned, h.journal]; rfl
  have hlabel : ∀ a, w.conn.db.label a = none := fun a => by rw [hd]; rfl
  have hkeys : w.conn.db.addressinfo.keys = [] := by rw [hd]; rfl
  have hentities : w.conn.db.entityinfo.keys = [] := by rw [hd]; rfl
  refine ⟨h.processed, ⟨?_, ?_, ?_, ⟨fun a => ?_, fun a e ha => ?_, fun a b i ha => ?_,
    fun a b hab => ?_⟩, fun e => ?_⟩, ?_⟩
  · rw [hassigned]
    exact List.nodup_nil
  · rw [hassigned]
    rfl
  · rw [hassigned]
    rfl
  · simp [hlabel, Conn.Given, hassigned]
  · rw [hlabel] at ha
    cases ha
  · obtain ⟨e, he, -⟩ := ha
    rw [hassigned] at he
    cases he
  · -- nothing is joined yet
    left
    induction hab with
    | rel a b hab =>
      obtain ⟨t, ht, -⟩ := hab
      cases ht
    | refl a => rfl
    | symm a b _ ih => exact ih.symm
    | trans a b c _ _ ihab ihbc => exact ihab.trans ihbc
  · simp [hentities, hlabel]
  · rw [hkeys]
    intro a ha
    cases ha

/-! ### Cuts -/

/-- The program ends between two calls and starts again: the aggregates are
updated, the five numbers go to the checkpoint file, and `entitycnt` is read
back from it. -/
def restart (blkfileNum blockPos lastBlock lastTx : Int32) (w : World) : Except Fault World :=
  let w := updateEntityMysql w
  match readCheckpoint (writeCheckpoint blkfileNum blockPos lastBlock lastTx w.entitycnt) with
  | none => .error .uninitialised
  | some c => .ok { w with entitycnt := c.entitycnt }

theorem restart_eq (blkfileNum blockPos lastBlock lastTx : Int32) (w : World) :
    restart blkfileNum blockPos lastBlock lastTx w = .ok (updateEntityMysql w) := by
  rw [restart, readCheckpoint_writeCheckpoint]

/-- A call, or a cut with the numbers saved there. -/
inductive Action where
  | call (tx : Transaction)
  | cut (blkfileNum blockPos lastBlock lastTx : Int32)

def Action.step (w : World) : Action → Except Fault World
  | .call tx => transactionProcess w tx
  | .cut blkfileNum blockPos lastBlock lastTx => restart blkfileNum blockPos lastBlock lastTx w

/-- The transactions processed. -/
def calls (acts : List Action) : List Transaction :=
  acts.filterMap fun
    | .call tx => some tx
    | .cut .. => none

theorem calls_snoc_call (acts : List Action) (tx : Transaction) :
    calls (acts ++ [.call tx]) = calls acts ++ [tx] := by
  rw [calls, List.filterMap_append]
  rfl

theorem calls_snoc_cut (acts : List Action) (blkfileNum blockPos lastBlock lastTx : Int32) :
    calls (acts ++ [.cut blkfileNum blockPos lastBlock lastTx]) = calls acts := by
  rw [calls, List.filterMap_append]
  exact List.append_nil _

theorem Clustered.cut (h : Clustered n₀ txs w) : Clustered n₀ txs (updateEntityMysql w) := by
  obtain ⟨haddr, htx⟩ := foldl_aggregateEntity
    (unique (w.entitychangeV.insertionSort (· ≤ ·))) w.conn.db
  have hdb : (updateEntityMysql w).conn.db.addressinfo = w.conn.db.addressinfo := by
    rw [updateEntityMysql, Conn.db_queries, haddr]
  have hent : Entities (CoInput txs) n₀ (updateEntityMysql w) := by
    refine h.entities.frame (fun j hj => ?_) rfl rfl
    obtain ⟨e, -, rfl⟩ := List.mem_map.mp hj
    exact id
  refine ⟨⟨h.processed.stored, fun a => ?_, ?_⟩, hent, fun a ha => ?_⟩
  · rw [hdb]
    exact h.processed.rows a
  · rw [updateEntityMysql, Conn.db_queries, htx]
    exact h.processed.txinfo
  · exact h.entities.labelled_mono hent rfl (h.labelled a (hdb ▸ ha))

/-! ### Runs -/

/-- What is assumed of the transactions of a run. -/
structure Numberable (n₀ : ℕ) (txs : List Transaction) : Prop where
  chain : Chain txs
  servable : ∀ tx ∈ txs, tx.Servable
  room : n₀ + (paidAddresses txs).card < 2 ^ 32

theorem Numberable.of_append {more : List Transaction} (h : Numberable n₀ (txs ++ more)) :
    Numberable n₀ txs where
  chain := h.chain.of_initial (List.prefix_append txs more)
  servable tx htx := h.servable tx (List.mem_append_left more htx)
  room := by
    have hle := Finset.card_le_card (paidAddresses_mono txs more)
    have hroom := h.room
    omega

theorem Clustered.call (hn : Numberable n₀ (txs ++ [tx])) (h : Clustered n₀ txs w) :
    ∃ w', transactionProcess w tx = .ok w' ∧ Clustered n₀ (txs ++ [tx]) w' := by
  have hserv := hn.servable tx (by simp)
  obtain ⟨w', hw'⟩ := h.processed.call_isOk hn.chain hserv
  exact ⟨w', hw', h.snoc hn.chain hserv hn.room hw'⟩

/-- A run with cuts returns and ends between two calls. -/
theorem clustered_run {acts : List Action} {w₀ : World} (h₀ : EmptyStores w₀)
    (hn : Numberable w₀.entitycnt.toNat (calls acts)) :
    ∃ w, run Action.step w₀ acts = .ok w ∧ Clustered w₀.entitycnt.toNat (calls acts) w := by
  refine run_total (V := fun acts => Numberable w₀.entitycnt.toNat (calls acts))
    (P := fun acts w => Clustered w₀.entitycnt.toNat (calls acts) w)
    (fun acts act hV => ?_) h₀.clustered (fun acts u act hV hu => ?_) hn
  · rw [calls, List.filterMap_append] at hV
    exact hV.of_append
  · cases act with
    | call tx =>
      rw [calls_snoc_call] at hV ⊢
      exact hu.call hV
    | cut blkfileNum blockPos lastBlock lastTx =>
      rw [calls_snoc_cut]
      exact ⟨_, restart_eq _ _ _ _ u, hu.cut⟩

theorem Clustered.label_of_row (h : Clustered n₀ txs w) {a : Address} {row : AddressRow}
    (hrow : w.conn.db.addressinfo.find? a = some row) :
    row.entity ≠ 0 ∧ w.conn.db.label a = some row.entity.toNat := by
  obtain ⟨i, hi⟩ := h.labelled a (KeyedTable.mem_keys.mpr ⟨row, hrow⟩)
  obtain ⟨row', hrow', hne, rfl⟩ := Db.label_eq_some.mp hi
  obtain rfl := Option.some.inj (hrow.symm.trans hrow')
  exact ⟨hne, hi⟩

theorem mem_assigned {conn : Conn} {a : Address} {e : UInt32} :
    (a, e) ∈ conn.assigned ↔ .setEntity a e ∈ conn.journal := by
  rw [Conn.assigned, List.mem_filterMap]
  constructor
  · rintro ⟨j, hj, hja⟩
    cases j with
    | setEntity b e' =>
      cases hja
      exact hj
    | _ => cases hja
  · exact fun h => ⟨_, h, rfl⟩

/-- **Entities are the classes of the common-input closure.**  At every point
of a run, with any cuts, two rows have the same entity exactly when the closure
joins their addresses, and the entity of a row is the least number that
`output_entity_mysql` ever gave to an address of its class. -/
theorem entity_eq_iff {acts : List Action} {w₀ : World} (h₀ : EmptyStores w₀)
    (hn : Numberable w₀.entitycnt.toNat (calls acts)) :
    ∀ pre, pre <+: acts → ∃ w, run Action.step w₀ pre = .ok w ∧
      (∀ a b rowa rowb, w.conn.db.addressinfo.find? a = some rowa →
        w.conn.db.addressinfo.find? b = some rowb →
        (rowa.entity = rowb.entity ↔ EqvGen (CoInput (calls pre)) a b)) ∧
      ∀ a row, w.conn.db.addressinfo.find? a = some row →
        IsLeast {i | ∃ b e, EqvGen (CoInput (calls pre)) a b ∧
          .setEntity b e ∈ w.conn.journal ∧ e.toNat = i} row.entity.toNat := by
  rintro pre ⟨post, rfl⟩
  rw [calls, List.filterMap_append] at hn
  obtain ⟨w, hw, hcl⟩ := clustered_run h₀ hn.of_append
  have hlab := hcl.entities.labelling
  refine ⟨w, hw, fun a b rowa rowb ha hb => ?_, fun a row ha => ?_⟩
  · rw [← UInt32.toNat_inj]
    exact hlab.label_eq_iff (hcl.label_of_row ha).2 (hcl.label_of_row hb).2
  · have hleast := hlab.least a _ (hcl.label_of_row ha).2
    have hset : {i | ∃ b e, EqvGen (CoInput (calls pre)) a b ∧
        .setEntity b e ∈ w.conn.journal ∧ e.toNat = i}
        = {i | ∃ b, EqvGen (CoInput (calls pre)) a b ∧ w.conn.Given b i} := by
      ext i
      simp only [Set.mem_ofPred_eq, Conn.Given, mem_assigned, exists_and_left]
    rw [hset]
    exact hleast

theorem entity_eq_iff_of_spending :
    ∃ w rowa rowb, run Action.step (World.fresh .null) [.call mined, .cut 0 0 0 0, .call spending]
        = .ok w ∧
      w.conn.db.addressinfo.find? (.replicate 20 7) = some rowa ∧
      w.conn.db.addressinfo.find? (.replicate 20 8) = some rowb ∧ rowa.entity = rowb.entity := by
  have hn : Numberable (World.fresh .null).entitycnt.toNat
      (calls [.call mined, .cut 0 0 0 0, .call spending]) :=
    ⟨by decide +kernel, by decide +kernel, by decide +kernel⟩
  obtain ⟨w, hw, hcl⟩ := clustered_run (World.emptyStores_fresh .null) hn
  obtain ⟨w', hw', hiff, -⟩ := entity_eq_iff (World.emptyStores_fresh .null) hn _ List.prefix_rfl
  obtain rfl : w = w' := Except.ok.inj (hw.symm.trans hw')
  have hrow : ∀ a, a ∈ ([mined, spending].flatMap Transaction.outs).map Txout.address →
      ∃ row, w.conn.db.addressinfo.find? a = some row := fun a ha =>
    KeyedTable.mem_keys.mp ((hcl.processed.rows a).mpr ha)
  obtain ⟨rowa, ha⟩ := hrow (.replicate 20 7) (by decide +kernel)
  obtain ⟨rowb, hb⟩ := hrow (.replicate 20 8) (by decide +kernel)
  refine ⟨w, rowa, rowb, hw, ha, hb, (hiff _ _ rowa rowb ha hb).mpr (.rel _ _ ?_)⟩
  exact ⟨spending, by decide +kernel, by decide +kernel, by decide +kernel⟩

end BitcoinAnalysis
