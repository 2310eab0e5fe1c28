/-
The time columns of `addressinfo`.

A row gets `firsttm` when it is opened and never again; `lasttm` is overwritten
by every statement for the row, whatever stood there.  So `lasttm` is the time of
the last call and not the latest time, and block times may go backwards.

`Db.times_call` says what a call does to the two columns.  The columns are the
earliest and the latest time of the calls that touched the address, after every
call of a run, exactly if every call comes at a time not before the `lasttm` of
the rows it writes (`lifetimes_iff_inOrder`).  The one row a call can spend from
without writing it is that of the address which stands for the coinbase.
-/
import BitcoinAnalysis.Chain

open Run

namespace BitcoinAnalysis

/-! ### Earliest and latest time -/

/-- `first` is the earliest and `last` the latest of some times. -/
structure Lifetime (times : List ℕ) (first last : ℕ) : Prop where
  le : first ≤ last
  first : IsLeast {t | t ∈ times} first
  last : IsGreatest {t | t ∈ times} last

theorem Lifetime.singleton (t : ℕ) : Lifetime [t] t t := by
  have ht : {s | s ∈ [t]} = {t} := Set.ext fun s => List.mem_singleton
  refine ⟨le_rfl, ?_, ?_⟩
  · rw [ht]
    exact isLeast_singleton
  · rw [ht]
    exact isGreatest_singleton

section Snoc

variable {times : List ℕ} {first last t : ℕ}

/-- One more time, and it becomes the last. -/
theorem Lifetime.snoc_iff_le (h : Lifetime times first last) :
    Lifetime (times ++ [t]) first t ↔ last ≤ t := by
  constructor
  · intro h'
    exact h'.last.2 (List.mem_append_left [t] h.last.1)
  · intro hle
    refine ⟨h.le.trans hle, ⟨List.mem_append_left [t] h.first.1, fun s hs => ?_⟩,
      ⟨List.mem_append_right times (List.mem_singleton_self t), fun s hs => ?_⟩⟩
    · rcases List.mem_append.mp hs with hs | hs
      · exact h.first.2 hs
      · rw [List.mem_singleton.mp hs]
        exact h.le.trans hle
    · rcases List.mem_append.mp hs with hs | hs
      · exact (h.last.2 hs).trans hle
      · exact (List.mem_singleton.mp hs).le

/-- One more time, and the last stays. -/
theorem Lifetime.snoc_iff_mem (h : Lifetime times first last) :
    Lifetime (times ++ [t]) first last ↔ first ≤ t ∧ t ≤ last := by
  constructor
  · intro h'
    have ht : t ∈ times ++ [t] := List.mem_append_right times (List.mem_singleton_self t)
    exact ⟨h'.first.2 ht, h'.last.2 ht⟩
  · rintro ⟨hfirst, hlast⟩
    refine ⟨h.le, ⟨List.mem_append_left [t] h.first.1, fun s hs => ?_⟩,
      ⟨List.mem_append_left [t] h.last.1, fun s hs => ?_⟩⟩
    · rcases List.mem_append.mp hs with hs | hs
      · exact h.first.2 hs
      · rwa [List.mem_singleton.mp hs]
    · rcases List.mem_append.mp hs with hs | hs
      · exact h.last.2 hs
      · rwa [List.mem_singleton.mp hs]

end Snoc

/-! ### The columns and the statements -/

/-- The columns `firsttm` and `lasttm`. -/
def AddressRow.times (row : AddressRow) : ℕ × ℕ := (row.firsttm, row.lasttm)

def Db.times (db : Db) (a : Address) : Option (ℕ × ℕ) :=
  (db.addressinfo.find? a).map AddressRow.times

/-- The times of a row that is written to at a time. -/
def stamp (t : UInt32) (x : ℕ × ℕ) : ℕ × ℕ := (x.1, t.toNat)

/-- The times of a row that is opened, if there is none, and written to. -/
def stampOrOpen (t : UInt32) (x : Option (ℕ × ℕ)) : ℕ × ℕ := (x.elim t.toNat Prod.fst, t.toNat)

/-- What a statement does to the times of an address. -/
def Stmt.times (a : Address) (x : Option (ℕ × ℕ)) : Stmt → Option (ℕ × ℕ)
  | .updateInput b _ t => if a = b then x.map (stamp t) else x
  | .upsertOutput b _ t => if a = b then some (stampOrOpen t x) else x
  | _ => x

theorem Db.times_exec (db : Db) (j : Stmt) (a : Address) :
    (db.exec j).times a = j.times a (db.times a) := by
  -- only debits and credits write the two columns
  cases j with
  | relabelEntity e0 e =>
    exact KeyedTable.map_find?_update_of_eq _ _ (.relabel e0) AddressRow.times (fun _ => rfl) a
  | setEntity b e =>
    exact KeyedTable.map_find?_update_of_eq _ _ (.relabel e) AddressRow.times (fun _ => rfl) a
  | updateInput b v t =>
    rw [Db.times, Db.times, Db.exec, KeyedTable.find?_modify, Stmt.times]
    split
    · rename_i h
      rw [h, Option.map_map, Option.map_map]
      rfl
    · rfl
  | upsertOutput b v t =>
    rw [Db.times, Db.times, Db.exec, Stmt.times]
    split
    · rename_i h
      subst h
      rw [KeyedTable.find?_upsert_self]
      cases db.addressinfo.find? a with
      | none => rfl
      | some row => rfl
    · rename_i h
      rw [KeyedTable.find?_upsert_ne _ h]
  | updateMaxbal b =>
    refine KeyedTable.map_find?_update_of_eq _ _ _ AddressRow.times (fun row => ?_) a
    rw [AddressRow.raiseMaxbal]
    split
    · rfl
    · rfl
  | _ => rfl

theorem Db.times_foldl (db : Db) (js : List Stmt) (a : Address) :
    (js.foldl Db.exec db).times a = js.foldl (Stmt.times a) (db.times a) := by
  induction js generalizing db with
  | nil => rfl
  | cons j js ih => rw [List.foldl_cons, List.foldl_cons, ih, Db.times_exec]

theorem Db.times_foldl_of_eq {db : Db} {js : List Stmt} {a : Address}
    (h : ∀ j ∈ js, ∀ x, j.times a x = x) : (js.foldl Db.exec db).times a = db.times a := by
  rw [Db.times_foldl]
  induction js with
  | nil => rfl
  | cons j js ih =>
    rw [List.foldl_cons, h j List.mem_cons_self]
    exact ih fun k hk => h k (List.mem_cons_of_mem j hk)

/-! ### The parts of a call -/

theorem foldl_times_debitStmts {a : Address} {t : UInt32} {pres : List (Bytes 28)}
    {x : Option (ℕ × ℕ)} :
    (pres.flatMap (debitStmts t)).foldl (Stmt.times a) x
      = if a ∈ pres.map preaddress ∧ a ≠ coinbaseH then x.map (stamp t) else x := by
  induction pres generalizing x with
  | nil => simp
  | cons p pres ih =>
    rw [List.flatMap_cons, List.foldl_append, ih, debitStmts]
    simp only [addressHex_eq_coinbaseS, List.map_cons, List.mem_cons]
    by_cases hp : preaddress p = coinbaseH
    · -- nothing is sent for the marker
      rw [if_pos hp, List.foldl_nil]
      refine if_congr (and_congr_left fun hne => (or_iff_right fun h => hne (h.trans hp)).symm) rfl rfl
    · rw [if_neg hp, List.foldl_cons, List.foldl_nil, Stmt.times]
      by_cases ha : a = preaddress p
      · have hne : a ≠ coinbaseH := fun h => hp (ha.symm.trans h)
        rw [if_pos ha, if_pos (show (a = preaddress p ∨ _) ∧ _ from ⟨.inl ha, hne⟩), Option.map_map,
          ite_eq_right_iff]
        intro _
        rfl
      · rw [if_neg ha]
        exact if_congr (and_congr_left fun _ => (or_iff_right ha).symm) rfl rfl

theorem foldl_times_creditStmts {a : Address} {t : UInt32} {outs : List Txout}
    {x : Option (ℕ × ℕ)} :
    (outs.flatMap (creditStmts t)).foldl (Stmt.times a) x
      = if a ∈ outs.map Txout.address then some (stampOrOpen t x) else x := by
  induction outs generalizing x with
  | nil => simp
  | cons o outs ih =>
    rw [List.flatMap_cons, List.foldl_append, ih]
    simp only [creditStmts, List.foldl_cons, List.foldl_nil, Stmt.times, List.map_cons,
      List.mem_cons]
    by_cases ha : a = o.address
    · rw [if_pos ha, if_pos (Or.inl ha)]
      split
      · rfl
      · rfl
    · rw [if_neg ha]
      exact if_congr (or_iff_right ha).symm rfl rfl

/-! ### What a call touches -/

variable {w₀ w w' : World} {tx : Transaction} {txs : List Transaction} {a : Address}

def Pays (tx : Transaction) (a : Address) : Prop := a ∈ tx.outs.map Txout.address

instance : Decidable (Pays tx a) := inferInstanceAs (Decidable (a ∈ _))

/-- An input with a previous hash spends from the address `ReadOutput` finds for
it, provided this address was ever paid. -/
def SpendsFrom (w : World) (tx : Transaction) (a : Address) : Prop :=
  a ∈ w.conn.db.addressinfo.keys ∧
    ∃ i ∈ tx.ins, i.hash ≠ coinbaseB ∧ ∃ p, resolve w.txDb i = .ok p ∧ preaddress p = a

instance : Decidable (SpendsFrom w tx a) := inferInstanceAs (Decidable (_ ∧ _))

/-- The times of the transactions that paid or spent from an address. -/
def touchTimes (a : Address) : World → List Transaction → List ℕ
  | _, [] => []
  | w, tx :: txs =>
    (if Pays tx a ∨ SpendsFrom w tx a then [tx.txtime.toNat] else []) ++
      match transactionProcess w tx with
      | .ok w' => touchTimes a w' txs
      | .error _ => []

theorem touchTimes_snoc (h : run transactionProcess w₀ txs = .ok w) :
    touchTimes a w₀ (txs ++ [tx]) = touchTimes a w₀ txs ++
      if Pays tx a ∨ SpendsFrom w tx a then [tx.txtime.toNat] else [] := by
  induction txs generalizing w₀ with
  | nil =>
    cases h
    rw [List.nil_append, touchTimes, touchTimes, List.nil_append]
    cases transactionProcess w tx with
    | ok u => exact List.append_nil _
    | error e => exact List.append_nil _
  | cons t txs ih =>
    rw [run_cons] at h
    obtain ⟨u, hu, hrest⟩ := bind_eq_ok.mp h
    simp only [List.cons_append, touchTimes, hu, ih hrest, List.append_assoc]

theorem mem_map_preaddress {pres : List (Bytes 28)} (hpres : tx.ins.mapM (resolve w.txDb) = .ok pres)
    (ha : a ∈ w.conn.db.addressinfo.keys) (hne : a ≠ coinbaseH) :
    a ∈ pres.map preaddress ↔ SpendsFrom w tx a := by
  rw [List.mem_map]
  constructor
  · rintro ⟨p, hp, rfl⟩
    obtain ⟨i, hi, hip⟩ := (mem_mapM_ok hpres).mp hp
    refine ⟨ha, i, hi, fun hz => hne ?_, p, hip, rfl⟩
    -- a coinbase input resolves to the marker
    rw [resolve, readOutput, if_pos (reverse_eq_coinbaseB.mpr hz)] at hip
    cases hip
    exact preaddress_coinbasePreout
  · rintro ⟨-, i, hi, -, p, hip, rfl⟩
    exact ⟨p, (mem_mapM_ok hpres).mpr ⟨i, hi, hip⟩, rfl⟩

theorem Db.times_eq_none {db : Db} : db.times a = none ↔ a ∉ db.addressinfo.keys := by
  rw [Db.times, Option.map_eq_none_iff, KeyedTable.find?_eq_none]

theorem stampOrOpen_map_stamp (t : UInt32) (x : Option (ℕ × ℕ)) :
    stampOrOpen t (x.map (stamp t)) = stampOrOpen t x := by
  cases x with
  | none => rfl
  | some p => rfl

theorem times_afterDebits {pres : List (Bytes 28)}
    (hpres : tx.ins.mapM (resolve w.txDb) = .ok pres) :
    (afterDebits w tx pres).conn.db.times a
      = if SpendsFrom w tx a ∧ a ≠ coinbaseH then (w.conn.db.times a).map (stamp tx.txtime)
        else w.conn.db.times a := by
  rw [afterDebits, Conn.db_queries, Db.times_foldl, foldl_times_debitStmts]
  by_cases ha : a ∈ w.conn.db.addressinfo.keys
  · exact if_congr (and_congr_left fun hne => mem_map_preaddress hpres ha hne) rfl rfl
  · rw [Db.times_eq_none.mpr ha, Option.map_none, ite_self, ite_self]

theorem times_inputEntityMysql {as : List Address} (h : inputEntityMysql w as = .ok w') :
    w'.conn.db.times a = w.conn.db.times a := by
  obtain ⟨js, hconn, hjs⟩ := inputEntityMysql_journal h
  rw [hconn, Conn.db_queries]
  refine Db.times_foldl_of_eq fun j hj x => ?_
  rcases hjs j hj with ⟨e0, e, rfl⟩ | ⟨e, rfl⟩
  · rfl
  · rfl

theorem times_outputEntityMysql {as : List Address} (h : outputEntityMysql w as = .ok w') :
    w'.conn.db.times a = w.conn.db.times a := by
  obtain ⟨js, hconn, hjs⟩ := outputEntityMysql_journal h
  rw [hconn, Conn.db_queries]
  refine Db.times_foldl_of_eq fun j hj x => ?_
  rcases hjs j hj with ⟨b, e, rfl⟩ | ⟨e, rfl⟩
  · rfl
  · rfl

/-- **What a call does to the times**: it opens the rows it lacks and stamps
those it writes. -/
theorem Db.times_call (h : transactionProcess w tx = .ok w') :
    w'.conn.db.times a
      = if Pays tx a then some (stampOrOpen tx.txtime (w.conn.db.times a))
        else if SpendsFrom w tx a ∧ a ≠ coinbaseH then (w.conn.db.times a).map (stamp tx.txtime)
        else w.conn.db.times a := by
  obtain ⟨-, pres, wi, wo, hpres, hwi, hwo, rfl⟩ := transactionProcess_eq_ok.mp h
  have hput : (afterPut wo tx pres).conn.db.times a = wo.conn.db.times a := by
    rw [afterPut, Conn.db_query, Db.times_exec]
    rfl
  rw [hput, times_outputEntityMysql hwo, afterCredits, Conn.db_queries, Db.times_foldl,
    foldl_times_creditStmts, times_inputEntityMysql hwi, times_afterDebits hpres]
  refine if_congr Iff.rfl ?_ rfl
  -- the row of an address that is spent from and paid is stamped twice
  split
  · rw [stampOrOpen_map_stamp]
  · rfl

/-! ### Calls in order -/

/-- The rows a call stamps with its time. -/
def Stamps (w : World) (tx : Transaction) (a : Address) : Prop :=
  Pays tx a ∨ SpendsFrom w tx a ∧ a ≠ coinbaseH

instance : Decidable (Stamps w tx a) := inferInstanceAs (Decidable (_ ∨ _))

/-- The call does not come before the `lasttm` of a row it stamps, and not
outside the times of the row it spends from without stamping it. -/
def InOrder (w : World) (tx : Transaction) : Prop :=
  ∀ a row, w.conn.db.addressinfo.find? a = some row →
    (Stamps w tx a → row.lasttm ≤ tx.txtime.toNat) ∧
    (SpendsFrom w tx a → ¬ Stamps w tx a →
      row.firsttm ≤ tx.txtime.toNat ∧ tx.txtime.toNat ≤ row.lasttm)

instance : Decidable (InOrder w tx) :=
  decidable_of_iff
    (∀ e ∈ w.conn.db.addressinfo.entries,
      (Stamps w tx e.1 → e.2.lasttm ≤ tx.txtime.toNat) ∧
      (SpendsFrom w tx e.1 → ¬ Stamps w tx e.1 →
        e.2.firsttm ≤ tx.txtime.toNat ∧ tx.txtime.toNat ≤ e.2.lasttm))
    ⟨fun h a row hrow => h (a, row) (KeyedTable.find?_eq_some.mp hrow),
      fun h e he => h e.1 e.2 (KeyedTable.find?_eq_some.mpr he)⟩

/-- The two columns of every row are the earliest and the latest time of the
transactions that paid or spent from its address. -/
def Lifetimes (w₀ : World) (txs : List Transaction) (w : World) : Prop :=
  ∀ a row, w.conn.db.addressinfo.find? a = some row →
    Lifetime (touchTimes a w₀ txs) row.firsttm row.lasttm

theorem Db.forall_times {db : Db} {P : ℕ × ℕ → Prop} :
    (∀ row, db.addressinfo.find? a = some row → P row.times) ↔ ∀ x, db.times a = some x → P x := by
  constructor
  · intro h x hx
    obtain ⟨row, hrow, rfl⟩ := Option.map_eq_some_iff.mp hx
    exact h row hrow
  · intro h row hrow
    exact h row.times (by rw [Db.times, hrow, Option.map_some])

theorem lifetimes_iff_times : Lifetimes w₀ txs w ↔
    ∀ a x, w.conn.db.times a = some x → Lifetime (touchTimes a w₀ txs) x.1 x.2 :=
  forall_congr' fun a => Db.forall_times (P := fun x => Lifetime (touchTimes a w₀ txs) x.1 x.2)

theorem inOrder_iff_times : InOrder w tx ↔ ∀ a x, w.conn.db.times a = some x →
    (Stamps w tx a → x.2 ≤ tx.txtime.toNat) ∧
    (SpendsFrom w tx a → ¬ Stamps w tx a → x.1 ≤ tx.txtime.toNat ∧ tx.txtime.toNat ≤ x.2) :=
  forall_congr' fun a => Db.forall_times
    (P := fun x => (Stamps w tx a → x.2 ≤ tx.txtime.toNat) ∧
      (SpendsFrom w tx a → ¬ Stamps w tx a → x.1 ≤ tx.txtime.toNat ∧ tx.txtime.toNat ≤ x.2))

/-- An address without a row was not touched. -/
theorem touchTimes_eq_nil (h : run transactionProcess w₀ txs = .ok w)
    (ha : a ∉ w.conn.db.addressinfo.keys) : touchTimes a w₀ txs = [] := by
  induction txs using List.reverseRecOn generalizing w with
  | nil => rfl
  | append_singleton txs tx ih =>
    obtain ⟨u, hu, hcall⟩ := run_snoc_ok.mp h
    rw [mem_keys_call hcall, not_or] at ha
    have hnot : ¬ (Pays tx a ∨ SpendsFrom u tx a) := by
      rintro (hp | hs)
      · exact ha.2 hp
      · exact ha.1 hs.1
    rw [touchTimes_snoc hu, ih hu ha.1, if_neg hnot, List.append_nil]

/-- The row of an address after a call, if it had one before. -/
theorem Db.times_call_of_some {x : ℕ × ℕ} (h : transactionProcess w tx = .ok w')
    (hx : w.conn.db.times a = some x) :
    w'.conn.db.times a = some (if Stamps w tx a then stamp tx.txtime x else x) := by
  rw [Db.times_call h, hx]
  by_cases hp : Pays tx a
  · have hst : Stamps w tx a := .inl hp
    rw [if_pos hp, if_pos hst]
    rfl
  · rw [if_neg hp, Option.map_some, apply_ite some]
    exact if_congr (or_iff_right hp).symm rfl rfl

/-- One call, and the row of one address. -/
theorem lifetime_call_iff (hrun : run transactionProcess w₀ txs = .ok w)
    (hcall : transactionProcess w tx = .ok w')
    (h : ∀ x, w.conn.db.times a = some x → Lifetime (touchTimes a w₀ txs) x.1 x.2) :
    (∀ x, w'.conn.db.times a = some x → Lifetime (touchTimes a w₀ (txs ++ [tx])) x.1 x.2) ↔
      ∀ x, w.conn.db.times a = some x →
        (Stamps w tx a → x.2 ≤ tx.txtime.toNat) ∧
        (SpendsFrom w tx a → ¬ Stamps w tx a → x.1 ≤ tx.txtime.toNat ∧ tx.txtime.toNat ≤ x.2) := by
  rw [touchTimes_snoc hrun]
  cases hx : w.conn.db.times a with
  | none =>
    -- the row is opened here, if at all
    rw [touchTimes_eq_nil hrun (Db.times_eq_none.mp hx), List.nil_append, Db.times_call hcall, hx]
    refine iff_of_true ?_ (by simp)
    intro x hx'
    by_cases hp : Pays tx a
    · rw [if_pos hp, Option.some.injEq] at hx'
      rw [if_pos (Or.inl hp), ← hx']
      exact .singleton _
    · rw [if_neg hp, Option.map_none, ite_self] at hx'
      cases hx'
  | some x =>
    have hlife := h x hx
    simp only [Db.times_call_of_some hcall hx, Option.some.injEq, forall_eq']
    by_cases hst : Stamps w tx a
    · -- the time of the call becomes the last one
      have htouch : Pays tx a ∨ SpendsFrom w tx a := hst.imp_right And.left
      simp only [hst, htouch, if_true, forall_const, not_true_eq_false, false_implies,
        implies_true, and_true]
      exact hlife.snoc_iff_le
    · have hnot : ¬ Pays tx a := fun hp => hst (.inl hp)
      simp only [hst, hnot, if_false, false_or, false_implies, true_and, not_false_eq_true,
        forall_const]
      by_cases hs : SpendsFrom w tx a
      · -- spent from, and not written
        simp only [hs, if_true, forall_const]
        exact hlife.snoc_iff_mem
      · simp only [hs, if_false, List.append_nil, false_implies, iff_true]
        exact hlife

theorem lifetimes_call_iff (hrun : run transactionProcess w₀ txs = .ok w)
    (hcall : transactionProcess w tx = .ok w') (h : Lifetimes w₀ txs w) :
    Lifetimes w₀ (txs ++ [tx]) w' ↔ InOrder w tx := by
  rw [lifetimes_iff_times] at h
  rw [lifetimes_iff_times, inOrder_iff_times]
  exact forall_congr' fun a => lifetime_call_iff hrun hcall (h a)

theorem EmptyStores.lifetimes (h₀ : EmptyStores w₀) : Lifetimes w₀ [] w₀ := by
  obtain ⟨d, hd⟩ := h₀.db
  intro a row hrow
  rw [hd] at hrow
  cases hrow

/-- **The columns are lifetimes exactly while calls come in order.**  In a run
of calls from empty stores, the columns `firsttm` and `lasttm` are after every
call the earliest and the latest time of the transactions that paid or spent from
the address, if and only if every call is in order in the state it finds. -/
theorem lifetimes_iff_inOrder (h₀ : EmptyStores w₀)
    (hrun : run transactionProcess w₀ txs = .ok w) :
    (∀ pre u, pre <+: txs → run transactionProcess w₀ pre = .ok u → Lifetimes w₀ pre u) ↔
      AtEvery (fun pre tx => ∀ u, run transactionProcess w₀ pre = .ok u → InOrder u tx) txs := by
  induction txs using List.reverseRecOn generalizing w with
  | nil =>
    refine iff_of_true ?_ (atEvery_nil _)
    intro pre u hpre hu
    rw [List.prefix_nil] at hpre
    subst hpre
    cases hu
    exact h₀.lifetimes
  | append_singleton txs tx ih =>
    -- by induction only the last call is left to compare
    obtain ⟨v, hv, hcall⟩ := run_snoc_ok.mp hrun
    rw [atEvery_snoc, ← ih hv]
    constructor
    · intro h
      have hpre : ∀ pre u, pre <+: txs → run transactionProcess w₀ pre = .ok u →
          Lifetimes w₀ pre u :=
        fun pre u hp hu => h pre u (hp.trans (List.prefix_append txs [tx])) hu
      refine ⟨hpre, fun u hu => ?_⟩
      obtain rfl : v = u := Except.ok.inj (hv.symm.trans hu)
      exact (lifetimes_call_iff hv hcall (hpre txs v List.prefix_rfl hv)).mp
        (h _ w List.prefix_rfl hrun)
    · rintro ⟨hpre, hlast⟩ pre u hp hu
      rcases List.prefix_concat_iff.mp hp with rfl | hp
      · obtain rfl : w = u := Except.ok.inj (hrun.symm.trans hu)
        exact (lifetimes_call_iff hv hcall (hpre txs v List.prefix_rfl hv)).mpr (hlast v hv)
      · exact hpre pre u hp hu

theorem lifetimes_of_spending :
    ∃ w, run transactionProcess (.fresh .null) [mined, spending] = .ok w ∧
      Lifetimes (.fresh .null) [mined, spending] w := by
  obtain ⟨w, hw⟩ := exists_ok
    (show (run transactionProcess (.fresh .null) [mined, spending]).toOption.isSome by
      decide +kernel)
  refine ⟨w, hw, (lifetimes_iff_inOrder (World.emptyStores_fresh _) hw).mpr ?_ _ w
    List.prefix_rfl hw⟩
  decide +kernel

/-- The same outputs as those of `mined`, at an earlier time. -/
def minedEarlier : Transaction := { mined with txtime := 500, curhash := .replicate 32 3 }

/-- A call that comes later with an earlier time: the row ends before it begins. -/
theorem lifetime_negative :
    touchTimes (.replicate 20 7) (.fresh .null) [mined, minedEarlier] = [1000, 500] ∧
    ∃ w, run transactionProcess (.fresh .null) [mined, minedEarlier] = .ok w ∧
      w.conn.db.times (.replicate 20 7) = some (1000, 500) ∧
      ¬ Lifetimes (.fresh .null) [mined, minedEarlier] w := by
  have htouch : touchTimes (.replicate 20 7) (.fresh .null) [mined, minedEarlier] = [1000, 500] := by
    decide +kernel
  have hrun : ∃ w, run transactionProcess (.fresh .null) [mined, minedEarlier] = .ok w ∧
      w.conn.db.times (.replicate 20 7) = some (1000, 500) := by
    decide +kernel
  obtain ⟨w, hw, htimes⟩ := hrun
  refine ⟨htouch, w, hw, htimes, fun h => ?_⟩
  have hle := (lifetimes_iff_times.mp h _ _ htimes).le
  omega

end BitcoinAnalysis
