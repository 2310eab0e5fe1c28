/-
The accounts of `addressinfo` and the postings behind them.

`Books conn credits debits` says that the account columns of `addressinfo` are
exact for the given postings: the amounts and counts are those of the postings,
the balance is their difference, `maxbal` is the greatest balance the row has
shown after any statement so far, and the balances of all rows add up to the
difference of the totals.  The invariant is kept by a debit of a known address
(`Books.debit`), by a credit (`Books.credit`, the two statements of
`output_transaction_mysql` together) and by every statement that moves no money
(`Books.frame`).
-/
import BitcoinAnalysis.CallSpec
import BitcoinAnalysis.Postings

open Postings

namespace BitcoinAnalysis

/-- The columns of a row that postings change. -/
structure Account where
  outval : ℤ
  inval : ℤ
  bal : ℤ
  maxbal : ℤ
  outcnt : ℕ
  incnt : ℕ

def AddressRow.account (row : AddressRow) : Account :=
  ⟨row.outval, row.inval, row.bal, row.maxbal, row.outcnt, row.incnt⟩

def Db.account (db : Db) (a : Address) : Option Account :=
  (db.addressinfo.find? a).map AddressRow.account

/-! ### Statements on accounts -/

def Account.debit (v : ℕ) (acc : Account) : Account :=
  { acc with
    inval := acc.inval + v
    bal := acc.outval - (acc.inval + v)
    incnt := acc.incnt + 1 }

def Account.opening (v : ℕ) : Account := ⟨v, 0, v - 0, 0, 1, 0⟩

def Account.credit (v : ℕ) (acc : Account) : Account :=
  { acc with
    outval := acc.outval + v
    bal := acc.outval + v - acc.inval
    outcnt := acc.outcnt + 1 }

def Account.raiseMaxbal (acc : Account) : Account :=
  { acc with maxbal := max acc.maxbal acc.bal }

theorem account_raiseMaxbal (row : AddressRow) :
    row.raiseMaxbal.account = row.account.raiseMaxbal := by
  rw [AddressRow.raiseMaxbal]
  split
  · rename_i h
    simp only [AddressRow.account, Account.raiseMaxbal, max_eq_right (le_of_lt h)]
  · rename_i h
    simp only [AddressRow.account, Account.raiseMaxbal, max_eq_left (not_lt.mp h)]

theorem Db.account_updateInput (db : Db) (a b : Address) (v : UInt64) (t : UInt32) :
    (db.exec (.updateInput a v t)).account b
      = if b = a then (db.account a).map (Account.debit v.toNat) else db.account b := by
  rw [Db.account, Db.exec, KeyedTable.find?_modify]
  split
  · rw [Db.account, Option.map_map, Option.map_map]
    rfl
  · rfl

theorem Db.account_upsertOutput (db : Db) (a b : Address) (v : UInt64) (t : UInt32) :
    (db.exec (.upsertOutput a v t)).account b
      = if b = a then some ((db.account a).elim (.opening v.toNat) (.credit v.toNat))
        else db.account b := by
  rw [Db.account, Db.exec]
  split
  · rename_i h
    subst h
    rw [KeyedTable.find?_upsert_self, Db.account]
    cases db.addressinfo.find? b with
    | none => rfl
    | some row => rfl
  · rename_i h
    rw [KeyedTable.find?_upsert_ne _ h]
    rfl

theorem Db.account_updateMaxbal (db : Db) (a b : Address) :
    (db.exec (.updateMaxbal a)).account b
      = if b = a then (db.account a).map Account.raiseMaxbal else db.account b := by
  rw [Db.account, Db.exec, KeyedTable.find?_modify]
  split
  · rw [Db.account, Option.map_map, Option.map_map]
    congr 1
    funext row
    exact account_raiseMaxbal row
  · rfl

/-- The statements that change an account. -/
def Stmt.MovesMoney : Stmt → Prop
  | .updateInput .. | .upsertOutput .. | .updateMaxbal .. => True
  | _ => False

theorem Db.account_exec {j : Stmt} (h : ¬ j.MovesMoney) (db : Db) (a : Address) :
    (db.exec j).account a = db.account a := by
  cases j with
  | relabelEntity e0 e =>
    exact KeyedTable.map_find?_update_of_eq _ _ (.relabel e0) AddressRow.account (fun _ => rfl) a
  | setEntity b e =>
    exact KeyedTable.map_find?_update_of_eq _ _ (.relabel e) AddressRow.account (fun _ => rfl) a
  | updateInput => exact absurd trivial h
  | upsertOutput => exact absurd trivial h
  | updateMaxbal => exact absurd trivial h
  | _ => rfl

theorem Db.total_bal_exec {j : Stmt} (h : ¬ j.MovesMoney) (db : Db) :
    (db.exec j).addressinfo.total AddressRow.bal = db.addressinfo.total AddressRow.bal := by
  cases j with
  | relabelEntity e0 e => exact KeyedTable.total_update_of_eq _ _ _ _ fun _ => rfl
  | setEntity b e => exact KeyedTable.total_update_of_eq _ _ _ _ fun _ => rfl
  | updateInput => exact absurd trivial h
  | upsertOutput => exact absurd trivial h
  | updateMaxbal => exact absurd trivial h
  | _ => rfl

/-! ### Moments of a connection -/

/-- A database the connection has shown, before or after one of its statements. -/
def Conn.Moment (conn : Conn) (db : Db) : Prop :=
  ∃ js, js <+: conn.journal ∧ db = js.foldl Db.exec conn.start

/-- The balances the row of an address has had. -/
def Conn.balances (conn : Conn) (a : Address) : Set ℤ :=
  {b | ∃ db row, conn.Moment db ∧ db.addressinfo.find? a = some row ∧ row.bal = b}

theorem Conn.moment_query {conn : Conn} {j : Stmt} {db : Db} :
    (conn.query j).Moment db ↔ conn.Moment db ∨ db = conn.db.exec j := by
  constructor
  · rintro ⟨js, hjs, rfl⟩
    rcases List.prefix_concat_iff.mp hjs with rfl | hjs
    · exact .inr (by rw [List.foldl_append]; rfl)
    · exact .inl ⟨js, hjs, rfl⟩
  · rintro (⟨js, hjs, rfl⟩ | rfl)
    · exact ⟨js, hjs.trans (List.prefix_append _ _), rfl⟩
    · exact ⟨conn.journal ++ [j], List.prefix_rfl, by rw [List.foldl_append]; rfl⟩

theorem Conn.moment_db (conn : Conn) : conn.Moment conn.db := ⟨conn.journal, List.prefix_rfl, rfl⟩

theorem Conn.mem_balances_query {conn : Conn} {j : Stmt} {a : Address} {b : ℤ} :
    b ∈ (conn.query j).balances a ↔
      b ∈ conn.balances a ∨ ∃ acc, (conn.db.exec j).account a = some acc ∧ acc.bal = b := by
  constructor
  · rintro ⟨db, row, hdb, hrow, rfl⟩
    rcases Conn.moment_query.mp hdb with hdb | rfl
    · exact .inl ⟨db, row, hdb, hrow, rfl⟩
    · exact .inr ⟨row.account, by rw [Db.account, hrow]; rfl, rfl⟩
  · rintro (⟨db, row, hdb, hrow, rfl⟩ | ⟨acc, hacc, rfl⟩)
    · exact ⟨db, row, Conn.moment_query.mpr (.inl hdb), hrow, rfl⟩
    · obtain ⟨row, hrow, rfl⟩ := Option.map_eq_some_iff.mp hacc
      exact ⟨_, row, Conn.moment_query.mpr (.inr rfl), hrow, rfl⟩

theorem Conn.bal_mem_balances {conn : Conn} {a : Address} {acc : Account}
    (h : conn.db.account a = some acc) : acc.bal ∈ conn.balances a := by
  obtain ⟨row, hrow, rfl⟩ := Option.map_eq_some_iff.mp h
  exact ⟨conn.db, row, conn.moment_db, hrow, rfl⟩

theorem Conn.balances_query_of_eq {conn : Conn} {j : Stmt} {a : Address}
    (h : (conn.db.exec j).account a = conn.db.account a) :
    (conn.query j).balances a = conn.balances a := by
  ext b
  rw [Conn.mem_balances_query, h]
  refine ⟨fun hb => hb.elim id ?_, .inl⟩
  rintro ⟨acc, hacc, rfl⟩
  exact Conn.bal_mem_balances hacc

theorem Conn.balances_query_of_some {conn : Conn} {j : Stmt} {a : Address} {acc : Account}
    (h : (conn.db.exec j).account a = some acc) :
    (conn.query j).balances a = insert acc.bal (conn.balances a) := by
  ext b
  rw [Conn.mem_balances_query, h, Set.mem_insert_iff, or_comm]
  simp only [Option.some.injEq, exists_eq_left', eq_comm]

/-! ### The invariant -/

variable {conn : Conn} {credits debits : List (Address × ℕ)}

/-- The account of one address is exact. -/
structure Settled (conn : Conn) (credits debits : List (Address × ℕ)) (a : Address)
    (acc : Account) : Prop where
  outval : acc.outval = amount credits a
  inval : acc.inval = amount debits a
  outcnt : acc.outcnt = count credits a
  incnt : acc.incnt = count debits a
  bal : acc.bal = acc.outval - acc.inval
  peak : IsGreatest (conn.balances a) acc.maxbal

structure Books (conn : Conn) (credits debits : List (Address × ℕ)) : Prop where
  opened : ∀ a, (∃ acc, conn.db.account a = some acc) ↔ a ∈ credits.map Prod.fst
  unopened : ∀ a, conn.db.account a = none → conn.balances a = ∅
  funded : ∀ p ∈ debits, p.1 ∈ credits.map Prod.fst
  settled : ∀ a acc, conn.db.account a = some acc → Settled conn credits debits a acc
  total : conn.db.addressinfo.total AddressRow.bal
    = (credits.map Prod.snd).sum - (debits.map Prod.snd).sum

theorem Books.frame (h : Books conn credits debits) {j : Stmt} (hj : ¬ j.MovesMoney) :
    Books (conn.query j) credits debits := by
  have hacc : ∀ a, (conn.query j).db.account a = conn.db.account a := fun a => by
    rw [Conn.db_query, Db.account_exec hj]
  have hbal : ∀ a, (conn.query j).balances a = conn.balances a := fun a =>
    Conn.balances_query_of_eq (Db.account_exec hj conn.db a)
  refine ⟨fun a => ?_, fun a ha => ?_, h.funded, fun a acc ha => ?_, ?_⟩
  · rw [hacc]
    exact h.opened a
  · rw [hbal]
    exact h.unopened a (hacc a ▸ ha)
  · have hs := h.settled a acc (hacc a ▸ ha)
    exact { hs with peak := by rw [hbal]; exact hs.peak }
  · rw [Conn.db_query, Db.total_bal_exec hj, h.total]

theorem Books.frame_all (h : Books conn credits debits) {js : List Stmt}
    (hjs : ∀ j ∈ js, ¬ j.MovesMoney) : Books (conn.queries js) credits debits := by
  induction js generalizing conn with
  | nil => rwa [Conn.queries_nil]
  | cons j js ih =>
    have h' := ih (h.frame (hjs j List.mem_cons_self)) fun k hk => hjs k (List.mem_cons_of_mem _ hk)
    rwa [Conn.query, Conn.queries_queries] at h'

/-! ### Debits and credits -/

/-- Postings to other holders do not count. -/
theorem Settled.of_others {conn' : Conn} {cs ds : List (Address × ℕ)} {a b : Address}
    {acc : Account} (h : Settled conn credits debits b acc) (hba : b ≠ a)
    (hcs : ∀ p ∈ cs, p.1 = a) (hds : ∀ p ∈ ds, p.1 = a)
    (hbal : conn'.balances b = conn.balances b) :
    Settled conn' (credits ++ cs) (debits ++ ds) b acc := by
  have hnot : ∀ ps : List (Address × ℕ), (∀ p ∈ ps, p.1 = a) → b ∉ ps.map Prod.fst := by
    intro ps hps hb
    obtain ⟨p, hp, rfl⟩ := List.mem_map.mp hb
    exact hba (hps p hp)
  refine ⟨?_, ?_, ?_, ?_, h.bal, hbal ▸ h.peak⟩
  · rw [amount_append, amount_eq_zero (hnot cs hcs), Nat.add_zero, h.outval]
  · rw [amount_append, amount_eq_zero (hnot ds hds), Nat.add_zero, h.inval]
  · rw [count_append, count_eq_zero (hnot cs hcs), Nat.add_zero, h.outcnt]
  · rw [count_append, count_eq_zero (hnot ds hds), Nat.add_zero, h.incnt]

/-- A change of one account, with its postings. -/
theorem Books.of_change {conn' : Conn} {cs ds : List (Address × ℕ)} {a : Address} {acc : Account}
    (h : Books conn credits debits) (hcs : ∀ p ∈ cs, p.1 = a) (hds : ∀ p ∈ ds, p.1 = a)
    (hself : conn'.db.account a = some acc)
    (hne : ∀ b, b ≠ a → conn'.db.account b = conn.db.account b ∧
      conn'.balances b = conn.balances b)
    (ha : a ∈ (credits ++ cs).map Prod.fst)
    (hsettled : Settled conn' (credits ++ cs) (debits ++ ds) a acc)
    (htotal : conn'.db.addressinfo.total AddressRow.bal
      = conn.db.addressinfo.total AddressRow.bal + (cs.map Prod.snd).sum - (ds.map Prod.snd).sum) :
    Books conn' (credits ++ cs) (debits ++ ds) := by
  -- every field is split on whether it is about `a` or about another address
  have hmono : ∀ {b}, b ∈ credits.map Prod.fst → b ∈ (credits ++ cs).map Prod.fst := by
    intro b hb
    rw [List.map_append]
    exact List.mem_append_left _ hb
  refine ⟨fun b => ?_, fun b hb => ?_, fun p hp => ?_, fun b acc' hb => ?_, ?_⟩
  · by_cases hba : b = a
    · subst hba
      exact ⟨fun _ => ha, fun _ => ⟨acc, hself⟩⟩
    · rw [(hne b hba).1, h.opened, List.map_append, List.mem_append]
      refine ⟨.inl, fun hb => hb.resolve_right fun hb => ?_⟩
      obtain ⟨p, hp, rfl⟩ := List.mem_map.mp hb
      exact hba (hcs p hp)
  · by_cases hba : b = a
    · subst hba
      rw [hself] at hb
      cases hb
    · rw [(hne b hba).2]
      exact h.unopened b ((hne b hba).1 ▸ hb)
  · rcases List.mem_append.mp hp with hp | hp
    · exact hmono (h.funded p hp)
    · rw [hds p hp]
      exact ha
  · by_cases hba : b = a
    · subst hba
      obtain rfl : acc = acc' := Option.some.inj (hself.symm.trans hb)
      exact hsettled
    · rw [(hne b hba).1] at hb
      exact (h.settled b acc' hb).of_others hba hcs hds (hne b hba).2
  · rw [htotal, h.total, List.map_append, List.map_append, List.sum_append, List.sum_append]
    push_cast
    ring

/-- A debit of an address that has been paid before. -/
theorem Books.debit (h : Books conn credits debits) {a : Address} (v : UInt64) (t : UInt32)
    (ha : a ∈ credits.map Prod.fst) :
    Books (conn.query (.updateInput a v t)) credits (debits ++ [(a, v.toNat)]) := by
  obtain ⟨acc₀, hacc₀⟩ := (h.opened a).mpr ha
  have hs := h.settled a acc₀ hacc₀
  have hself : (conn.db.exec (.updateInput a v t)).account a = some (acc₀.debit v.toNat) := by
    rw [Db.account_updateInput, if_pos rfl, hacc₀]
    rfl
  have hne : ∀ b, b ≠ a → (conn.db.exec (.updateInput a v t)).account b = conn.db.account b := by
    intro b hb
    rw [Db.account_updateInput, if_neg hb]
  rw [← List.append_nil credits]
  refine h.of_change (a := a) (by simp) (by simp) (by rw [Conn.db_query, hself]) (fun b hb => ?_)
    (by rwa [List.append_nil]) ?_ ?_
  · exact ⟨by rw [Conn.db_query, hne b hb], Conn.balances_query_of_eq (hne b hb)⟩
  · rw [List.append_nil]
    refine ⟨hs.outval, ?_, hs.outcnt, ?_, rfl, ?_⟩
    · rw [amount_append, amount_singleton_self, Nat.cast_add, ← hs.inval]
      rfl
    · rw [count_append, count_singleton_self, ← hs.incnt]
      rfl
    · rw [Conn.balances_query_of_some hself]
      -- the balance falls, so the greatest one stays
      have hlow : (acc₀.debit v.toNat).bal ≤ acc₀.maxbal := by
        have hle := hs.peak.2 (Conn.bal_mem_balances hacc₀)
        rw [hs.bal] at hle
        show acc₀.outval - (acc₀.inval + v.toNat) ≤ acc₀.maxbal
        omega
      refine ⟨Set.mem_insert_of_mem _ hs.peak.1, ?_⟩
      rintro x (rfl | hx)
      · exact hlow
      · exact hs.peak.2 hx
  · obtain ⟨row, hrow, hacc⟩ := Option.map_eq_some_iff.mp hacc₀
    have hbal : row.bal = row.outval - row.inval := by
      have hbal := hs.bal
      rw [← hacc] at hbal
      exact hbal
    rw [Conn.db_query, Db.exec, KeyedTable.total_modify hrow, hbal]
    show _ + ((row.outval - (row.inval + (v.toNat : ℤ))) - (row.outval - row.inval)) = _
    simp only [List.map_cons, List.map_nil, List.sum_cons, List.sum_nil]
    push_cast
    ring

/-! The two statements for an output: the row is opened or credited, and then
its `maxbal` is raised. -/

theorem Settled.afterUpsert (h : Books conn credits debits) (a : Address) (v : UInt64)
    (t : UInt32) {acc : Account} (hacc : (conn.db.exec (.upsertOutput a v t)).account a = some acc) :
    acc.outval = amount (credits ++ [(a, v.toNat)]) a ∧ acc.inval = amount debits a ∧
    acc.outcnt = count (credits ++ [(a, v.toNat)]) a ∧ acc.incnt = count debits a ∧
    acc.bal = acc.outval - acc.inval ∧
    IsGreatest (insert acc.bal (conn.balances a)) (max acc.maxbal acc.bal) := by
  rw [Db.account_upsertOutput, if_pos rfl, Option.some.injEq] at hacc
  subst hacc
  rw [amount_append, amount_singleton_self, count_append, count_singleton_self]
  cases hacc₀ : conn.db.account a with
  | none =>
    -- a row that is opened has had no posting, so all its sums start from zero
    have hnot : a ∉ credits.map Prod.fst := by
      rw [← h.opened, hacc₀]
      rintro ⟨_, hsome⟩
      cases hsome
    have hnot' : a ∉ debits.map Prod.fst := by
      intro ha
      obtain ⟨p, hp, rfl⟩ := List.mem_map.mp ha
      exact hnot (h.funded p hp)
    rw [amount_eq_zero hnot, amount_eq_zero hnot', count_eq_zero hnot, count_eq_zero hnot',
      h.unopened a hacc₀]
    simp [Account.opening]
  | some acc₀ =>
    have hs := h.settled a acc₀ hacc₀
    refine ⟨?_, hs.inval, ?_, hs.incnt, rfl, ?_⟩
    · rw [Nat.cast_add, ← hs.outval]
      rfl
    · rw [← hs.outcnt]
      rfl
    · rw [max_comm]
      exact hs.peak.insert _

theorem total_bal_upsertOutput (h : Books conn credits debits) (a : Address) (v : UInt64)
    (t : UInt32) :
    (conn.db.exec (.upsertOutput a v t)).addressinfo.total AddressRow.bal
      = conn.db.addressinfo.total AddressRow.bal + v.toNat := by
  rw [Db.exec]
  by_cases ha : a ∈ conn.db.addressinfo.keys
  · obtain ⟨row, hrow⟩ := KeyedTable.mem_keys.mp ha
    have hbal : row.bal = row.outval - row.inval :=
      (h.settled a row.account (by rw [Db.account, hrow]; rfl)).bal
    rw [KeyedTable.upsert_of_mem ha, KeyedTable.total_modify hrow, hbal]
    show _ + ((row.outval + (v.toNat : ℤ) - row.inval) - (row.outval - row.inval)) = _
    ring
  · rw [KeyedTable.total_upsert_of_notMem ha]
    show _ + ((v.toNat : ℤ) - 0) = _
    ring

theorem total_bal_updateMaxbal (db : Db) (a : Address) :
    (db.exec (.updateMaxbal a)).addressinfo.total AddressRow.bal
      = db.addressinfo.total AddressRow.bal := by
  refine KeyedTable.total_update_of_eq _ _ _ _ fun row => ?_
  rw [AddressRow.raiseMaxbal]
  split
  · rfl
  · rfl

/-- A credit, of an address that has been paid before or not. -/
theorem Books.credit (h : Books conn credits debits) (a : Address) (v : UInt64) (t : UInt32) :
    Books (conn.queries [.upsertOutput a v t, .updateMaxbal a])
      (credits ++ [(a, v.toNat)]) debits := by
  set conn₁ := conn.query (.upsertOutput a v t) with hconn₁
  have hquery : conn.queries [.upsertOutput a v t, .updateMaxbal a]
      = conn₁.query (.updateMaxbal a) := by
    rw [hconn₁, Conn.query, Conn.query, Conn.queries_queries]
    rfl
  obtain ⟨acc, hacc⟩ : ∃ acc, (conn.db.exec (.upsertOutput a v t)).account a = some acc :=
    ⟨_, by rw [Db.account_upsertOutput, if_pos rfl]⟩
  obtain ⟨houtval, hinval, houtcnt, hincnt, hbal, hpeak⟩ := Settled.afterUpsert h a v t hacc
  have hself : (conn₁.db.exec (.updateMaxbal a)).account a = some acc.raiseMaxbal := by
    rw [Db.account_updateMaxbal, if_pos rfl, hconn₁, Conn.db_query, hacc]
    rfl
  have hne₁ : ∀ b, b ≠ a → (conn.db.exec (.upsertOutput a v t)).account b = conn.db.account b := by
    intro b hb
    rw [Db.account_upsertOutput, if_neg hb]
  have hne : ∀ b, b ≠ a → (conn₁.db.exec (.updateMaxbal a)).account b = conn₁.db.account b := by
    intro b hb
    rw [Db.account_updateMaxbal, if_neg hb]
  rw [hquery, ← List.append_nil debits]
  refine h.of_change (a := a) (by simp) (by simp) (by rw [Conn.db_query, hself]) (fun b hb => ⟨?_, ?_⟩)
    (by simp) ?_ ?_
  · rw [Conn.db_query, hne b hb, hconn₁, Conn.db_query, hne₁ b hb]
  · rw [Conn.balances_query_of_eq (hne b hb), Conn.balances_query_of_eq (hne₁ b hb)]
  · rw [List.append_nil]
    refine ⟨houtval, hinval, houtcnt, hincnt, hbal, ?_⟩
    -- raising `maxbal` shows no new balance
    rw [Conn.balances_query_of_some hself, Conn.balances_query_of_some hacc]
    show IsGreatest (insert acc.bal (insert acc.bal (conn.balances a))) (max acc.maxbal acc.bal)
    rwa [Set.insert_idem]
  · rw [Conn.db_query, total_bal_updateMaxbal, hconn₁, Conn.db_query, total_bal_upsertOutput h]
    simp

end BitcoinAnalysis
