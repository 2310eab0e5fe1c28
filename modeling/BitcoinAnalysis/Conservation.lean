/-
Conservation of value.

`txinfo` and `addressinfo` are written by different functions.  Along a run in
which every transaction that is not a coinbase transaction spends at least what
it pays, the balances of `addressinfo` add up to the outputs of the coinbase
transactions minus the fees in `txinfo` (`total_bal_eq`).  The coinbase case
works because `Transaction2MySQL` raises the input value to the output value.
-/
import BitcoinAnalysis.Ledger

open Postings Run

namespace BitcoinAnalysis

/-- The exact sum of the values the inputs resolve to. -/
def Transaction.inSum (txs : List Transaction) (tx : Transaction) : ℕ :=
  (tx.ins.map fun i => (inputValue txs i).toNat).sum

/-- Coinbase transactions have one coinbase input, the others none; these spend
at least what they pay; no sum reaches `2^64`. -/
structure Solvent (txs : List Transaction) : Prop where
  shape : ∀ tx ∈ txs, tx.IsCoinbase ∨ ∀ i ∈ tx.ins, i.hash ≠ coinbaseB
  solvent : AtEvery (fun pre tx => tx.IsCoinbase ∨ tx.outSum ≤ tx.inSum pre) txs
  small : AtEvery (fun pre tx => tx.outSum < 2 ^ 64 ∧ tx.inSum pre < 2 ^ 64) txs

instance (txs : List Transaction) : Decidable (Solvent txs) :=
  decidable_of_iff
    ((∀ tx ∈ txs, tx.IsCoinbase ∨ ∀ i ∈ tx.ins, i.hash ≠ coinbaseB) ∧
      AtEvery (fun pre tx => tx.IsCoinbase ∨ tx.outSum ≤ tx.inSum pre) txs ∧
      AtEvery (fun pre tx => tx.outSum < 2 ^ 64 ∧ tx.inSum pre < 2 ^ 64) txs)
    ⟨fun ⟨h₁, h₂, h₃⟩ => ⟨h₁, h₂, h₃⟩, fun ⟨h₁, h₂, h₃⟩ => ⟨h₁, h₂, h₃⟩⟩

theorem Solvent.of_initial {pre txs : List Transaction} (h : Solvent txs) (hp : pre <+: txs) :
    Solvent pre :=
  ⟨fun t ht => h.shape t (hp.subset ht), h.solvent.of_initial hp, h.small.of_initial hp⟩

/-! ### The row of `txinfo` -/

theorem toNat_sum {α : Type} (f : α → UInt64) (l : List α)
    (h : (l.map fun x => (f x).toNat).sum < 2 ^ 64) :
    (l.map f).sum.toNat = (l.map fun x => (f x).toNat).sum := by
  induction l with
  | nil => rfl
  | cons x l ih =>
    rw [List.map_cons, List.sum_cons] at h
    rw [List.map_cons, List.sum_cons, UInt64.toNat_add, ih (by omega), List.map_cons,
      List.sum_cons, Nat.mod_eq_of_lt h]

/-- Without wrap-around the row holds the exact sums, the input value raised to
the output value, and their difference as the fee. -/
theorem txRow_values {txs : List Transaction} {tx : Transaction} (hout : tx.outSum < 2 ^ 64)
    (hin : tx.inSum txs < 2 ^ 64) :
    let row := tx.txRow (tx.ins.map (inputPreout txs))
    row.outvalue.toNat = tx.outSum ∧
    row.invalue.toNat = row.outvalue.toNat + row.txfee.toNat ∧
    row.txfee.toNat = tx.inSum txs - tx.outSum := by
  have hout' : (tx.outs.map Txout.val).sum.toNat = tx.outSum := toNat_sum _ _ hout
  have hin' : ((tx.ins.map (inputPreout txs)).map invalue).sum.toNat = tx.inSum txs := by
    rw [List.map_map]
    exact toNat_sum _ _ hin
  refine ⟨hout', ?_⟩
  simp only [Transaction.txRow]
  generalize (tx.outs.map Txout.val).sum = o at hout' ⊢
  generalize ((tx.ins.map (inputPreout txs)).map invalue).sum = i at hin' ⊢
  rw [← hout', ← hin']
  split
  · rename_i hlt
    -- the inputs are raised to the outputs, and the fee is 0
    have hlt' : i.toNat < o.toNat := UInt64.lt_iff_toNat_lt.mp hlt
    rw [UInt64.sub_self]
    refine ⟨rfl, ?_⟩
    rw [Nat.sub_eq_zero_of_le (le_of_lt hlt')]
    rfl
  · rename_i hlt
    have hle : o ≤ i := UInt64.not_lt.mp hlt
    have hle' : o.toNat ≤ i.toNat := UInt64.le_iff_toNat_le.mp hle
    rw [UInt64.toNat_sub_of_le _ _ hle]
    exact ⟨by omega, rfl⟩

/-! ### One transaction -/

theorem inSum_append {txs : List Transaction} {tx : Transaction}
    (h : ∀ i ∈ tx.ins, i.hash = coinbaseB ∨ NamesOutput txs i) (more : List Transaction) :
    tx.inSum (txs ++ more) = tx.inSum txs := by
  rw [Transaction.inSum, Transaction.inSum]
  congr 1
  refine List.map_congr_left fun i hi => ?_
  rw [inputValue, inputValue, inputPreout_append (h i hi)]

/-- The conditions on a transaction, with its inputs looked up in the whole run. -/
theorem Solvent.all {txs : List Transaction} (hc : Chain txs) (h : Solvent txs) :
    ∀ tx ∈ txs, (tx.IsCoinbase ∨ tx.outSum ≤ tx.inSum txs) ∧
      tx.outSum < 2 ^ 64 ∧ tx.inSum txs < 2 ^ 64 := by
  intro tx htx
  obtain ⟨pre, post, rfl⟩ := List.append_of_mem htx
  rw [inSum_append (hc.linked pre tx post rfl)]
  exact ⟨h.solvent pre tx post rfl, h.small pre tx post rfl⟩

def Transaction.spendSum (txs : List Transaction) (tx : Transaction) : ℕ :=
  (tx.spends.map fun i => (inputValue txs i).toNat).sum

theorem spendSum_coinbase (txs : List Transaction) {tx : Transaction} (h : tx.IsCoinbase) :
    tx.spendSum txs = 0 ∧ tx.inSum txs = 0 := by
  obtain ⟨i, hins, hz⟩ := List.map_eq_singleton_iff.mp h
  refine ⟨?_, ?_⟩
  · simp [Transaction.spendSum, Transaction.spends, hins, hz]
  · simp [Transaction.inSum, hins, inputValue, inputPreout_coinbase hz]

theorem spendSum_of_no_coinbase {txs : List Transaction} {tx : Transaction}
    (h : ∀ i ∈ tx.ins, i.hash ≠ coinbaseB) : tx.spendSum txs = tx.inSum txs := by
  have hspends : tx.spends = tx.ins :=
    List.filter_eq_self.mpr fun i hi => by simpa using h i hi
  rw [Transaction.spendSum, hspends, Transaction.inSum]

/-- What a transaction adds to the balances: its outputs if it is a coinbase
transaction, minus its fee. -/
theorem net_eq {txs : List Transaction} {tx : Transaction}
    (hshape : tx.IsCoinbase ∨ ∀ i ∈ tx.ins, i.hash ≠ coinbaseB)
    (hsolvent : tx.IsCoinbase ∨ tx.outSum ≤ tx.inSum txs) :
    (tx.outSum : ℤ) - tx.spendSum txs
      = (if tx.IsCoinbase then tx.outSum else 0 : ℕ) - ((tx.inSum txs - tx.outSum : ℕ) : ℤ) := by
  by_cases hcb : tx.IsCoinbase
  · obtain ⟨hspend, hin⟩ := spendSum_coinbase txs hcb
    rw [if_pos hcb, hspend, hin]
    omega
  · rw [if_neg hcb, spendSum_of_no_coinbase (hshape.resolve_left hcb)]
    have hle := hsolvent.resolve_left hcb
    omega

/-! ### The whole run -/

theorem sum_creditsOf (txs : List Transaction) :
    ((creditsOf txs).map Prod.snd).sum = (txs.map Transaction.outSum).sum := by
  induction txs with
  | nil => rfl
  | cons t ts ih =>
    rw [creditsOf, List.flatMap_cons, List.map_append, List.map_append, List.sum_append]
    rw [creditsOf] at ih
    rw [ih, List.map_cons, List.sum_cons, List.map_map]
    rfl

theorem sum_debitsOf (txs : List Transaction) :
    ((debitsOf txs).map Prod.snd).sum = (txs.map (Transaction.spendSum txs)).sum := by
  rw [debitsOf, List.map_map]
  have hsum : ∀ ts : List Transaction,
      ((ts.flatMap Transaction.spends).map (Prod.snd ∘ inputPosting txs)).sum
        = (ts.map (Transaction.spendSum txs)).sum := by
    intro ts
    induction ts with
    | nil => rfl
    | cons t ts ih =>
      rw [List.flatMap_cons, List.map_append, List.sum_append, ih, List.map_cons, List.sum_cons]
      rfl
  exact hsum txs

/-- The outputs of the coinbase transactions. -/
def minted (txs : List Transaction) : ℕ :=
  ((txs.filter fun tx => tx.IsCoinbase).map Transaction.outSum).sum

theorem sum_net (txs : List Transaction) : ∀ ts : List Transaction,
    (∀ tx ∈ ts, tx.IsCoinbase ∨ ∀ i ∈ tx.ins, i.hash ≠ coinbaseB) →
    (∀ tx ∈ ts, tx.IsCoinbase ∨ tx.outSum ≤ tx.inSum txs) →
    ((ts.map Transaction.outSum).sum : ℤ) - (ts.map (Transaction.spendSum txs)).sum
      = minted ts - (ts.map fun tx => tx.inSum txs - tx.outSum).sum := by
  intro ts
  induction ts with
  | nil => intro _ _; rfl
  | cons t ts ih =>
    intro hshape hsolvent
    have ih' := ih (fun tx htx => hshape tx (List.mem_cons_of_mem t htx))
      fun tx htx => hsolvent tx (List.mem_cons_of_mem t htx)
    have hnet := net_eq (hshape t List.mem_cons_self) (hsolvent t List.mem_cons_self)
    have hminted : minted (t :: ts) = (if t.IsCoinbase then t.outSum else 0) + minted ts := by
      rw [minted, List.filter_cons, minted]
      by_cases hcb : t.IsCoinbase
      · simp [hcb]
      · simp [hcb]
    rw [hminted]
    simp only [List.map_cons, List.sum_cons]
    push_cast at ih' hnet ⊢
    linarith

/-- **Conservation of value.**  After every call the balances add up to what
the coinbase transactions have paid minus the fees in `txinfo`, which has one
row for every transaction processed, and in every row the input value is the
output value plus the fee.  The run returns if every transaction has an input. -/
theorem total_bal_eq {w₀ : World} {txs : List Transaction} (h₀ : EmptyStores w₀)
    (hc : Chain txs) (hs : NoSentinel txs) (hsol : Solvent txs) :
    (∀ pre w, pre <+: txs → run transactionProcess w₀ pre = .ok w →
      w.conn.db.addressinfo.total AddressRow.bal
        = minted pre - (w.conn.db.txinfo.map fun row => row.txfee.toNat).sum ∧
      w.conn.db.txinfo.map TxRow.txhash = pre.map (fun tx => tx.curhash.reverse) ∧
      ∀ row ∈ w.conn.db.txinfo, row.invalue.toNat = row.outvalue.toNat + row.txfee.toNat) ∧
    ((∀ tx ∈ txs, tx.ins ≠ []) → ∃ w, run transactionProcess w₀ txs = .ok w) := by
  constructor
  · intro pre w hpre hw
    have hc' := hc.of_initial hpre
    have hall := (hsol.of_initial hpre).all hc'
    have hl := ledger_run h₀ hc' (hs.of_initial hpre) hw
    -- no sum wraps, so the fee column holds what the inputs exceed the outputs by
    have hfees : (w.conn.db.txinfo.map fun row => row.txfee.toNat)
        = pre.map fun tx => tx.inSum pre - tx.outSum := by
      rw [hl.processed.txinfo, List.map_map]
      refine List.map_congr_left fun tx htx => ?_
      obtain ⟨-, hout, hin⟩ := hall tx htx
      exact (txRow_values hout hin).2.2
    refine ⟨?_, ?_, fun row hrow => ?_⟩
    · rw [hl.books.total, sum_creditsOf, sum_debitsOf, hfees]
      exact sum_net pre pre (hsol.of_initial hpre).shape fun tx htx => (hall tx htx).1
    · rw [hl.processed.txinfo, List.map_map]
      rfl
    · rw [hl.processed.txinfo] at hrow
      obtain ⟨tx, htx, rfl⟩ := List.mem_map.mp hrow
      obtain ⟨-, hout, hin⟩ := hall tx htx
      exact (txRow_values hout hin).2.1
  · intro hne
    exact run_isOk h₀ hc fun tx htx => (hsol.shape tx htx).imp_right fun h => ⟨hne tx htx, h⟩

theorem total_bal_eq_of_spending :
    ∃ w, run transactionProcess (World.fresh .null) [mined, spending] = .ok w ∧
      w.conn.db.addressinfo.total AddressRow.bal
        = 110 - (w.conn.db.txinfo.map fun row => row.txfee.toNat).sum := by
  obtain ⟨hvalue, hreturn⟩ := total_bal_eq (World.emptyStores_fresh .null)
    (show Chain [mined, spending] by decide +kernel) (by decide +kernel) (by decide +kernel)
  obtain ⟨w, hw⟩ := hreturn (by decide +kernel)
  exact ⟨w, hw, (hvalue _ w List.prefix_rfl hw).1⟩

end BitcoinAnalysis
