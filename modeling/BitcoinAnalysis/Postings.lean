/-
Sums over postings.

A posting is a holder and an amount.  `amount ps a` and `count ps a` are what
the postings `ps` add up to for the holder `a`.  `sum_eq_named_add_unnamed`
splits the sum over a list of keyed items into those that a list of distinct
names picks out and the rest; it is what turns a balance kept by credits and
debits into a sum over unspent items.
-/
import Mathlib.Tactic

namespace Postings

variable {α κ ν : Type} [DecidableEq α]

/-- What the postings add up to for one holder. -/
def amount (ps : List (α × ℕ)) (a : α) : ℕ := ((ps.filter fun p => p.1 = a).map Prod.snd).sum

/-- How many postings there are for one holder. -/
def count (ps : List (α × ℕ)) (a : α) : ℕ := (ps.filter fun p => p.1 = a).length

theorem amount_append (ps qs : List (α × ℕ)) (a : α) :
    amount (ps ++ qs) a = amount ps a + amount qs a := by
  rw [amount, List.filter_append, List.map_append, List.sum_append]
  rfl

theorem count_append (ps qs : List (α × ℕ)) (a : α) :
    count (ps ++ qs) a = count ps a + count qs a := by
  rw [count, List.filter_append, List.length_append]
  rfl

@[simp] theorem amount_singleton_self (a : α) (v : ℕ) : amount [(a, v)] a = v := by
  simp [amount]

@[simp] theorem count_singleton_self (a : α) (v : ℕ) : count [(a, v)] a = 1 := by
  simp [count]

theorem amount_eq_zero {ps : List (α × ℕ)} {a : α} (h : a ∉ ps.map Prod.fst) :
    amount ps a = 0 := by
  have hnil : (ps.filter fun p => p.1 = a) = [] := by
    rw [List.filter_eq_nil_iff]
    intro p hp hpa
    exact h (List.mem_map.mpr ⟨p, hp, by simpa using hpa⟩)
  rw [amount, hnil]
  rfl

theorem count_eq_zero {ps : List (α × ℕ)} {a : α} (h : a ∉ ps.map Prod.fst) :
    count ps a = 0 := by
  rw [count, List.length_eq_zero_iff, List.filter_eq_nil_iff]
  intro p hp hpa
  exact h (List.mem_map.mpr ⟨p, hp, by simpa using hpa⟩)

theorem amount_map {ι : Type} (f : ι → α × ℕ) (l : List ι) (a : α) :
    amount (l.map f) a = ((l.filter fun i => (f i).1 = a).map fun i => (f i).2).sum := by
  rw [amount, List.filter_map, List.map_map]
  rfl

theorem count_map {ι : Type} (f : ι → α × ℕ) (l : List ι) (a : α) :
    count (l.map f) a = (l.filter fun i => (f i).1 = a).length := by
  rw [count, List.filter_map, List.length_map]
  rfl

/-- The amount of a holder as a sum over all postings. -/
theorem amount_eq_sum_ite (ps : List (α × ℕ)) (a : α) :
    amount ps a = (ps.map fun p => if p.1 = a then p.2 else 0).sum := by
  induction ps with
  | nil => rfl
  | cons p ps ih =>
    rw [List.map_cons, List.sum_cons, ← ih, amount, amount, List.filter_cons]
    by_cases h : p.1 = a
    · simp [h]
    · simp [h]

variable [BEq κ] [LawfulBEq κ]

/-- A sum over items with distinct keys is the sum over the items that distinct
names pick out plus the sum over the items without a name. -/
theorem sum_eq_named_add_unnamed {items : List (κ × ν)} {names : List κ} {f : κ × ν → ℕ}
    {g : κ → ℕ} (hitems : (items.map Prod.fst).Nodup) (hnames : names.Nodup)
    (hsub : ∀ n ∈ names, n ∈ items.map Prod.fst) (hfg : ∀ o ∈ items, g o.1 = f o) :
    (items.map f).sum
      = (names.map g).sum + ((items.filter fun o => o.1 ∉ names).map f).sum := by
  -- the keys of the named items are the names, in another order
  have hperm : ((items.filter fun o => o.1 ∈ names).map Prod.fst).Perm names := by
    refine (List.perm_ext_iff_of_nodup ?_ hnames).mpr fun k => ?_
    · exact hitems.sublist (List.filter_sublist.map _)
    · simp only [List.mem_map, List.mem_filter, decide_eq_true_eq]
      constructor
      · rintro ⟨o, ⟨-, ho⟩, rfl⟩
        exact ho
      · intro hk
        obtain ⟨o, ho, rfl⟩ := List.mem_map.mp (hsub k hk)
        exact ⟨o, ⟨ho, hk⟩, rfl⟩
  have hnamed : ((items.filter fun o => o.1 ∈ names).map f).sum = (names.map g).sum := by
    rw [← (hperm.map g).sum_eq, List.map_map]
    congr 1
    refine List.map_congr_left fun o ho => ?_
    exact (hfg o (List.mem_of_mem_filter ho)).symm
  rw [← hnamed]
  have hsplit := List.filter_append_perm (fun o : κ × ν => decide (o.1 ∈ names)) items
  rw [← (hsplit.map f).sum_eq, List.map_append, List.sum_append]
  congr 3
  refine List.filter_congr fun o _ => ?_
  simp

end Postings
