/-
Half-open intervals that lie side by side.

`Tiles a bs e` says that the intervals `bs` begin at `a`, that each begins where
the one before it ends, and that the last one ends at `e`; the end may be `⊤`.
Then a point of `[a, e)` is in exactly one of them and any other point in none
(`Tiles.countP_contains`), and counts taken interval by interval add up
(`sum_countP`).
-/
import Mathlib.Tactic
import Mathlib.Order.WithBot

namespace Buckets

/-- The points from `low` on and below `high`. -/
structure Bucket (α : Type) where
  low : α
  high : WithTop α

variable {α β ρ : Type} [LinearOrder α]

def Bucket.Contains (b : Bucket α) (x : α) : Prop := b.low ≤ x ∧ (x : WithTop α) < b.high

instance Bucket.decidableContains (b : Bucket α) (x : α) : Decidable (b.Contains x) :=
  inferInstanceAs (Decidable (_ ∧ _))

/-- The intervals lie side by side from `a` to `e`. -/
def Tiles : WithTop α → List (Bucket α) → WithTop α → Prop
  | a, [], e => a = e
  | a, b :: bs, e => (b.low : WithTop α) = a ∧ a ≤ b.high ∧ Tiles b.high bs e

instance decidableTiles : (a : WithTop α) → (bs : List (Bucket α)) → (e : WithTop α) →
    Decidable (Tiles a bs e)
  | a, [], e => inferInstanceAs (Decidable (a = e))
  | a, b :: bs, e =>
    have := decidableTiles b.high bs e
    inferInstanceAs (Decidable ((b.low : WithTop α) = a ∧ a ≤ b.high ∧ Tiles b.high bs e))

theorem Tiles.le {a e : WithTop α} {bs : List (Bucket α)} (h : Tiles a bs e) : a ≤ e := by
  induction bs generalizing a with
  | nil => exact le_of_eq h
  | cons b bs ih => exact h.2.1.trans (ih h.2.2)

/-- A point is in one of the intervals if it lies between the ends, and in none
otherwise. -/
theorem Tiles.countP_contains {a e : WithTop α} {bs : List (Bucket α)} (h : Tiles a bs e) (x : α) :
    bs.countP (fun b => b.Contains x) = if a ≤ x ∧ (x : WithTop α) < e then 1 else 0 := by
  induction bs generalizing a with
  | nil =>
    have hae : a = e := h
    rw [List.countP_nil, if_neg]
    rintro ⟨hax, hxe⟩
    exact absurd hxe (not_lt.mpr (hae ▸ hax))
  | cons b bs ih =>
    obtain ⟨hlow, hle, hrest⟩ := h
    rw [List.countP_cons, ih hrest]
    by_cases hx : (x : WithTop α) < b.high
    · -- only the first interval can contain `x`
      have hin : b.Contains x ↔ a ≤ x ∧ (x : WithTop α) < e := by
        rw [Bucket.Contains, ← WithTop.coe_le_coe, hlow]
        exact ⟨fun hb => ⟨hb.1, hx.trans_le hrest.le⟩, fun hb => ⟨hb.1, hx⟩⟩
      rw [if_neg fun hb => absurd hx (not_lt.mpr hb.1), Nat.zero_add]
      simp only [decide_eq_true_eq, hin]
    · rw [not_lt] at hx
      have hout : ¬ b.Contains x := fun hb => absurd hb.2 (not_lt.mpr hx)
      have hax : a ≤ x := hle.trans hx
      simp [hout, hx, hax]

/-! ### Counting -/

theorem sum_map_ite (q : ρ → Bool) (rows : List ρ) :
    (rows.map fun row => if q row then 1 else 0).sum = rows.countP q := by
  induction rows with
  | nil => rfl
  | cons row rows ih => rw [List.map_cons, List.sum_cons, ih, List.countP_cons, Nat.add_comm]

/-- To count the pairs it does not matter which side comes first. -/
theorem sum_countP_comm (p : β → ρ → Bool) (bs : List β) (rows : List ρ) :
    (bs.map fun b => rows.countP (p b)).sum = (rows.map fun row => bs.countP (p · row)).sum := by
  induction bs with
  | nil => simp
  | cons b bs ih =>
    rw [List.map_cons, List.sum_cons, ih]
    simp only [List.countP_cons]
    rw [List.sum_map_add, sum_map_ite, Nat.add_comm]

/-- Where each row of a kind is counted once and the others are not, the counts
add up to the number of rows of this kind. -/
theorem sum_countP {p : β → ρ → Bool} {q : ρ → Bool} {bs : List β} {rows : List ρ}
    (h : ∀ row ∈ rows, bs.countP (p · row) = if q row then 1 else 0) :
    (bs.map fun b => rows.countP (p b)).sum = rows.countP q := by
  rw [sum_countP_comm, List.map_congr_left h, sum_map_ite]

/-- Exactly one of a list, by its position. -/
theorem countP_eq_one_iff {p : β → Bool} {bs : List β} :
    bs.countP p = 1 ↔ ∃! i : ℕ, ∃ b, bs[i]? = some b ∧ p b := by
  induction bs with
  | nil => simp
  | cons b bs ih =>
    rw [List.countP_cons]
    by_cases hb : p b
    · -- the first one counts, so no other may
      rw [if_pos hb, Nat.add_eq_right, List.countP_eq_zero]
      constructor
      · intro hnone
        refine ⟨0, ⟨b, rfl, hb⟩, ?_⟩
        rintro (_ | j) ⟨c, hc, hpc⟩
        · rfl
        · exact absurd hpc (hnone c (List.mem_of_getElem? hc))
      · intro hone c hc hpc
        obtain ⟨j, hj⟩ := List.mem_iff_getElem?.mp hc
        exact absurd (hone.unique ⟨c, hj, hpc⟩ ⟨b, rfl, hb⟩ : j + 1 = 0) (Nat.succ_ne_zero j)
    · rw [if_neg hb, Nat.add_zero, ih]
      constructor
      · rintro ⟨j, ⟨c, hc, hpc⟩, huniq⟩
        refine ⟨j + 1, ⟨c, hc, hpc⟩, ?_⟩
        rintro (_ | i) ⟨d, hd, hpd⟩
        · exact absurd (Option.some.inj hd ▸ hpd) hb
        · exact congrArg (· + 1) (huniq i ⟨d, hd, hpd⟩)
      · rintro ⟨_ | j, ⟨c, hc, hpc⟩, huniq⟩
        · exact absurd (Option.some.inj hc ▸ hpc) hb
        · exact ⟨j, ⟨c, hc, hpc⟩, fun i hi => Nat.succ.inj (huniq (i + 1) hi)⟩

end Buckets
