/-
Deterministic walks that end.

`next x` is the point after `x`, if there is one.  A walk that ends does not come
back to a point, so it ends within as many steps as there are points it can
visit (`exists_end`).
-/
import Mathlib.Tactic

namespace Orbit

variable {α : Type}

/-- The point after `n` steps. -/
def orbit (next : α → Option α) : ℕ → α → Option α
  | 0, x => some x
  | n + 1, x => (next x).bind (orbit next n)

variable {next : α → Option α}

theorem orbit_add (m n : ℕ) (x : α) :
    orbit next (m + n) x = (orbit next m x).bind (orbit next n) := by
  induction m generalizing x with
  | zero => rw [Nat.zero_add, orbit, Option.bind_some]
  | succ m ih =>
    rw [Nat.succ_add, orbit, orbit, Option.bind_assoc]
    exact Option.bind_congr fun y _ => ih y

theorem orbit_eq_none_of_le {m n : ℕ} {x : α} (h : orbit next m x = none) (hle : m ≤ n) :
    orbit next n x = none := by
  obtain ⟨k, rfl⟩ := Nat.exists_eq_add_of_le hle
  rw [orbit_add, h, Option.bind_none]

/-- A walk that comes back does not end. -/
theorem orbit_ne_none_of_cycle {i d : ℕ} {x y : α} (hd : 0 < d) (hi : orbit next i x = some y)
    (hj : orbit next (i + d) x = some y) (n : ℕ) : orbit next n x ≠ none := by
  have hback : ∀ k, orbit next (i + d + k) x = orbit next (i + k) x := by
    intro k
    rw [orbit_add, hj, orbit_add i, hi]
  induction n using Nat.strong_induction_on with
  | _ n ih =>
    intro hnone
    by_cases hn : n < i + d
    · rw [orbit_eq_none_of_le hnone hn.le] at hj
      cases hj
    · obtain ⟨k, rfl⟩ := Nat.exists_eq_add_of_le (not_lt.mp hn)
      exact ih (i + k) (by omega) ((hback k).symm.trans hnone)

/-- **A walk that ends within a finite set** ends within its size. -/
theorem exists_end {S : Finset α} {x : α} (hS : ∀ n y, orbit next n x = some y → y ∈ S) {n : ℕ}
    (hend : orbit next n x = none) : orbit next S.card x = none := by
  by_contra hlong
  -- all points up to there are visited, and they are more than the set holds
  have hsome : ∀ i : Fin (S.card + 1), ∃ y, orbit next i x = some y := by
    intro i
    apply Option.ne_none_iff_exists'.mp
    exact fun h => hlong (orbit_eq_none_of_le h (Nat.lt_succ_iff.mp i.isLt))
  choose f hf using hsome
  have hmaps : ∀ i ∈ (Finset.univ : Finset (Fin (S.card + 1))), f i ∈ S := fun i _ => hS i _ (hf i)
  have hcard : S.card < (Finset.univ : Finset (Fin (S.card + 1))).card := by
    rw [Finset.card_univ, Fintype.card_fin]
    exact Nat.lt_succ_self _
  obtain ⟨i, -, j, -, hne, heq⟩ := Finset.exists_ne_map_eq_of_card_lt_of_maps_to hcard hmaps
  have hcycle : ∀ i j : Fin (S.card + 1), i < j → f i = f j → False := by
    intro i j hlt heq
    obtain ⟨d, hd⟩ := Nat.exists_eq_add_of_le (Fin.lt_def.mp hlt).le
    have hpos : 0 < d := by
      have := Fin.lt_def.mp hlt
      omega
    exact orbit_ne_none_of_cycle hpos (hf i) (by rw [← hd, hf j, heq]) n hend
  rcases lt_or_gt_of_ne hne with hlt | hlt
  · exact hcycle i j hlt heq
  · exact hcycle j i hlt heq.symm

end Orbit
