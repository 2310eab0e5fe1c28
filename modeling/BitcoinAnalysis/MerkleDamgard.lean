/-
Hash functions that compress a message block by block.

`absorb compress n s msg` compresses the first `n` blocks of 64 bytes of `msg`
into the state `s`.  Messages are absorbed part after part (`absorb_append`).
-/
import Mathlib.Tactic

namespace MerkleDamgard

variable {σ : Type*} (compress : σ → List UInt8 → σ)

/-- The first `n` blocks of a message. -/
def absorb : ℕ → σ → List UInt8 → σ
  | 0, s, _ => s
  | n + 1, s, msg => absorb n (compress s (msg.take 64)) (msg.drop 64)

theorem absorb_append {m : ℕ} (n : ℕ) (s : σ) {xs : List UInt8} (hxs : xs.length = 64 * m)
    (ys : List UInt8) :
    absorb compress (m + n) s (xs ++ ys) = absorb compress n (absorb compress m s xs) ys := by
  induction m generalizing s xs with
  | zero =>
    have hnil : xs = [] := List.length_eq_zero_iff.mp hxs
    rw [hnil, List.nil_append, Nat.zero_add]
    rfl
  | succ m ih =>
    have hdrop : (xs.drop 64).length = 64 * m := by
      rw [List.length_drop, hxs]
      omega
    have hlen : 64 ≤ xs.length := by omega
    rw [Nat.add_right_comm, absorb, absorb, List.take_append_of_le_length hlen,
      List.drop_append_of_le_length hlen, ih _ hdrop]

theorem absorb_one (s : σ) {block : List UInt8} (hblock : block.length = 64) :
    absorb compress 1 s block = compress s block := by
  rw [absorb, absorb, List.take_of_length_le hblock.le]

/-- One more block. -/
theorem absorb_block {m : ℕ} (s : σ) {xs block : List UInt8} (hxs : xs.length = 64 * m)
    (hblock : block.length = 64) :
    absorb compress (m + 1) s (xs ++ block) = compress (absorb compress m s xs) block := by
  rw [absorb_append compress 1 s hxs, absorb_one compress _ hblock]

end MerkleDamgard
