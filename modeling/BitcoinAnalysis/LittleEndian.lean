/-
Fixed-width little-endian numbers.

`leBytes w n` is the `w`-byte little-endian image of `n` and `leNat` reads one
back, in terms of `Nat.ofDigits 256`, up to what does not fit (`leNat_leBytes`);
the bytes of what was read are those it was read from (`leBytes_leNat`).
-/
import Mathlib.Tactic
import Mathlib.Data.Nat.Digits.Defs

namespace LittleEndian

/-- The number whose base-256 digits, least significant first, are the bytes. -/
def leNat (bs : List UInt8) : ℕ := Nat.ofDigits 256 (bs.map UInt8.toNat)

/-- The `w` low bytes of a number, least significant first. -/
def leBytes : ℕ → ℕ → List UInt8
  | 0, _ => []
  | w + 1, n => UInt8.ofNat n :: leBytes w (n / 256)

@[simp] theorem leNat_nil : leNat [] = 0 := rfl

@[simp] theorem leNat_cons (b : UInt8) (bs : List UInt8) :
    leNat (b :: bs) = b.toNat + 256 * leNat bs := by
  rw [leNat, List.map_cons, Nat.ofDigits_cons, leNat]

@[simp] theorem length_leBytes (w n : ℕ) : (leBytes w n).length = w := by
  induction w generalizing n with
  | zero => rfl
  | succ w ih => rw [leBytes, List.length_cons, ih]

/-- Reading back what was written loses only what does not fit. -/
theorem leNat_leBytes (w n : ℕ) : leNat (leBytes w n) = n % 256 ^ w := by
  induction w generalizing n with
  | zero => simp [leBytes, Nat.mod_one]
  | succ w ih =>
    rw [leBytes, leNat_cons, ih, pow_succ, mul_comm (256 ^ w) 256, Nat.mod_mul]
    simp

theorem leNat_leBytes_of_lt {w n : ℕ} (h : n < 256 ^ w) : leNat (leBytes w n) = n := by
  rw [leNat_leBytes, Nat.mod_eq_of_lt h]

theorem leNat_lt (bs : List UInt8) : leNat bs < 256 ^ bs.length := by
  induction bs with
  | nil => exact Nat.one_pos
  | cons b bs ih =>
    have hb : b.toNat < 256 := b.toNat_lt
    rw [leNat_cons, List.length_cons, pow_succ]
    omega

theorem leBytes_leNat {w : ℕ} {bs : List UInt8} (h : bs.length = w) : leBytes w (leNat bs) = bs := by
  subst h
  induction bs with
  | nil => rfl
  | cons b bs ih =>
    have hb := b.toNat_lt
    have hdiv : (b.toNat + 256 * leNat bs) / 256 = leNat bs := by omega
    have hmod : UInt8.ofNat (b.toNat + 256 * leNat bs) = b := by
      apply UInt8.toNat.inj
      rw [UInt8.toNat_ofNat']
      omega
    rw [leNat_cons, List.length_cons, leBytes, hdiv, hmod, ih]

end LittleEndian
