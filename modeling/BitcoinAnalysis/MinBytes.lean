/-
Numbers as byte strings without leading zeros.

`minBytes n` is the shortest little-endian image of `n`; it is empty for zero.
An image with a nonzero last byte is the shortest one (`eq_minBytes`), which is
how results of byte-by-byte arithmetic are recognised: by their value and a
lower bound on it.
-/
import BitcoinAnalysis.LittleEndian
import Mathlib.Data.Nat.Digits.Lemmas

namespace LittleEndian

/-! ### Values of byte strings -/

theorem leNat_append (as bs : List UInt8) :
    leNat (as ++ bs) = leNat as + 256 ^ as.length * leNat bs := by
  rw [leNat, List.map_append, Nat.ofDigits_append, List.length_map]
  rfl

theorem leNat_singleton (b : UInt8) : leNat [b] = b.toNat := by
  rw [leNat_cons, leNat_nil]
  rfl

@[simp] theorem leNat_replicate_zero (n : ℕ) : leNat (List.replicate n 0) = 0 := by
  induction n with
  | zero => rfl
  | succ n ih => rw [List.replicate_succ, leNat_cons, ih]; rfl

theorem eq_replicate_of_leNat_eq_zero {bs : List UInt8} (h : leNat bs = 0) :
    bs = List.replicate bs.length 0 := by
  induction bs with
  | nil => rfl
  | cons b bs ih =>
    rw [leNat_cons] at h
    have hb : b = 0 := UInt8.toNat_inj.mp (Nat.eq_zero_of_add_eq_zero_right h)
    rw [List.length_cons, List.replicate_succ, ← ih (by omega), hb]

/-! ### The shortest image -/

def minBytes (n : ℕ) : List UInt8 := (Nat.digits 256 n).map UInt8.ofNat

@[simp] theorem minBytes_zero : minBytes 0 = [] := by
  rw [minBytes, Nat.digits_zero, List.map_nil]

@[simp] theorem leNat_minBytes (n : ℕ) : leNat (minBytes n) = n := by
  have hdigits : (minBytes n).map UInt8.toNat = Nat.digits 256 n := by
    rw [minBytes, List.map_map]
    refine (List.map_congr_left fun d hd => ?_).trans (List.map_id _)
    exact UInt8.toNat_ofNat_of_lt' (Nat.digits_lt_base (by decide) hd)
  rw [leNat, hdigits, Nat.ofDigits_digits]

/-- The image of a number that needs all of its bytes. -/
theorem eq_minBytes {bs : List UInt8} {n : ℕ} (hval : leNat bs = n)
    (hmin : bs ≠ [] → 256 ^ (bs.length - 1) ≤ n) : bs = minBytes n := by
  have hlast : ∀ h : bs.map UInt8.toNat ≠ [], (bs.map UInt8.toNat).getLast h ≠ 0 := by
    intro h hzero
    have hne : bs ≠ [] := fun hnil => h (by rw [hnil]; rfl)
    have hsplit : bs = bs.dropLast ++ [0] := by
      rw [List.getLast_map] at hzero
      have htop : bs.getLast hne = 0 := UInt8.toNat_inj.mp hzero
      rw [← htop, List.dropLast_append_getLast hne]
    -- the last byte would not count
    have hlt := leNat_lt bs.dropLast
    rw [hsplit, leNat_append, leNat_singleton] at hval
    rw [List.length_dropLast] at hlt
    have := hmin hne
    simp only [UInt8.toNat_zero, Nat.mul_zero, Nat.add_zero] at hval
    omega
  have hlt : ∀ d ∈ bs.map UInt8.toNat, d < 256 := by
    intro d hd
    obtain ⟨b, -, rfl⟩ := List.mem_map.mp hd
    exact b.toNat_lt
  rw [minBytes, ← hval, leNat, Nat.digits_ofDigits 256 (by decide) _ hlt hlast, List.map_map]
  exact ((List.map_congr_left fun b _ => UInt8.ofNat_toNat).trans (List.map_id bs)).symm

/-- The image with a nonzero byte on top. -/
theorem append_eq_minBytes {bs : List UInt8} {b : UInt8} {n : ℕ} (hb : b ≠ 0)
    (hval : leNat (bs ++ [b]) = n) : bs ++ [b] = minBytes n := by
  have hpos : 1 ≤ b.toNat := Nat.one_le_iff_ne_zero.mpr fun h0 => hb (UInt8.toNat_inj.mp h0)
  refine eq_minBytes hval fun _ => ?_
  rw [← hval, leNat_append, leNat_singleton, List.length_append, List.length_singleton,
    Nat.add_sub_cancel]
  exact (Nat.le_mul_of_pos_right _ hpos).trans (Nat.le_add_left _ _)

theorem minBytes_ne_nil {n : ℕ} (h : n ≠ 0) : minBytes n ≠ [] := by
  intro hnil
  have hval := leNat_minBytes n
  rw [hnil] at hval
  exact h hval.symm

theorem pow_length_minBytes_le {n : ℕ} (h : n ≠ 0) : 256 ^ ((minBytes n).length - 1) ≤ n := by
  have hpow := Nat.base_pow_length_digits_le 256 n (by decide) h
  rw [minBytes, List.length_map]
  have hpos : (Nat.digits 256 n).length ≠ 0 := by
    rw [Ne, List.length_eq_zero_iff, Nat.digits_eq_nil_iff_eq_zero]
    exact h
  obtain ⟨k, hk⟩ := Nat.exists_eq_succ_of_ne_zero hpos
  rw [hk, pow_succ] at hpow
  rw [hk, Nat.succ_sub_one]
  omega

theorem length_minBytes_le {n k : ℕ} (h : n < 256 ^ k) : (minBytes n).length ≤ k := by
  by_contra hlt
  have hpos : n ≠ 0 := by
    rintro rfl
    rw [minBytes_zero] at hlt
    exact hlt (Nat.zero_le k)
  have hle := pow_length_minBytes_le hpos
  have hpow : 256 ^ k ≤ 256 ^ ((minBytes n).length - 1) :=
    Nat.pow_le_pow_right (by decide) (by omega)
  omega

end LittleEndian
