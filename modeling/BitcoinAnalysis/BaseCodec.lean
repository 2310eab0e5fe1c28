/-
Byte strings as texts of digits in some base.

The bytes are one number, the most significant byte first, and the text has its
digits, the most significant first.  Leading zero bytes do not count in the
number; each stands for one leading zero digit (`digitsOf`, `bytesOf`).  In this
way every byte string has a text, and it is read back from it
(`bytesOf_digitsOf`).  An `alphabet` gives the characters of the digits, and its
length is the base.
-/
import BitcoinAnalysis.MinBytes

namespace BaseCodec

open LittleEndian

/-- The number with the digits `ds`. -/
def value (b : ℕ) (ds : List ℕ) : ℕ := Nat.ofDigits b ds.reverse

/-- How often `z` stands in front. -/
def leading {α : Type*} [DecidableEq α] (z : α) (xs : List α) : ℕ :=
  (xs.takeWhile (· = z)).length

def digitsOf (b : ℕ) (bs : List UInt8) : List ℕ :=
  List.replicate (leading 0 bs) 0 ++ (Nat.digits b (leNat bs.reverse)).reverse

def bytesOf (b : ℕ) (ds : List ℕ) : List UInt8 :=
  List.replicate (leading 0 ds) 0 ++ (minBytes (value b ds)).reverse

/-- The bytes of a text, if all of its characters are in the alphabet. -/
def decode (alphabet : List UInt8) (text : List UInt8) : Option (List UInt8) :=
  if text.all (· ∈ alphabet) then
    some (bytesOf alphabet.length (text.map (alphabet.idxOf ·)))
  else none

section Leading

variable {α : Type*} [DecidableEq α] (z : α)

theorem leading_le_length (xs : List α) : leading z xs ≤ xs.length :=
  (List.takeWhile_sublist _).length_le

theorem leading_replicate_append (n : ℕ) {xs : List α} (h : xs.head? ≠ some z) :
    leading z (List.replicate n z ++ xs) = n := by
  have hrest : xs.takeWhile (· = z) = [] := by
    cases xs with
    | nil => rfl
    | cons x xs =>
      have hx : x ≠ z := fun hxz => h (congrArg some hxz)
      rw [List.takeWhile_cons, if_neg (by simpa using hx)]
  rw [leading, List.takeWhile_append_of_pos (by simp), hrest, List.append_nil,
    List.length_replicate]

/-- What stands in front and the rest. -/
theorem exists_leading (xs : List α) :
    ∃ rest, xs = List.replicate (leading z xs) z ++ rest ∧ rest.head? ≠ some z := by
  refine ⟨xs.dropWhile (· = z), ?_, ?_⟩
  · have hall := List.all_takeWhile (p := fun x : α => decide (x = z)) (l := xs)
    have htake : xs.takeWhile (· = z) = List.replicate (leading z xs) z := by
      refine List.eq_replicate_iff.mpr ⟨rfl, fun x hx => ?_⟩
      simpa using List.all_eq_true.mp hall x hx
    rw [← htake, List.takeWhile_append_dropWhile]
  · intro hhead
    have := List.head?_dropWhile_not (fun x : α => decide (x = z)) xs
    rw [hhead] at this
    simp at this

end Leading

theorem leNat_reverse_zeros (n : ℕ) (rest : List UInt8) :
    leNat (List.replicate n 0 ++ rest).reverse = leNat rest.reverse := by
  rw [List.reverse_append, List.reverse_replicate, leNat_append, leNat_replicate_zero,
    Nat.mul_zero, Nat.add_zero]

/-- Leading zeros leave fewer bytes for the number. -/
theorem leNat_reverse_lt (bs : List UInt8) :
    leNat bs.reverse < 256 ^ (bs.length - leading 0 bs) := by
  obtain ⟨rest, hsplit, -⟩ := exists_leading 0 bs
  have hlen : bs.length - leading 0 bs = rest.reverse.length := by
    have h := congrArg List.length hsplit
    rw [List.length_append, List.length_replicate] at h
    rw [List.length_reverse]
    omega
  have hnum : leNat bs.reverse = leNat rest.reverse :=
    (congrArg (leNat ·.reverse) hsplit).trans (leNat_reverse_zeros _ rest)
  rw [hnum, hlen]
  exact leNat_lt rest.reverse

theorem value_digitsOf (b : ℕ) (bs : List UInt8) :
    value b (digitsOf b bs) = leNat bs.reverse := by
  rw [value, digitsOf, List.reverse_append, List.reverse_reverse, List.reverse_replicate,
    Nat.ofDigits_append_replicate_zero, Nat.ofDigits_digits]

/-- The leading digit of a number is not zero. -/
theorem head?_reverse_digits (b n : ℕ) : (Nat.digits b n).reverse.head? ≠ some 0 := by
  rw [List.head?_reverse]
  intro h
  have hne : n ≠ 0 := by
    rintro rfl
    rw [Nat.digits_zero] at h
    cases h
  rw [List.getLast?_eq_some_getLast (Nat.digits_ne_nil_iff_ne_zero.mpr hne), Option.some_inj] at h
  exact Nat.getLast_digit_ne_zero b hne h

/-- **What is written is read back.** -/
theorem bytesOf_digitsOf (b : ℕ) (bs : List UInt8) :
    bytesOf b (digitsOf b bs) = bs := by
  obtain ⟨rest, hsplit, hhead⟩ := exists_leading 0 bs
  have hnum : leNat bs.reverse = leNat rest.reverse :=
    (congrArg (leNat ·.reverse) hsplit).trans (leNat_reverse_zeros _ rest)
  -- the rest starts with a nonzero byte, so it is the shortest image
  have hmin : rest.reverse = minBytes (leNat bs.reverse) := by
    cases rest with
    | nil => rw [hnum, List.reverse_nil, leNat_nil, minBytes_zero]
    | cons x rest =>
      have hx : x ≠ 0 := fun h0 => hhead (congrArg some h0)
      rw [List.reverse_cons] at hnum ⊢
      exact append_eq_minBytes hx hnum.symm
  rw [bytesOf, value_digitsOf b, ← hmin, List.reverse_reverse, digitsOf,
    leading_replicate_append 0 _ (head?_reverse_digits b _), ← hsplit]

end BaseCodec
