/-
What the readers of `block.h` read.

`Buffer.Has` says which bytes stand at an offset from `transSec`.  Where bytes stand
that spell a number or a count, the readers give it (`reads_readU32`,
`reads_readVarLen`).  In memory of which nothing outside can be read (`Sealed`) the
converse holds as well: what they give is spelled by the bytes the cursor has moved
over (`accepts_readU32`, `accepts_readVarLen`).

A count is spelled by one byte below `0xfd`, by `0xfd` with two bytes or `0xfe` with
four, shorter or not, and `0` by the lone prefix `0xff` (`VarLen`).
-/
import BitcoinAnalysis.BlockParser

open Cursor LittleEndian Run

namespace BitcoinAnalysis

variable {b : Buffer} {offset : ℤ} {pos n : ℕ} {bs cs : List UInt8} {x : UInt8}

/-! ### Memory -/

/-- The bytes `bs` stand at `transSec + offset`. -/
def Buffer.Has (b : Buffer) (offset : ℤ) (bs : List UInt8) : Prop :=
  ∀ i < bs.length, b.cell (offset + i) = bs[i]?

instance Buffer.decidableHas (b : Buffer) (offset : ℤ) (bs : List UInt8) :
    Decidable (b.Has offset bs) :=
  inferInstanceAs (Decidable (∀ i < bs.length, _))

theorem Buffer.has_nil (b : Buffer) (offset : ℤ) : b.Has offset [] := fun _ hi => nomatch hi

theorem Buffer.has_append :
    b.Has offset (bs ++ cs) ↔ b.Has offset bs ∧ b.Has (offset + bs.length) cs := by
  constructor
  · intro h
    constructor
    · intro i hi
      rw [h i (by rw [List.length_append]; omega), List.getElem?_append_left hi]
    · intro i hi
      have hcell := h (bs.length + i) (by rw [List.length_append]; omega)
      rw [List.getElem?_append_right (Nat.le_add_right _ _), Nat.add_sub_cancel_left] at hcell
      rw [← hcell, Nat.cast_add, add_assoc]
  · rintro ⟨hbs, hcs⟩ i hi
    by_cases hin : i < bs.length
    · rw [hbs i hin, List.getElem?_append_left hin]
    · obtain ⟨j, rfl⟩ := Nat.exists_eq_add_of_le (not_lt.mp hin)
      rw [List.length_append] at hi
      rw [List.getElem?_append_right (Nat.le_add_right _ _), Nat.add_sub_cancel_left,
        ← hcs j (by omega), Nat.cast_add, add_assoc]

theorem Buffer.has_singleton : b.Has offset [x] ↔ b.cell offset = some x := by
  constructor
  · intro h
    have hcell := h 0 Nat.zero_lt_one
    rwa [Nat.cast_zero, add_zero] at hcell
  · intro h i hi
    obtain rfl : i = 0 := Nat.lt_one_iff.mp hi
    rw [Nat.cast_zero, add_zero, h]
    rfl

theorem Buffer.has_cons :
    b.Has offset (x :: bs) ↔ b.cell offset = some x ∧ b.Has (offset + 1) bs := by
  rw [← List.singleton_append, has_append, has_singleton]
  rfl

/-- A copy succeeds with the bytes that stand there. -/
theorem Buffer.read_eq_ok {v : Bytes n} : b.read offset n = .ok v ↔ b.Has offset v.1 := by
  induction n generalizing offset with
  | zero =>
    obtain ⟨v, hv⟩ := v
    obtain rfl := List.length_eq_zero_iff.mp hv
    exact iff_of_true rfl (b.has_nil offset)
  | succ n ih =>
    obtain ⟨_ | ⟨x, xs⟩, hv⟩ := v
    · cases hv
    have hxs : xs.length = n := Nat.succ.inj hv
    rw [has_cons, Buffer.read]
    cases hcell : b.cell offset with
    | none => simp
    | some y =>
      constructor
      · intro h
        obtain ⟨ys, hys, h⟩ := bind_eq_ok.mp h
        obtain ⟨rfl, rfl⟩ := List.cons.inj (congrArg Subtype.val (Except.ok.inj h))
        exact ⟨rfl, ih.mp hys⟩
      · rintro ⟨hx, hhas⟩
        cases hx
        exact bind_eq_ok.mpr ⟨⟨xs, hxs⟩, ih.mpr hhas, rfl⟩

/-- An `int` in front of `2^31` is what it stands for. -/
theorem toInt_ofNat (h : pos < 2 ^ 31) : (Int32.ofNat pos).toInt = pos :=
  Int32.toInt_ofNat_of_lt h

theorem readBytes_eq {v : Bytes n} (h : b.Has pos v.1) (hpos : n ≠ 0 → pos < 2 ^ 31) :
    readBytes b n pos = .ok (v, pos + n) := by
  by_cases hn : n = 0
  · subst hn
    obtain ⟨v, hv⟩ := v
    obtain rfl := List.length_eq_zero_iff.mp hv
    rfl
  · rw [readBytes, toInt_ofNat (hpos hn), Buffer.read_eq_ok.mpr h, ok_bind]

/-- What stands at the front of the memory is the front of what was read into it. -/
theorem Buffer.has_zero_iff (hle : b.filled.length ≤ b.size) (hlen : bs.length ≤ b.filled.length) :
    b.Has 0 bs ↔ bs <+: b.filled := by
  have hcell : ∀ i < bs.length, b.cell (0 + i) = b.filled[i]? := by
    intro i hi
    have hlt : i < b.filled.length := by omega
    rw [zero_add, Buffer.cell, if_pos (by omega), Int.toNat_natCast, List.getElem?_eq_getElem hlt]
    rfl
  rw [List.prefix_iff_getElem?]
  constructor
  · intro h i hi
    rw [← hcell i hi, h i hi, List.getElem?_eq_getElem hi]
  · intro h i hi
    rw [hcell i hi, h i hi, List.getElem?_eq_getElem hi]

/-- The bytes of the memory. -/
def Buffer.bytes (b : Buffer) : Source UInt8 where
  At pos bs := b.Has pos bs
  nil pos := b.has_nil pos
  append := Buffer.has_append

/-- The bytes the cursor gets to: they end at `2^31` at the latest. -/
def Buffer.reachable (b : Buffer) : Source UInt8 where
  At pos bs := b.Has pos bs ∧ (bs ≠ [] → pos + bs.length ≤ 2 ^ 31)
  nil pos := ⟨b.has_nil pos, fun h => absurd rfl h⟩
  append := by
    intro pos bs cs
    rw [Buffer.has_append, List.length_append]
    constructor
    · rintro ⟨⟨hbs, hcs⟩, hend⟩
      refine ⟨⟨hbs, fun hne => ?_⟩, hcs, fun hne => ?_⟩
      · have := hend (List.append_ne_nil_of_left_ne_nil hne cs)
        omega
      · have := hend (List.append_ne_nil_of_right_ne_nil bs hne)
        omega
    · rintro ⟨⟨hbs, hend⟩, hcs, hend'⟩
      refine ⟨⟨hbs, hcs⟩, fun hne => ?_⟩
      cases cs with
      | nil =>
        rw [List.append_nil] at hne
        exact hend hne
      | cons c cs =>
        have := hend' (List.cons_ne_nil c cs)
        omega

/-! ### Numbers -/

theorem reads_readBytes (v : Bytes n) : Reads b.reachable (readBytes b n) v.1 v := by
  rintro pos ⟨hhas, hend⟩
  rw [readBytes_eq hhas, v.2]
  intro hn
  have hne : v.1 ≠ [] := fun h => hn (by rw [← v.2, h, List.length_nil])
  have := hend hne
  have := v.2
  omega

/-- A number of `w` bytes, made of the value `leNat` of its bytes. -/
theorem reads_leNat {α : Type} {w m : ℕ} (f : ℕ → α) (hm : m < 256 ^ w) :
    Reads b.reachable (readBytes b w >>= fun ret => pure (f (leNat ret.1))) (leBytes w m)
      (f m) := by
  have hbytes : Reads b.reachable (readBytes b w) (leBytes w m) ⟨leBytes w m, length_leBytes w m⟩ :=
    reads_readBytes ⟨leBytes w m, length_leBytes w m⟩
  have h := hbytes.bind_pure (f := fun ret : Bytes w => f (leNat ret.1))
  rwa [leNat_leBytes_of_lt hm] at h

theorem reads_readU8 (x : UInt8) : Reads b.reachable (readU8 b) [x] x := by
  have h : Reads b.reachable (readU8 b) (leBytes 1 x.toNat) (UInt8.ofNat x.toNat) :=
    reads_leNat UInt8.ofNat x.toNat_lt
  rwa [leBytes, leBytes, UInt8.ofNat_toNat] at h

theorem reads_readU16 {m : ℕ} (hm : m < 2 ^ 16) :
    Reads b.reachable (readU16 b) (leBytes 2 m) (UInt16.ofNat m) :=
  reads_leNat UInt16.ofNat hm

theorem reads_readU32 (x : UInt32) : Reads b.reachable (readU32 b) (leBytes 4 x.toNat) x := by
  have h : Reads b.reachable (readU32 b) (leBytes 4 x.toNat) (UInt32.ofNat x.toNat) :=
    reads_leNat UInt32.ofNat x.toNat_lt
  rwa [UInt32.ofNat_toNat] at h

theorem reads_readU64 (x : UInt64) : Reads b.reachable (readU64 b) (leBytes 8 x.toNat) x := by
  have h : Reads b.reachable (readU64 b) (leBytes 8 x.toNat) (UInt64.ofNat x.toNat) :=
    reads_leNat UInt64.ofNat x.toNat_lt
  rwa [UInt64.ofNat_toNat] at h

/-- The last number that is read may end behind `2^31`. -/
theorem readU32_eq {x : UInt32} (h : b.Has pos (leBytes 4 x.toNat)) (hpos : pos < 2 ^ 31) :
    readU32 b pos = .ok (x, pos + 4) := by
  have hbytes : readBytes b 4 pos = .ok (⟨leBytes 4 x.toNat, length_leBytes 4 _⟩, pos + 4) :=
    readBytes_eq h fun _ => hpos
  show (readBytes b 4 pos >>= fun r => Except.ok (UInt32.ofNat (leNat r.1.1), r.2)) = _
  rw [hbytes, ok_bind, leNat_leBytes_of_lt x.toNat_lt, UInt32.ofNat_toNat]

/-! ### Counts -/

/-- The bytes that are read as a count. -/
inductive VarLen : ℕ → List UInt8 → Prop
  | byte {n : ℕ} : n < 0xfd → VarLen n [UInt8.ofNat n]
  | word {n : ℕ} : n < 2 ^ 16 → VarLen n (0xfd :: leBytes 2 n)
  | dword {n : ℕ} : n < 2 ^ 32 → VarLen n (0xfe :: leBytes 4 n)
  | marker : VarLen 0 [0xff]

theorem VarLen.lt (h : VarLen n bs) : n < 2 ^ 32 := by
  cases h with
  | byte h => omega
  | word h => omega
  | dword h => exact h
  | marker => decide

theorem VarLen.toNat_ofNat (h : VarLen n bs) : (UInt32.ofNat n).toNat = n :=
  UInt32.toNat_ofNat_of_lt' h.lt

/-- What is left to read of a count behind its first byte. -/
def readVarLenRest (transSec : Buffer) (v : UInt8) : Reader Fault UInt32 :=
  if v < 0xfd then pure v.toUInt32
  else if v = 0xfd then do
    let v ← readU16 transSec
    pure v.toUInt32
  else if v = 0xfe then readU32 transSec
  else pure 0

theorem readVarLen_eq (transSec : Buffer) :
    readVarLen transSec = readU8 transSec >>= readVarLenRest transSec := rfl

theorem reads_readVarLen (h : VarLen n bs) : Reads b.reachable (readVarLen b) bs (.ofNat n) := by
  rw [readVarLen_eq]
  cases h with
  | byte hn =>
    have hbyte : (UInt8.ofNat n).toNat = n := UInt8.toNat_ofNat_of_lt' (Nat.lt_trans hn (by decide))
    have hlt : UInt8.ofNat n < 0xfd := UInt8.lt_iff_toNat_lt.mpr (by rw [hbyte]; exact hn)
    have hval : (UInt8.ofNat n).toUInt32 = UInt32.ofNat n := by
      apply UInt32.toNat.inj
      rw [UInt8.toNat_toUInt32, hbyte, (VarLen.byte hn).toNat_ofNat]
    show Reads _ _ ([UInt8.ofNat n] ++ []) _
    refine (reads_readU8 _).bind ?_
    rw [readVarLenRest, if_pos hlt, hval]
    exact Reads.pure _
  | word hn =>
    have hval : (UInt16.ofNat n).toUInt32 = UInt32.ofNat n := by
      apply UInt32.toNat.inj
      rw [UInt16.toNat_toUInt32, UInt16.toNat_ofNat_of_lt' hn, (VarLen.word hn).toNat_ofNat]
    show Reads _ _ ([0xfd] ++ leBytes 2 n) _
    refine (reads_readU8 _).bind ?_
    rw [readVarLenRest, if_neg (by decide), if_pos rfl, ← hval]
    exact (reads_readU16 hn).bind_pure
  | dword hn =>
    have hu32 := reads_readU32 (b := b) (UInt32.ofNat n)
    rw [UInt32.toNat_ofNat_of_lt' hn] at hu32
    show Reads _ _ ([0xfe] ++ leBytes 4 n) _
    refine (reads_readU8 _).bind ?_
    rw [readVarLenRest, if_neg (by decide), if_neg (by decide), if_pos rfl]
    exact hu32
  | marker =>
    show Reads _ _ ([(0xff : UInt8)] ++ []) _
    exact (reads_readU8 _).bind (Reads.pure _)

/-! ### What is accepted -/

/-- Memory of which nothing outside can be read. -/
structure Buffer.Sealed (b : Buffer) : Prop where
  short : b.size < 2 ^ 32
  outside : ∀ i, b.outside i = none

theorem Buffer.Sealed.of_cell (h : b.Sealed) (hcell : b.cell offset = some x) :
    0 ≤ offset ∧ offset < b.size := by
  rw [Buffer.cell] at hcell
  split at hcell
  · assumption
  · rw [h.outside] at hcell
    cases hcell

/-- Behind `2^31` the cursor is negative, and there is nothing to read. -/
theorem Buffer.Sealed.of_has (h : b.Sealed) (hpos : pos ≤ b.size) (hne : bs ≠ [])
    (hhas : b.Has (Int32.ofNat pos).toInt bs) : pos < 2 ^ 31 ∧ pos + bs.length ≤ b.size := by
  have hlen := List.length_pos_iff.mpr hne
  have hfirst := hhas 0 hlen
  rw [List.getElem?_eq_getElem hlen] at hfirst
  obtain ⟨hle, -⟩ := h.of_cell hfirst
  have hshort := h.short
  have hint : (Int32.ofNat pos).toInt = Int.bmod pos (2 ^ 32) := Int32.toInt_ofNat'
  have hlt : pos < 2 ^ 31 := by
    rw [hint] at hle
    simp only [Int.bmod] at hle
    omega
  have hlast := hhas (bs.length - 1) (by omega)
  rw [List.getElem?_eq_getElem (by omega)] at hlast
  obtain ⟨-, hend⟩ := h.of_cell hlast
  rw [toInt_ofNat hlt] at hend
  exact ⟨hlt, by omega⟩

variable (hb : b.Sealed)

include hb

theorem accepts_readBytes (n : ℕ) :
    Accepts b.bytes b.size (readBytes b n) fun v bs => bs = v.1 := by
  intro pos v p hpos h
  obtain ⟨v, hv, h⟩ := bind_eq_ok.mp h
  cases h
  rw [Buffer.read_eq_ok] at hv
  by_cases hne : v.1 = []
  · have hn : n = 0 := by rw [← v.2, hne, List.length_nil]
    subst hn
    exact ⟨hpos, [], b.has_nil pos, rfl, hne.symm⟩
  · obtain ⟨hlt, hend⟩ := hb.of_has hpos hne hv
    rw [toInt_ofNat hlt] at hv
    rw [v.2] at hend
    exact ⟨hend, v.1, hv, by rw [v.2], rfl⟩

theorem accepts_leNat {α : Type} (f : ℕ → α) (w : ℕ) :
    Accepts b.bytes b.size (readBytes b w >>= fun ret => pure (f (leNat ret.1))) fun v bs =>
      ∃ m < 256 ^ w, bs = leBytes w m ∧ v = f m := by
  refine (accepts_readBytes hb w).bind_pure.mono ?_
  rintro v bs ⟨ret, rfl, rfl⟩
  refine ⟨leNat ret.1, ?_, (leBytes_leNat ret.2).symm, rfl⟩
  have := leNat_lt ret.1
  rwa [ret.2] at this

theorem accepts_readU8 : Accepts b.bytes b.size (readU8 b) fun x bs => bs = [x] := by
  refine (accepts_leNat hb UInt8.ofNat 1).mono ?_
  rintro x bs ⟨m, -, rfl, rfl⟩
  rfl

theorem accepts_readU16 :
    Accepts b.bytes b.size (readU16 b) fun x bs => bs = leBytes 2 x.toNat := by
  refine (accepts_leNat hb UInt16.ofNat 2).mono ?_
  rintro x bs ⟨m, hm, rfl, rfl⟩
  rw [UInt16.toNat_ofNat_of_lt' hm]

theorem accepts_readU32 :
    Accepts b.bytes b.size (readU32 b) fun x bs => bs = leBytes 4 x.toNat := by
  refine (accepts_leNat hb UInt32.ofNat 4).mono ?_
  rintro x bs ⟨m, hm, rfl, rfl⟩
  rw [UInt32.toNat_ofNat_of_lt' hm]

theorem accepts_readU64 :
    Accepts b.bytes b.size (readU64 b) fun x bs => bs = leBytes 8 x.toNat := by
  refine (accepts_leNat hb UInt64.ofNat 8).mono ?_
  rintro x bs ⟨m, hm, rfl, rfl⟩
  rw [UInt64.toNat_ofNat_of_lt' hm]

theorem accepts_readVarLenRest (v : UInt8) :
    Accepts b.bytes b.size (readVarLenRest b v) fun x bs => VarLen x.toNat (v :: bs) := by
  unfold readVarLenRest
  split
  · rename_i hlt
    refine (Accepts.pure _).mono ?_
    rintro x bs ⟨rfl, rfl⟩
    have h : VarLen v.toNat [UInt8.ofNat v.toNat] := .byte (UInt8.lt_iff_toNat_lt.mp hlt)
    rwa [UInt8.ofNat_toNat, ← UInt8.toNat_toUInt32] at h
  split
  · rename_i hv
    refine (accepts_readU16 hb).bind_pure.mono ?_
    rintro x bs ⟨u, rfl, rfl⟩
    rw [UInt16.toNat_toUInt32, hv]
    exact .word u.toNat_lt
  split
  · rename_i hv
    refine (accepts_readU32 hb).mono ?_
    rintro x bs rfl
    rw [hv]
    exact .dword x.toNat_lt
  · rename_i h8 h16 h32
    refine (Accepts.pure _).mono ?_
    rintro x bs ⟨rfl, rfl⟩
    have hv : v = 0xff := by
      apply UInt8.toNat.inj
      rw [UInt8.lt_iff_toNat_lt] at h8
      rw [← UInt8.toNat_inj] at h16 h32
      have := v.toNat_lt
      simp at *
      omega
    rw [hv]
    exact .marker

theorem accepts_readVarLen :
    Accepts b.bytes b.size (readVarLen b) fun x bs => VarLen x.toNat bs := by
  rw [readVarLen_eq]
  refine ((accepts_readU8 hb).bind (accepts_readVarLenRest hb)).mono ?_
  rintro x bs ⟨v, bs₁, bs₂, rfl, hform, rfl⟩
  exact hform

end BitcoinAnalysis
