/-
`readVarLen` and the forms of a count.

A count stands in a block as one byte below `0xfd`, or as one of the prefixes
`0xfd`, `0xfe` and `0xff` with two, four or eight bytes behind it.  The first
three forms are read for every value they can carry.  At the prefix `0xff`
nothing more is read (`readVarLen_eq_iff`).
-/
import BitcoinAnalysis.Readers

open Cursor LittleEndian Run

namespace BitcoinAnalysis

/-! ### Forms -/

inductive CompactForm where
  | byte
  | word
  | dword
  | qword
  deriving DecidableEq

/-- The values a form can carry. -/
def CompactForm.Carries : CompactForm → ℕ → Prop
  | .byte, v => v < 0xfd
  | .word, v => v < 2 ^ 16
  | .dword, v => v < 2 ^ 32
  | .qword, v => v < 2 ^ 64

instance CompactForm.decidableCarries (form : CompactForm) (v : ℕ) : Decidable (form.Carries v) :=
  match form with
  | .byte => inferInstanceAs (Decidable (v < 0xfd))
  | .word => inferInstanceAs (Decidable (v < 2 ^ 16))
  | .dword => inferInstanceAs (Decidable (v < 2 ^ 32))
  | .qword => inferInstanceAs (Decidable (v < 2 ^ 64))

def CompactForm.bytes : CompactForm → ℕ → List UInt8
  | .byte, v => [UInt8.ofNat v]
  | .word, v => 0xfd :: leBytes 2 v
  | .dword, v => 0xfe :: leBytes 4 v
  | .qword, v => 0xff :: leBytes 8 v

def CompactForm.length : CompactForm → ℕ
  | .byte => 1
  | .word => 3
  | .dword => 5
  | .qword => 9

theorem CompactForm.length_bytes (form : CompactForm) (v : ℕ) :
    (form.bytes v).length = form.length := by
  cases form with
  | byte => rfl
  | word => rw [bytes, List.length_cons, length_leBytes, length]
  | dword => rw [bytes, List.length_cons, length_leBytes, length]
  | qword => rw [bytes, List.length_cons, length_leBytes, length]

/-! ### Reading a form -/

/-- All forms but the one of nine bytes are read as their value. -/
theorem CompactForm.varLen {form : CompactForm} {n : ℕ} (h : form.Carries n) (hne : form ≠ .qword) :
    VarLen n (form.bytes n) := by
  cases form with
  | byte => exact .byte h
  | word => exact .word h
  | dword => exact .dword h
  | qword => exact absurd rfl hne

variable {transSec : Buffer} {pos : ℕ}

/-- **Reading a form.**  Whatever follows in memory, a value is read and the
cursor moved behind its form, unless the form is the one of nine bytes. -/
theorem readVarLen_eq_iff {form : CompactForm} {v : UInt32} (hv : form.Carries v.toNat)
    (hhas : transSec.Has pos (form.bytes v.toNat)) (hint : pos + form.length < 2 ^ 31) :
    readVarLen transSec pos = .ok (v, pos + form.length) ↔ form ≠ .qword := by
  have hlen := form.length_bytes v.toNat
  constructor
  · rintro h rfl
    -- the cursor is left behind the prefix
    have hfirst : transSec.Has pos [0xff] := Buffer.has_singleton.mpr (Buffer.has_cons.mp hhas).1
    have hread := reads_readVarLen .marker pos ⟨hfirst, fun _ => ?_⟩
    · rw [hread] at h
      have hpos : pos + 1 = pos + 9 := congrArg Prod.snd (Except.ok.inj h)
      omega
    · show pos + 1 ≤ 2 ^ 31
      omega
  · intro hne
    have hread := reads_readVarLen (CompactForm.varLen hv hne) pos ⟨hhas, fun _ => ?_⟩
    · rw [hread, UInt32.ofNat_toNat, hlen]
    · rw [hlen]
      omega

theorem readVarLen_dword :
    readVarLen ⟨6, [0xfe, 0xfc, 0, 0, 0, 7], fun _ => 0, fun _ => none⟩ 0 = .ok (0xfc, 5) :=
  (@readVarLen_eq_iff _ _ .dword 0xfc (by decide) (by decide) (by decide)).mpr (by decide)

theorem readVarLen_qword :
    CompactForm.qword.Carries 1 ∧
    Buffer.Has ⟨9, [0xff, 1, 0, 0, 0, 0, 0, 0, 0], fun _ => 0, fun _ => none⟩ 0
      (CompactForm.qword.bytes 1) ∧
    readVarLen ⟨9, [0xff, 1, 0, 0, 0, 0, 0, 0, 0], fun _ => 0, fun _ => none⟩ 0 = .ok (0, 1) ∧
    readVarLen ⟨9, [0xff, 1, 0, 0, 0, 0, 0, 0, 0], fun _ => 0, fun _ => none⟩ 0
      ≠ .ok (1, 0 + CompactForm.qword.length) :=
  ⟨by decide, by decide, rfl, by decide⟩

end BitcoinAnalysis
