/-
The input file stream of the standard library, as far as block files need it.

A read that finds too few bytes gives what there is and sets both state bits; a
stream that is not good reads nothing.  `seekg` clears the end-of-file bit but
not the fail bit, and does nothing on a failed stream.
-/
import Mathlib.Tactic

/-- An open file: its contents, the position and the state bits. -/
structure IfStream where
  data : List UInt8
  pos : ℕ
  eof : Bool
  fail : Bool
  deriving DecidableEq

namespace IfStream

/-- `open`; `none` is a file that cannot be opened. -/
def openFile : Option (List UInt8) → IfStream
  | some data => ⟨data, 0, false, false⟩
  | none => ⟨[], 0, false, true⟩

def Good (s : IfStream) : Prop := s.eof = false ∧ s.fail = false

instance (s : IfStream) : Decidable s.Good := inferInstanceAs (Decidable (_ ∧ _))

/-- `peek`; `none` is `EOF`. -/
def peek (s : IfStream) : Option UInt8 × IfStream :=
  if s.Good then
    match s.data[s.pos]? with
    | some b => (some b, s)
    | none => (none, { s with eof := true })
  else (none, { s with fail := true })

/-- `read` of `n` bytes. -/
def read (s : IfStream) (n : ℕ) : List UInt8 × IfStream :=
  if s.Good then
    let got := (s.data.drop s.pos).take n
    if got.length < n then
      (got, { s with pos := s.pos + got.length, eof := true, fail := true })
    else (got, { s with pos := s.pos + n })
  else ([], { s with fail := true })

/-- `seekg(off, ios::beg)` -/
def seekg (s : IfStream) (off : ℤ) : IfStream :=
  if s.fail then { s with eof := false }
  else if off < 0 then { s with eof := false, fail := true }
  else { s with pos := off.toNat, eof := false }

@[simp] theorem data_read (s : IfStream) (n : ℕ) : (s.read n).2.data = s.data := by
  unfold read
  dsimp only
  split
  · split
    · rfl
    · rfl
  · rfl

@[simp] theorem data_seekg (s : IfStream) (off : ℤ) : (s.seekg off).data = s.data := by
  unfold seekg
  split
  · rfl
  · split
    · rfl
    · rfl

theorem peek_eq_some {s s' : IfStream} {b : UInt8} :
    s.peek = (some b, s') ↔ s.Good ∧ s.data[s.pos]? = some b ∧ s' = s := by
  unfold peek
  by_cases hgood : s.Good
  · rw [if_pos hgood]
    cases hb : s.data[s.pos]? with
    | none => simp
    | some c => simp [hgood, eq_comm]
  · rw [if_neg hgood]
    simp [hgood]

theorem seekg_of_nonneg {s : IfStream} (hfail : s.fail = false) {off : ℤ} (h : 0 ≤ off) :
    s.seekg off = { s with pos := off.toNat, eof := false } := by
  rw [seekg, hfail, if_neg Bool.false_ne_true, if_neg (not_lt.mpr h)]

theorem read_of_le {s : IfStream} (hgood : s.Good) {n : ℕ} (h : s.pos + n ≤ s.data.length) :
    s.read n = ((s.data.drop s.pos).take n, { s with pos := s.pos + n }) := by
  have hlen : ¬ ((s.data.drop s.pos).take n).length < n := by
    rw [List.length_take, List.length_drop]
    omega
  rw [read, if_pos hgood, if_neg hlen]

/-- A stream that is good after `seekg` stands where a fresh one would. -/
theorem seekg_of_good {s : IfStream} {off : ℤ} (h : (s.seekg off).Good) :
    s.seekg off = (openFile (some s.data)).seekg off ∧ 0 ≤ off := by
  unfold seekg at h ⊢
  by_cases hfail : s.fail
  · rw [if_pos hfail] at h
    have hgood : s.fail = false := h.2
    rw [hfail] at hgood
    cases hgood
  · rw [if_neg hfail] at h ⊢
    by_cases hoff : off < 0
    · rw [if_pos hoff] at h
      cases h.2
    · rw [if_neg hoff]
      refine ⟨?_, not_lt.mp hoff⟩
      show _ = if off < 0 then _ else _
      rw [if_neg hoff, Bool.not_eq_true _ |>.mp hfail]
      rfl

/-! ### Failed streams -/

theorem fail_seekg {s : IfStream} (h : s.fail = true) (off : ℤ) : (s.seekg off).fail = true := by
  rw [seekg, if_pos h]
  exact h

theorem fail_read {s : IfStream} (h : s.fail = true) (n : ℕ) : (s.read n).2.fail = true := by
  have hbad : ¬ s.Good := fun hgood => Bool.false_ne_true (hgood.2.symm.trans h)
  rw [read, if_neg hbad]

/-- A short read leaves the stream failed. -/
theorem fail_of_short {s : IfStream} {n : ℕ} (h : (s.read n).1.length < n) :
    (s.read n).2.fail = true := by
  unfold read at h ⊢
  dsimp only at h ⊢
  by_cases hgood : s.Good
  · rw [if_pos hgood] at h ⊢
    by_cases hlen : ((s.data.drop s.pos).take n).length < n
    · rw [if_pos hlen]
    · rw [if_neg hlen] at h
      exact absurd h hlen
  · rw [if_neg hgood]

/-- A read that does not leave the stream failed has found all its bytes. -/
theorem read_of_not_fail {s : IfStream} {n : ℕ} (h : (s.read n).2.fail = false) :
    s.Good ∧ n ≤ s.data.length - s.pos := by
  have hgood : s.Good := by
    by_contra hbad
    rw [read, if_neg hbad] at h
    cases h
  refine ⟨hgood, ?_⟩
  by_contra hlt
  have hshort : ((s.data.drop s.pos).take n).length < n := by
    rw [List.length_take, List.length_drop]
    omega
  rw [read, if_pos hgood, if_pos hshort] at h
  cases h

theorem peek_of_fail {s : IfStream} (h : s.fail = true) : s.peek.1 = none := by
  have hbad : ¬ s.Good := fun hgood => Bool.false_ne_true (hgood.2.symm.trans h)
  rw [peek, if_neg hbad]

end IfStream
