/-
Decimal numbers in text.

`showInt` is what a stream writes for an integer, `extract` what it reads: it
skips white space, takes a sign and the longest run of digits, and leaves the
rest.  `extract_showInt` says that reading gives back what was written, if what
follows does not start with a digit.
-/
import Mathlib.Tactic

namespace DecimalText

def showInt : ℤ → List Char
  | .ofNat n => Nat.toDigits 10 n
  | .negSucc n => '-' :: Nat.toDigits 10 (n + 1)

/-- `isspace` -/
def isSpace (c : Char) : Bool := c == ' ' || (9 ≤ c.toNat && c.toNat ≤ 13)

def extractDigits (text : List Char) : Option (ℕ × List Char) :=
  if text.takeWhile Char.isDigit = [] then none
  else some (Nat.ofDigitChars 10 (text.takeWhile Char.isDigit) 0, text.dropWhile Char.isDigit)

/-- Read an integer; fails if there is no digit. -/
def extract (text : List Char) : Option (ℤ × List Char) :=
  match text.dropWhile isSpace with
  | '-' :: t => (extractDigits t).map fun p => (-(p.1 : ℤ), p.2)
  | '+' :: t => (extractDigits t).map fun p => ((p.1 : ℤ), p.2)
  | t => (extractDigits t).map fun p => ((p.1 : ℤ), p.2)

/-- The text does not start with a digit. -/
def Delimited (text : List Char) : Prop := ∀ c ∈ text.head?, c.isDigit = false

theorem delimited_cons {c : Char} (h : c.isDigit = false) (text : List Char) :
    Delimited (c :: text) := by
  intro c' hc'
  cases hc'
  exact h

theorem takeWhile_digits {ds rest : List Char} (hds : ∀ c ∈ ds, c.isDigit = true)
    (hrest : Delimited rest) :
    (ds ++ rest).takeWhile Char.isDigit = ds ∧ (ds ++ rest).dropWhile Char.isDigit = rest := by
  have hstop : rest.takeWhile Char.isDigit = [] ∧ rest.dropWhile Char.isDigit = rest := by
    cases rest with
    | nil => exact ⟨rfl, rfl⟩
    | cons c cs =>
      have hc := hrest c rfl
      exact ⟨List.takeWhile_cons_of_neg (by simp [hc]), List.dropWhile_cons_of_neg (by simp [hc])⟩
  rw [List.takeWhile_append_of_pos hds, List.dropWhile_append_of_pos hds, hstop.1, hstop.2,
    List.append_nil]
  exact ⟨rfl, rfl⟩

theorem extractDigits_toDigits (n : ℕ) {rest : List Char} (hrest : Delimited rest) :
    extractDigits (Nat.toDigits 10 n ++ rest) = some (n, rest) := by
  have hds : ∀ c ∈ Nat.toDigits 10 n, c.isDigit = true := fun c hc =>
    Nat.isDigit_of_mem_toDigits (by decide) (by decide) hc
  obtain ⟨htake, hdrop⟩ := takeWhile_digits hds hrest
  rw [extractDigits, htake, hdrop, if_neg Nat.toDigits_ne_nil, Nat.ofDigitChars_ten_toDigits]

theorem extract_space {c : Char} (h : isSpace c = true) (text : List Char) :
    extract (c :: text) = extract text := by
  rw [extract, extract, List.dropWhile_cons_of_pos h]

theorem not_isSpace_of_isDigit {c : Char} (h : c.isDigit = true) : isSpace c = false := by
  have hc : 48 ≤ c.toNat := by
    have h' := h
    simp only [Char.isDigit, Bool.and_eq_true, decide_eq_true_eq] at h'
    exact UInt32.le_iff_toNat_le.mp h'.1
  have hne : c ≠ ' ' := by
    rintro rfl
    exact absurd h (by decide)
  simp only [isSpace, Bool.or_eq_false_iff, beq_eq_false_iff_ne, Bool.and_eq_false_iff,
    decide_eq_false_iff_not]
  exact ⟨hne, .inr (by omega)⟩

/-- **Reading undoes writing.** -/
theorem extract_showInt (n : ℤ) {rest : List Char} (hrest : Delimited rest) :
    extract (showInt n ++ rest) = some (n, rest) := by
  cases n with
  | negSucc m =>
    have hstay : (('-' :: Nat.toDigits 10 (m + 1)) ++ rest).dropWhile isSpace
        = '-' :: (Nat.toDigits 10 (m + 1) ++ rest) := List.dropWhile_cons_of_neg (by decide)
    rw [showInt, extract, hstay]
    simp only [extractDigits_toDigits (m + 1) hrest, Option.map_some]
    rfl
  | ofNat m =>
    rw [showInt]
    have hdigits := extractDigits_toDigits m hrest
    -- the first character is a digit, hence neither white space nor a sign
    cases htext : Nat.toDigits 10 m with
    | nil => exact absurd htext Nat.toDigits_ne_nil
    | cons c cs =>
      rw [htext] at hdigits
      have hc : c.isDigit = true :=
        Nat.isDigit_of_mem_toDigits (n := m) (b := 10) (by decide) (by decide)
          (htext ▸ List.mem_cons_self)
      have hspace : ¬ isSpace c = true := by
        rw [not_isSpace_of_isDigit hc]
        decide
      have hstay : ((c :: cs) ++ rest).dropWhile isSpace = c :: (cs ++ rest) :=
        List.dropWhile_cons_of_neg hspace
      rw [extract, hstay]
      split
      · rename_i heq
        cases heq
        exact absurd hc (by decide)
      · rename_i heq
        cases heq
        exact absurd hc (by decide)
      · rw [← List.cons_append, hdigits]
        rfl

end DecimalText
