/-
`hash.h`, namespace `BLOCKCHAIN_BASE58`: the class `BigNumber`.

A number is kept as its first `length` bytes, the least significant first.  The
array behind it has 256 bytes; a read of a byte beyond `length` and a write
beyond the array are errors of the model, so that a run that returns has made
none.  The loops over the factors and summands count with a `unit8`, which cannot
pass 255: over a number of 256 bytes they do not end.  The functions that return a
`bool` return `true` in every case, and these results are left out.

Each function is given by what it does to `minBytes`, the image of a number
without leading zeros.
-/
import BitcoinAnalysis.MinBytes
import BitcoinAnalysis.BlockchainRipemd160

open Run LittleEndian

namespace BitcoinAnalysis.BlockchainBase58

open BlockchainRipemd160 (fetch fetch_middle)

/-- The first `length` bytes of `data`. -/
abbrev BigNumber := List UInt8

/-- `MAX_BIG_NUMBER` -/
def maxBigNumber : ℕ := 256

/-- One more byte on top. -/
def pushByte (a : BigNumber) (b : UInt8) : Except Fault BigNumber :=
  if a.length < maxBigNumber then .ok (a ++ [b]) else .error .outOfRange

/-! ### The functions -/

def bigNumberCompareTo58 (a : BigNumber) : Except Fault Ordering :=
  if a.length > 1 then .ok .gt
  else do
    let d ← fetch a 0
    if d > 58 then .ok .gt else if d < 58 then .ok .lt else .ok .eq

/-- `while (overflow && x < a->length) overflow = !++a->data[x++];` -/
def propagate : List UInt8 → Bool → List UInt8 × Bool
  | [], overflow => ([], overflow)
  | a :: as, false => (a :: as, false)
  | a :: as, true =>
    let rest := propagate as (a + 1 == 0)
    ((a + 1) :: rest.1, rest.2)

/-- The loop over the bytes of `b`, and then `propagate`. -/
def addBytes : List UInt8 → List UInt8 → Bool → List UInt8 × Bool
  | as, [], overflow => propagate as overflow
  | [], _, overflow => ([], overflow)
  | a :: as, b :: bs, overflow =>
    let sum := a + (b + overflow.toUInt8)
    let rest := addBytes as bs (decide (sum.toNat < b.toNat + overflow.toNat))
    (sum :: rest.1, rest.2)

def bigNumberEqualsAdditionByBigInt (a b : BigNumber) : Except Fault BigNumber :=
  let a := a ++ List.replicate (b.length - a.length) 0
  if b.length < maxBigNumber then
    let (a, overflow) := addBytes a b false
    if overflow then pushByte a 1 else .ok a
  else .error .outOfFuel

/-- The loop of the long division, from the most significant byte on. -/
def divBytes : UInt16 → List UInt8 → List UInt8
  | _, [] => []
  | temp, a :: as =>
    let temp := (temp <<< 8) ||| a.toUInt16
    let ans := (temp / 58).toUInt8
    ans :: divBytes (temp - ans.toUInt16 * 58) as

def bigNumberEqualsDivisionBy58 (a : BigNumber) : Except Fault BigNumber :=
  if a = [0] then .ok a
  else do
    let ans := (divBytes 0 a.reverse).reverse
    let top ← fetch ans (a.length - 1)
    if top = 0 then .ok (ans.take (a.length - 1)) else .ok ans

/-- The loop of the multiplication, with the carry it leaves. -/
def mulBytes (b : UInt8) : UInt16 → List UInt8 → List UInt8 × UInt16
  | carry, [] => ([], carry)
  | carry, a :: as =>
    let carry := carry + a.toUInt16 * b.toUInt16
    let rest := mulBytes b (carry >>> 8) as
    (carry.toUInt8 :: rest.1, rest.2)

def bigNumberEqualsMultiplicationByUInt8 (a : BigNumber) (b : UInt8) : Except Fault BigNumber :=
  if b = 0 then .ok [0]
  else if a = [0] then .ok a
  else if a.length < maxBigNumber then
    let (a, carry) := mulBytes b 0 a
    if carry ≠ 0 then pushByte a carry.toUInt8 else .ok a
  else .error .outOfFuel

/-- `while (a->length > 1 && !a->data[a->length - 1]) a->length--;`, with the
most significant byte first. -/
def dropZeros : List UInt8 → List UInt8
  | a :: b :: as => if a = 0 then dropZeros (b :: as) else a :: b :: as
  | as => as

def bigNumberNormalise (a : BigNumber) : BigNumber := (dropZeros a.reverse).reverse

/-- The loop of the subtraction and the assignment behind it. -/
def subBytes : UInt8 → List UInt8 → Except Fault (List UInt8)
  | _, [] => .error .outOfRange
  | carry, a :: as =>
    if a < carry then do
      let rest ← subBytes 1 as
      .ok ((255 - carry + a + 1) :: rest)
    else .ok ((a - carry) :: as)

def bigNumberEqualsSubtractionByUInt8 (a : BigNumber) (b : UInt8) : Except Fault BigNumber := do
  let a ← subBytes b a
  .ok (bigNumberNormalise a)

/-- The loop of `BigNumberFromPowUInt8`, of `n` rounds. -/
def powLoop (a : UInt8) : ℕ → BigNumber → Except Fault BigNumber
  | 0, bi => .ok bi
  | n + 1, bi => do
    let bi ← bigNumberEqualsMultiplicationByUInt8 bi a
    powLoop a n bi

def bigNumberFromPowUInt8 (a b : UInt8) : Except Fault BigNumber := powLoop a b.toNat [1]

/-- A round of `BigNumberModuloWith58`. -/
def modStep (result : UInt16) (a : UInt8) : UInt16 :=
  let result := result * (256 % 58)
  let result := result % 58
  let result := result + a.toUInt16 % 58
  result % 58

def bigNumberModuloWith58 (a : BigNumber) : Except Fault UInt8 :=
  match a.reverse with
  | [] => .error .outOfRange
  | bs => .ok (bs.foldl modStep 0).toUInt8

/-! ### Addition -/

/-- The sum of two digits, and the overflow as the code finds it. -/
theorem toNat_add_overflow (a b : UInt8) (overflow : Bool) :
    (a + (b + overflow.toUInt8)).toNat
        + 256 * (decide ((a + (b + overflow.toUInt8)).toNat < b.toNat + overflow.toNat)).toNat
      = a.toNat + b.toNat + overflow.toNat := by
  have ha : a.toNat < 256 := a.toNat_lt
  have hb : b.toNat < 256 := b.toNat_lt
  have hbit : overflow.toUInt8.toNat = overflow.toNat := by cases overflow <;> rfl
  have hle : overflow.toNat ≤ 1 := Bool.toNat_le overflow
  have hsum : (a + (b + overflow.toUInt8)).toNat
      = (a.toNat + (b.toNat + overflow.toNat)) % 256 := by
    rw [UInt8.toNat_add, UInt8.toNat_add, hbit, Nat.add_mod_mod]
  generalize (a + (b + overflow.toUInt8)).toNat = sum at hsum ⊢
  by_cases hlt : sum < b.toNat + overflow.toNat
  · simp only [hlt, decide_true, Bool.toNat_true]
    omega
  · simp only [hlt, decide_false, Bool.toNat_false]
    omega

theorem toNat_succ_overflow (a : UInt8) :
    (a + 1).toNat + 256 * (a + 1 == 0).toNat = a.toNat + 1 := by
  have ha : a.toNat < 256 := a.toNat_lt
  have hsum : (a + 1).toNat = (a.toNat + 1) % 256 := UInt8.toNat_add a 1
  by_cases hzero : a + 1 = 0
  · have h0 : (a + 1).toNat = 0 := by rw [hzero]; rfl
    rw [hzero, BEq.rfl, Bool.toNat_true, ← hzero]
    omega
  · have hne : (a + 1).toNat ≠ 0 := fun h0 => hzero (UInt8.toNat_inj.mp h0)
    rw [beq_eq_false_iff_ne.mpr hzero, Bool.toNat_false]
    omega

theorem propagate_spec (as : List UInt8) (overflow : Bool) :
    (propagate as overflow).1.length = as.length ∧
      leNat (propagate as overflow).1 + 256 ^ as.length * (propagate as overflow).2.toNat
        = leNat as + overflow.toNat := by
  induction as generalizing overflow with
  | nil => simp [propagate]
  | cons a as ih =>
    cases overflow with
    | false => simp [propagate]
    | true =>
      obtain ⟨hlen, hval⟩ := ih (a + 1 == 0)
      have hstep := toNat_succ_overflow a
      refine ⟨congrArg (· + 1) hlen, ?_⟩
      simp only [propagate, leNat_cons, List.length_cons, pow_succ, Bool.toNat_true]
      linarith

theorem addBytes_spec {as bs : List UInt8} (h : bs.length ≤ as.length) (overflow : Bool) :
    (addBytes as bs overflow).1.length = as.length ∧
      leNat (addBytes as bs overflow).1 + 256 ^ as.length * (addBytes as bs overflow).2.toNat
        = leNat as + leNat bs + overflow.toNat := by
  induction bs generalizing as overflow with
  | nil =>
    rw [addBytes]
    exact propagate_spec as overflow
  | cons b bs ih =>
    cases as with
    | nil => exact absurd h (Nat.not_succ_le_zero _)
    | cons a as =>
      obtain ⟨hlen, hval⟩ := ih (Nat.le_of_succ_le_succ h)
        (decide ((a + (b + overflow.toUInt8)).toNat < b.toNat + overflow.toNat))
      have hstep := toNat_add_overflow a b overflow
      refine ⟨congrArg (· + 1) hlen, ?_⟩
      simp only [addBytes, leNat_cons, List.length_cons, pow_succ]
      linarith

theorem leNat_grow (a b : BigNumber) :
    leNat (a ++ List.replicate (b.length - a.length) 0) = leNat a := by
  rw [leNat_append, leNat_replicate_zero, Nat.mul_zero, Nat.add_zero]

theorem pushByte_of_lt {a : BigNumber} (h : a.length < 256) (b : UInt8) :
    pushByte a b = .ok (a ++ [b]) := if_pos h

/-- A number of the length of a summand is no shorter than it must be. -/
theorem pow_le_of_length {k n s : ℕ} (hk : k = (minBytes n).length) (hne : k ≠ 0) (hle : n ≤ s) :
    256 ^ (k - 1) ≤ s := by
  have hn : n ≠ 0 := by
    rintro rfl
    rw [minBytes_zero] at hk
    exact hne hk
  rw [hk]
  exact (pow_length_minBytes_le hn).trans hle

/-- Sums of numbers without leading zeros have none. -/
theorem addition_minBytes {m n : ℕ} (hm : (minBytes m).length < 256)
    (hn : (minBytes n).length < 256) :
    bigNumberEqualsAdditionByBigInt (minBytes m) (minBytes n) = .ok (minBytes (m + n)) := by
  have hlen : (minBytes m ++ List.replicate ((minBytes n).length - (minBytes m).length) 0).length
      = max (minBytes m).length (minBytes n).length := by
    rw [List.length_append, List.length_replicate]
    omega
  have hle : (minBytes n).length
      ≤ (minBytes m ++ List.replicate ((minBytes n).length - (minBytes m).length) 0).length := by
    rw [hlen]
    exact le_max_right _ _
  obtain ⟨hout, hval⟩ := addBytes_spec hle false
  rw [leNat_grow, leNat_minBytes, leNat_minBytes, Bool.toNat_false, Nat.add_zero, hlen] at hval
  rw [hlen] at hout
  rw [bigNumberEqualsAdditionByBigInt]
  simp only [maxBigNumber, hn, if_true]
  generalize addBytes (minBytes m ++ List.replicate ((minBytes n).length - (minBytes m).length) 0)
    (minBytes n) false = sum at hout hval
  obtain ⟨out, overflow⟩ := sum
  cases overflow with
  | false =>
    have hsum : leNat out = m + n := by simpa using hval
    show Except.ok out = _
    refine congrArg Except.ok (eq_minBytes hsum fun hne => ?_)
    have hne' : out.length ≠ 0 := fun h0 => hne (List.length_eq_zero_iff.mp h0)
    -- the longer summand fills the length
    rcases le_total (minBytes m).length (minBytes n).length with h | h
    · exact pow_le_of_length (hout.trans (max_eq_right h)) hne' (Nat.le_add_left n m)
    · exact pow_le_of_length (hout.trans (max_eq_left h)) hne' (Nat.le_add_right m n)
  | true =>
    have hlt : out.length < 256 := by rw [hout]; exact max_lt hm hn
    have hsum : leNat (out ++ [1]) = m + n := by
      rw [leNat_append, leNat_singleton, hout]
      exact hval
    show pushByte out 1 = _
    rw [pushByte_of_lt hlt, append_eq_minBytes (by decide) hsum]

/-! ### Multiplication -/

/-- A round of the multiplication: the carry stays below 256. -/
theorem toNat_mul_carry (a b : UInt8) {carry : UInt16} (hcarry : carry.toNat < 256) :
    (carry + a.toUInt16 * b.toUInt16).toUInt8.toNat
        + 256 * ((carry + a.toUInt16 * b.toUInt16) >>> 8).toNat
      = carry.toNat + a.toNat * b.toNat ∧
    ((carry + a.toUInt16 * b.toUInt16) >>> 8).toNat < 256 := by
  have hprod : a.toNat * b.toNat ≤ 255 * 255 :=
    Nat.mul_le_mul (Nat.le_of_lt_succ a.toNat_lt) (Nat.le_of_lt_succ b.toNat_lt)
  have hsum : (carry + a.toUInt16 * b.toUInt16).toNat = carry.toNat + a.toNat * b.toNat := by
    rw [UInt16.toNat_add, UInt16.toNat_mul, UInt8.toNat_toUInt16, UInt8.toNat_toUInt16]
    omega
  have hshift : ((carry + a.toUInt16 * b.toUInt16) >>> 8).toNat
      = (carry.toNat + a.toNat * b.toNat) / 256 := by
    rw [UInt16.toNat_shiftRight, hsum]
    exact Nat.shiftRight_eq_div_pow _ 8
  rw [UInt16.toNat_toUInt8, hshift, hsum]
  omega

theorem mulBytes_spec (b : UInt8) {carry : UInt16} (hcarry : carry.toNat < 256) (as : List UInt8) :
    (mulBytes b carry as).1.length = as.length ∧ (mulBytes b carry as).2.toNat < 256 ∧
      leNat (mulBytes b carry as).1 + 256 ^ as.length * (mulBytes b carry as).2.toNat
        = carry.toNat + leNat as * b.toNat := by
  induction as generalizing carry with
  | nil => simp [mulBytes, hcarry]
  | cons a as ih =>
    obtain ⟨hstep, hnext⟩ := toNat_mul_carry a b hcarry
    obtain ⟨hlen, hlt, hval⟩ := ih hnext
    refine ⟨congrArg (· + 1) hlen, hlt, ?_⟩
    simp only [mulBytes, leNat_cons, List.length_cons, pow_succ]
    linarith

theorem multiplication_minBytes {n : ℕ} {b : UInt8} (hn : n ≠ 0) (hb : b ≠ 0)
    (hlen : (minBytes n).length < 256) :
    bigNumberEqualsMultiplicationByUInt8 (minBytes n) b = .ok (minBytes (n * b.toNat)) := by
  have hzero : minBytes n ≠ [0] := by
    intro h
    have hval := leNat_minBytes n
    rw [h] at hval
    exact hn hval.symm
  have hpos : 1 ≤ b.toNat := Nat.one_le_iff_ne_zero.mpr fun h0 => hb (UInt8.toNat_inj.mp h0)
  obtain ⟨hout, hlt, hval⟩ := mulBytes_spec b (by decide : (0 : UInt16).toNat < 256) (minBytes n)
  rw [leNat_minBytes, UInt16.toNat_zero, Nat.zero_add] at hval
  rw [bigNumberEqualsMultiplicationByUInt8, if_neg hb, if_neg hzero]
  simp only [maxBigNumber, hlen, if_true]
  generalize mulBytes b 0 (minBytes n) = prod at hout hlt hval
  obtain ⟨out, carry⟩ := prod
  by_cases hcarry : carry = 0
  · have hprod : leNat out = n * b.toNat := by simpa [hcarry] using hval
    show (if carry ≠ 0 then pushByte out carry.toUInt8 else .ok out) = _
    rw [if_neg (not_not.mpr hcarry)]
    refine congrArg Except.ok (eq_minBytes hprod fun hne => ?_)
    have hne' : out.length ≠ 0 := fun h0 => hne (List.length_eq_zero_iff.mp h0)
    exact pow_le_of_length hout hne' (Nat.le_mul_of_pos_right n hpos)
  · have hprod : leNat (out ++ [carry.toUInt8]) = n * b.toNat := by
      rw [leNat_append, leNat_singleton, hout, UInt16.toNat_toUInt8, Nat.mod_eq_of_lt hlt]
      exact hval
    have htop : carry.toUInt8 ≠ 0 := by
      intro h0
      have hlow : carry.toUInt8.toNat = carry.toNat := by
        rw [UInt16.toNat_toUInt8, Nat.mod_eq_of_lt hlt]
      rw [h0] at hlow
      exact hcarry (UInt16.toNat_inj.mp hlow.symm)
    show (if carry ≠ 0 then pushByte out carry.toUInt8 else .ok out) = _
    rw [if_pos hcarry, pushByte_of_lt (hout.trans_lt hlen), append_eq_minBytes htop hprod]

theorem powLoop_minBytes {a : UInt8} (ha : a ≠ 0) {n m : ℕ} (hm : m ≠ 0)
    (hlen : m * a.toNat ^ n < 256 ^ 255) :
    powLoop a n (minBytes m) = .ok (minBytes (m * a.toNat ^ n)) := by
  induction n generalizing m with
  | zero => rw [powLoop, pow_zero, Nat.mul_one]
  | succ n ih =>
    have hpos : a.toNat ≠ 0 := fun h0 => ha (UInt8.toNat_inj.mp h0)
    have hm' : m < 256 ^ 255 := by
      refine lt_of_le_of_lt ?_ hlen
      exact Nat.le_mul_of_pos_right m (Nat.pow_pos (Nat.pos_of_ne_zero hpos))
    have hfit : (minBytes m).length < 256 := Nat.lt_succ_of_le (length_minBytes_le hm')
    have hassoc : m * a.toNat ^ (n + 1) = m * a.toNat * a.toNat ^ n := by
      rw [pow_succ']
      exact (Nat.mul_assoc _ _ _).symm
    rw [hassoc] at hlen ⊢
    rw [powLoop, multiplication_minBytes hm ha hfit, ok_bind, ih (Nat.mul_ne_zero hm hpos) hlen]

theorem fromPow_minBytes {a b : UInt8} (ha : a ≠ 0) (hlen : a.toNat ^ b.toNat < 256 ^ 255) :
    bigNumberFromPowUInt8 a b = .ok (minBytes (a.toNat ^ b.toNat)) := by
  have hone : ([1] : BigNumber) = minBytes 1 := eq_minBytes rfl fun _ => le_rfl
  rw [bigNumberFromPowUInt8, hone, powLoop_minBytes ha one_ne_zero (by rwa [Nat.one_mul]),
    Nat.one_mul]

/-! ### Division -/

/-- A round of the division: the remainder stays below 58. -/
theorem toNat_div_round {temp : UInt16} (htemp : temp.toNat < 58) (a : UInt8) :
    let t := (temp <<< 8) ||| a.toUInt16
    (t / 58).toUInt8.toNat * 58 + (t - (t / 58).toUInt8.toUInt16 * 58).toNat
        = 256 * temp.toNat + a.toNat ∧
      (t - (t / 58).toUInt8.toUInt16 * 58).toNat < 58 := by
  intro t
  have ha : a.toNat < 256 := a.toNat_lt
  have ht : t.toNat = 256 * temp.toNat + a.toNat := by
    have hshift : (temp <<< 8).toNat = temp.toNat <<< 8 := by
      have h8 : (8 : UInt16).toNat % 16 = 8 := rfl
      rw [UInt16.toNat_shiftLeft, h8, Nat.shiftLeft_eq]
      omega
    have hor := Nat.shiftLeft_add_eq_or_of_lt (i := 8) ha temp.toNat
    rw [UInt16.toNat_or, hshift, UInt8.toNat_toUInt16, ← hor, Nat.shiftLeft_eq]
    omega
  have h58 : (58 : UInt16).toNat = 58 := rfl
  have hdiv : (t / 58).toUInt8.toNat = t.toNat / 58 := by
    rw [UInt16.toNat_toUInt8, UInt16.toNat_div, h58]
    omega
  have hmul : ((t / 58).toUInt8.toUInt16 * 58).toNat = t.toNat / 58 * 58 := by
    rw [UInt16.toNat_mul, UInt8.toNat_toUInt16, hdiv, h58]
    omega
  have hle : (t / 58).toUInt8.toUInt16 * 58 ≤ t := by
    rw [UInt16.le_iff_toNat_le, hmul]
    omega
  rw [UInt16.toNat_sub_of_le _ _ hle, hmul, hdiv]
  omega

theorem divBytes_spec {temp : UInt16} (htemp : temp.toNat < 58) (as : List UInt8) :
    (divBytes temp as).length = as.length ∧
      leNat (divBytes temp as).reverse
        = (temp.toNat * 256 ^ as.length + leNat as.reverse) / 58 := by
  induction as generalizing temp with
  | nil => simp [divBytes, Nat.div_eq_of_lt htemp]
  | cons a as ih =>
    obtain ⟨hstep, hnext⟩ := toNat_div_round htemp a
    obtain ⟨hlen, hval⟩ := ih hnext
    refine ⟨congrArg (· + 1) hlen, ?_⟩
    simp only [divBytes, List.reverse_cons, leNat_append, leNat_singleton, List.length_reverse,
      hlen, hval, List.length_cons, pow_succ]
    generalize (temp <<< 8) ||| a.toUInt16 = t at hstep
    generalize (t / 58).toUInt8.toNat = q at hstep
    generalize (t - (t / 58).toUInt8.toUInt16 * 58).toNat = r at hstep
    -- the quotient takes `q` times the weight of this byte, the remainder goes on
    have hsplit : temp.toNat * (256 ^ as.length * 256)
          + (leNat as.reverse + 256 ^ as.length * a.toNat)
        = r * 256 ^ as.length + leNat as.reverse + 58 * (256 ^ as.length * q) := by
      calc _ = 256 ^ as.length * (256 * temp.toNat + a.toNat) + leNat as.reverse := by ring
        _ = _ := by rw [← hstep]; ring
    rw [hsplit, Nat.add_mul_div_left _ _ (by decide)]

/-- The quotient is at most one byte shorter. -/
theorem division_minBytes {n : ℕ} (hn : 58 ≤ n) :
    bigNumberEqualsDivisionBy58 (minBytes n) = .ok (minBytes (n / 58)) := by
  have hne : minBytes n ≠ [] := minBytes_ne_nil (by omega)
  have hzero : minBytes n ≠ [0] := by
    intro h
    have hval := leNat_minBytes n
    rw [h] at hval
    have h0 : leNat [0] = 0 := rfl
    omega
  obtain ⟨hlen, hval⟩ := divBytes_spec (by decide : (0 : UInt16).toNat < 58) (minBytes n).reverse
  rw [UInt16.toNat_zero, Nat.zero_mul, Nat.zero_add, List.reverse_reverse, leNat_minBytes] at hval
  rw [List.length_reverse] at hlen
  rw [bigNumberEqualsDivisionBy58, if_neg hzero]
  generalize divBytes 0 (minBytes n).reverse = qs at hlen hval
  cases qs with
  | nil => exact absurd (List.length_eq_zero_iff.mp hlen.symm) hne
  | cons q qs =>
    have htop : (minBytes n).length - 1 = qs.reverse.length := by
      rw [← hlen, List.length_cons, Nat.add_sub_cancel, List.length_reverse]
    rw [List.reverse_cons] at hval ⊢
    simp only
    rw [htop, fetch_middle qs.reverse [] q rfl, ok_bind, List.take_left]
    by_cases hq : q = 0
    · rw [if_pos hq]
      rw [leNat_append, leNat_singleton, hq, UInt8.toNat_zero, Nat.mul_zero, Nat.add_zero] at hval
      refine congrArg Except.ok (eq_minBytes hval fun hne' => ?_)
      have hpow := pow_length_minBytes_le (by omega : n ≠ 0)
      obtain ⟨k, hk⟩ := Nat.exists_eq_succ_of_ne_zero
        (fun h0 => hne' (List.length_eq_zero_iff.mp h0))
      rw [htop, hk, pow_succ] at hpow
      rw [hk, Nat.succ_sub_one, Nat.le_div_iff_mul_le (by decide)]
      omega
    · rw [if_neg hq, append_eq_minBytes hq hval]

/-! ### Remainder -/

theorem toNat_modStep {result : UInt16} (hresult : result.toNat < 58) (a : UInt8) :
    (modStep result a).toNat = (256 * result.toNat + a.toNat) % 58 := by
  have ha : a.toNat < 256 := a.toNat_lt
  have h24 : (256 % 58 : UInt16).toNat = 24 := rfl
  have h58 : (58 : UInt16).toNat = 58 := rfl
  have hprod : result.toNat * 24 % 2 ^ 16 = result.toNat * 24 := Nat.mod_eq_of_lt (by omega)
  have hsum : (result.toNat * 24 % 58 + a.toNat % 58) % 2 ^ 16
      = result.toNat * 24 % 58 + a.toNat % 58 := Nat.mod_eq_of_lt (by omega)
  simp only [modStep, UInt16.toNat_mod, UInt16.toNat_add, UInt16.toNat_mul, h24, h58,
    UInt8.toNat_toUInt16, hprod, hsum]
  rw [← Nat.add_mod]
  omega

theorem toNat_foldl_modStep {result : UInt16} (hresult : result.toNat < 58) (as : List UInt8) :
    (as.foldl modStep result).toNat
      = (result.toNat * 256 ^ as.length + leNat as.reverse) % 58 := by
  induction as generalizing result with
  | nil => simp [Nat.mod_eq_of_lt hresult]
  | cons a as ih =>
    have hstep := toNat_modStep hresult a
    have hlt : (modStep result a).toNat < 58 := by
      rw [hstep]
      exact Nat.mod_lt _ (by decide)
    rw [List.foldl_cons, ih hlt, hstep, List.reverse_cons, leNat_append, leNat_singleton,
      List.length_cons, List.length_reverse, Nat.add_mod, Nat.mod_mul_mod, ← Nat.add_mod]
    congr 1
    ring

theorem modulo_eq {a : BigNumber} (ha : a ≠ []) :
    bigNumberModuloWith58 a = .ok (UInt8.ofNat (leNat a % 58)) := by
  have hval := toNat_foldl_modStep (by decide : (0 : UInt16).toNat < 58) a.reverse
  rw [UInt16.toNat_zero, Nat.zero_mul, Nat.zero_add, List.reverse_reverse] at hval
  have hres : (a.reverse.foldl modStep 0).toUInt8 = UInt8.ofNat (leNat a % 58) := by
    apply UInt8.toNat_inj.mp
    rw [UInt16.toNat_toUInt8, hval, UInt8.toNat_ofNat']
  rw [bigNumberModuloWith58, ← hres]
  cases h : a.reverse with
  | nil => exact absurd (List.reverse_eq_nil_iff.mp h) ha
  | cons b bs => rfl

/-! ### Subtraction -/

theorem dropZeros_spec (as : List UInt8) :
    leNat (dropZeros as).reverse = leNat as.reverse ∧
      ((dropZeros as).length ≤ 1 ∨ (dropZeros as).head? ≠ some 0) := by
  induction as using dropZeros.induct with
  | case1 b as ih =>
    rw [dropZeros, if_pos rfl, List.reverse_cons, leNat_append, leNat_singleton, UInt8.toNat_zero,
      Nat.mul_zero, Nat.add_zero]
    exact ih
  | case2 a b as ha =>
    rw [dropZeros, if_neg ha]
    exact ⟨rfl, .inr fun h => ha (Option.some_inj.mp h)⟩
  | case3 as h =>
    rw [dropZeros]
    · refine ⟨rfl, .inl ?_⟩
      match as, h with
      | [], _ => exact Nat.zero_le 1
      | [a], _ => exact le_rfl
      | a :: b :: as, h => exact absurd rfl (h a b as)
    · exact h

theorem normalise_eq {a : BigNumber} (ha : leNat a ≠ 0) :
    bigNumberNormalise a = minBytes (leNat a) := by
  obtain ⟨hval, htop⟩ := dropZeros_spec a.reverse
  rw [List.reverse_reverse] at hval
  rw [bigNumberNormalise]
  generalize dropZeros a.reverse = ds at hval htop
  cases ds with
  | nil => exact absurd hval.symm ha
  | cons x xs =>
    rw [List.reverse_cons] at hval ⊢
    refine append_eq_minBytes ?_ hval
    rintro rfl
    rcases htop with hlen | hhead
    · have hnil : xs = [] :=
        List.length_eq_zero_iff.mp (Nat.le_zero.mp (Nat.le_of_succ_le_succ hlen))
      rw [hnil] at hval
      exact ha hval.symm
    · exact hhead rfl

theorem subBytes_spec {carry : UInt8} {as : List UInt8} (h : carry.toNat ≤ leNat as)
    (hne : as ≠ []) :
    ∃ out, subBytes carry as = .ok out ∧ leNat out = leNat as - carry.toNat := by
  induction as generalizing carry with
  | nil => exact absurd rfl hne
  | cons a as ih =>
    have hc : carry.toNat < 256 := carry.toNat_lt
    rw [leNat_cons] at h
    rw [subBytes]
    by_cases hlt : a < carry
    · have hlt' : a.toNat < carry.toNat := UInt8.lt_iff_toNat_lt.mp hlt
      -- the borrow comes from what is above
      have habove : (1 : UInt8).toNat ≤ leNat as := by
        show 1 ≤ leNat as
        omega
      have hne' : as ≠ [] := by
        rintro rfl
        exact absurd habove (by decide)
      obtain ⟨out, hout, hval⟩ := ih habove hne'
      have hbyte : (255 - carry + a + 1).toNat = 256 + a.toNat - carry.toNat := by
        have hsub : (255 - carry).toNat = 255 - carry.toNat :=
          UInt8.toNat_sub_of_le _ _ (UInt8.le_iff_toNat_le.mpr (Nat.le_of_lt_succ hc))
        have hone : (1 : UInt8).toNat = 1 := rfl
        rw [UInt8.toNat_add, UInt8.toNat_add, hsub, hone]
        omega
      have hone : (1 : UInt8).toNat = 1 := rfl
      refine ⟨(255 - carry + a + 1) :: out, ?_, ?_⟩
      · rw [if_pos hlt, hout, ok_bind]
      · rw [leNat_cons, leNat_cons, hbyte, hval]
        omega
    · have hle : carry ≤ a := UInt8.not_lt.mp hlt
      refine ⟨(a - carry) :: as, if_neg hlt, ?_⟩
      rw [leNat_cons, leNat_cons, UInt8.toNat_sub_of_le _ _ hle]
      have := UInt8.le_iff_toNat_le.mp hle
      omega

theorem subtraction_eq {a : BigNumber} {b : UInt8} (h : b.toNat < leNat a) :
    bigNumberEqualsSubtractionByUInt8 a b = .ok (minBytes (leNat a - b.toNat)) := by
  have hne : a ≠ [] := by
    rintro rfl
    exact absurd h (Nat.not_lt_zero _)
  obtain ⟨out, hout, hval⟩ := subBytes_spec h.le hne
  rw [bigNumberEqualsSubtractionByUInt8, hout, ok_bind, normalise_eq (by omega), hval]

/-! ### Comparison -/

theorem compareTo58_ge {a : BigNumber} (h : 58 ≤ leNat a) :
    bigNumberCompareTo58 a = .ok .gt ∨ bigNumberCompareTo58 a = .ok .eq := by
  rw [bigNumberCompareTo58]
  match a, h with
  | [d], h =>
    rw [leNat_singleton] at h
    by_cases hgt : d > 58
    · exact .inl (by simp [fetch, hgt])
    · have hlt : ¬ d < 58 := by
        rw [UInt8.lt_iff_toNat_lt]
        exact not_lt.mpr h
      exact .inr (by simp [fetch, hgt, hlt])
  | a :: b :: as, _ => exact .inl (if_pos (by simp))

theorem compareTo58_lt {d : UInt8} (h : d.toNat < 58) : bigNumberCompareTo58 [d] = .ok .lt := by
  have hlt : d < 58 := UInt8.lt_iff_toNat_lt.mpr h
  have hgt : ¬ d > 58 := by
    rw [gt_iff_lt, UInt8.lt_iff_toNat_lt]
    exact not_lt.mpr h.le
  simp [bigNumberCompareTo58, fetch, hgt, hlt]

end BitcoinAnalysis.BlockchainBase58
