/-
`hash.h`, namespace `BLOCKCHAIN_BASE58`: the conversions.

A string is the list of its characters before the zero; `char` is signed, as the
compiler of the project has it.  What is written to the caller's buffer is the
list of the bytes written so far, each write checked against the size of the
buffer.

`cbDecodeBase58_eq` and `cbEncodeBase58_eq` describe the conversions by the digits
of `BaseCodec`.  Decoding takes any character for a digit, by the range it lies
in (`rangeIndex`).
-/
import BitcoinAnalysis.BaseCodec
import BitcoinAnalysis.BigNumber
import BitcoinAnalysis.AddressBuffer

open Run LittleEndian

namespace BitcoinAnalysis.BlockchainBase58

open BlockchainRipemd160 (fetch fetch_middle)

/-- The table `base58Characters`, without the zero at its end. -/
def base58Characters : List UInt8 :=
  ['1', '2', '3', '4', '5', '6', '7', '8', '9', 'A', 'B', 'C', 'D', 'E', 'F', 'G', 'H', 'J',
   'K', 'L', 'M', 'N', 'P', 'Q', 'R', 'S', 'T', 'U', 'V', 'W', 'X', 'Y', 'Z', 'a', 'b', 'c', 'd',
   'e', 'f', 'g', 'h', 'i', 'j', 'k', 'm', 'n', 'o', 'p', 'q', 'r', 's', 't', 'u', 'v', 'w', 'x',
   'y', 'z'].map
    fun c => UInt8.ofNat c.toNat

/-! ### Decoding -/

/-- The index of a character other than `1`. -/
def alphaIndex (c : UInt8) : UInt8 :=
  if c.toInt8 < 58 then c - 49
  else if c.toInt8 < 73 then c - 56
  else if c.toInt8 < 79 then c - 57
  else if c.toInt8 < 91 then c - 58
  else if c.toInt8 < 108 then c - 64
  else c - 65

/-- The loop over the string, from its last character on; `k` is `slen - 1 - x`. -/
def decodeLoop : ℕ → List UInt8 → BigNumber → Except Fault BigNumber
  | _, [], bi => .ok bi
  | k, c :: cs, bi =>
    if c ≠ 49 then do
      let bi2 ← bigNumberFromPowUInt8 58 (.ofNat k)
      let bi2 ← bigNumberEqualsMultiplicationByUInt8 bi2 (alphaIndex c)
      let bi ← bigNumberEqualsAdditionByBigInt bi bi2
      decodeLoop (k + 1) cs bi
    else decodeLoop (k + 1) cs bi

def cbDecodeBase58 (bi : BigNumber) (str : List UInt8) : Except Fault BigNumber :=
  -- `str[slen - 1]` of an empty string
  if str = [] then .error .outOfRange
  else do
    let bi ← decodeLoop 0 str.reverse bi
    let zeros := (str.takeWhile (· = 49)).length
    -- `zeros` and the index of its loop are `unit8`
    if zeros < 256 then
      if bi.length + zeros ≤ maxBigNumber then .ok (bi ++ List.replicate zeros 0)
      else .error .outOfRange
    else .error .outOfFuel

/-- Returns the length and the buffer. -/
def decodeBase58 {n : ℕ} (string : List UInt8) (output : Bytes n) (maxOutputLength : UInt32)
    (littleEndian : Bool) : Except Fault (UInt32 × Bytes n) := do
  let bn ← cbDecodeBase58 [] string
  if bn.length ≤ maxOutputLength.toNat then
    let output ← writeBytes output 0 (if littleEndian then bn.reverse else bn)
    .ok (.ofNat bn.length, output)
  else .ok (0, output)

/-! ### Encoding -/

/-- `str[x] = c; x++` -/
def putChar (size : ℕ) (str : List UInt8) (c : UInt8) : Except Fault (List UInt8) :=
  if str.length < size then .ok (str ++ [c]) else .error .outOfRange

/-- The loop over the zeros, from the most significant byte on. -/
def zeroLoop (size : ℕ) : List UInt8 → List UInt8 → Except Fault (List UInt8)
  | [], str => .ok str
  | b :: bs, str =>
    if b = 0 then do
      let str ← putChar size str 49
      zeroLoop size bs str
    else .ok str

/-- The loop of the digits; `none` is `return false`. -/
def encodeLoop (size : ℕ) (maxStrLen : UInt32) :
    ℕ → BigNumber → List UInt8 → Except Fault (Option (BigNumber × List UInt8))
  | 0, _, _ => .error .outOfFuel
  | n + 1, bi, str => do
    match ← bigNumberCompareTo58 bi with
    | .lt => .ok (some (bi, str))
    | _ =>
      let mod ← bigNumberModuloWith58 bi
      -- `size > bi->length` says again what the first test does
      if bi.length < str.length + 3 ∧ maxStrLen.toNat < str.length + 3 then .ok none
      else
        let c ← fetch base58Characters mod.toNat
        let str ← putChar size str c
        let bi ← bigNumberEqualsSubtractionByUInt8 bi mod
        let bi ← bigNumberEqualsDivisionBy58 bi
        encodeLoop size maxStrLen n bi str

/-- The exchange of two characters. -/
def swap (str : List UInt8) (i j : ℕ) : List UInt8 :=
  (str.set i (str.getD j 0)).set j (str.getD i 0)

/-- The loop of the reversal. -/
def reversal (zeros : ℕ) (str : List UInt8) : List UInt8 :=
  (List.range ((str.length - zeros) / 2)).foldl
    (fun s y => swap s (y + zeros) (str.length - y - 1)) str

def cbEncodeBase58 (size : ℕ) (bi : BigNumber) (maxStrLen : UInt32) :
    Except Fault (Option (List UInt8)) :=
  if maxStrLen.toNat < bi.length then .ok none
  -- `bi->data[bi->length - 1]` without a byte
  else if bi = [] then .error .outOfRange
  else do
    let str ← zeroLoop size bi.reverse []
    let zeros := str.length
    -- each round divides by 58, so two rounds take off more than a byte
    match ← encodeLoop size maxStrLen (2 * bi.length + 1) bi str with
    | none => .ok none
    | some (bi, str) =>
      let top ← fetch bi (bi.length - 1)
      let c ← fetch base58Characters top.toNat
      let str ← putChar size str c
      let str ← putChar size (reversal zeros str) 0
      .ok (some str)

/-- The local array `hash`, of 25 bytes, and its first `length` bytes. -/
def encodeBase58 (size : ℕ) (bigNumber : List UInt8) (length : UInt32) (littleEndian : Bool)
    (maxStrLen : UInt32) : Except Fault (Option (List UInt8)) := do
  if length > 25 then .error .outOfRange
  else if littleEndian then
    let hash ← (List.range 25).mapM fun i => fetch bigNumber (length - 1 - .ofNat i).toNat
    cbEncodeBase58 size (hash.take length.toNat) maxStrLen
  else
    let hash ← memcpy bigNumber 0 length.toNat
    cbEncodeBase58 size hash.1 maxStrLen

/-! ### What is decoded -/

/-- The digit a character counts for. -/
def rangeIndex (c : UInt8) : ℕ := if c = 49 then 0 else (alphaIndex c).toNat

theorem alphaIndex_ne_zero {c : UInt8} (hc : c ≠ 49) : alphaIndex c ≠ 0 := by
  have hall : ∀ n < 256, UInt8.ofNat n ≠ 49 → alphaIndex (.ofNat n) ≠ 0 := by decide +kernel
  have h := hall c.toNat c.toNat_lt
  rw [UInt8.ofNat_toNat] at h
  exact h hc

theorem rangeIndex_eq_zero_iff (c : UInt8) : rangeIndex c = 0 ↔ c = 49 := by
  rw [rangeIndex]
  refine ⟨fun h => ?_, fun h => if_pos h⟩
  by_contra hne
  rw [if_neg hne] at h
  exact alphaIndex_ne_zero hne (UInt8.toNat_inj.mp h)

theorem rangeIndex_lt (c : UInt8) : rangeIndex c < 256 := by
  rw [rangeIndex]
  split
  · decide
  · exact (alphaIndex c).toNat_lt

theorem lt_of_le_pow {n k : ℕ} (hk : k ≤ 100) (hn : n ≤ 5 * 58 ^ k) : n < 256 ^ 101 :=
  calc n ≤ 5 * 58 ^ k := hn
    _ ≤ 5 * 58 ^ 100 := Nat.mul_le_mul_left 5 (Nat.pow_le_pow_right (by decide) hk)
    _ < 256 ^ 101 := by norm_num

theorem length_lt_of_le_pow {n k : ℕ} (hk : k ≤ 100) (hn : n ≤ 5 * 58 ^ k) :
    (minBytes n).length < 256 :=
  Nat.lt_of_le_of_lt (length_minBytes_le (lt_of_le_pow hk hn)) (by decide)

/-- The power `BigNumberFromPowUInt8` gives for the place of a character. -/
theorem pow58_eq {k : ℕ} (hk : k < 100) :
    bigNumberFromPowUInt8 58 (.ofNat k) = .ok (minBytes (58 ^ k)) := by
  have hk' : (UInt8.ofNat k).toNat = k :=
    UInt8.toNat_ofNat_of_lt' (lt_of_lt_of_le hk (by decide))
  have h58 : (58 : UInt8).toNat = 58 := rfl
  have hfit : (58 : UInt8).toNat ^ (UInt8.ofNat k).toNat < 256 ^ 255 := by
    rw [hk', h58]
    refine (lt_of_le_pow hk.le (Nat.le_mul_of_pos_left _ (by decide))).trans ?_
    exact Nat.pow_lt_pow_right (by decide) (by decide)
  rw [fromPow_minBytes (by decide) hfit, hk', h58]

/-- The loop adds the digits, each at its place.  The sum stays below five times
the next place, as `255 + 5 ≤ 5 * 58`. -/
theorem decodeLoop_eq {cs : List UInt8} {k v : ℕ} (hk : k + cs.length ≤ 100) (hv : v ≤ 5 * 58 ^ k) :
    decodeLoop k cs (minBytes v)
        = .ok (minBytes (v + 58 ^ k * Nat.ofDigits 58 (cs.map rangeIndex))) ∧
      v + 58 ^ k * Nat.ofDigits 58 (cs.map rangeIndex) ≤ 5 * 58 ^ (k + cs.length) := by
  induction cs generalizing k v with
  | nil =>
    rw [List.map_nil, Nat.ofDigits_nil, Nat.mul_zero, Nat.add_zero]
    exact ⟨rfl, hv⟩
  | cons c cs ih =>
    rw [List.length_cons] at hk ⊢
    have hd := rangeIndex_lt c
    have hsum : v + 58 ^ k * rangeIndex c ≤ 5 * 58 ^ (k + 1) := by
      have hmul : 58 ^ k * rangeIndex c ≤ 58 ^ k * 255 := Nat.mul_le_mul_left _ (by omega)
      rw [pow_succ]
      omega
    obtain ⟨hrun, hle⟩ := @ih (k + 1) (v + 58 ^ k * rangeIndex c) (by omega) hsum
    have hdigits : v + 58 ^ k * Nat.ofDigits 58 ((c :: cs).map rangeIndex)
        = v + 58 ^ k * rangeIndex c + 58 ^ (k + 1) * Nat.ofDigits 58 (cs.map rangeIndex) := by
      rw [List.map_cons, Nat.ofDigits_cons, pow_succ]
      ring
    have hexp : k + (cs.length + 1) = k + 1 + cs.length := by omega
    rw [hdigits, hexp]
    refine ⟨?_, hle⟩
    rw [← hrun, decodeLoop]
    by_cases hc : c = 49
    · have h0 : rangeIndex c = 0 := (rangeIndex_eq_zero_iff c).mpr hc
      rw [if_neg (not_not.mpr hc), h0, Nat.mul_zero]
      rfl
    · have hindex : (alphaIndex c).toNat = rangeIndex c := (if_neg hc).symm
      have hk' : k < 100 := by omega
      have hlen : (minBytes (58 ^ k)).length < 256 :=
        length_lt_of_le_pow hk'.le (Nat.le_mul_of_pos_left _ (by decide))
      have hlen' : (minBytes (58 ^ k * rangeIndex c)).length < 256 :=
        length_lt_of_le_pow hk' ((Nat.le_add_left _ _).trans hsum)
      rw [if_pos hc, pow58_eq hk', ok_bind, multiplication_minBytes (by positivity)
        (alphaIndex_ne_zero hc) hlen, ok_bind, hindex,
        addition_minBytes (length_lt_of_le_pow hk'.le hv) hlen', ok_bind]

theorem leading_map_rangeIndex (str : List UInt8) :
    BaseCodec.leading 0 (str.map rangeIndex) = (str.takeWhile (· = 49)).length := by
  have hfun : ((fun d : ℕ => decide (d = 0)) ∘ rangeIndex) = fun c => decide (c = 49) := by
    funext c
    exact decide_eq_decide.mpr (rangeIndex_eq_zero_iff c)
  rw [BaseCodec.leading, List.takeWhile_map, List.length_map, hfun]

/-- **Decoding.**  The bytes come with the least significant first. -/
theorem cbDecodeBase58_eq {str : List UInt8} (hne : str ≠ []) (hlen : str.length ≤ 100) :
    cbDecodeBase58 [] str = .ok (BaseCodec.bytesOf 58 (str.map rangeIndex)).reverse := by
  obtain ⟨hrun, hle⟩ := @decodeLoop_eq str.reverse 0 0 (by simpa using hlen) (Nat.zero_le _)
  rw [pow_zero, Nat.one_mul, Nat.zero_add, minBytes_zero, List.map_reverse] at hrun
  rw [pow_zero, Nat.one_mul, Nat.zero_add, Nat.zero_add, List.length_reverse,
    List.map_reverse] at hle
  have hzeros := leading_map_rangeIndex str
  have hcount : (str.takeWhile (· = 49)).length ≤ 100 := by
    rw [← hzeros]
    exact ((BaseCodec.leading_le_length 0 _).trans_eq (List.length_map _)).trans hlen
  have hfit : (minBytes (Nat.ofDigits 58 (str.map rangeIndex).reverse)).length
      + (str.takeWhile (· = 49)).length ≤ maxBigNumber := by
    have h101 := length_minBytes_le (lt_of_le_pow hlen hle)
    rw [maxBigNumber]
    omega
  rw [cbDecodeBase58, if_neg hne, hrun, ok_bind]
  simp only
  rw [if_pos (by omega), if_pos hfit, BaseCodec.bytesOf, hzeros, List.reverse_append,
    List.reverse_reverse, List.reverse_replicate]
  rfl

/-! ### The reversal -/

theorem getElem?_swap {s : List UInt8} {i j : ℕ} (hi : i < s.length) (hj : j < s.length) (n : ℕ) :
    (swap s i j)[n]? = if n = j then s[i]? else if n = i then s[j]? else s[n]? := by
  have hi' : s[i]? = some (s.getD i 0) := by simp [hi]
  have hj' : s[j]? = some (s.getD j 0) := by simp [hj]
  rw [swap, List.getElem?_set, List.getElem?_set, List.length_set, hi', hj', if_pos hi, if_pos hj]
  simp only [eq_comm]

/-- After `k` exchanges the `k` characters at either end have changed places. -/
theorem foldl_swap {zeros : ℕ} {str : List UInt8} {k : ℕ} (hk : 2 * k ≤ str.length - zeros) :
    ((List.range k).foldl (fun s y => swap s (y + zeros) (str.length - y - 1)) str).length
        = str.length ∧
      ∀ n, ((List.range k).foldl (fun s y => swap s (y + zeros) (str.length - y - 1)) str)[n]?
        = if zeros ≤ n ∧ n < str.length ∧ (n < zeros + k ∨ str.length ≤ n + k)
          then str[zeros + str.length - 1 - n]? else str[n]? := by
  induction k with
  | zero =>
    refine ⟨rfl, fun n => ?_⟩
    rw [if_neg (by omega)]
    rfl
  | succ k ih =>
    obtain ⟨hlen, hget⟩ := ih (by omega)
    rw [List.range_succ, List.foldl_append, List.foldl_cons, List.foldl_nil]
    set s := (List.range k).foldl (fun s y => swap s (y + zeros) (str.length - y - 1)) str
    have hi : k + zeros < s.length := by omega
    have hj : str.length - k - 1 < s.length := by omega
    refine ⟨by rw [swap, List.length_set, List.length_set, hlen], fun n => ?_⟩
    rw [getElem?_swap hi hj, hget n, hget (k + zeros), hget (str.length - k - 1),
      if_neg (by omega : ¬ (zeros ≤ k + zeros ∧ _)),
      if_neg (by omega : ¬ (zeros ≤ str.length - k - 1 ∧ _))]
    by_cases hjn : n = str.length - k - 1
    · rw [if_pos hjn, if_pos (by omega)]
      congr 1
      omega
    · rw [if_neg hjn]
      by_cases hin : n = k + zeros
      · rw [if_pos hin, if_pos (by omega)]
        congr 1
        omega
      · rw [if_neg hin]
        congr 1
        exact propext (by omega)

theorem reversal_append (front body : List UInt8) :
    reversal front.length (front ++ body) = front ++ body.reverse := by
  have hlen : (front ++ body).length = front.length + body.length := List.length_append
  obtain ⟨-, hget⟩ := @foldl_swap front.length (front ++ body)
    (((front ++ body).length - front.length) / 2) (by omega)
  rw [hlen] at hget
  apply List.ext_getElem?
  intro n
  rw [reversal, hlen, hget n]
  by_cases hfront : n < front.length
  · rw [if_neg (by omega), List.getElem?_append_left hfront, List.getElem?_append_left hfront]
  · have hright : (front ++ body.reverse)[n]? = body.reverse[n - front.length]? :=
      List.getElem?_append_right (by omega)
    rw [hright]
    by_cases hend : n < front.length + body.length
    · have hmirror : (if front.length ≤ n ∧ n < front.length + body.length ∧
          (n < front.length + (front.length + body.length - front.length) / 2 ∨
            front.length + body.length ≤ n + (front.length + body.length - front.length) / 2)
          then (front ++ body)[front.length + (front.length + body.length) - 1 - n]?
          else (front ++ body)[n]?)
          = (front ++ body)[front.length + (front.length + body.length) - 1 - n]? := by
        split
        · rfl
        · -- the character in the middle stays
          congr 1
          omega
      rw [hmirror, List.getElem?_append_right (by omega), List.getElem?_reverse (by omega)]
      congr 1
      omega
    · rw [if_neg (by omega), List.getElem?_eq_none (by omega), List.getElem?_eq_none]
      rw [List.length_reverse]
      omega

/-! ### What is encoded -/

theorem putChar_of_lt {size : ℕ} {str : List UInt8} (h : str.length < size) (c : UInt8) :
    putChar size str c = .ok (str ++ [c]) := if_pos h

theorem zeroLoop_eq {size : ℕ} {bs str : List UInt8}
    (h : str.length + BaseCodec.leading 0 bs ≤ size) :
    zeroLoop size bs str = .ok (str ++ List.replicate (BaseCodec.leading 0 bs) 49) := by
  induction bs generalizing str with
  | nil => rw [zeroLoop, BaseCodec.leading, List.takeWhile_nil, List.length_nil,
      List.replicate_zero, List.append_nil]
  | cons b bs ih =>
    rw [zeroLoop]
    by_cases hb : b = 0
    · have hzeros : BaseCodec.leading 0 (b :: bs) = BaseCodec.leading 0 bs + 1 := by
        simp [BaseCodec.leading, hb]
      rw [hzeros] at h ⊢
      have hnext : (str ++ [49]).length + BaseCodec.leading 0 bs ≤ size := by
        rw [List.length_append, List.length_singleton]
        omega
      rw [if_pos hb, putChar_of_lt (by omega), ok_bind, ih hnext, List.append_assoc]
      rfl
    · have hzeros : BaseCodec.leading 0 (b :: bs) = 0 := by
        simp [BaseCodec.leading, hb]
      rw [if_neg hb, hzeros, List.replicate_zero, List.append_nil]

/-- The character of a digit. -/
def digitChar (d : ℕ) : UInt8 := base58Characters.getD d 0

theorem fetch_base58Characters {d : ℕ} (hd : d < 58) :
    fetch base58Characters d = .ok (digitChar d) := by
  have hsome : base58Characters[d]? = some (digitChar d) := by
    rw [digitChar, List.getD_eq_getElem?_getD, List.getElem?_eq_getElem (by exact hd)]
    rfl
  rw [fetch, hsome]

/-- A number below 58 is one byte. -/
theorem minBytes_of_lt {n : ℕ} (hn : n ≠ 0) (hlt : n < 58) : minBytes n = [UInt8.ofNat n] := by
  rw [minBytes, Nat.digits_of_lt 256 n hn (by omega), List.map_singleton]

/-- One round. -/
theorem encodeLoop_succ {size : ℕ} {maxStrLen : UInt32} (fuel : ℕ) {bi : BigNumber}
    {str : List UInt8} (hge : 58 ≤ leNat bi) (hmax : str.length + 3 ≤ maxStrLen.toNat)
    (hsize : str.length < size) :
    encodeLoop size maxStrLen (fuel + 1) bi str
      = encodeLoop size maxStrLen fuel (minBytes (leNat bi / 58))
          (str ++ [digitChar (leNat bi % 58)]) := by
  have hmod : leNat bi % 58 < 58 := Nat.mod_lt _ (by decide)
  have hmod' : (UInt8.ofNat (leNat bi % 58)).toNat = leNat bi % 58 :=
    UInt8.toNat_ofNat_of_lt' (lt_trans hmod (by decide))
  have hne : bi ≠ [] := by
    rintro rfl
    exact absurd hge (by decide)
  have hroom : ¬ (bi.length < str.length + 3 ∧ maxStrLen.toNat < str.length + 3) := by omega
  have hsub := @subtraction_eq bi (.ofNat (leNat bi % 58)) (by omega)
  have hdiv := @division_minBytes (leNat bi - leNat bi % 58) (by omega)
  have hquot : (leNat bi - leNat bi % 58) / 58 = leNat bi / 58 := by omega
  rw [hmod'] at hsub
  rw [hquot] at hdiv
  rw [encodeLoop]
  -- the two results other than `.lt` take the same branch
  rcases compareTo58_ge hge with hcmp | hcmp
  all_goals
    rw [hcmp, ok_bind]
    simp only
    rw [modulo_eq hne, ok_bind, if_neg hroom, hmod', fetch_base58Characters hmod, ok_bind,
      putChar_of_lt hsize, ok_bind, hsub, ok_bind, hdiv, ok_bind]

/-- The loop writes the digits below the leading one, and leaves this one. -/
theorem encodeLoop_eq {size : ℕ} {maxStrLen : UInt32} {fuel n : ℕ} {bi : BigNumber}
    {str : List UInt8} (hn : n ≠ 0) (hval : leNat bi = n) (hbi : n < 58 → bi = minBytes n)
    (hfuel : (Nat.digits 58 n).length ≤ fuel)
    (hmax : str.length + (Nat.digits 58 n).length < maxStrLen.toNat)
    (hsize : str.length + (Nat.digits 58 n).length < size) :
    ∃ ds d, Nat.digits 58 n = ds ++ [d] ∧ encodeLoop size maxStrLen fuel bi str
      = .ok (some ([UInt8.ofNat d], str ++ ds.map digitChar)) := by
  induction fuel generalizing n bi str with
  | zero =>
    have hnil := List.length_eq_zero_iff.mp (Nat.le_zero.mp hfuel)
    exact absurd (Nat.digits_eq_nil_iff_eq_zero.mp hnil) hn
  | succ fuel ih =>
    by_cases hlt : n < 58
    · refine ⟨[], n, Nat.digits_of_lt 58 n hn hlt, ?_⟩
      have hd : (UInt8.ofNat n).toNat < 58 := by
        rw [UInt8.toNat_ofNat_of_lt' (lt_trans hlt (by decide))]
        exact hlt
      rw [hbi hlt, minBytes_of_lt hn hlt, encodeLoop, compareTo58_lt hd, List.map_nil,
        List.append_nil]
      rfl
    · have hge : 58 ≤ n := not_lt.mp hlt
      have hdigits : Nat.digits 58 n = n % 58 :: Nat.digits 58 (n / 58) :=
        Nat.digits_def' (by decide) (Nat.pos_of_ne_zero hn)
      have hquot : n / 58 ≠ 0 := (Nat.div_pos hge (by decide)).ne'
      rw [hdigits, List.length_cons] at hfuel hmax hsize
      have hlen : 0 < (Nat.digits 58 (n / 58)).length :=
        List.length_pos_of_ne_nil (Nat.digits_ne_nil_iff_ne_zero.mpr hquot)
      obtain ⟨ds, d, hds, hrun⟩ := @ih (n / 58) (minBytes (n / 58)) (str ++ [digitChar (n % 58)])
        hquot (leNat_minBytes _) (fun _ => rfl) (by omega)
        (by rw [List.length_append, List.length_singleton]; omega)
        (by rw [List.length_append, List.length_singleton]; omega)
      refine ⟨n % 58 :: ds, d, by rw [hdigits, hds]; rfl, ?_⟩
      rw [encodeLoop_succ fuel (hge.trans_eq hval.symm) (by omega) (by omega), hval, hrun,
        List.append_assoc]
      rfl

/-- A byte takes at most two digits, and a leading zero takes one. -/
theorem leading_add_length_digits_le (bs : List UInt8) :
    BaseCodec.leading 0 bs + (Nat.digits 58 (leNat bs.reverse)).length ≤ 2 * bs.length := by
  have hzeros := BaseCodec.leading_le_length 0 bs
  have hdigits : (Nat.digits 58 (leNat bs.reverse)).length
      ≤ 2 * (bs.length - BaseCodec.leading 0 bs) := by
    rw [Nat.digits_length_le_iff (by decide), pow_mul]
    exact (BaseCodec.leNat_reverse_lt bs).trans_le (Nat.pow_le_pow_left (by decide) _)
  omega

/-- After the reversal the digits are in the order of `BaseCodec`. -/
theorem map_digitChar_digitsOf (bs : List UInt8) :
    List.replicate (BaseCodec.leading 0 bs) 49
        ++ ((Nat.digits 58 (leNat bs.reverse)).map digitChar).reverse
      = (BaseCodec.digitsOf 58 bs).map digitChar := by
  rw [BaseCodec.digitsOf, List.map_append, List.map_replicate, List.map_reverse]
  rfl

/-- **Encoding.**  The digits of `BaseCodec` and the zero behind them. -/
theorem cbEncodeBase58_eq {size : ℕ} {maxStrLen : UInt32} {bs : List UInt8}
    (hval : 58 ≤ leNat bs.reverse) (hmax : 2 * bs.length < maxStrLen.toNat)
    (hsize : 2 * bs.length < size) :
    cbEncodeBase58 size bs.reverse maxStrLen
      = .ok (some ((BaseCodec.digitsOf 58 bs).map digitChar ++ [0])) := by
  have hle := leading_add_length_digits_le bs
  have hne : bs.reverse ≠ [] := by
    intro hnil
    rw [hnil] at hval
    exact absurd hval (by decide)
  have hlen : ¬ maxStrLen.toNat < bs.reverse.length := by
    rw [List.length_reverse]
    omega
  have hzeros := @zeroLoop_eq size bs [] (by rw [List.length_nil]; omega)
  rw [List.nil_append] at hzeros
  have hn : leNat bs.reverse ≠ 0 := by omega
  obtain ⟨ds, d, hds, hrun⟩ := @encodeLoop_eq size maxStrLen (2 * bs.reverse.length + 1)
    (leNat bs.reverse) bs.reverse (List.replicate (BaseCodec.leading 0 bs) 49) hn rfl
    (fun h => absurd h (by omega)) (by rw [List.length_reverse]; omega)
    (by rw [List.length_replicate]; omega) (by rw [List.length_replicate]; omega)
  have hd : d < 58 :=
    Nat.digits_lt_base (by decide) (hds ▸ List.mem_append_right ds List.mem_cons_self)
  have hd' : (UInt8.ofNat d).toNat = d := UInt8.toNat_ofNat_of_lt' (lt_trans hd (by decide))
  have hlends : ds.length + 1 = (Nat.digits 58 (leNat bs.reverse)).length := by
    rw [hds, List.length_append, List.length_singleton]
  -- the text before the reversal
  have htext : List.replicate (BaseCodec.leading 0 bs) 49 ++ ds.map digitChar ++ [digitChar d]
      = List.replicate (BaseCodec.leading 0 bs) 49
        ++ (Nat.digits 58 (leNat bs.reverse)).map digitChar := by
    rw [hds, List.map_append, List.append_assoc]
    rfl
  have hrev := reversal_append (List.replicate (BaseCodec.leading 0 bs) 49)
    ((Nat.digits 58 (leNat bs.reverse)).map digitChar)
  have hfinal := map_digitChar_digitsOf bs
  rw [cbEncodeBase58, if_neg hlen, if_neg hne, List.reverse_reverse, hzeros, ok_bind]
  simp only
  rw [hrun, ok_bind]
  simp only
  have htop : fetch [UInt8.ofNat d] ([UInt8.ofNat d].length - 1) = .ok (.ofNat d) := rfl
  have hroom : (List.replicate (BaseCodec.leading 0 bs) 49 ++ ds.map digitChar).length < size := by
    rw [List.length_append, List.length_replicate, List.length_map]
    omega
  have hroom' : ((BaseCodec.digitsOf 58 bs).map digitChar).length < size := by
    rw [← hfinal, List.length_append, List.length_replicate, List.length_reverse, List.length_map]
    omega
  rw [htop, ok_bind, hd', fetch_base58Characters hd, ok_bind, putChar_of_lt hroom, ok_bind, htext,
    hrev, hfinal, putChar_of_lt hroom', ok_bind]

end BitcoinAnalysis.BlockchainBase58
