/-
`hash.h`, namespace `BLOCKCHAIN_BITCOIN_ADDRESS`: addresses as texts.

An address of 25 bytes is a version byte, the 20 bytes of a hash and the first
four bytes of the double SHA-256 of these 21.

* `address_roundTrip`: the text of an address is read back as this address.
* `bitcoinAsciiToAddress_eq`: which strings are accepted.  A character outside
  the alphabet counts for the digit its range gives, and one right byte of the
  checksum is enough.
-/
import BitcoinAnalysis.BlockchainBase58
import BitcoinAnalysis.Wire

open Run LittleEndian

namespace BitcoinAnalysis

open BlockchainSha256 BlockchainBase58
open BlockchainRipemd160 (fetch)

theorem length_withChecksum (ripeMD160 : Address) (hash1 : Hash) :
    (0 :: ripeMD160.1 ++ hash1.1.take 4).length = 25 := by
  rw [List.length_append, List.length_cons, ripeMD160.2, List.length_take, hash1.2]
  rfl

def bitcoinRIPEMD160ToAddress (ripeMD160 : Address) : Bytes 25 :=
  let hash1 := computeSHA256 (0 :: ripeMD160.1)
  let hash1 := computeSHA256 hash1.1
  ⟨0 :: ripeMD160.1 ++ hash1.1.take 4, length_withChecksum ripeMD160 hash1⟩

/-- Returns what is written to `output`, a buffer of `size` bytes. -/
def bitcoinAddressToAscii (size : ℕ) (address : Bytes 25) (maxOutputLen : UInt32) :
    Except Fault (Option (List UInt8)) :=
  encodeBase58 size address.1 25 true maxOutputLen

def bitcoinAsciiToAddress (input : List UInt8) (output : Bytes 25) :
    Except Fault (Bool × Bytes 25) := do
  let (len, output) ← decodeBase58 input output 25 true
  if len = 25 then
    let checksum := computeSHA256 (output.1.take 21)
    let checksum := computeSHA256 checksum.1
    if output.1.getD 21 0 = checksum.1.getD 0 0 ∨ output.1.getD 22 0 = checksum.1.getD 1 0 ∨
        output.1.getD 23 0 = checksum.1.getD 2 0 ∨ output.1.getD 24 0 = checksum.1.getD 3 0 then
      .ok (true, output)
    else .ok (false, output)
  else .ok (false, output)

/-- The characters of a string in memory, before its zero. -/
def cString (buf : List UInt8) : List UInt8 := buf.takeWhile (· ≠ 0)

/-! ### What is accepted -/

/-- The bytes a string stands for if each character counts for the digit of its
range. -/
def readByRanges (str : List UInt8) : List UInt8 := BaseCodec.bytesOf 58 (str.map rangeIndex)

/-- A byte of the checksum is right. -/
def ChecksumByte (bytes : List UInt8) (i : ℕ) : Prop :=
  bytes.getD (21 + i) 0 = (Sha256.digest (Sha256.digest (bytes.take 21))).getD i 0

instance decidableChecksumByte (bytes : List UInt8) (i : ℕ) : Decidable (ChecksumByte bytes i) :=
  inferInstanceAs (Decidable (_ = _))

/-- The text of an address: all characters in the alphabet, 25 bytes, and a right
checksum. -/
def ValidAddressText (str : List UInt8) : Prop :=
  ∃ bytes, BaseCodec.decode base58Characters str = some bytes ∧ bytes.length = 25 ∧
    ∀ i < 4, ChecksumByte bytes i

theorem decodeBase58_eq {str : List UInt8} (hne : str ≠ []) (hlen : str.length ≤ 100)
    (output : Bytes 25) :
    ∃ len out, decodeBase58 str output 25 true = .ok (len, out) ∧
      (len = 25 ↔ (readByRanges str).length = 25) ∧
      ((readByRanges str).length = 25 → out.1 = readByRanges str) := by
  have hrun : cbDecodeBase58 [] str = .ok (readByRanges str).reverse := cbDecodeBase58_eq hne hlen
  rw [decodeBase58, hrun, ok_bind, List.length_reverse, if_pos rfl, List.reverse_reverse]
  by_cases hle : (readByRanges str).length ≤ (25 : UInt32).toNat
  · have hle' : (readByRanges str).length ≤ 25 := hle
    obtain ⟨out, hout, hval⟩ := @writeBytes_eq _ output 0 (readByRanges str) (by omega)
    refine ⟨.ofNat (readByRanges str).length, out, ?_, ?_, fun h25 => ?_⟩
    · rw [if_pos hle, hout, ok_bind]
    · rw [← UInt32.toNat_inj, UInt32.toNat_ofNat_of_lt' (lt_of_le_of_lt hle' (by decide))]
      rfl
    · have hdrop : output.1.drop (0 + (readByRanges str).length) = [] :=
        List.drop_eq_nil_of_le (by rw [output.2]; omega)
      rw [hval, overwrite, hdrop, List.append_nil]
      rfl
  · have h25 : (readByRanges str).length ≠ 25 := fun h => hle h.le
    refine ⟨0, output, if_neg hle, iff_of_false (by decide) h25, fun h => absurd h h25⟩

theorem exists_lt_four {P : ℕ → Prop} : (∃ i < 4, P i) ↔ P 0 ∨ P 1 ∨ P 2 ∨ P 3 := by
  constructor
  · rintro ⟨i, hi, h⟩
    interval_cases i
    · exact .inl h
    · exact .inr (.inl h)
    · exact .inr (.inr (.inl h))
    · exact .inr (.inr (.inr h))
  · rintro (h | h | h | h)
    · exact ⟨0, by decide, h⟩
    · exact ⟨1, by decide, h⟩
    · exact ⟨2, by decide, h⟩
    · exact ⟨3, by decide, h⟩

/-- **Which strings are accepted.** -/
theorem bitcoinAsciiToAddress_eq {str : List UInt8} (hne : str ≠ []) (hlen : str.length ≤ 100)
    (output : Bytes 25) :
    ∃ accepted out, bitcoinAsciiToAddress str output = .ok (accepted, out) ∧
      (accepted = true ↔ (readByRanges str).length = 25 ∧
        ∃ i < 4, ChecksumByte (readByRanges str) i) ∧
      ((readByRanges str).length = 25 → out.1 = readByRanges str) := by
  obtain ⟨len, out, hrun, hlen25, hout⟩ := decodeBase58_eq hne hlen output
  rw [bitcoinAsciiToAddress, hrun, ok_bind, exists_lt_four]
  simp only
  by_cases h25 : len = 25
  · have hbytes := hlen25.mp h25
    rw [if_pos h25, hout hbytes, computeSHA256_eq, computeSHA256_eq]
    by_cases hsum : ChecksumByte (readByRanges str) 0 ∨ ChecksumByte (readByRanges str) 1 ∨
        ChecksumByte (readByRanges str) 2 ∨ ChecksumByte (readByRanges str) 3
    · exact ⟨true, out, if_pos hsum, iff_of_true rfl ⟨hbytes, hsum⟩, hout⟩
    · exact ⟨false, out, if_neg hsum, iff_of_false (by decide) fun h => hsum h.2, hout⟩
  · have hbytes : (readByRanges str).length ≠ 25 := fun h => h25 (hlen25.mpr h)
    exact ⟨false, out, if_neg h25, iff_of_false (by decide) fun h => hbytes h.1, hout⟩

/-- In a text over the alphabet each character counts for its place there. -/
theorem readByRanges_of_mem {str : List UInt8} (h : ∀ c ∈ str, c ∈ base58Characters) :
    BaseCodec.decode base58Characters str = some (readByRanges str) := by
  have hindex : ∀ c ∈ base58Characters, base58Characters.idxOf c = rangeIndex c := by decide +kernel
  have hmap : str.map (base58Characters.idxOf ·) = str.map rangeIndex :=
    List.map_congr_left fun c hc => hindex c (h c hc)
  rw [BaseCodec.decode, if_pos (by simpa using h), hmap]
  rfl

theorem validAddressText_iff (str : List UInt8) :
    ValidAddressText str ↔ (∀ c ∈ str, c ∈ base58Characters) ∧ (readByRanges str).length = 25 ∧
      ∀ i < 4, ChecksumByte (readByRanges str) i := by
  by_cases h : ∀ c ∈ str, c ∈ base58Characters
  · rw [ValidAddressText, readByRanges_of_mem h]
    constructor
    · rintro ⟨bytes, hbytes, hvalid⟩
      rw [← Option.some_inj.mp hbytes] at hvalid
      exact ⟨h, hvalid⟩
    · exact fun hvalid => ⟨_, rfl, hvalid.2⟩
  · refine iff_of_false ?_ fun hvalid => h hvalid.1
    rintro ⟨bytes, hbytes, -⟩
    rw [BaseCodec.decode, if_neg (by simpa using h)] at hbytes
    cases hbytes

/-- **A string is accepted exactly if it is the text of an address, unless** it
reads as 25 bytes with a right byte in the checksum, and has a character outside
the alphabet or a wrong byte there. -/
theorem bitcoinAsciiToAddress_iff {str : List UInt8} (hne : str ≠ []) (hlen : str.length ≤ 100)
    (output : Bytes 25) :
    ∃ accepted out, bitcoinAsciiToAddress str output = .ok (accepted, out) ∧
      ((accepted = true ↔ ValidAddressText str) ↔
        ((readByRanges str).length = 25 → (∃ i < 4, ChecksumByte (readByRanges str) i) →
          (∀ c ∈ str, c ∈ base58Characters) ∧ ∀ i < 4, ChecksumByte (readByRanges str) i)) := by
  obtain ⟨accepted, out, hrun, haccepted, -⟩ := bitcoinAsciiToAddress_eq hne hlen output
  refine ⟨accepted, out, hrun, ?_⟩
  rw [haccepted, validAddressText_iff]
  constructor
  · intro hiff h25 hone
    obtain ⟨halpha, -, hall⟩ := hiff.mp ⟨h25, hone⟩
    exact ⟨halpha, hall⟩
  · intro hcond
    constructor
    · rintro ⟨h25, hone⟩
      obtain ⟨halpha, hall⟩ := hcond h25 hone
      exact ⟨halpha, h25, hall⟩
    · rintro ⟨-, h25, hall⟩
      exact ⟨h25, 0, by decide, hall 0 (by decide)⟩

/-- The text of the address of twenty zeros. -/
def zerosText : List UInt8 := List.replicate 21 49 ++ [52, 111, 76, 118, 84, 50]

theorem bitcoinAsciiToAddress_zerosText :
    ∃ accepted out, bitcoinAsciiToAddress zerosText (.replicate 25 0) = .ok (accepted, out) ∧
      (accepted = true ↔ ValidAddressText zerosText) := by
  obtain ⟨accepted, out, hrun, hiff⟩ :=
    bitcoinAsciiToAddress_iff (by decide : zerosText ≠ []) (by decide) (.replicate 25 0)
  refine ⟨accepted, out, hrun, hiff.mpr fun _ _ => ⟨?_, ?_⟩⟩
  · decide +kernel
  · decide +kernel

/-- A semicolon instead of the `4`, and a last character that is one too high. -/
theorem bitcoinAsciiToAddress_mistyped :
    (∃ r, bitcoinAsciiToAddress (List.replicate 21 49 ++ [59, 111, 76, 118, 84, 50])
        (.replicate 25 0) = .ok r ∧ r.1 = true) ∧
      ¬ ValidAddressText (List.replicate 21 49 ++ [59, 111, 76, 118, 84, 50]) ∧
    (∃ r, bitcoinAsciiToAddress (List.replicate 21 49 ++ [52, 111, 76, 118, 84, 51])
        (.replicate 25 0) = .ok r ∧ r.1 = true) ∧
      ¬ ValidAddressText (List.replicate 21 49 ++ [52, 111, 76, 118, 84, 51]) := by
  refine ⟨by decide +kernel, fun h => ?_, by decide +kernel, fun h => ?_⟩
  · exact absurd ((validAddressText_iff _).mp h).1 (by decide +kernel)
  · exact absurd (((validAddressText_iff _).mp h).2.2 3 (by decide)) (by decide +kernel)

/-! ### Round trip -/

theorem digitChar_spec : ∀ d < 58, digitChar d ≠ 0 ∧ rangeIndex (digitChar d) = d := by
  decide +kernel

/-- The value of an address is not a single digit: below the hash stands the
checksum, and the one of twenty zeros is large. -/
theorem le_leNat_address (ripeMD160 : Address) :
    58 ≤ leNat (bitcoinRIPEMD160ToAddress ripeMD160).1.reverse := by
  by_cases hzero : leNat ripeMD160.1.reverse = 0
  · have hzeros := eq_replicate_of_leNat_eq_zero hzero
    rw [List.length_reverse, ripeMD160.2] at hzeros
    have heq : ripeMD160 = .replicate 20 0 := by
      apply Subtype.ext
      rw [← List.reverse_reverse ripeMD160.1, hzeros, List.reverse_replicate]
      rfl
    rw [heq]
    decide +kernel
  · set checksum := (computeSHA256 (computeSHA256 (0 :: ripeMD160.1)).1).1.take 4 with hchecksum
    have hlen : checksum.reverse.length = 4 := by
      rw [List.length_reverse, hchecksum, List.length_take,
        (computeSHA256 (computeSHA256 (0 :: ripeMD160.1)).1).2]
      rfl
    have hval : leNat (bitcoinRIPEMD160ToAddress ripeMD160).1.reverse
        = leNat checksum.reverse + 256 ^ 4 * leNat ripeMD160.1.reverse := by
      show leNat (0 :: ripeMD160.1 ++ checksum).reverse = _
      rw [List.reverse_append, List.reverse_cons, leNat_append, hlen, leNat_append,
        leNat_singleton, UInt8.toNat_zero, Nat.mul_zero, Nat.add_zero]
    rw [hval]
    omega

/-- The loop that copies the address in the opposite order. -/
theorem mapM_fetch_reverse (address : Bytes 25) :
    (List.range 25).mapM (fun i => fetch address.1 (25 - 1 - UInt32.ofNat i).toNat)
      = .ok address.1.reverse := by
  have hindex : ∀ i < 25, ((25 : UInt32) - 1 - UInt32.ofNat i).toNat = 24 - i := by decide
  refine mapM_eq_ok.mpr (List.forall₂_iff_get.mpr ⟨?_, fun i hi hi' => ?_⟩)
  · rw [List.length_range, List.length_reverse, address.2]
  · have hi25 : i < 25 := hi.trans_eq List.length_range
    have hlt : 24 - i < address.1.length := by
      rw [address.2]
      omega
    rw [List.get_eq_getElem, List.getElem_range, hindex i hi25, fetch, List.getElem?_eq_getElem hlt,
      List.get_eq_getElem, List.getElem_reverse]
    simp only [address.2]

theorem encodeBase58_eq {size : ℕ} {maxStrLen : UInt32} (address : Bytes 25)
    (hval : 58 ≤ leNat address.1.reverse) (hmax : 50 < maxStrLen.toNat) (hsize : 50 < size) :
    encodeBase58 size address.1 25 true maxStrLen
      = .ok (some ((BaseCodec.digitsOf 58 address.1).map digitChar ++ [0])) := by
  have htake : address.1.reverse.take (25 : UInt32).toNat = address.1.reverse :=
    List.take_of_length_le (by rw [List.length_reverse, address.2]; decide)
  rw [encodeBase58, if_neg (by decide), if_pos rfl, mapM_fetch_reverse, ok_bind, htake]
  exact cbEncodeBase58_eq hval (by rw [address.2]; exact hmax) (by rw [address.2]; exact hsize)

theorem checksumByte_address (ripeMD160 : Address) {i : ℕ} (hi : i < 4) :
    ChecksumByte (bitcoinRIPEMD160ToAddress ripeMD160).1 i := by
  have hlen : (0 :: ripeMD160.1).length = 21 := by rw [List.length_cons, ripeMD160.2]
  have hbytes : (bitcoinRIPEMD160ToAddress ripeMD160).1 = (0 :: ripeMD160.1)
      ++ (Sha256.digest (Sha256.digest (0 :: ripeMD160.1))).take 4 := by
    rw [← twiceSHA256_eq]
    rfl
  rw [ChecksumByte, hbytes, List.take_left' hlen, List.getD_eq_getElem?_getD,
    List.getElem?_append_right (by omega), hlen, Nat.add_sub_cancel_left,
    List.getElem?_take_of_lt hi, ← List.getD_eq_getElem?_getD]

section Text

variable (address : Bytes 25)

theorem digitsOf_lt : ∀ d ∈ BaseCodec.digitsOf 58 address.1, d < 58 := by
  intro d hd
  rcases List.mem_append.mp hd with hzero | hdigit
  · rw [List.eq_of_mem_replicate hzero]
    decide
  · exact Nat.digits_lt_base (by decide) (List.mem_reverse.mp hdigit)

/-- No character of the text is the zero that ends it. -/
theorem cString_digitsOf :
    cString ((BaseCodec.digitsOf 58 address.1).map digitChar ++ [0])
      = (BaseCodec.digitsOf 58 address.1).map digitChar := by
  have hpos : ∀ c ∈ (BaseCodec.digitsOf 58 address.1).map digitChar, decide (c ≠ 0) = true := by
    intro c hc
    obtain ⟨d, hd, rfl⟩ := List.mem_map.mp hc
    exact decide_eq_true (digitChar_spec d (digitsOf_lt address d hd)).1
  rw [cString, List.takeWhile_append_of_pos hpos]
  simp

theorem readByRanges_digitsOf :
    readByRanges ((BaseCodec.digitsOf 58 address.1).map digitChar) = address.1 := by
  have hindex : ((BaseCodec.digitsOf 58 address.1).map digitChar).map rangeIndex
      = BaseCodec.digitsOf 58 address.1 := by
    rw [List.map_map]
    refine (List.map_congr_left fun d hd => ?_).trans (List.map_id _)
    exact (digitChar_spec d (digitsOf_lt address d hd)).2
  rw [readByRanges, hindex, BaseCodec.bytesOf_digitsOf]

theorem length_digitsOf_le : (BaseCodec.digitsOf 58 address.1).length ≤ 50 := by
  have h := leading_add_length_digits_le address.1
  rw [address.2] at h
  rw [BaseCodec.digitsOf, List.length_append, List.length_replicate, List.length_reverse]
  exact h

end Text

/-- **An address is read back from its text**, with a buffer of 64 bytes. -/
theorem address_roundTrip (ripeMD160 : Address) (output : Bytes 25) :
    ∃ text, bitcoinAddressToAscii 64 (bitcoinRIPEMD160ToAddress ripeMD160) 64 = .ok (some text) ∧
      bitcoinAsciiToAddress (cString text) output
        = .ok (true, bitcoinRIPEMD160ToAddress ripeMD160) := by
  set address := bitcoinRIPEMD160ToAddress ripeMD160
  refine ⟨_, encodeBase58_eq address (le_leNat_address ripeMD160) (by decide) (by decide), ?_⟩
  rw [cString_digitsOf]
  have hread := readByRanges_digitsOf address
  have hlen : ((BaseCodec.digitsOf 58 address.1).map digitChar).length ≤ 100 := by
    rw [List.length_map]
    exact (length_digitsOf_le address).trans (by decide)
  have hne : (BaseCodec.digitsOf 58 address.1).map digitChar ≠ [] := by
    intro hnil
    rw [hnil] at hread
    have h25 := address.2
    rw [← hread] at h25
    exact absurd h25 (by decide)
  obtain ⟨accepted, out, hrun, haccepted, hout⟩ := bitcoinAsciiToAddress_eq hne hlen output
  rw [hread, address.2] at haccepted hout
  have hout' : out = address := Subtype.ext (hout rfl)
  have hchecksum : ChecksumByte address.1 0 := checksumByte_address ripeMD160 (by decide)
  rw [hrun, hout', haccepted.mpr ⟨rfl, 0, by decide, hchecksum⟩]

end BitcoinAnalysis
