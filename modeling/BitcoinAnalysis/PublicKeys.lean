/-
The two script forms of a public key.

An output can pay to a public key or to its hash, RIPEMD-160 of SHA-256.  The two
forms of an uncompressed key give one address.  A compressed key is hashed with
RIPEMD-160 alone, and a key that starts with 6 or 7 is not hashed at all, so that
the forms of these keys give different addresses (`sameAddress_iff`).
-/
import BitcoinAnalysis.Templates

open Run

namespace BitcoinAnalysis

open BlockchainSha256 BlockchainRipemd160

variable {publicKey : List UInt8}

/-! ### The addresses of a key -/

/-- RIPEMD-160 of SHA-256. -/
def hash160 (publicKey : List UInt8) : Except Fault Address :=
  computeRIPEMD160 (computeSHA256 publicKey).1 32

/-- The encodings of a public key. -/
def KeyEncoding (publicKey : List UInt8) : Prop :=
  (publicKey.length = 65 ∧
    (publicKey[0]? = some 4 ∨ publicKey[0]? = some 6 ∨ publicKey[0]? = some 7)) ∨
  (publicKey.length = 33 ∧ (publicKey[0]? = some 2 ∨ publicKey[0]? = some 3))

/-- The script that pays to a public key. -/
def payToKey (publicKey : List UInt8) : List UInt8 :=
  UInt8.ofNat publicKey.length :: publicKey ++ [opChecksig]

theorem length_payToKey (publicKey : List UInt8) :
    (payToKey publicKey).length = publicKey.length + 2 := by
  rw [payToKey, List.length_append, List.length_cons]
  rfl

theorem returns_hash160 (publicKey : List UInt8) : Returns (hash160 publicKey) := by
  refine returns_computeRIPEMD160 ?_
  rw [(computeSHA256 publicKey).2]
  rfl

/-- The address of a key of 65 bytes. -/
theorem publicKeyAddress_eq (key : Bytes 65) :
    publicKeyAddress key = if key.1[0]? = some 4 then hash160 key.1 else .ok (.replicate 20 0) := by
  have hlt : 0 < key.1.length := by
    rw [key.2]
    decide
  obtain ⟨ripemd, hripemd⟩ := returns_hash160 key.1
  rw [publicKeyAddress, bitcoinPublicKeyToAddress, fetch, List.getElem?_eq_getElem hlt]
  simp only [ok_bind, Option.some.injEq]
  by_cases hfirst : key.1[0] = 4
  · rw [if_pos hfirst, if_pos hfirst, hripemd]
    have hripemd' : computeRIPEMD160 (computeSHA256 key.1).1 32 = .ok ripemd := hripemd
    rw [hripemd', ok_bind, ok_bind, memcpy, dif_pos (by simp [ripemd.2])]
    refine congrArg _ (Subtype.ext ?_)
    show (ripemd.1 ++ _).take 20 = ripemd.1
    exact List.take_left' ripemd.2
  · rw [if_neg hfirst, if_neg hfirst]
    rfl

/-- The address of the script that pays to the hash of a key. -/
theorem outAddress_payToKeyHash (hash : Address) :
    outAddress (payToKeyHash hash) 25 = .ok (true, hash) := by
  have hlen : (payToKeyHash hash).length = 25 := by
    simp [payToKeyHash, hash.2]
  have hmatch : Template.keyHash.Matches (payToKeyHash hash) := ⟨hlen.ge, rfl, rfl, rfl⟩
  have hearlier : ∀ t ∈ [Template.publicKey, .bareKey], ¬ t.Matches (payToKeyHash hash) := by
    simp [Template.Matches, hlen]
  have hcopy : memcpy (payToKeyHash hash) 3 20 = .ok hash := by
    rw [memcpy, dif_pos (by omega)]
    refine congrArg _ (Subtype.ext ?_)
    show (hash.1 ++ _).take 20 = hash.1
    exact List.take_left' hash.2
  rw [outAddress_eq_dispatch hlen]
  show dispatch _ 25 ([.publicKey, .bareKey] ++ .keyHash :: _) = _
  rw [dispatch_of_first hearlier hmatch, Template.address, hcopy]
  rfl

/-- The address of the script that pays to a key of 65 bytes. -/
theorem outAddress_payToKey_of_65 (h : publicKey.length = 65) :
    outAddress (payToKey publicKey) 67
      = (if publicKey[0]? = some 4 then hash160 publicKey else .ok (.replicate 20 0)) >>=
          fun address => .ok (true, address) := by
  have hlen : (payToKey publicKey).length = 67 := by rw [length_payToKey, h]
  have hmatch : Template.publicKey.Matches (payToKey publicKey) := by
    refine ⟨hlen, ?_, ?_⟩
    · rw [payToKey, h]
      rfl
    · rw [payToKey, List.getElem?_append_right (by rw [List.length_cons, h]), List.length_cons, h]
      rfl
  have hkey : memcpy (payToKey publicKey) 1 65 = .ok ⟨publicKey, h⟩ := by
    rw [memcpy, dif_pos (by omega)]
    refine congrArg _ (Subtype.ext ?_)
    show (publicKey ++ _).take 65 = publicKey
    exact List.take_left' h
  rw [outAddress_eq_dispatch hlen, Template.all, dispatch, if_pos hmatch, Template.address, hkey,
    ok_bind, publicKeyAddress_eq]

/-- The address of the script that pays to a key of 33 bytes. -/
theorem outAddress_payToKey_of_33 (h : publicKey.length = 33) :
    outAddress (payToKey publicKey) 35
      = computeRIPEMD160 publicKey 33 >>= fun address => .ok (true, address) := by
  have hlen : (payToKey publicKey).length = 35 := by rw [length_payToKey, h]
  have hlength : (payToKey publicKey)[0]? = some 33 := by
    rw [payToKey, h]
    rfl
  have hmatch : Template.compressedKey.Matches (payToKey publicKey) := by
    refine ⟨hlen, hlength, ?_⟩
    rw [payToKey, List.getElem?_append_right (by rw [List.length_cons, h]), List.length_cons, h]
    rfl
  -- the templates in front of it are for other lengths or start with `OP_DUP`
  have hearlier : ∀ t ∈ [Template.publicKey, .bareKey, .keyHash, .scriptHash, .nop2],
      ¬ t.Matches (payToKey publicKey) := by
    have hdup : ¬ (payToKey publicKey)[0]? = some opDup := by
      rw [hlength]
      decide
    simp only [List.forall_mem_cons, Template.Matches, hlen, hdup]
    simp
  have hhash : computeRIPEMD160 ((payToKey publicKey).drop 1) 33
      = computeRIPEMD160 publicKey 33 := by
    -- the 33 bytes behind the first are the key
    have hle : (33 : UInt32).toNat ≤ ((payToKey publicKey).drop 1).length := by
      rw [List.length_drop, length_payToKey, h]
      decide
    have htake : ((payToKey publicKey).drop 1).take (33 : UInt32).toNat
        = publicKey.take (33 : UInt32).toNat := List.take_append_of_le_length h.ge
    have hle' : (33 : UInt32).toNat ≤ publicKey.length := h.ge
    rw [computeRIPEMD160_eq hle, computeRIPEMD160_eq hle']
    exact congrArg Except.ok (Subtype.ext (congrArg Ripemd160.digest htake))
  rw [outAddress_eq_dispatch hlen]
  show dispatch _ 35 ([.publicKey, .bareKey, .keyHash, .scriptHash, .nop2] ++ .compressedKey :: _) = _
  rw [dispatch_of_first hearlier hmatch, Template.address, hhash]

/-- Both forms of the key give its hash. -/
def SameAddress (publicKey : List UInt8) : Prop :=
  ∃ hash, hash160 publicKey = .ok hash ∧
    outAddress (payToKey publicKey) (UInt32.ofNat (publicKey.length + 2)) = .ok (true, hash) ∧
    outAddress (payToKeyHash hash) 25 = .ok (true, hash)

theorem sameAddress_iff_payToKey {hash : Address} (h : hash160 publicKey = .ok hash) :
    SameAddress publicKey ↔
      outAddress (payToKey publicKey) (UInt32.ofNat (publicKey.length + 2)) = .ok (true, hash) := by
  constructor
  · rintro ⟨hash', hhash', hkey, -⟩
    rw [h] at hhash'
    cases hhash'
    exact hkey
  · intro hkey
    exact ⟨hash, h, hkey, outAddress_payToKeyHash hash⟩

/-- **The two forms of a public key give one address**, the hash of the key, if
and only if the key starts with 4, but for keys of which two different hashes
happen to be equal. -/
theorem sameAddress_iff (h : KeyEncoding publicKey) :
    SameAddress publicKey ↔
      publicKey[0]? = some 4 ∨
      (publicKey.length = 33 ∧ computeRIPEMD160 publicKey 33 = hash160 publicKey) ∨
      (publicKey.length = 65 ∧ hash160 publicKey = .ok (.replicate 20 0)) := by
  obtain ⟨hash, hhash⟩ := returns_hash160 publicKey
  rw [sameAddress_iff_payToKey hhash, hhash]
  rcases h with ⟨h65, -⟩ | ⟨h33, hfirst⟩
  · have hform := outAddress_payToKey_of_65 h65
    rw [h65]
    show outAddress (payToKey publicKey) 67 = _ ↔ _
    by_cases hfour : publicKey[0]? = some 4
    · rw [hform, if_pos hfour, hhash]
      exact iff_of_true rfl (.inl hfour)
    · -- the 25 bytes of the address and its checksum stay 0
      rw [hform, if_neg hfour]
      simp [hfour, eq_comm]
  · -- a compressed key is hashed once only
    have hfour : ¬ publicKey[0]? = some 4 := by
      rcases hfirst with h | h
      · rw [h]
        decide
      · rw [h]
        decide
    have hreturns : Returns (computeRIPEMD160 publicKey 33) := returns_computeRIPEMD160 h33.ge
    obtain ⟨ripemd, hripemd⟩ := hreturns
    rw [h33]
    show outAddress (payToKey publicKey) 35 = _ ↔ _
    rw [outAddress_payToKey_of_33 h33, hripemd]
    simp [hfour]

theorem sameAddress_uncompressed : SameAddress (4 :: List.replicate 64 1) :=
  (sameAddress_iff (.inl ⟨rfl, .inl rfl⟩)).mpr (.inl rfl)

/-- A compressed key whose forms give two addresses, and two other keys whose
pay-to-public-key forms give one. -/
theorem addresses_differ :
    (∃ r, hash160 (2 :: List.replicate 32 1) = .ok r ∧
      ∃ r', outAddress (payToKey (2 :: List.replicate 32 1)) 35 = .ok r' ∧ r'.2 ≠ r) ∧
    (∃ r, outAddress (payToKey (6 :: List.replicate 64 1)) 67 = .ok r ∧
      r = (true, .replicate 20 0)) ∧
    ∃ r, outAddress (payToKey (7 :: List.replicate 64 2)) 67 = .ok r ∧
      r = (true, .replicate 20 0) := by
  decide +kernel

end BitcoinAnalysis
