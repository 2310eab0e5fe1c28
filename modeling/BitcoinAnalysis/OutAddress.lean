/-
`outAddress` of `block.h`: the 20-byte address of an output script.

The branches stand in the order of the source, with their tests evaluated from
left to right; every access to the script is checked.  `outAddress_isOk` says
that on a script of the given length no access fails, so that an output always
gets an address.
-/
import BitcoinAnalysis.BlockchainSha256
import BitcoinAnalysis.RipemdStandard
import BitcoinAnalysis.TransactionProcess

open Run

namespace BitcoinAnalysis

open BlockchainSha256 BlockchainRipemd160

/-! ### Script opcodes -/

def op1 : UInt8 := 0x51
def op2 : UInt8 := 0x52
def op3 : UInt8 := 0x53
def opReturn : UInt8 := 0x6a
def opDrop : UInt8 := 0x75
def opDup : UInt8 := 0x76
def opEqualverify : UInt8 := 0x88
def opHash160 : UInt8 := 0xa9
def opChecksig : UInt8 := 0xac
def opCheckmultisig : UInt8 := 0xae
def opNop2 : UInt8 := 0xb1

def twiceSHA256 (input : List UInt8) : Hash :=
  let midTemp := computeSHA256 input
  computeSHA256 midTemp.1

/-- The address and checksum of an uncompressed public key; `output` stays as it
was if the key does not start with `0x04`. -/
def bitcoinPublicKeyToAddress (input : Bytes 65) (output : Bytes 25) :
    Except Fault (Bool × Bytes 25) := do
  let first ← fetch input.1 0
  if first = 0x04 then
    let hash1 := computeSHA256 input.1
    let ripemd ← computeRIPEMD160 hash1.1 32
    let hash1 := computeSHA256 (0 :: ripemd.1)
    let hash1 := computeSHA256 hash1.1
    .ok (true, ⟨0 :: ripemd.1 ++ hash1.1.take 4, by
      rw [List.length_append, List.length_cons, ripemd.2, List.length_take, hash1.2]; rfl⟩)
  else .ok (false, output)

/-- The address part of the 25 bytes of a public key. -/
def publicKeyAddress (publicKey : Bytes 65) : Except Fault Address := do
  let (_, addressAndCheck) ← bitcoinPublicKeyToAddress publicKey (.replicate 25 0)
  memcpy addressAndCheck.1 1 20

/-- `Script[i] == b` -/
def byteIs (script : List UInt8) (i : ℕ) (b : UInt8) : Except Fault Bool := do
  let x ← fetch script i
  .ok (x = b)

/-- The test of the scan at one position. -/
def scanHit (script : List UInt8) (i : ℕ) : Except Fault Bool :=
  byteIs script i opDup <&&> byteIs script (i + 1) opHash160 <&&> byteIs script (i + 2) 20
    <&&> byteIs script (i + 23) opEqualverify <&&> byteIs script (i + 24) opChecksig

/-- The scan for `OP_DUP OP_HASH160 20 … OP_EQUALVERIFY OP_CHECKSIG`: `n`
positions from `i` on. -/
def scan (script : List UInt8) : ℕ → ℕ → Except Fault (Option Address)
  | 0, _ => .ok none
  | n + 1, i => do
    if ← scanHit script i then
      let address ← memcpy script (i + 3) 20
      .ok (some address)
    else scan script n (i + 1)

def scanScript (script : List UInt8) (scriptLength : UInt32) : Except Fault (Option Address) :=
  if scriptLength > 25 then scan script (scriptLength - 25).toNat 0 else .ok none

def outAddress (script : List UInt8) (scriptLength : UInt32) : Except Fault (Bool × Address) := do
  if ← .ok (scriptLength == 67) <&&> byteIs script 0 65 <&&> byteIs script 66 opChecksig then
    let publicKey ← memcpy script 1 65
    let address ← publicKeyAddress publicKey
    .ok (true, address)
  else if ← .ok (scriptLength == 66) <&&> byteIs script 65 opChecksig then
    let publicKey ← memcpy script 0 65
    let address ← publicKeyAddress publicKey
    .ok (true, address)
  else if ← .ok (decide (scriptLength ≥ 25)) <&&> byteIs script 0 opDup <&&> byteIs script 1 opHash160
      <&&> byteIs script 2 20 then
    let address ← memcpy script 3 20
    .ok (true, address)
  else if ← .ok (scriptLength == 23) <&&> byteIs script 0 opHash160 <&&> byteIs script 1 20 then
    let address ← memcpy script 2 20
    .ok (true, address)
  else if ← .ok (scriptLength == 23) <&&> byteIs script 0 20 <&&> byteIs script 21 opNop2
      <&&> byteIs script 22 opDrop then
    let address ← memcpy script 1 20
    .ok (true, address)
  else if ← .ok (scriptLength == 35) <&&> byteIs script 0 33 <&&> byteIs script 34 opChecksig then
    let address ← computeRIPEMD160 (script.drop 1) 33
    .ok (true, address)
  else if ← .ok (scriptLength == 33) <&&> byteIs script 0 32 then
    let address ← computeRIPEMD160 (script.drop 1) 32
    .ok (true, address)
  else if ← .ok (scriptLength == 37) <&&> byteIs script 0 36 then
    let address ← computeRIPEMD160 (script.drop 1) 36
    .ok (true, address)
  else if ← .ok (scriptLength == 22) <&&> byteIs script 0 opReturn <&&> byteIs script 1 20 then
    let address ← memcpy script 2 20
    .ok (true, address)
  else if ← .ok (decide (scriptLength > 35))
      <&&> (byteIs script 0 op1 <||> byteIs script 0 op2 <||> byteIs script 0 op3)
      <&&> byteIs script (scriptLength - 1).toNat opCheckmultisig then
    let address ← computeRIPEMD160 script scriptLength
    .ok (true, address)
  else if scriptLength < 20 then
    .ok (true, .replicate 20 49)
  else
    match ← scanScript script scriptLength with
    | some address => .ok (true, address)
    | none =>
      let address ← computeRIPEMD160 script scriptLength
      .ok (false, address)

/-! ### No access fails -/

theorem returns_fetch {buf : List UInt8} {i : ℕ} (h : i < buf.length) : Returns (fetch buf i) := by
  rw [fetch, List.getElem?_eq_getElem h]
  exact returns_ok _

theorem returns_memcpy {buf : List UInt8} {off n : ℕ} (h : off + n ≤ buf.length) :
    Returns (memcpy buf off n) := by
  rw [memcpy, dif_pos h]
  exact returns_ok _

/-- The hash of a message reads its bytes and no others. -/
theorem returns_computeRIPEMD160 {message : List UInt8} {length : UInt32}
    (h : length.toNat ≤ message.length) : Returns (computeRIPEMD160 message length) :=
  ⟨_, computeRIPEMD160_eq h⟩

theorem returns_publicKeyAddress (publicKey : Bytes 65) : Returns (publicKeyAddress publicKey) := by
  refine returns_bind (returns_bind (returns_fetch ?_) fun first _ => ?_) fun out _ => ?_
  · rw [publicKey.2]
    decide
  · split
    · refine returns_bind (returns_computeRIPEMD160 ?_) fun _ _ => returns_ok _
      rw [(computeSHA256 publicKey.1).2]
      rfl
    · exact returns_ok _
  · refine returns_memcpy ?_
    rw [out.2.2]
    decide

theorem returns_byteIs {script : List UInt8} {i : ℕ} {b : UInt8} (h : i < script.length) :
    Returns (byteIs script i b) :=
  returns_bind (returns_fetch h) fun _ _ => returns_ok _

theorem returns_scan {script : List UInt8} {n i : ℕ} (h : i + n + 24 ≤ script.length) :
    Returns (scan script n i) := by
  induction n generalizing i with
  | zero => exact returns_ok _
  | succ n ih =>
    have hhit : Returns (scanHit script i) :=
      returns_andM (returns_byteIs (by omega)) fun _ =>
        returns_andM (returns_byteIs (by omega)) fun _ =>
        returns_andM (returns_byteIs (by omega)) fun _ =>
        returns_andM (returns_byteIs (by omega)) fun _ => returns_byteIs (by omega)
    refine returns_bind hhit fun b _ => returns_ite (fun _ => ?_) fun _ => ih (by omega)
    exact returns_bind (returns_memcpy (by omega)) fun _ _ => returns_ok _

theorem returns_scanScript {script : List UInt8} {scriptLength : UInt32}
    (h : script.length = scriptLength.toNat) : Returns (scanScript script scriptLength) := by
  refine returns_ite (fun hc => returns_scan ?_) fun _ => returns_ok _
  have hlen : 25 < scriptLength.toNat := UInt32.lt_iff_toNat_lt.mp hc
  have hsub : (scriptLength - 25).toNat = scriptLength.toNat - 25 :=
    UInt32.toNat_sub_of_le _ _ (UInt32.le_iff_toNat_le.mpr (show 25 ≤ _ by omega))
  omega

/-- A branch of `outAddress`: its test starts with a test of the length. -/
theorem returns_branch {P : Prop} {c : Bool} {rest : Except Fault Bool}
    {A B : Except Fault (Bool × Address)} (hlen : c = true → P) (hrest : P → Returns rest)
    (hA : P → Returns A) (hB : Returns B) : Returns (do if ← .ok c <&&> rest then A else B) := by
  refine returns_bind (returns_andM (returns_ok c) fun h => hrest (hlen (Except.ok.inj h)))
    fun b hb => ?_
  refine returns_ite (fun hc => ?_) fun _ => hB
  subst hc
  exact hA (hlen (Except.ok.inj (left_of_andM hb)))

/-! ### What the branches do -/

theorem returns_address {x : Except Fault Address} (h : Returns x) (ok : Bool) :
    Returns (do let address ← x; .ok (ok, address)) :=
  returns_bind h fun _ _ => returns_ok _

theorem returns_copy {script : List UInt8} {off : ℕ} (h : off + 20 ≤ script.length) :
    Returns (do let address ← memcpy script off 20; .ok (true, address)) :=
  returns_address (returns_memcpy h) true

theorem returns_key {script : List UInt8} {off : ℕ} (h : off + 65 ≤ script.length) : Returns (do
    let publicKey ← memcpy script off 65
    let address ← publicKeyAddress publicKey
    .ok (true, address)) :=
  returns_bind (returns_memcpy h) fun key _ => returns_address (returns_publicKeyAddress key) true

/-- The hash of the `n` bytes behind the first. -/
theorem returns_hash {script : List UInt8} {n : UInt32} (h : n.toNat + 1 ≤ script.length) :
    Returns (do let address ← computeRIPEMD160 (script.drop 1) n; .ok (true, address)) := by
  refine returns_address (returns_computeRIPEMD160 ?_) true
  rw [List.length_drop]
  omega

/-- **`outAddress` stays inside the script.** -/
theorem outAddress_isOk {script : List UInt8} {scriptLength : UInt32}
    (h : script.length = scriptLength.toNat) : Returns (outAddress script scriptLength) := by
  have heq : ∀ {n : UInt32}, (scriptLength == n) = true → script.length = n.toNat := by
    intro n hn
    rw [h, eq_of_beq hn]
  have hge : ∀ {n : UInt32}, decide (scriptLength ≥ n) = true → n.toNat ≤ script.length := by
    intro n hn
    rw [h]
    exact UInt32.le_iff_toNat_le.mp (of_decide_eq_true hn)
  have hgt : ∀ {n : UInt32}, decide (scriptLength > n) = true → n.toNat < script.length := by
    intro n hn
    rw [h]
    exact UInt32.lt_iff_toNat_lt.mp (of_decide_eq_true hn)
  have hbyte : ∀ {i : ℕ} (b : UInt8), i < script.length → Returns (byteIs script i b) :=
    fun _ hi => returns_byteIs hi
  rw [outAddress]
  -- branch by branch: the length, the rest of the test, and what is done when it holds
  refine returns_branch (P := script.length = 67) heq (fun hlen => ?_)
    (fun hlen => returns_key (by omega)) ?_
  · exact returns_andM (hbyte 65 (by omega)) fun _ => hbyte opChecksig (by omega)
  refine returns_branch (P := script.length = 66) heq (fun hlen => hbyte opChecksig (by omega))
    (fun hlen => returns_key (by omega)) ?_
  refine returns_branch (P := 25 ≤ script.length) hge (fun hlen => ?_)
    (fun hlen => returns_copy (by omega)) ?_
  · exact returns_andM (hbyte opDup (by omega)) fun _ =>
      returns_andM (hbyte opHash160 (by omega)) fun _ => hbyte 20 (by omega)
  refine returns_branch (P := script.length = 23) heq (fun hlen => ?_)
    (fun hlen => returns_copy (by omega)) ?_
  · exact returns_andM (hbyte opHash160 (by omega)) fun _ => hbyte 20 (by omega)
  refine returns_branch (P := script.length = 23) heq (fun hlen => ?_)
    (fun hlen => returns_copy (by omega)) ?_
  · exact returns_andM (hbyte 20 (by omega)) fun _ =>
      returns_andM (hbyte opNop2 (by omega)) fun _ => hbyte opDrop (by omega)
  refine returns_branch (P := script.length = 35) heq (fun hlen => ?_)
    (fun hlen => returns_hash (by rw [hlen]; decide)) ?_
  · exact returns_andM (hbyte 33 (by omega)) fun _ => hbyte opChecksig (by omega)
  refine returns_branch (P := script.length = 33) heq (fun hlen => hbyte 32 (by omega))
    (fun hlen => returns_hash (by rw [hlen]; decide)) ?_
  refine returns_branch (P := script.length = 37) heq (fun hlen => hbyte 36 (by omega))
    (fun hlen => returns_hash (by rw [hlen]; decide)) ?_
  refine returns_branch (P := script.length = 22) heq (fun hlen => ?_)
    (fun hlen => returns_copy (by omega)) ?_
  · exact returns_andM (hbyte opReturn (by omega)) fun _ => hbyte 20 (by omega)
  refine returns_branch (P := 35 < script.length) hgt (fun hlen => ?_)
    (fun _ => returns_address (returns_computeRIPEMD160 h.ge) true) ?_
  · refine returns_andM (returns_orM (hbyte op1 (by omega)) fun _ =>
      returns_orM (hbyte op2 (by omega)) fun _ => hbyte op3 (by omega)) fun _ => ?_
    refine hbyte opCheckmultisig ?_
    have hsub : (scriptLength - 1).toNat = scriptLength.toNat - 1 :=
      UInt32.toNat_sub_of_le _ _ (UInt32.le_iff_toNat_le.mpr (show 1 ≤ _ by omega))
    omega
  refine returns_ite (fun _ => returns_ok _) fun _ => ?_
  refine returns_bind (returns_scanScript h) fun found _ => ?_
  cases found with
  | some address => exact returns_ok _
  | none => exact returns_address (returns_computeRIPEMD160 h.ge) false

end BitcoinAnalysis
