/-
The script templates of `outAddress`.

A script is compared with eleven templates, in the order of the source, and the
first that matches says where the address is (`outAddress_eq_dispatch`).  A
script that matches none is scanned for an embedded pay-to-public-key-hash
pattern.  The scan stops one position early: a pattern that ends with the script
is not found (`findsPattern_iff`).
-/
import BitcoinAnalysis.OutAddress

open Run

namespace BitcoinAnalysis

open BlockchainSha256 BlockchainRipemd160

variable {script : List UInt8} {scriptLength : UInt32}

/-! ### The templates -/

/-- The branches of `outAddress`, but for the last one. -/
inductive Template where
  | publicKey
  | bareKey
  | keyHash
  | scriptHash
  | nop2
  | compressedKey
  | data32
  | data36
  | nullData
  | multisig
  | short
  deriving DecidableEq

def Template.all : List Template :=
  [.publicKey, .bareKey, .keyHash, .scriptHash, .nop2, .compressedKey, .data32, .data36, .nullData,
    .multisig, .short]

/-- Which scripts a branch is for. -/
def Template.Matches (script : List UInt8) : Template → Prop
  | .publicKey => script.length = 67 ∧ script[0]? = some 65 ∧ script[66]? = some opChecksig
  | .bareKey => script.length = 66 ∧ script[65]? = some opChecksig
  | .keyHash =>
    25 ≤ script.length ∧ script[0]? = some opDup ∧ script[1]? = some opHash160 ∧
      script[2]? = some 20
  | .scriptHash => script.length = 23 ∧ script[0]? = some opHash160 ∧ script[1]? = some 20
  | .nop2 =>
    script.length = 23 ∧ script[0]? = some 20 ∧ script[21]? = some opNop2 ∧
      script[22]? = some opDrop
  | .compressedKey => script.length = 35 ∧ script[0]? = some 33 ∧ script[34]? = some opChecksig
  | .data32 => script.length = 33 ∧ script[0]? = some 32
  | .data36 => script.length = 37 ∧ script[0]? = some 36
  | .nullData => script.length = 22 ∧ script[0]? = some opReturn ∧ script[1]? = some 20
  | .multisig =>
    35 < script.length ∧
      (script[0]? = some op1 ∨ script[0]? = some op2 ∨ script[0]? = some op3) ∧
      script[script.length - 1]? = some opCheckmultisig
  | .short => script.length < 20

instance decidableMatches (script : List UInt8) : (t : Template) → Decidable (t.Matches script)
  | .publicKey => inferInstanceAs (Decidable (_ ∧ _ ∧ _))
  | .bareKey => inferInstanceAs (Decidable (_ ∧ _))
  | .keyHash => inferInstanceAs (Decidable (_ ∧ _ ∧ _ ∧ _))
  | .scriptHash => inferInstanceAs (Decidable (_ ∧ _ ∧ _))
  | .nop2 => inferInstanceAs (Decidable (_ ∧ _ ∧ _ ∧ _))
  | .compressedKey => inferInstanceAs (Decidable (_ ∧ _ ∧ _))
  | .data32 => inferInstanceAs (Decidable (_ ∧ _))
  | .data36 => inferInstanceAs (Decidable (_ ∧ _))
  | .nullData => inferInstanceAs (Decidable (_ ∧ _ ∧ _))
  | .multisig => inferInstanceAs (Decidable (_ ∧ (_ ∨ _ ∨ _) ∧ _))
  | .short => inferInstanceAs (Decidable (_ < _))

/-- What the branch takes as the address. -/
def Template.address (script : List UInt8) (scriptLength : UInt32) :
    Template → Except Fault Address
  | .publicKey => memcpy script 1 65 >>= publicKeyAddress
  | .bareKey => memcpy script 0 65 >>= publicKeyAddress
  | .keyHash => memcpy script 3 20
  | .scriptHash => memcpy script 2 20
  | .nop2 => memcpy script 1 20
  | .compressedKey => computeRIPEMD160 (script.drop 1) 33
  | .data32 => computeRIPEMD160 (script.drop 1) 32
  | .data36 => computeRIPEMD160 (script.drop 1) 36
  | .nullData => memcpy script 2 20
  | .multisig => computeRIPEMD160 script scriptLength
  | .short => .ok (.replicate 20 49)

/-- The last branch: an embedded pattern, or the hash of the script. -/
def scanOrHash (script : List UInt8) (scriptLength : UInt32) : Except Fault (Bool × Address) := do
  match ← scanScript script scriptLength with
  | some address => .ok (true, address)
  | none =>
    let address ← computeRIPEMD160 script scriptLength
    .ok (false, address)

/-- The first template that matches, or the last branch. -/
def dispatch (script : List UInt8) (scriptLength : UInt32) :
    List Template → Except Fault (Bool × Address)
  | [] => scanOrHash script scriptLength
  | t :: ts =>
    if t.Matches script then do
      let address ← t.address script scriptLength
      .ok (true, address)
    else dispatch script scriptLength ts

theorem byteIs_eq {i : ℕ} (h : i < script.length) (b : UInt8) :
    byteIs script i b = .ok (decide (script[i]? = some b)) := by
  rw [byteIs, fetch, List.getElem?_eq_getElem h]
  simp

/-- One branch of the source. -/
theorem dispatch_cons {t : Template} {ts : List Template} {test : Except Fault Bool}
    {A B : Except Fault (Bool × Address)} (htest : test = .ok (decide (t.Matches script)))
    (hA : A = do let address ← t.address script scriptLength; .ok (true, address))
    (hB : B = dispatch script scriptLength ts) :
    (do if ← test then A else B) = dispatch script scriptLength (t :: ts) := by
  rw [if_decide htest, dispatch, hA, hB]

/-- **`outAddress` takes the first template that matches.** -/
theorem outAddress_eq_dispatch (h : script.length = scriptLength.toNat) :
    outAddress script scriptLength = dispatch script scriptLength Template.all := by
  have heq : ∀ n : UInt32, (.ok (scriptLength == n) : Except Fault Bool)
      = .ok (decide (script.length = n.toNat)) := by
    intro n
    rw [h, Bool.beq_eq_decide_eq]
    exact congrArg _ (decide_eq_decide.mpr UInt32.toNat_inj.symm)
  have hge : (.ok (decide (scriptLength ≥ 25)) : Except Fault Bool)
      = .ok (decide (25 ≤ script.length)) := by
    rw [h]
    exact congrArg _ (decide_eq_decide.mpr UInt32.le_iff_toNat_le)
  have hgt : (.ok (decide (scriptLength > 35)) : Except Fault Bool)
      = .ok (decide (35 < script.length)) := by
    rw [h]
    exact congrArg _ (decide_eq_decide.mpr UInt32.lt_iff_toNat_lt)
  have hbyte : ∀ {i : ℕ} (b : UInt8), i < script.length →
      byteIs script i b = .ok (decide (script[i]? = some b)) := fun b hi => byteIs_eq hi b
  rw [outAddress, Template.all]
  refine dispatch_cons ?_ (by rw [Template.address, bind_assoc]) ?_
  · exact andM_decide (heq 67) fun hlen => andM_decide (hbyte 65 (by rw [hlen]; decide)) fun _ =>
      hbyte opChecksig (by rw [hlen]; decide)
  refine dispatch_cons ?_ (by rw [Template.address, bind_assoc]) ?_
  · exact andM_decide (heq 66) fun hlen => hbyte opChecksig (by rw [hlen]; decide)
  refine dispatch_cons ?_ rfl ?_
  · exact andM_decide hge fun hlen => andM_decide (hbyte opDup (by omega)) fun _ =>
      andM_decide (hbyte opHash160 (by omega)) fun _ => hbyte 20 (by omega)
  refine dispatch_cons ?_ rfl ?_
  · exact andM_decide (heq 23) fun hlen => andM_decide (hbyte opHash160 (by rw [hlen]; decide))
      fun _ => hbyte 20 (by rw [hlen]; decide)
  refine dispatch_cons ?_ rfl ?_
  · exact andM_decide (heq 23) fun hlen => andM_decide (hbyte 20 (by rw [hlen]; decide)) fun _ =>
      andM_decide (hbyte opNop2 (by rw [hlen]; decide)) fun _ =>
        hbyte opDrop (by rw [hlen]; decide)
  refine dispatch_cons ?_ rfl ?_
  · exact andM_decide (heq 35) fun hlen => andM_decide (hbyte 33 (by rw [hlen]; decide)) fun _ =>
      hbyte opChecksig (by rw [hlen]; decide)
  refine dispatch_cons ?_ rfl ?_
  · exact andM_decide (heq 33) fun hlen => hbyte 32 (by rw [hlen]; decide)
  refine dispatch_cons ?_ rfl ?_
  · exact andM_decide (heq 37) fun hlen => hbyte 36 (by rw [hlen]; decide)
  refine dispatch_cons ?_ rfl ?_
  · exact andM_decide (heq 22) fun hlen => andM_decide (hbyte opReturn (by rw [hlen]; decide))
      fun _ => hbyte 20 (by rw [hlen]; decide)
  refine dispatch_cons ?_ rfl ?_
  · refine andM_decide hgt fun hlen => andM_decide ?_ fun _ => ?_
    · exact orM_decide (hbyte op1 (by omega)) fun _ =>
        orM_decide (hbyte op2 (by omega)) fun _ => hbyte op3 (by omega)
    · have hsub : (scriptLength - 1).toNat = script.length - 1 := by
        rw [h]
        exact UInt32.toNat_sub_of_le _ _ (UInt32.le_iff_toNat_le.mpr (show 1 ≤ _ by omega))
      rw [hsub]
      exact hbyte opCheckmultisig (by omega)
  -- the last test is a plain comparison
  rw [dispatch, dispatch]
  refine if_congr ?_ rfl rfl
  rw [UInt32.lt_iff_toNat_lt, ← h]
  rfl

/-- Templates that do not match are passed over. -/
theorem dispatch_append {ts : List Template} (h : ∀ t ∈ ts, ¬ t.Matches script)
    (us : List Template) :
    dispatch script scriptLength (ts ++ us) = dispatch script scriptLength us := by
  induction ts with
  | nil => rfl
  | cons t ts ih =>
    rw [List.cons_append, dispatch, if_neg (h t List.mem_cons_self)]
    exact ih fun u hu => h u (List.mem_cons_of_mem t hu)

theorem dispatch_of_none {ts : List Template} (h : ∀ t ∈ ts, ¬ t.Matches script) :
    dispatch script scriptLength ts = scanOrHash script scriptLength := by
  rw [← List.append_nil ts, dispatch_append h]
  rfl

/-- The template that matches behind those that do not. -/
theorem dispatch_of_first {ts us : List Template} {t : Template}
    (h : ∀ u ∈ ts, ¬ u.Matches script) (ht : t.Matches script) :
    dispatch script scriptLength (ts ++ t :: us)
      = (do let address ← t.address script scriptLength; .ok (true, address)) := by
  rw [dispatch_append h, dispatch, if_pos ht]

/-! ### The scan -/

/-- `OP_DUP OP_HASH160 20 … OP_EQUALVERIFY OP_CHECKSIG` stands at position `i`. -/
def PatternAt (script : List UInt8) (i : ℕ) : Prop :=
  i + 25 ≤ script.length ∧ script[i]? = some opDup ∧ script[i + 1]? = some opHash160 ∧
    script[i + 2]? = some 20 ∧ script[i + 23]? = some opEqualverify ∧
    script[i + 24]? = some opChecksig

instance (script : List UInt8) (i : ℕ) : Decidable (PatternAt script i) :=
  inferInstanceAs (Decidable (_ ∧ _ ∧ _ ∧ _ ∧ _ ∧ _))

theorem scanHit_eq {i : ℕ} (h : i + 25 ≤ script.length) :
    scanHit script i = .ok (decide (PatternAt script i)) := by
  have htest : scanHit script i = .ok (decide (script[i]? = some opDup ∧
      script[i + 1]? = some opHash160 ∧ script[i + 2]? = some 20 ∧
      script[i + 23]? = some opEqualverify ∧ script[i + 24]? = some opChecksig)) :=
    andM_decide (byteIs_eq (by omega) _) fun _ => andM_decide (byteIs_eq (by omega) _) fun _ =>
      andM_decide (byteIs_eq (by omega) _) fun _ => andM_decide (byteIs_eq (by omega) _) fun _ =>
      byteIs_eq (by omega) _
  rw [htest]
  exact congrArg _ (decide_eq_decide.mpr (and_iff_right h).symm)

theorem scan_eq_none {n i : ℕ} (hlen : i + n + 24 ≤ script.length)
    (h : ∀ k, i ≤ k → k < i + n → ¬ PatternAt script k) : scan script n i = .ok none := by
  induction n generalizing i with
  | zero => rfl
  | succ n ih =>
    rw [scan, if_decide (scanHit_eq (by omega)), if_neg (h i le_rfl (by omega))]
    exact ih (by omega) fun k hk hlt => h k (by omega) (by omega)

/-- The scan takes the first pattern it meets. -/
theorem scan_eq_some {n i k : ℕ} (hlen : i + n + 24 ≤ script.length) (hk : i ≤ k)
    (hlt : k < i + n) (hpat : PatternAt script k)
    (hfirst : ∀ l, i ≤ l → l < k → ¬ PatternAt script l) :
    ∃ address, scan script n i = .ok (some address) ∧
      address.1 = (script.drop (k + 3)).take 20 := by
  induction n generalizing i with
  | zero => omega
  | succ n ih =>
    rw [scan, if_decide (scanHit_eq (by omega))]
    by_cases hi : i = k
    · subst hi
      rw [if_pos hpat, memcpy, dif_pos (by omega)]
      exact ⟨_, rfl, rfl⟩
    · rw [if_neg (hfirst i le_rfl (by omega))]
      exact ih (by omega) (by omega) (by omega) fun l hl hlk => hfirst l (by omega) hlk

theorem scanScript_eq (h : script.length = scriptLength.toNat) :
    scanScript script scriptLength = scan script (script.length - 25) 0 := by
  rw [scanScript]
  by_cases hgt : scriptLength > 25
  · have hlt : 25 < scriptLength.toNat := UInt32.lt_iff_toNat_lt.mp hgt
    have hsub : (scriptLength - 25).toNat = scriptLength.toNat - 25 :=
      UInt32.toNat_sub_of_le _ _ (UInt32.le_iff_toNat_le.mpr (show 25 ≤ _ by omega))
    rw [if_pos hgt, hsub, h]
  · have hle : ¬ 25 < scriptLength.toNat := fun hlt => hgt (UInt32.lt_iff_toNat_lt.mpr hlt)
    rw [if_neg hgt, Nat.sub_eq_zero_of_le (by omega)]
    rfl

/-- The result says which pattern comes first, or that there is none. -/
def FindsPattern (script : List UInt8) (scriptLength : UInt32) (decodeOK : Bool)
    (address : Address) : Prop :=
  (∀ i, PatternAt script i → (∀ j < i, ¬ PatternAt script j) →
    decodeOK = true ∧ address.1 = (script.drop (i + 3)).take 20) ∧
  ((∀ i, ¬ PatternAt script i) →
    decodeOK = false ∧ computeRIPEMD160 script scriptLength = .ok address)

/-- What the last branch returns when the scan meets a pattern. -/
theorem scanOrHash_of_pattern (h : script.length = scriptLength.toNat) {k : ℕ}
    (hlt : k < script.length - 25) (hpat : PatternAt script k)
    (hfirst : ∀ l < k, ¬ PatternAt script l) :
    ∃ address, scanOrHash script scriptLength = .ok (true, address) ∧
      address.1 = (script.drop (k + 3)).take 20 := by
  obtain ⟨address, hscan, haddress⟩ := scan_eq_some (n := script.length - 25) (i := 0) (by omega)
    (Nat.zero_le k) (by omega) hpat fun l _ hl => hfirst l hl
  refine ⟨address, ?_, haddress⟩
  rw [scanOrHash, scanScript_eq h, hscan]
  rfl

theorem scanOrHash_of_none (h : script.length = scriptLength.toNat) (h25 : 25 ≤ script.length)
    (hnone : ∀ k < script.length - 25, ¬ PatternAt script k) :
    ∃ address, scanOrHash script scriptLength = .ok (false, address) ∧
      computeRIPEMD160 script scriptLength = .ok address := by
  obtain ⟨address, haddress⟩ := returns_computeRIPEMD160 h.ge
  refine ⟨address, ?_, haddress⟩
  rw [scanOrHash, scanScript_eq h, scan_eq_none (by omega) fun k _ hk => hnone k (by omega), ok_bind,
    haddress]
  rfl

/-- **The scan finds the first pattern**, unless that one is the last 25 bytes of
the script. -/
theorem findsPattern_iff (h : script.length = scriptLength.toNat) (h25 : 25 ≤ script.length)
    (hnone : ∀ t : Template, ¬ t.Matches script) :
    (∃ decodeOK address, outAddress script scriptLength = .ok (decodeOK, address) ∧
      FindsPattern script scriptLength decodeOK address) ↔
    (PatternAt script (script.length - 25) → ∃ i < script.length - 25, PatternAt script i) := by
  rw [outAddress_eq_dispatch h, dispatch_of_none fun t _ => hnone t]
  by_cases hearly : ∃ i, i < script.length - 25 ∧ PatternAt script i
  · -- the first pattern is one the scan looks at
    refine iff_of_true ?_ fun _ => hearly
    obtain ⟨hlt, hpat⟩ := Nat.find_spec hearly
    have hfirst : ∀ l < Nat.find hearly, ¬ PatternAt script l :=
      fun l hl hp => Nat.find_min hearly hl ⟨by omega, hp⟩
    obtain ⟨address, hscan, haddress⟩ := scanOrHash_of_pattern h hlt hpat hfirst
    refine ⟨true, address, hscan, ?_, fun hno => absurd hpat (hno _)⟩
    intro i hi hmin
    have hsame : i = Nat.find hearly := by
      rcases lt_trichotomy i (Nat.find hearly) with hlt | heq | hgt
      · exact absurd hi (hfirst i hlt)
      · exact heq
      · exact absurd hpat (hmin _ hgt)
    rw [hsame]
    exact ⟨rfl, haddress⟩
  · -- nothing before the last 25 bytes, which the scan does not look at
    have hno : ∀ k < script.length - 25, ¬ PatternAt script k := fun k hk hp => hearly ⟨k, hk, hp⟩
    obtain ⟨address, hscan, haddress⟩ := scanOrHash_of_none h h25 hno
    constructor
    · rintro ⟨decodeOK, address', hscan', hfinds, -⟩ hlast
      rw [hscan] at hscan'
      cases hscan'
      exact absurd (hfinds _ hlast hno).1 Bool.false_ne_true
    · intro hlast
      have hall : ∀ i, ¬ PatternAt script i := by
        intro i hi
        by_cases hi25 : i = script.length - 25
        · subst hi25
          exact hearly (hlast hi)
        · have := hi.1
          exact hno i (by omega) hi
      exact ⟨false, address, hscan, fun i hi => absurd hi (hall i), fun _ => ⟨rfl, haddress⟩⟩

/-- The script that pays to the hash of a public key. -/
def payToKeyHash (hash : Address) : List UInt8 :=
  [opDup, opHash160, 20] ++ hash.1 ++ [opEqualverify, opChecksig]

/-- A pattern behind `OP_NOP2` with one more byte after it. -/
theorem findsPattern_inside :
    ∃ decodeOK address,
      outAddress (opNop2 :: payToKeyHash (.replicate 20 7) ++ [opNop2]) 27 = .ok (decodeOK, address) ∧
      FindsPattern (opNop2 :: payToKeyHash (.replicate 20 7) ++ [opNop2]) 27 decodeOK address := by
  refine (findsPattern_iff (by decide) (by decide) ?_).mpr fun _ => ⟨1, by decide, by decide⟩
  intro t
  cases t <;> decide

/-- The same pattern at the end of the script is not found. -/
theorem pattern_at_end_missed :
    (∀ t : Template, ¬ t.Matches (opNop2 :: payToKeyHash (.replicate 20 7))) ∧
      PatternAt (opNop2 :: payToKeyHash (.replicate 20 7)) 1 ∧
      ∃ r, outAddress (opNop2 :: payToKeyHash (.replicate 20 7)) 26 = .ok r ∧
        r.1 = false ∧ r.2 ≠ .replicate 20 7 := by
  refine ⟨?_, by decide, by decide +kernel⟩
  intro t
  cases t <;> decide

end BitcoinAnalysis
