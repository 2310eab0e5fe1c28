/-
`outAddress` and the memory it writes the address to.

The program hands `outAddress` the array of an output that has just been
declared, and nothing has written to it.  `outAddressInto` is the function with
the contents of this array as an argument, every write made byte by byte.  It
overwrites all of them, so that what it leaves is the address `outAddress`
returns (`outAddressInto_eq`).
-/
import BitcoinAnalysis.OutAddress

open Run

namespace BitcoinAnalysis

open BlockchainSha256 BlockchainRipemd160

/-! ### Writing -/

/-- `buf[i] = b` -/
def store {n : ℕ} (buf : Bytes n) (i : ℕ) (b : UInt8) : Except Fault (Bytes n) :=
  if i < n then .ok ⟨buf.1.set i b, by rw [List.length_set, buf.2]⟩ else .error .outOfRange

/-- Bytes one after another, from position `i` on. -/
def writeBytes {n : ℕ} : Bytes n → ℕ → List UInt8 → Except Fault (Bytes n)
  | buf, _, [] => .ok buf
  | buf, i, b :: bs => do
    let buf ← store buf i b
    writeBytes buf (i + 1) bs

/-- `memcpy(address, src + off, 20)` -/
def memcpyInto (address : Address) (src : List UInt8) (off : ℕ) : Except Fault Address := do
  let bytes ← memcpy src off 20
  writeBytes address 0 bytes.1

/-- `memset(address, b, 20)` -/
def memsetInto (address : Address) (b : UInt8) : Except Fault Address :=
  writeBytes address 0 (List.replicate 20 b)

/-- `for (i = 0; i < RMDsize / 8; i += 4)` with its four assignments. -/
def storeHashcode (md : Regs) (hashcode : Address) : Except Fault Address :=
  [0, 4, 8, 12, 16].foldlM (fun hashcode i =>
    writeBytes hashcode i (wordBytes ([md.aa, md.bb, md.cc, md.dd, md.ee].getD (i / 4) 0))) hashcode

def computeRIPEMD160Into (message : List UInt8) (length : UInt32) (hashcode : Address) :
    Except Fault Address := do
  let (md, p) ← chunkLoop message (length.toNat / 64) 0 mdInit
  let md ← mdFinish md message p length 0
  storeHashcode md hashcode

/-- The end of the two branches for public keys. -/
def publicKeyAddressInto (publicKey : Bytes 65) (address : Address) : Except Fault Address := do
  let (_, addressAndCheck) ← bitcoinPublicKeyToAddress publicKey (.replicate 25 0)
  memcpyInto address addressAndCheck.1 1

def scanInto (script : List UInt8) (address : Address) : ℕ → ℕ → Except Fault (Option Address)
  | 0, _ => .ok none
  | n + 1, i => do
    if ← scanHit script i then
      let address ← memcpyInto address script (i + 3)
      .ok (some address)
    else scanInto script address n (i + 1)

def scanScriptInto (script : List UInt8) (scriptLength : UInt32) (address : Address) :
    Except Fault (Option Address) :=
  if scriptLength > 25 then scanInto script address (scriptLength - 25).toNat 0 else .ok none

def outAddressInto (script : List UInt8) (scriptLength : UInt32) (address : Address) :
    Except Fault (Bool × Address) := do
  if ← .ok (scriptLength == 67) <&&> byteIs script 0 65 <&&> byteIs script 66 opChecksig then
    let publicKey ← memcpy script 1 65
    let address ← publicKeyAddressInto publicKey address
    .ok (true, address)
  else if ← .ok (scriptLength == 66) <&&> byteIs script 65 opChecksig then
    let publicKey ← memcpy script 0 65
    let address ← publicKeyAddressInto publicKey address
    .ok (true, address)
  else if ← .ok (decide (scriptLength ≥ 25)) <&&> byteIs script 0 opDup <&&> byteIs script 1 opHash160
      <&&> byteIs script 2 20 then
    let address ← memcpyInto address script 3
    .ok (true, address)
  else if ← .ok (scriptLength == 23) <&&> byteIs script 0 opHash160 <&&> byteIs script 1 20 then
    let address ← memcpyInto address script 2
    .ok (true, address)
  else if ← .ok (scriptLength == 23) <&&> byteIs script 0 20 <&&> byteIs script 21 opNop2
      <&&> byteIs script 22 opDrop then
    let address ← memcpyInto address script 1
    .ok (true, address)
  else if ← .ok (scriptLength == 35) <&&> byteIs script 0 33 <&&> byteIs script 34 opChecksig then
    let address ← computeRIPEMD160Into (script.drop 1) 33 address
    .ok (true, address)
  else if ← .ok (scriptLength == 33) <&&> byteIs script 0 32 then
    let address ← computeRIPEMD160Into (script.drop 1) 32 address
    .ok (true, address)
  else if ← .ok (scriptLength == 37) <&&> byteIs script 0 36 then
    let address ← computeRIPEMD160Into (script.drop 1) 36 address
    .ok (true, address)
  else if ← .ok (scriptLength == 22) <&&> byteIs script 0 opReturn <&&> byteIs script 1 20 then
    let address ← memcpyInto address script 2
    .ok (true, address)
  else if ← .ok (decide (scriptLength > 35))
      <&&> (byteIs script 0 op1 <||> byteIs script 0 op2 <||> byteIs script 0 op3)
      <&&> byteIs script (scriptLength - 1).toNat opCheckmultisig then
    let address ← computeRIPEMD160Into script scriptLength address
    .ok (true, address)
  else if scriptLength < 20 then
    let address ← memsetInto address 49
    .ok (true, address)
  else
    match ← scanScriptInto script scriptLength address with
    | some address => .ok (true, address)
    | none =>
      let address ← computeRIPEMD160Into script scriptLength address
      .ok (false, address)

/-! ### Every byte is overwritten -/

theorem writeBytes_append {n : ℕ} (buf : Bytes n) (i : ℕ) (bs cs : List UInt8) :
    writeBytes buf i (bs ++ cs)
      = writeBytes buf i bs >>= fun buf => writeBytes buf (i + bs.length) cs := by
  induction bs generalizing buf i with
  | nil => rfl
  | cons b bs ih =>
    rw [List.cons_append, writeBytes, writeBytes, bind_assoc]
    refine congrArg _ (funext fun buf => ?_)
    rw [ih, List.length_cons, show i + 1 + bs.length = i + (bs.length + 1) by omega]

/-- What is written takes the place of as many bytes, and the others stay. -/
theorem writeBytes_of_append {n : ℕ} {buf : Bytes n} {front old back bs : List UInt8}
    (hbuf : buf.1 = front ++ old ++ back) (hlen : old.length = bs.length) :
    ∃ out, writeBytes buf front.length bs = .ok out ∧ out.1 = front ++ bs ++ back := by
  induction bs generalizing buf front old with
  | nil =>
    rw [List.length_eq_zero_iff.mp hlen] at hbuf
    exact ⟨buf, rfl, hbuf⟩
  | cons b bs ih =>
    cases old with
    | nil => cases hlen
    | cons o old =>
      have hin : front.length < n := by
        rw [← buf.2, hbuf, List.length_append, List.length_append, List.length_cons]
        omega
      have hset : buf.1.set front.length b = (front ++ [b]) ++ old ++ back := by
        rw [hbuf, List.append_assoc, List.set_append_right _ _ le_rfl, Nat.sub_self]
        simp
      obtain ⟨out, hout, hval⟩ :=
        @ih ⟨buf.1.set front.length b, by rw [List.length_set, buf.2]⟩ _ _ hset (Nat.succ.inj hlen)
      rw [List.length_append, List.length_singleton] at hout
      refine ⟨out, ?_, ?_⟩
      · rw [writeBytes, store, if_pos hin, ok_bind, hout]
      · rw [hval, List.append_assoc front]
        rfl

/-- The bytes `bs` at `i`, in place of as many bytes. -/
def overwrite (mem : List UInt8) (i : ℕ) (bs : List UInt8) : List UInt8 :=
  mem.take i ++ bs ++ mem.drop (i + bs.length)

theorem writeBytes_eq {n : ℕ} (mem : Bytes n) {i : ℕ} {bs : List UInt8} (h : i + bs.length ≤ n) :
    ∃ out, writeBytes mem i bs = .ok out ∧ out.1 = overwrite mem.1 i bs := by
  have hmem : mem.1
      = mem.1.take i ++ (mem.1.drop i).take bs.length ++ mem.1.drop (i + bs.length) := by
    rw [← List.drop_drop, List.append_assoc, List.take_append_drop, List.take_append_drop]
  have hlen : ((mem.1.drop i).take bs.length).length = bs.length := by
    rw [List.length_take, List.length_drop, mem.2]
    omega
  have hi : (mem.1.take i).length = i := by
    rw [List.length_take, mem.2]
    omega
  obtain ⟨out, hout, hval⟩ := writeBytes_of_append hmem hlen
  rw [hi] at hout
  exact ⟨out, hout, hval⟩

/-- A write as long as the buffer leaves what was written. -/
theorem writeBytes_all {n : ℕ} (buf : Bytes n) {bs : List UInt8} (h : bs.length = n) :
    writeBytes buf 0 bs = .ok ⟨bs, h⟩ := by
  have hfresh : buf.1 = [] ++ buf.1 ++ [] := (List.append_nil _).symm
  obtain ⟨out, hout, hval⟩ := writeBytes_of_append hfresh (buf.2.trans h.symm)
  rw [List.length_nil] at hout
  rw [hout]
  exact congrArg _ (Subtype.ext (hval.trans (List.append_nil _)))

theorem memcpyInto_eq (address : Address) (src : List UInt8) (off : ℕ) :
    memcpyInto address src off = memcpy src off 20 := by
  rw [memcpyInto]
  cases memcpy src off 20 with
  | error e => rfl
  | ok bytes => exact writeBytes_all address bytes.2

theorem memsetInto_eq (address : Address) (b : UInt8) :
    memsetInto address b = .ok (.replicate 20 b) := writeBytes_all address List.length_replicate

/-- The five words cover the array. -/
theorem storeHashcode_eq (md : Regs) (hashcode : Address) :
    storeHashcode md hashcode = .ok md.hashcode := by
  have hwords : storeHashcode md hashcode
      = writeBytes hashcode 0 ([md.aa, md.bb, md.cc, md.dd, md.ee].flatMap wordBytes) := by
    simp only [List.flatMap_cons, List.flatMap_nil, writeBytes_append]
    rfl
  rw [hwords]
  exact writeBytes_all hashcode md.hashcode.2

theorem computeRIPEMD160Into_eq (message : List UInt8) (length : UInt32) (hashcode : Address) :
    computeRIPEMD160Into message length hashcode = computeRIPEMD160 message length := by
  simp only [computeRIPEMD160Into, computeRIPEMD160, storeHashcode_eq]

theorem publicKeyAddressInto_eq (publicKey : Bytes 65) (address : Address) :
    publicKeyAddressInto publicKey address = publicKeyAddress publicKey := by
  simp only [publicKeyAddressInto, publicKeyAddress, memcpyInto_eq]

theorem scanInto_eq (script : List UInt8) (address : Address) (n i : ℕ) :
    scanInto script address n i = scan script n i := by
  induction n generalizing i with
  | zero => rfl
  | succ n ih => simp only [scanInto, scan, memcpyInto_eq, ih]

theorem scanScriptInto_eq (script : List UInt8) (scriptLength : UInt32) (address : Address) :
    scanScriptInto script scriptLength address = scanScript script scriptLength := by
  rw [scanScriptInto, scanScript, scanInto_eq]

/-- Whatever the array holds, `outAddress` leaves its address in it. -/
theorem outAddressInto_eq (script : List UInt8) (scriptLength : UInt32) (address : Address) :
    outAddressInto script scriptLength address = outAddress script scriptLength := by
  simp only [outAddressInto, publicKeyAddressInto_eq, memcpyInto_eq, memsetInto_eq,
    computeRIPEMD160Into_eq, scanScriptInto_eq, ok_bind]
  rfl

/-- **`outAddress` reads the script and nothing else**: no access fails, and the
result does not depend on what the memory of the address held. -/
theorem outAddressInto_defined {script : List UInt8} {scriptLength : UInt32}
    (h : script.length = scriptLength.toNat) :
    ∃ r, ∀ address, outAddressInto script scriptLength address = .ok r := by
  obtain ⟨r, hr⟩ := outAddress_isOk h
  exact ⟨r, fun address => (outAddressInto_eq script scriptLength address).trans hr⟩

/-- A public key between its length and `OP_CHECKSIG`, and a script in which the
scan finds the address at its third position: whatever the array held, it ends with
the address of the script. -/
theorem outAddressInto_key_and_scan :
    (∃ r, r.1 = true ∧ ∀ address,
      outAddressInto ([65, 4] ++ List.replicate 64 9 ++ [opChecksig]) 67 address = .ok r) ∧
    ∀ address, outAddressInto ([0, 0, opDup, opHash160, 20] ++ List.replicate 20 7
      ++ [opEqualverify, opChecksig, 0]) 28 address = .ok (true, .replicate 20 7) := by
  have hkey : ∃ r, outAddressInto ([65, 4] ++ List.replicate 64 9 ++ [opChecksig]) 67
      (.replicate 20 0) = .ok r ∧ r.1 = true := by
    decide +kernel
  have hscan : outAddressInto ([0, 0, opDup, opHash160, 20] ++ List.replicate 20 7
      ++ [opEqualverify, opChecksig, 0]) 28 (.replicate 20 0) = .ok (true, .replicate 20 7) := by
    decide +kernel
  constructor
  · obtain ⟨r, hr⟩ := @outAddressInto_defined
      ([65, 4] ++ List.replicate 64 9 ++ [opChecksig]) 67 rfl
    obtain ⟨r', hr', htrue⟩ := hkey
    obtain rfl : r = r' := Except.ok.inj ((hr _).symm.trans hr')
    exact ⟨r, htrue, hr⟩
  · obtain ⟨r, hr⟩ := @outAddressInto_defined ([0, 0, opDup, opHash160, 20] ++ List.replicate 20 7
      ++ [opEqualverify, opChecksig, 0]) 28 rfl
    obtain rfl : r = (true, .replicate 20 7) := Except.ok.inj ((hr _).symm.trans hscan)
    exact hr

end BitcoinAnalysis
