/-
SHA-256 over a stream, and in place.

`sha256_update` may be called any number of times, with chunks of any length.
`sha256Finalize_chunks` says that only their concatenation matters.

`computeSHA256` takes two pointers, and some of its callers pass the same one
twice: `computeSHA256(hash1, 32, hash1)`.  `computeSHA256Into` is the function
over the memory both point into.  It leaves the hash of the bytes that stood at
`input` before the call, wherever the two arrays overlap
(`computeSHA256Into_eq`, `twiceSHA256Into_eq`).
-/
import BitcoinAnalysis.AddressBuffer
import BitcoinAnalysis.Wire

open Run

namespace BitcoinAnalysis

open BlockchainSha256

/-! ### Chunks -/

theorem absorbed_chunks {sc : Sha256Ctx} {msg : List UInt8} (h : Absorbed sc msg)
    (chunks : List (List UInt8)) :
    Absorbed (chunks.foldl sha256Update sc) (msg ++ chunks.flatten) := by
  induction chunks generalizing sc msg with
  | nil =>
    rw [List.flatten_nil, List.append_nil]
    exact h
  | cons chunk chunks ih =>
    rw [List.foldl_cons, List.flatten_cons, ← List.append_assoc]
    exact ih (absorbed_update h chunk)

theorem sha256Finalize_chunks (chunks : List (List UInt8)) :
    sha256Finalize (chunks.foldl sha256Update sha256Init) = Sha256.digest chunks.flatten :=
  sha256Finalize_eq (absorbed_chunks absorbed_init chunks)

/-! ### In memory -/

/-- The words of `sc->hash` when `sha256_finalize` comes to write them. -/
def paddedHash (sc : Sha256Ctx) : List UInt32 :=
  let bytesToPad := 120 - sc.buffer.length
  let bytesToPad := if bytesToPad > 64 then bytesToPad - 64 else bytesToPad
  let lengthPad := byteswap64 sc.totalLength
  let sc := sha256Update sc (padding.take bytesToPad)
  let sc := sha256Update sc (storeWord64 lengthPad)
  [sc.hash.a, sc.hash.b, sc.hash.c, sc.hash.d, sc.hash.e, sc.hash.f, sc.hash.g, sc.hash.h]

/-- The loop of `sha256_finalize`: `*((unit32 *)hash) = BYTESWAP(sc->hash[i]); hash += 4`. -/
def storeWords {n : ℕ} : Bytes n → ℕ → List UInt32 → Except Fault (Bytes n)
  | mem, _, [] => .ok mem
  | mem, hash, x :: xs => do
    let mem ← writeBytes mem hash (storeWord (byteswap x))
    storeWords mem (hash + 4) xs

/-- `computeSHA256` where `input` and `destHash` are positions in one memory. -/
def computeSHA256Into {n : ℕ} (mem : Bytes n) (input : ℕ) (size : UInt32) (destHash : ℕ) :
    Except Fault (Bytes n) := do
  let data ← memcpy mem.1 input size.toNat
  let sc := sha256Update sha256Init data.1
  storeWords mem destHash (paddedHash sc)

/-- A local array of `m` zeros behind the memory of the caller. -/
def Bytes.pushZeros {n : ℕ} (mem : Bytes n) (m : ℕ) : Bytes (n + m) :=
  ⟨mem.1 ++ List.replicate m 0, by rw [List.length_append, mem.2, List.length_replicate]⟩

/-- The memory of the caller after the local array is gone. -/
def Bytes.pop {n m : ℕ} (mem : Bytes (n + m)) : Bytes n :=
  ⟨mem.1.take n, by rw [List.length_take, mem.2]; omega⟩

def twiceSHA256Into {n : ℕ} (mem : Bytes n) (input : ℕ) (size : UInt32) (output : ℕ) :
    Except Fault (Bytes n) := do
  -- `mid_temp` stands at `n`
  let mem := mem.pushZeros 32
  let mem ← computeSHA256Into mem input size n
  let mem ← computeSHA256Into mem n 32 output
  .ok mem.pop

theorem storeWords_eq {n : ℕ} (mem : Bytes n) (hash : ℕ) (xs : List UInt32) :
    storeWords mem hash xs
      = writeBytes mem hash (xs.flatMap fun x => storeWord (byteswap x)) := by
  induction xs generalizing mem hash with
  | nil => rfl
  | cons x xs ih =>
    rw [List.flatMap_cons, writeBytes_append, storeWords]
    exact congrArg _ (funext fun mem => ih mem (hash + 4))

theorem flatMap_paddedHash (sc : Sha256Ctx) :
    (paddedHash sc).flatMap (fun x => storeWord (byteswap x)) = sha256Finalize sc := rfl

theorem memcpy_of_le {buf : List UInt8} {off n : ℕ} (h : off + n ≤ buf.length) :
    ∃ bytes, memcpy buf off n = .ok bytes ∧ bytes.1 = (buf.drop off).take n :=
  ⟨_, dif_pos h, rfl⟩

/-- The hash is of the bytes before the call, also where `destHash` overlaps them. -/
theorem computeSHA256Into_eq {n : ℕ} (mem : Bytes n) {input : ℕ} {size : UInt32} {destHash : ℕ}
    (hin : input + size.toNat ≤ n) (hout : destHash + 32 ≤ n) :
    ∃ out, computeSHA256Into mem input size destHash = .ok out ∧
      out.1 = overwrite mem.1 destHash (Sha256.digest ((mem.1.drop input).take size.toNat)) := by
  obtain ⟨data, hdata, hval⟩ := memcpy_of_le (mem.2.symm ▸ hin)
  have hhash : sha256Finalize (sha256Update sha256Init data.1)
      = Sha256.digest ((mem.1.drop input).take size.toNat) := by
    rw [← hval]
    exact computeSHA256_eq data.1
  rw [computeSHA256Into, hdata, ok_bind, storeWords_eq, flatMap_paddedHash, ← hhash]
  exact writeBytes_eq mem hout

theorem length_digest (msg : List UInt8) : (Sha256.digest msg).length = 32 := by
  rw [← computeSHA256_eq msg]
  exact (computeSHA256 msg).2

theorem overwrite_append_left {a : List UInt8} {i : ℕ} {bs : List UInt8}
    (h : i + bs.length ≤ a.length) (b : List UInt8) :
    overwrite (a ++ b) i bs = overwrite a i bs ++ b := by
  rw [overwrite, overwrite, List.take_append_of_le_length (by omega),
    List.drop_append_of_le_length h, List.append_assoc _ _ b]

theorem overwrite_append_right (a : List UInt8) {b bs : List UInt8} (h : b.length = bs.length) :
    overwrite (a ++ b) a.length bs = a ++ bs := by
  rw [overwrite, List.take_left, ← h, ← List.length_append, List.drop_length, List.append_nil]

/-- The local array does not show in the memory of the caller. -/
theorem twiceSHA256Into_eq {n : ℕ} (mem : Bytes n) {input : ℕ} {size : UInt32} {output : ℕ}
    (hin : input + size.toNat ≤ n) (hout : output + 32 ≤ n) :
    ∃ out, twiceSHA256Into mem input size output = .ok out ∧
      out.1 = overwrite mem.1 output
        (Sha256.digest (Sha256.digest ((mem.1.drop input).take size.toNat))) := by
  set data := (mem.1.drop input).take size.toNat with hdata
  have hread : ((mem.pushZeros 32).1.drop input).take size.toNat = data := by
    have hle : input ≤ mem.1.length := by rw [mem.2]; omega
    have hle' : size.toNat ≤ (mem.1.drop input).length := by rw [List.length_drop, mem.2]; omega
    rw [Bytes.pushZeros, List.drop_append_of_le_length hle, List.take_append_of_le_length hle']
  obtain ⟨mem₁, hrun₁, hmem₁⟩ :=
    @computeSHA256Into_eq _ (mem.pushZeros 32) input size n (by omega) (by omega)
  -- the first hash takes the place of the zeros
  have hval₁ : mem₁.1 = mem.1 ++ Sha256.digest data := by
    have hzeros : (List.replicate 32 (0 : UInt8)).length = (Sha256.digest data).length :=
      (length_digest data).symm
    have hpos := overwrite_append_right mem.1 hzeros
    rw [mem.2] at hpos
    rw [hmem₁, hread]
    exact hpos
  have hmid : (mem₁.1.drop n).take (32 : UInt32).toNat = Sha256.digest data := by
    rw [hval₁, List.drop_left' mem.2]
    exact List.take_of_length_le (length_digest data).le
  obtain ⟨mem₂, hrun₂, hmem₂⟩ :=
    @computeSHA256Into_eq _ mem₁ n 32 output le_rfl (by omega)
  refine ⟨mem₂.pop, ?_, ?_⟩
  · rw [twiceSHA256Into, hrun₁, ok_bind, hrun₂, ok_bind]
  · have hfit : output + (Sha256.digest (Sha256.digest data)).length ≤ mem.1.length := by
      rw [length_digest, mem.2]
      exact hout
    have hlen : (overwrite mem.1 output (Sha256.digest (Sha256.digest data))).length = n := by
      rw [length_digest, mem.2] at hfit
      rw [overwrite, List.length_append, List.length_append, List.length_take, List.length_drop,
        length_digest, mem.2]
      omega
    show mem₂.1.take n = _
    rw [hmem₂, hmid, hval₁, overwrite_append_left hfit]
    exact List.take_left' hlen

/-- **The program's SHA-256 is the standard's**: for every cut of a message into
chunks, for both functions that hash a whole message, and in memory wherever the
output overlaps the input. -/
theorem sha256_eq_standard :
    (∀ chunks : List (List UInt8),
      sha256Finalize (chunks.foldl sha256Update sha256Init) = Sha256.digest chunks.flatten) ∧
    (∀ input : List UInt8, (computeSHA256 input).1 = Sha256.digest input ∧
      (twiceSHA256 input).1 = Sha256.digest (Sha256.digest input)) ∧
    ∀ {n : ℕ} (mem : Bytes n) (input : ℕ) (size : UInt32) (output : ℕ),
      input + size.toNat ≤ n → output + 32 ≤ n →
      (∃ out, computeSHA256Into mem input size output = .ok out ∧
        out.1 = overwrite mem.1 output (Sha256.digest ((mem.1.drop input).take size.toNat))) ∧
      ∃ out, twiceSHA256Into mem input size output = .ok out ∧
        out.1 = overwrite mem.1 output
          (Sha256.digest (Sha256.digest ((mem.1.drop input).take size.toNat))) := by
  refine ⟨sha256Finalize_chunks, fun input => ⟨computeSHA256_eq input, twiceSHA256_eq input⟩, ?_⟩
  intro n mem input size output hin hout
  exact ⟨computeSHA256Into_eq mem hin hout, twiceSHA256Into_eq mem hin hout⟩

/-- Thirty-two zeros hashed in place. -/
theorem sha256_eq_standard_inPlace :
    ∃ out, computeSHA256Into (Bytes.replicate 32 0) 0 32 0 = .ok out ∧
      out.1 = overwrite (List.replicate 32 0) 0 (Sha256.digest (List.replicate 32 0)) :=
  (sha256_eq_standard.2.2 (Bytes.replicate 32 0) 0 32 0 (by decide) (by decide)).1

end BitcoinAnalysis
