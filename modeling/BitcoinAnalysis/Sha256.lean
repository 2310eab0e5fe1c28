/-
SHA-256 as FIPS 180-4 defines it.

A message is padded to whole blocks of 64 bytes (`pad`), the blocks are
compressed one after another into eight words (`compress`), and the words are
written out with the most significant byte first (`digest`).  Everything is
executable.
-/
import BitcoinAnalysis.MerkleDamgard

namespace Sha256

/-- The eight working variables, and the eight words of a hash value. -/
structure State where
  a : UInt32
  b : UInt32
  c : UInt32
  d : UInt32
  e : UInt32
  f : UInt32
  g : UInt32
  h : UInt32
  deriving DecidableEq

def rotr (n x : UInt32) : UInt32 := (x >>> n) ||| (x <<< (32 - n))

/-! ### The functions of section 4.1.2 -/

def ch (x y z : UInt32) : UInt32 := (x &&& y) ^^^ (~~~x &&& z)

def maj (x y z : UInt32) : UInt32 := (x &&& y) ^^^ (x &&& z) ^^^ (y &&& z)

def bigSigma0 (x : UInt32) : UInt32 := rotr 2 x ^^^ rotr 13 x ^^^ rotr 22 x

def bigSigma1 (x : UInt32) : UInt32 := rotr 6 x ^^^ rotr 11 x ^^^ rotr 25 x

def smallSigma0 (x : UInt32) : UInt32 := rotr 7 x ^^^ rotr 18 x ^^^ (x >>> 3)

def smallSigma1 (x : UInt32) : UInt32 := rotr 17 x ^^^ rotr 19 x ^^^ (x >>> 10)

/-- The constants of section 4.2.2. -/
def roundConstants : List UInt32 :=
  [0x428a2f98, 0x71374491, 0xb5c0fbcf, 0xe9b5dba5, 0x3956c25b, 0x59f111f1, 0x923f82a4, 0xab1c5ed5,
   0xd807aa98, 0x12835b01, 0x243185be, 0x550c7dc3, 0x72be5d74, 0x80deb1fe, 0x9bdc06a7, 0xc19bf174,
   0xe49b69c1, 0xefbe4786, 0x0fc19dc6, 0x240ca1cc, 0x2de92c6f, 0x4a7484aa, 0x5cb0a9dc, 0x76f988da,
   0x983e5152, 0xa831c66d, 0xb00327c8, 0xbf597fc7, 0xc6e00bf3, 0xd5a79147, 0x06ca6351, 0x14292967,
   0x27b70a85, 0x2e1b2138, 0x4d2c6dfc, 0x53380d13, 0x650a7354, 0x766a0abb, 0x81c2c92e, 0x92722c85,
   0xa2bfe8a1, 0xa81a664b, 0xc24b8b70, 0xc76c51a3, 0xd192e819, 0xd6990624, 0xf40e3585, 0x106aa070,
   0x19a4c116, 0x1e376c08, 0x2748774c, 0x34b0bcb5, 0x391c0cb3, 0x4ed8aa4a, 0x5b9cca4f, 0x682e6ff3,
   0x748f82ee, 0x78a5636f, 0x84c87814, 0x8cc70208, 0x90befffa, 0xa4506ceb, 0xbef9a3f7, 0xc67178f2]

/-- The initial hash value of section 5.3.3. -/
def initial : State :=
  ⟨0x6a09e667, 0xbb67ae85, 0x3c6ef372, 0xa54ff53a, 0x510e527f, 0x9b05688c, 0x1f83d9ab, 0x5be0cd19⟩

/-! ### Padding -/

/-- A word from its bytes, the most significant first. -/
def wordBE (b₀ b₁ b₂ b₃ : UInt8) : UInt32 :=
  (b₀.toUInt32 <<< 24) ||| (b₁.toUInt32 <<< 16) ||| (b₂.toUInt32 <<< 8) ||| b₃.toUInt32

/-- The bytes of a word, the most significant first. -/
def bytesBE (x : UInt32) : List UInt8 :=
  [(x >>> 24).toUInt8, (x >>> 16).toUInt8, (x >>> 8).toUInt8, x.toUInt8]

/-- The length of a message in bits, as 64 bits. -/
def lengthBytes (msg : List UInt8) : List UInt8 :=
  let bits := UInt64.ofNat (8 * msg.length)
  bytesBE (bits >>> 32).toUInt32 ++ bytesBE bits.toUInt32

/-- A one bit, zeros up to 8 bytes below a multiple of 64, and the length. -/
def pad (msg : List UInt8) : List UInt8 :=
  msg ++ 0x80 :: List.replicate ((119 - msg.length % 64) % 64) 0 ++ lengthBytes msg

/-- The words of a block. -/
def words : List UInt8 → List UInt32
  | b₀ :: b₁ :: b₂ :: b₃ :: bs => wordBE b₀ b₁ b₂ b₃ :: words bs
  | _ => []

/-! ### Compression -/

/-- The message schedule: `n` further words behind the words `w`. -/
def extend : ℕ → List UInt32 → List UInt32
  | 0, w => w
  | n + 1, w =>
    let t := w.length
    extend n (w ++ [smallSigma1 (w.getD (t - 2) 0) + w.getD (t - 7) 0
      + smallSigma0 (w.getD (t - 15) 0) + w.getD (t - 16) 0])

def round (s : State) (kw : UInt32 × UInt32) : State :=
  let t₁ := s.h + bigSigma1 s.e + ch s.e s.f s.g + kw.1 + kw.2
  let t₂ := bigSigma0 s.a + maj s.a s.b s.c
  ⟨t₁ + t₂, s.a, s.b, s.c, s.d + t₁, s.e, s.f, s.g⟩

def State.add (s t : State) : State :=
  ⟨s.a + t.a, s.b + t.b, s.c + t.c, s.d + t.d, s.e + t.e, s.f + t.f, s.g + t.g, s.h + t.h⟩

/-- One block. -/
def compress (s : State) (block : List UInt8) : State :=
  s.add ((roundConstants.zip (extend 48 (words block))).foldl round s)

/-- The first `n` blocks of a message. -/
def absorb : ℕ → State → List UInt8 → State
  | 0, s, _ => s
  | n + 1, s, msg => absorb n (compress s (msg.take 64)) (msg.drop 64)

def State.bytes (s : State) : List UInt8 :=
  bytesBE s.a ++ bytesBE s.b ++ bytesBE s.c ++ bytesBE s.d ++ bytesBE s.e ++ bytesBE s.f
    ++ bytesBE s.g ++ bytesBE s.h

/-- The hash of a message. -/
def digest (msg : List UInt8) : List UInt8 :=
  (absorb ((pad msg).length / 64) initial (pad msg)).bytes

@[simp] theorem length_lengthBytes (msg : List UInt8) : (lengthBytes msg).length = 8 := rfl

/-! ### Absorbing -/

theorem absorb_eq (n : ℕ) (s : State) (msg : List UInt8) :
    absorb n s msg = MerkleDamgard.absorb compress n s msg := by
  induction n generalizing s msg with
  | zero => rfl
  | succ n ih => rw [absorb, MerkleDamgard.absorb, ih]

/-- One more block. -/
theorem absorb_block {m : ℕ} (s : State) {xs block : List UInt8} (hxs : xs.length = 64 * m)
    (hblock : block.length = 64) :
    absorb (m + 1) s (xs ++ block) = compress (absorb m s xs) block := by
  rw [absorb_eq, absorb_eq, MerkleDamgard.absorb_block compress s hxs hblock]

example : digest [0x61, 0x62, 0x63] =
    [0xba, 0x78, 0x16, 0xbf, 0x8f, 0x01, 0xcf, 0xea, 0x41, 0x41, 0x40, 0xde, 0x5d, 0xae, 0x22, 0x23,
     0xb0, 0x03, 0x61, 0xa3, 0x96, 0x17, 0x7a, 0x9c, 0xb4, 0x10, 0xff, 0x61, 0xf2, 0x00, 0x15, 0xad] := by
  decide +kernel

end Sha256
