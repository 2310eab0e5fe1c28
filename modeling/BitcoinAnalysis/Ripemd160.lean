/-
RIPEMD-160 as its authors define it.

The compression function runs two lines of 80 steps over the same words.  Step
`j` takes the word `r j`; the order of the words in the five rounds comes from
the permutations `rho` and `pi`, and the rotation from the round and the word.
A message is padded to whole blocks of 64 bytes with its length, the least
significant byte first.  Everything is executable.
-/
import BitcoinAnalysis.MerkleDamgard

namespace Ripemd160

/-- The chaining variables, and the working variables of a line. -/
structure State where
  a : UInt32
  b : UInt32
  c : UInt32
  d : UInt32
  e : UInt32
  deriving DecidableEq

def rol (s x : UInt32) : UInt32 := (x <<< s) ||| (x >>> (32 - s))

/-- The nonlinear function of a round. -/
def nonlinear (round : ℕ) (x y z : UInt32) : UInt32 :=
  match round with
  | 0 => x ^^^ y ^^^ z
  | 1 => (x &&& y) ||| (~~~x &&& z)
  | 2 => (x ||| ~~~y) ^^^ z
  | 3 => (x &&& z) ||| (y &&& ~~~z)
  | _ => x ^^^ (y ||| ~~~z)

def rho (i : ℕ) : ℕ := [7, 4, 13, 1, 10, 6, 15, 3, 12, 0, 9, 5, 2, 14, 11, 8].getD i 0

def pi (i : ℕ) : ℕ := (9 * i + 5) % 16

/-- The rotations of the five rounds, by message word. -/
def shifts : List (List UInt32) :=
  [[11, 14, 15, 12, 5, 8, 7, 9, 11, 13, 14, 15, 6, 7, 9, 8],
   [12, 13, 11, 15, 6, 9, 9, 7, 12, 15, 11, 13, 7, 8, 7, 7],
   [13, 15, 14, 11, 7, 7, 6, 8, 13, 14, 13, 12, 5, 5, 6, 9],
   [14, 11, 12, 14, 8, 6, 5, 5, 15, 12, 15, 14, 9, 9, 8, 6],
   [15, 12, 13, 13, 9, 5, 8, 6, 14, 11, 12, 11, 8, 6, 5, 5]]

/-- One of the two lines: the function, the constant and the message word of
each step. -/
structure Side where
  f : ℕ → UInt32 → UInt32 → UInt32 → UInt32
  k : ℕ → UInt32
  r : ℕ → ℕ

def left : Side where
  f j := nonlinear (j / 16)
  k j := [0, 0x5a827999, 0x6ed9eba1, 0x8f1bbcdc, 0xa953fd4e].getD (j / 16) 0
  r j := rho^[j / 16] (j % 16)

def right : Side where
  f j := nonlinear (4 - j / 16)
  k j := [0x50a28be6, 0x5c4dd124, 0x6d703ef3, 0x7a6d76e9, 0].getD (j / 16) 0
  r j := rho^[j / 16] (pi (j % 16))

/-- The rotation of a step. -/
def Side.s (side : Side) (j : ℕ) : UInt32 := (shifts.getD (j / 16) []).getD (side.r j) 0

/-- The first assignment of a step, with the values of `f`, `x`, `k` and `s`, and
the exchange of the variables. -/
def State.step (v : State) (f : UInt32 → UInt32 → UInt32 → UInt32) (x k s : UInt32) : State :=
  let t := rol s (v.a + f v.b v.c v.d + x + k) + v.e
  ⟨v.e, t, v.b, rol 10 v.c, v.d⟩

def Side.round (side : Side) (words : List UInt32) (v : State) (j : ℕ) : State :=
  v.step (side.f j) (words.getD (side.r j) 0) (side.k j) (side.s j)

def Side.run (side : Side) (words : List UInt32) (v : State) : State :=
  (List.range 80).foldl (side.round words) v

def compress (h : State) (words : List UInt32) : State :=
  let l := left.run words h
  let r := right.run words h
  ⟨h.b + l.c + r.d, h.c + l.d + r.e, h.d + l.e + r.a, h.e + l.a + r.b, h.a + l.b + r.c⟩

/-! ### The message -/

/-- A word from its bytes, the least significant first. -/
def wordLE (b₀ b₁ b₂ b₃ : UInt8) : UInt32 :=
  b₀.toUInt32 ||| (b₁.toUInt32 <<< 8) ||| (b₂.toUInt32 <<< 16) ||| (b₃.toUInt32 <<< 24)

/-- The bytes of a word, the least significant first. -/
def bytesLE (x : UInt32) : List UInt8 :=
  [x.toUInt8, (x >>> 8).toUInt8, (x >>> 16).toUInt8, (x >>> 24).toUInt8]

/-- The words of a block. -/
def words : List UInt8 → List UInt32
  | b₀ :: b₁ :: b₂ :: b₃ :: bs => wordLE b₀ b₁ b₂ b₃ :: words bs
  | _ => []

/-- The length of a message in bits, as 64 bits. -/
def lengthBytes (msg : List UInt8) : List UInt8 :=
  let bits := UInt64.ofNat (8 * msg.length)
  bytesLE bits.toUInt32 ++ bytesLE (bits >>> 32).toUInt32

/-- A one bit, zeros up to 8 bytes below a multiple of 64, and the length. -/
def pad (msg : List UInt8) : List UInt8 :=
  msg ++ 0x80 :: List.replicate ((119 - msg.length % 64) % 64) 0 ++ lengthBytes msg

def initial : State := ⟨0x67452301, 0xefcdab89, 0x98badcfe, 0x10325476, 0xc3d2e1f0⟩

def compressBlock (h : State) (block : List UInt8) : State := compress h (words block)

def State.bytes (h : State) : List UInt8 :=
  bytesLE h.a ++ bytesLE h.b ++ bytesLE h.c ++ bytesLE h.d ++ bytesLE h.e

/-- The hash of a message. -/
def digest (msg : List UInt8) : List UInt8 :=
  (MerkleDamgard.absorb compressBlock ((pad msg).length / 64) initial (pad msg)).bytes

@[simp] theorem length_digest (msg : List UInt8) : (digest msg).length = 20 := rfl

/-! ### Words -/

theorem words_append {bs : List UInt8} {n : ℕ} (h : bs.length = 4 * n) (cs : List UInt8) :
    words (bs ++ cs) = words bs ++ words cs := by
  induction n generalizing bs with
  | zero =>
    rw [List.length_eq_zero_iff.mp h]
    rfl
  | succ n ih =>
    match bs, h with
    | b₀ :: b₁ :: b₂ :: b₃ :: bs, h =>
      have hbs : bs.length = 4 * n := by simpa [Nat.mul_succ] using h
      simp only [List.cons_append, words, ih hbs]

theorem length_words {bs : List UInt8} {n : ℕ} (h : bs.length = 4 * n) :
    (words bs).length = n := by
  induction n generalizing bs with
  | zero =>
    rw [List.length_eq_zero_iff.mp h]
    rfl
  | succ n ih =>
    match bs, h with
    | b₀ :: b₁ :: b₂ :: b₃ :: bs, h =>
      have hbs : bs.length = 4 * n := by simpa [Nat.mul_succ] using h
      rw [words, List.length_cons, ih hbs]

theorem words_bytesLE (x : UInt32) : words (bytesLE x) = [x] := by
  rw [bytesLE, words, words]
  · congr 1
    apply UInt32.toBitVec_inj.mp
    ext i hi
    simp [wordLE, -UInt32.toUInt32_toUInt8]
    interval_cases i <;> simp
  · intros; contradiction

example : digest [] =
    [0x9c, 0x11, 0x85, 0xa5, 0xc5, 0xe9, 0xfc, 0x54, 0x61, 0x28, 0x08, 0x97, 0x7e, 0xe8, 0xf5, 0x48,
     0xb2, 0x25, 0x8d, 0x31] := by
  decide +kernel

end Ripemd160
