/-
`hash.h`, namespace `BLOCKCHAIN_RIPEMD160`.

`compress` is straight-line code of 160 macro calls.  It is kept here as two
lists of these calls, in the order of the source, and a function that executes a
call on the five variables of its side.  The message is read through checked
accesses.
-/
import BitcoinAnalysis.Run
import BitcoinAnalysis.BlockTypes

namespace BitcoinAnalysis.BlockchainRipemd160

def rol (x n : UInt32) : UInt32 := (x <<< n) ||| (x >>> (32 - n))

/-- The variables of one side of `compress`, and the words of `MDbuf`. -/
structure Regs where
  aa : UInt32
  bb : UInt32
  cc : UInt32
  dd : UInt32
  ee : UInt32
  deriving DecidableEq

inductive Reg where
  | aa | bb | cc | dd | ee
  deriving DecidableEq

def Regs.get (r : Regs) : Reg → UInt32
  | .aa => r.aa
  | .bb => r.bb
  | .cc => r.cc
  | .dd => r.dd
  | .ee => r.ee

def Regs.set (r : Regs) (x : UInt32) : Reg → Regs
  | .aa => { r with aa := x }
  | .bb => { r with bb := x }
  | .cc => { r with cc := x }
  | .dd => { r with dd := x }
  | .ee => { r with ee := x }

/-! ### The macros -/

def f (x y z : UInt32) : UInt32 := x ^^^ y ^^^ z

def g (x y z : UInt32) : UInt32 := (x &&& y) ||| (~~~x &&& z)

def h (x y z : UInt32) : UInt32 := (x ||| ~~~y) ^^^ z

def i (x y z : UInt32) : UInt32 := (x &&& z) ||| (y &&& ~~~z)

def j (x y z : UInt32) : UInt32 := x ^^^ (y ||| ~~~z)

/-- A call of one of the ten macros, with the index of its message word and its
rotation. -/
inductive Line where
  | ff (a b c d e : Reg) (x : ℕ) (s : UInt32)
  | gg (a b c d e : Reg) (x : ℕ) (s : UInt32)
  | hh (a b c d e : Reg) (x : ℕ) (s : UInt32)
  | ii (a b c d e : Reg) (x : ℕ) (s : UInt32)
  | jj (a b c d e : Reg) (x : ℕ) (s : UInt32)
  | fff (a b c d e : Reg) (x : ℕ) (s : UInt32)
  | ggg (a b c d e : Reg) (x : ℕ) (s : UInt32)
  | hhh (a b c d e : Reg) (x : ℕ) (s : UInt32)
  | iii (a b c d e : Reg) (x : ℕ) (s : UInt32)
  | jjj (a b c d e : Reg) (x : ℕ) (s : UInt32)

/-- The body the macros share: `a += fn(b, c, d) + x + k; a = ROL(a, s) + e;
c = ROL(c, 10)`. -/
def Regs.operate (r : Regs) (fn : UInt32 → UInt32 → UInt32 → UInt32) (k : UInt32)
    (a b c d e : Reg) (x s : UInt32) : Regs :=
  let r := r.set (r.get a + (fn (r.get b) (r.get c) (r.get d) + x + k)) a
  let r := r.set (rol (r.get a) s + r.get e) a
  r.set (rol (r.get c) 10) c

def Regs.exec (words : List UInt32) (r : Regs) : Line → Regs
  | .ff a b c d e x s => r.operate f 0 a b c d e (words.getD x 0) s
  | .gg a b c d e x s => r.operate g 0x5a827999 a b c d e (words.getD x 0) s
  | .hh a b c d e x s => r.operate h 0x6ed9eba1 a b c d e (words.getD x 0) s
  | .ii a b c d e x s => r.operate i 0x8f1bbcdc a b c d e (words.getD x 0) s
  | .jj a b c d e x s => r.operate j 0xa953fd4e a b c d e (words.getD x 0) s
  | .fff a b c d e x s => r.operate f 0 a b c d e (words.getD x 0) s
  | .ggg a b c d e x s => r.operate g 0x7a6d76e9 a b c d e (words.getD x 0) s
  | .hhh a b c d e x s => r.operate h 0x6d703ef3 a b c d e (words.getD x 0) s
  | .iii a b c d e x s => r.operate i 0x5c4dd124 a b c d e (words.getD x 0) s
  | .jjj a b c d e x s => r.operate j 0x50a28be6 a b c d e (words.getD x 0) s

open Reg

/-- The rounds on `aa`, …, `ee`. -/
def leftLines : List Line :=
  [ -- round 1
    .ff aa bb cc dd ee 0 11, .ff ee aa bb cc dd 1 14,
    .ff dd ee aa bb cc 2 15, .ff cc dd ee aa bb 3 12,
    .ff bb cc dd ee aa 4 5, .ff aa bb cc dd ee 5 8,
    .ff ee aa bb cc dd 6 7, .ff dd ee aa bb cc 7 9,
    .ff cc dd ee aa bb 8 11, .ff bb cc dd ee aa 9 13,
    .ff aa bb cc dd ee 10 14, .ff ee aa bb cc dd 11 15,
    .ff dd ee aa bb cc 12 6, .ff cc dd ee aa bb 13 7,
    .ff bb cc dd ee aa 14 9, .ff aa bb cc dd ee 15 8,
    -- round 2
    .gg ee aa bb cc dd 7 7, .gg dd ee aa bb cc 4 6,
    .gg cc dd ee aa bb 13 8, .gg bb cc dd ee aa 1 13,
    .gg aa bb cc dd ee 10 11, .gg ee aa bb cc dd 6 9,
    .gg dd ee aa bb cc 15 7, .gg cc dd ee aa bb 3 15,
    .gg bb cc dd ee aa 12 7, .gg aa bb cc dd ee 0 12,
    .gg ee aa bb cc dd 9 15, .gg dd ee aa bb cc 5 9,
    .gg cc dd ee aa bb 2 11, .gg bb cc dd ee aa 14 7,
    .gg aa bb cc dd ee 11 13, .gg ee aa bb cc dd 8 12,
    -- round 3
    .hh dd ee aa bb cc 3 11, .hh cc dd ee aa bb 10 13,
    .hh bb cc dd ee aa 14 6, .hh aa bb cc dd ee 4 7,
    .hh ee aa bb cc dd 9 14, .hh dd ee aa bb cc 15 9,
    .hh cc dd ee aa bb 8 13, .hh bb cc dd ee aa 1 15,
    .hh aa bb cc dd ee 2 14, .hh ee aa bb cc dd 7 8,
    .hh dd ee aa bb cc 0 13, .hh cc dd ee aa bb 6 6,
    .hh bb cc dd ee aa 13 5, .hh aa bb cc dd ee 11 12,
    .hh ee aa bb cc dd 5 7, .hh dd ee aa bb cc 12 5,
    -- round 4
    .ii cc dd ee aa bb 1 11, .ii bb cc dd ee aa 9 12,
    .ii aa bb cc dd ee 11 14, .ii ee aa bb cc dd 10 15,
    .ii dd ee aa bb cc 0 14, .ii cc dd ee aa bb 8 15,
    .ii bb cc dd ee aa 12 9, .ii aa bb cc dd ee 4 8,
    .ii ee aa bb cc dd 13 9, .ii dd ee aa bb cc 3 14,
    .ii cc dd ee aa bb 7 5, .ii bb cc dd ee aa 15 6,
    .ii aa bb cc dd ee 14 8, .ii ee aa bb cc dd 5 6,
    .ii dd ee aa bb cc 6 5, .ii cc dd ee aa bb 2 12,
    -- round 5
    .jj bb cc dd ee aa 4 9, .jj aa bb cc dd ee 0 15,
    .jj ee aa bb cc dd 5 5, .jj dd ee aa bb cc 9 11,
    .jj cc dd ee aa bb 7 6, .jj bb cc dd ee aa 12 8,
    .jj aa bb cc dd ee 2 13, .jj ee aa bb cc dd 10 12,
    .jj dd ee aa bb cc 14 5, .jj cc dd ee aa bb 1 12,
    .jj bb cc dd ee aa 3 13, .jj aa bb cc dd ee 8 14,
    .jj ee aa bb cc dd 11 11, .jj dd ee aa bb cc 6 8,
    .jj cc dd ee aa bb 15 5, .jj bb cc dd ee aa 13 6]

/-- The parallel rounds on `aaa`, …, `eee`, written without the third letter. -/
def rightLines : List Line :=
  [ -- parallel round 1
    .jjj aa bb cc dd ee 5 8, .jjj ee aa bb cc dd 14 9,
    .jjj dd ee aa bb cc 7 9, .jjj cc dd ee aa bb 0 11,
    .jjj bb cc dd ee aa 9 13, .jjj aa bb cc dd ee 2 15,
    .jjj ee aa bb cc dd 11 15, .jjj dd ee aa bb cc 4 5,
    .jjj cc dd ee aa bb 13 7, .jjj bb cc dd ee aa 6 7,
    .jjj aa bb cc dd ee 15 8, .jjj ee aa bb cc dd 8 11,
    .jjj dd ee aa bb cc 1 14, .jjj cc dd ee aa bb 10 14,
    .jjj bb cc dd ee aa 3 12, .jjj aa bb cc dd ee 12 6,
    -- parallel round 2
    .iii ee aa bb cc dd 6 9, .iii dd ee aa bb cc 11 13,
    .iii cc dd ee aa bb 3 15, .iii bb cc dd ee aa 7 7,
    .iii aa bb cc dd ee 0 12, .iii ee aa bb cc dd 13 8,
    .iii dd ee aa bb cc 5 9, .iii cc dd ee aa bb 10 11,
    .iii bb cc dd ee aa 14 7, .iii aa bb cc dd ee 15 7,
    .iii ee aa bb cc dd 8 12, .iii dd ee aa bb cc 12 7,
    .iii cc dd ee aa bb 4 6, .iii bb cc dd ee aa 9 15,
    .iii aa bb cc dd ee 1 13, .iii ee aa bb cc dd 2 11,
    -- parallel round 3
    .hhh dd ee aa bb cc 15 9, .hhh cc dd ee aa bb 5 7,
    .hhh bb cc dd ee aa 1 15, .hhh aa bb cc dd ee 3 11,
    .hhh ee aa bb cc dd 7 8, .hhh dd ee aa bb cc 14 6,
    .hhh cc dd ee aa bb 6 6, .hhh bb cc dd ee aa 9 14,
    .hhh aa bb cc dd ee 11 12, .hhh ee aa bb cc dd 8 13,
    .hhh dd ee aa bb cc 12 5, .hhh cc dd ee aa bb 2 14,
    .hhh bb cc dd ee aa 10 13, .hhh aa bb cc dd ee 0 13,
    .hhh ee aa bb cc dd 4 7, .hhh dd ee aa bb cc 13 5,
    -- parallel round 4
    .ggg cc dd ee aa bb 8 15, .ggg bb cc dd ee aa 6 5,
    .ggg aa bb cc dd ee 4 8, .ggg ee aa bb cc dd 1 11,
    .ggg dd ee aa bb cc 3 14, .ggg cc dd ee aa bb 11 14,
    .ggg bb cc dd ee aa 15 6, .ggg aa bb cc dd ee 0 14,
    .ggg ee aa bb cc dd 5 6, .ggg dd ee aa bb cc 12 9,
    .ggg cc dd ee aa bb 2 12, .ggg bb cc dd ee aa 13 9,
    .ggg aa bb cc dd ee 9 12, .ggg ee aa bb cc dd 7 5,
    .ggg dd ee aa bb cc 10 15, .ggg cc dd ee aa bb 14 8,
    -- parallel round 5
    .fff bb cc dd ee aa 12 8, .fff aa bb cc dd ee 15 5,
    .fff ee aa bb cc dd 10 12, .fff dd ee aa bb cc 4 9,
    .fff cc dd ee aa bb 1 12, .fff bb cc dd ee aa 5 5,
    .fff aa bb cc dd ee 8 14, .fff ee aa bb cc dd 7 6,
    .fff dd ee aa bb cc 6 8, .fff cc dd ee aa bb 2 13,
    .fff bb cc dd ee aa 13 6, .fff aa bb cc dd ee 14 5,
    .fff ee aa bb cc dd 0 15, .fff dd ee aa bb cc 3 13,
    .fff cc dd ee aa bb 9 11, .fff bb cc dd ee aa 11 11]

def mdInit : Regs := ⟨0x67452301, 0xefcdab89, 0x98badcfe, 0x10325476, 0xc3d2e1f0⟩

def compress (md : Regs) (words : List UInt32) : Regs :=
  let l := leftLines.foldl (Regs.exec words) md
  let r := rightLines.foldl (Regs.exec words) md
  { aa := r.dd + (l.cc + md.bb)
    bb := md.cc + l.dd + r.ee
    cc := md.dd + l.ee + r.aa
    dd := md.ee + l.aa + r.bb
    ee := md.aa + l.bb + r.cc }

/-! ### The message -/

/-- `buf[i]` -/
def fetch (buf : List UInt8) (i : ℕ) : Except Fault UInt8 :=
  match buf[i]? with
  | some b => .ok b
  | none => .error .outOfRange

theorem fetch_middle (front rest : List UInt8) (b : UInt8) {i : ℕ} (hi : front.length = i) :
    fetch (front ++ b :: rest) i = .ok b := by
  rw [fetch, ← hi, List.getElem?_append_right le_rfl, Nat.sub_self]
  rfl

/-- The macro `BYTES_TO_DWORD`. -/
def bytesToDword (message : List UInt8) (p : ℕ) : Except Fault UInt32 := do
  let b₃ ← fetch message (p + 3)
  let b₂ ← fetch message (p + 2)
  let b₁ ← fetch message (p + 1)
  let b₀ ← fetch message p
  .ok ((b₃.toUInt32 <<< 24) ||| (b₂.toUInt32 <<< 16) ||| (b₁.toUInt32 <<< 8) ||| b₀.toUInt32)

def readChunk (message : List UInt8) (p : ℕ) : Except Fault (List UInt32) :=
  (List.range 16).mapM fun n => bytesToDword message (p + 4 * n)

/-- The loop over the whole chunks; it leaves the position behind them. -/
def chunkLoop (message : List UInt8) : ℕ → ℕ → Regs → Except Fault (Regs × ℕ)
  | 0, p, md => .ok (md, p)
  | n + 1, p, md => do
    let words ← readChunk message p
    chunkLoop message n (p + 64) (compress md words)

/-- `X[i] ^= y` -/
def xorAt (words : List UInt32) (n : ℕ) (y : UInt32) : List UInt32 := words.modify n (· ^^^ y)

/-- The loop that puts the last bytes, from position `p` on, into `X`. -/
def putBytes (message : List UInt8) (p : ℕ) (lswlen : UInt32) : Except Fault (List UInt32) :=
  (List.range (lswlen &&& 63).toNat).foldlM (fun words n => do
    let b ← fetch message (p + n)
    .ok (xorAt words (n / 4) (b.toUInt32 <<< UInt32.ofNat (8 * (n % 4))))) (List.replicate 16 0)

def mdFinish (md : Regs) (message : List UInt8) (p : ℕ) (lswlen mswlen : UInt32) :
    Except Fault Regs := do
  let words ← putBytes message p lswlen
  let words := xorAt words ((lswlen >>> 2) &&& 15).toNat (1 <<< (8 * (lswlen &&& 3) + 7))
  -- the length goes to the next block
  let (md, words) := if lswlen &&& 63 > 55 then (compress md words, List.replicate 16 0)
    else (md, words)
  let words := words.set 14 (lswlen <<< 3)
  let words := words.set 15 ((lswlen >>> 29) ||| (mswlen <<< 3))
  .ok (compress md words)

def wordBytes (x : UInt32) : List UInt8 :=
  [x.toUInt8, (x >>> 8).toUInt8, (x >>> 16).toUInt8, (x >>> 24).toUInt8]

def Regs.hashcode (md : Regs) : Address :=
  ⟨[md.aa, md.bb, md.cc, md.dd, md.ee].flatMap wordBytes, rfl⟩

def computeRIPEMD160 (message : List UInt8) (length : UInt32) : Except Fault Address := do
  let (md, p) ← chunkLoop message (length.toNat / 64) 0 mdInit
  let md ← mdFinish md message p length 0
  .ok md.hashcode

example : (computeRIPEMD160 [0x61, 0x62, 0x63] 3).toOption.map Subtype.val =
    some [0x8e, 0xb2, 0x08, 0xf7, 0xe0, 0x5d, 0x98, 0x7a, 0x9b, 0x04, 0x4a, 0x8e, 0x98, 0xc6, 0xb0,
      0x87, 0xf1, 0x5a, 0x0b, 0xfc] := by
  decide +kernel

end BitcoinAnalysis.BlockchainRipemd160
