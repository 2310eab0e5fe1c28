/-
`hash.h`, namespace `BLOCKCHAIN_SHA256`: SHA-256 over a stream.

A context holds the words hashed so far, the bytes that do not fill a block yet
and the length in bits.  Bytes of the buffer beyond `bufferLength` are never
read, so the model keeps the first `bufferLength` bytes only.  A pair of a
pointer and a length is the list of the bytes there.

`computeSHA256_eq` says that the result is the hash of the standard, on a
little-endian machine.
-/
import BitcoinAnalysis.Sha256
import BitcoinAnalysis.BlockTypes

namespace BitcoinAnalysis.BlockchainSha256

def rotl (x n : UInt32) : UInt32 := (x <<< n) ||| (x >>> (32 - n))

def rotr (x n : UInt32) : UInt32 := (x >>> n) ||| (x <<< (32 - n))

def ch (x y z : UInt32) : UInt32 := z ^^^ (x &&& (y ^^^ z))

def maj (x y z : UInt32) : UInt32 := (x &&& (y ||| z)) ||| (y &&& z)

/-- The macro `SIGMA0`. -/
def upperSigma0 (x : UInt32) : UInt32 := rotr x 2 ^^^ rotr x 13 ^^^ rotr x 22

/-- The macro `SIGMA1`. -/
def upperSigma1 (x : UInt32) : UInt32 := rotr x 6 ^^^ rotr x 11 ^^^ rotr x 25

def sigma0 (x : UInt32) : UInt32 := rotr x 7 ^^^ rotr x 18 ^^^ (x >>> 3)

def sigma1 (x : UInt32) : UInt32 := rotr x 17 ^^^ rotr x 19 ^^^ (x >>> 10)

/-- The table `K`. -/
def k : List UInt32 :=
  [0x428a2f98, 0x71374491, 0xb5c0fbcf, 0xe9b5dba5,
   0x3956c25b, 0x59f111f1, 0x923f82a4, 0xab1c5ed5,
   0xd807aa98, 0x12835b01, 0x243185be, 0x550c7dc3,
   0x72be5d74, 0x80deb1fe, 0x9bdc06a7, 0xc19bf174,
   0xe49b69c1, 0xefbe4786, 0x0fc19dc6, 0x240ca1cc,
   0x2de92c6f, 0x4a7484aa, 0x5cb0a9dc, 0x76f988da,
   0x983e5152, 0xa831c66d, 0xb00327c8, 0xbf597fc7,
   0xc6e00bf3, 0xd5a79147, 0x06ca6351, 0x14292967,
   0x27b70a85, 0x2e1b2138, 0x4d2c6dfc, 0x53380d13,
   0x650a7354, 0x766a0abb, 0x81c2c92e, 0x92722c85,
   0xa2bfe8a1, 0xa81a664b, 0xc24b8b70, 0xc76c51a3,
   0xd192e819, 0xd6990624, 0xf40e3585, 0x106aa070,
   0x19a4c116, 0x1e376c08, 0x2748774c, 0x34b0bcb5,
   0x391c0cb3, 0x4ed8aa4a, 0x5b9cca4f, 0x682e6ff3,
   0x748f82ee, 0x78a5636f, 0x84c87814, 0x8cc70208,
   0x90befffa, 0xa4506ceb, 0xbef9a3f7, 0xc67178f2]

def byteswap (x : UInt32) : UInt32 := (rotr x 8 &&& 0xff00ff00) ||| (rotl x 8 &&& 0x00ff00ff)

def byteswap64 (x : UInt64) : UInt64 :=
  let a := (x >>> 32).toUInt32
  let b := x.toUInt32
  ((byteswap b).toUInt64 <<< 32) ||| (byteswap a).toUInt64

/-- A `unit32` read from memory. -/
def loadWord (b₀ b₁ b₂ b₃ : UInt8) : UInt32 :=
  b₀.toUInt32 ||| (b₁.toUInt32 <<< 8) ||| (b₂.toUInt32 <<< 16) ||| (b₃.toUInt32 <<< 24)

/-- A `unit32` written to memory. -/
def storeWord (x : UInt32) : List UInt8 :=
  [x.toUInt8, (x >>> 8).toUInt8, (x >>> 16).toUInt8, (x >>> 24).toUInt8]

/-- A `unit64` written to memory. -/
def storeWord64 (x : UInt64) : List UInt8 := storeWord x.toUInt32 ++ storeWord (x >>> 32).toUInt32

def loadWords : List UInt8 → List UInt32
  | b₀ :: b₁ :: b₂ :: b₃ :: bs => loadWord b₀ b₁ b₂ b₃ :: loadWords bs
  | _ => []

structure Sha256Ctx where
  totalLength : UInt64
  hash : Sha256.State
  /-- The first `bufferLength` bytes of the buffer. -/
  buffer : List UInt8
  deriving DecidableEq

def sha256Init : Sha256Ctx where
  totalLength := 0
  hash :=
    { a := 0x6a09e667
      b := 0xbb67ae85
      c := 0x3c6ef372
      d := 0xa54ff53a
      e := 0x510e527f
      f := 0x9b05688c
      g := 0x1f83d9ab
      h := 0x5be0cd19 }
  buffer := []

/-- The loop that fills `buf` from `W2`, `W7`, `W15` and `W16`, which point to
`buf[14 + i]`, `buf[9 + i]`, `buf[1 + i]` and `buf[i]`. -/
def expandBuf : ℕ → ℕ → List UInt32 → List UInt32
  | 0, _, buf => buf
  | n + 1, i, buf =>
    expandBuf n (i + 1) (buf ++ [sigma1 (buf.getD (14 + i) 0) + buf.getD (9 + i) 0
      + sigma0 (buf.getD (1 + i) 0) + buf.getD i 0])

/-- The macro `DO_ROUND`. -/
def doRound (s : Sha256.State) (kw : UInt32 × UInt32) : Sha256.State :=
  let t1 := s.h + upperSigma1 s.e + ch s.e s.f s.g + kw.1 + kw.2
  let t2 := upperSigma0 s.a + maj s.a s.b s.c
  { h := s.g, g := s.f, f := s.e, e := s.d + t1, d := s.c, c := s.b, b := s.a, a := t1 + t2 }

def sha256Guts (hash : Sha256.State) (cbuf : List UInt8) : Sha256.State :=
  let buf := expandBuf 48 0 ((loadWords cbuf).map byteswap)
  let s := (k.zip buf).foldl doRound hash
  { a := hash.a + s.a
    b := hash.b + s.b
    c := hash.c + s.c
    d := hash.d + s.d
    e := hash.e + s.e
    f := hash.f + s.f
    g := hash.g + s.g
    h := hash.h + s.h }

/-- The first part of `sha256_update`: fill up a buffer that holds something.
Returns what is left of the data. -/
def topUp (sc : Sha256Ctx) (data : List UInt8) : Sha256Ctx × List UInt8 :=
  if sc.buffer.length ≠ 0 then
    let bytesToCopy := min (64 - sc.buffer.length) data.length
    let sc := { sc with
      buffer := sc.buffer ++ data.take bytesToCopy
      totalLength := sc.totalLength + UInt64.ofNat (bytesToCopy * 8) }
    let sc := if sc.buffer.length = 64 then
        { sc with hash := sha256Guts sc.hash sc.buffer, buffer := [] } else sc
    (sc, data.drop bytesToCopy)
  else (sc, data)

/-- The loop `while (len > 63)`, of `len / 64` rounds. -/
def wholeBlocks : ℕ → Sha256Ctx → List UInt8 → Sha256Ctx × List UInt8
  | 0, sc, data => (sc, data)
  | n + 1, sc, data =>
    wholeBlocks n { sc with
      totalLength := sc.totalLength + 512
      hash := sha256Guts sc.hash (data.take 64) } (data.drop 64)

def sha256Update (sc : Sha256Ctx) (data : List UInt8) : Sha256Ctx :=
  let (sc, data) := topUp sc data
  let (sc, data) := wholeBlocks (data.length / 64) sc data
  if data.length ≠ 0 then
    { sc with
      buffer := sc.buffer ++ data
      totalLength := sc.totalLength + UInt64.ofNat (data.length * 8) }
  else sc

def padding : List UInt8 := 0x80 :: List.replicate 63 0

def sha256Finalize (sc : Sha256Ctx) : List UInt8 :=
  let bytesToPad := 120 - sc.buffer.length
  let bytesToPad := if bytesToPad > 64 then bytesToPad - 64 else bytesToPad
  let lengthPad := byteswap64 sc.totalLength
  let sc := sha256Update sc (padding.take bytesToPad)
  let sc := sha256Update sc (storeWord64 lengthPad)
  [sc.hash.a, sc.hash.b, sc.hash.c, sc.hash.d, sc.hash.e, sc.hash.f, sc.hash.g, sc.hash.h].flatMap
    fun x => storeWord (byteswap x)

def computeSHA256 (input : List UInt8) : Hash :=
  ⟨sha256Finalize (sha256Update sha256Init input), rfl⟩

/-! ### One block -/

theorem ch_eq (x y z : UInt32) : ch x y z = Sha256.ch x y z := by
  apply UInt32.toBitVec_inj.mp
  ext i hi
  simp only [ch, Sha256.ch, UInt32.toBitVec_xor, UInt32.toBitVec_and, UInt32.toBitVec_not,
    BitVec.getElem_xor, BitVec.getElem_and, BitVec.getElem_not]
  cases x.toBitVec[i] <;> cases y.toBitVec[i] <;> cases z.toBitVec[i] <;> rfl

theorem maj_eq (x y z : UInt32) : maj x y z = Sha256.maj x y z := by
  apply UInt32.toBitVec_inj.mp
  ext i hi
  simp only [maj, Sha256.maj, UInt32.toBitVec_xor, UInt32.toBitVec_and, UInt32.toBitVec_or,
    BitVec.getElem_xor, BitVec.getElem_and, BitVec.getElem_or]
  cases x.toBitVec[i] <;> cases y.toBitVec[i] <;> cases z.toBitVec[i] <;> rfl

/-- Loading a word and swapping its bytes reads it with the most significant
byte first. -/
theorem byteswap_loadWord (b₀ b₁ b₂ b₃ : UInt8) :
    byteswap (loadWord b₀ b₁ b₂ b₃) = Sha256.wordBE b₀ b₁ b₂ b₃ := by
  apply UInt32.toBitVec_inj.mp
  ext i hi
  simp [Sha256.wordBE, byteswap, loadWord, rotl, rotr]
  interval_cases i <;> simp

theorem storeWord_byteswap (x : UInt32) : storeWord (byteswap x) = Sha256.bytesBE x := by
  have hbyte : ∀ {m n : UInt32}, m = 24 ∧ n = 0 ∨ m = 16 ∧ n = 8 ∨ m = 8 ∧ n = 16 ∨ m = 0 ∧ n = 24 →
      (byteswap x >>> n).toUInt8 = (x >>> m).toUInt8 := by
    rintro m n (⟨rfl, rfl⟩ | ⟨rfl, rfl⟩ | ⟨rfl, rfl⟩ | ⟨rfl, rfl⟩) <;>
    · apply UInt8.toBitVec_inj.mp
      ext i hi
      simp [byteswap, rotl, rotr]
      interval_cases i <;> simp
  have h₀ := hbyte (m := 24) (n := 0) (by simp)
  have h₃ := hbyte (m := 0) (n := 24) (by simp)
  rw [UInt32.shiftRight_zero] at h₀ h₃
  rw [storeWord, Sha256.bytesBE, h₀, hbyte (m := 16) (n := 8) (by simp),
    hbyte (m := 8) (n := 16) (by simp), h₃]

theorem map_byteswap_loadWords (bs : List UInt8) :
    (loadWords bs).map byteswap = Sha256.words bs := by
  induction bs using loadWords.induct with
  | case1 b₀ b₁ b₂ b₃ bs ih =>
    rw [loadWords, Sha256.words, List.map_cons, byteswap_loadWord, ih]
  | case2 bs h =>
    rw [loadWords, Sha256.words]
    · rfl
    · exact h
    · exact h

theorem expandBuf_eq (n i : ℕ) (buf : List UInt32) (h : buf.length = 16 + i) :
    expandBuf n i buf = Sha256.extend n buf := by
  induction n generalizing i buf with
  | zero => rfl
  | succ n ih =>
    have h2 : buf.length - 2 = 14 + i := by omega
    have h7 : buf.length - 7 = 9 + i := by omega
    have h15 : buf.length - 15 = 1 + i := by omega
    have h16 : buf.length - 16 = i := by omega
    rw [expandBuf, Sha256.extend, h2, h7, h15, h16]
    exact ih (i + 1) _ (by rw [List.length_append, h]; rfl)

theorem doRound_eq : doRound = Sha256.round := by
  funext s kw
  simp only [doRound, Sha256.round, ch_eq, maj_eq]
  rfl

theorem length_words {bs : List UInt8} {n : ℕ} (h : bs.length = 4 * n) :
    (Sha256.words bs).length = n := by
  induction n generalizing bs with
  | zero =>
    rw [List.length_eq_zero_iff.mp h]
    rfl
  | succ n ih =>
    match bs, h with
    | b₀ :: b₁ :: b₂ :: b₃ :: bs, h =>
      rw [Sha256.words, List.length_cons, ih]
      simpa [Nat.mul_succ] using h

/-- `SHA256Guts` is the compression of the standard. -/
theorem sha256Guts_eq (hash : Sha256.State) {cbuf : List UInt8} (h : cbuf.length = 64) :
    sha256Guts hash cbuf = Sha256.compress hash cbuf := by
  rw [sha256Guts, map_byteswap_loadWords, expandBuf_eq 48 0 _ (length_words h), doRound_eq]
  rfl

/-! ### The stream -/

/-- The context after the bytes `msg`. -/
structure Absorbed (sc : Sha256Ctx) (msg : List UInt8) : Prop where
  hash : ∃ m whole, msg = whole ++ sc.buffer ∧ whole.length = 64 * m ∧
    sc.hash = Sha256.absorb m Sha256.initial whole
  total : sc.totalLength = UInt64.ofNat (8 * msg.length)
  short : sc.buffer.length < 64

theorem absorbed_init : Absorbed sha256Init [] :=
  ⟨⟨0, [], rfl, rfl, rfl⟩, rfl, by decide⟩

theorem total_append {n : UInt64} {msg bs : List UInt8} (h : n = UInt64.ofNat (8 * msg.length))
    {d : UInt64} (hd : d = UInt64.ofNat (bs.length * 8)) :
    n + d = UInt64.ofNat (8 * (msg ++ bs).length) := by
  rw [h, hd, List.length_append, Nat.mul_add, UInt64.ofNat_add, Nat.mul_comm bs.length]

/-- A whole block behind a message. -/
theorem absorb_block {m : ℕ} {whole block : List UInt8} (hw : whole.length = 64 * m)
    (hb : block.length = 64) :
    Sha256.absorb (m + 1) Sha256.initial (whole ++ block)
      = sha256Guts (Sha256.absorb m Sha256.initial whole) block := by
  rw [Sha256.absorb_block _ hw hb, sha256Guts_eq _ hb]

theorem absorbed_topUp {sc : Sha256Ctx} {msg : List UInt8} (h : Absorbed sc msg)
    (data : List UInt8) :
    ∃ bs, data = bs ++ (topUp sc data).2 ∧ Absorbed (topUp sc data).1 (msg ++ bs) ∧
      ((topUp sc data).1.buffer = [] ∨ (topUp sc data).2 = []) := by
  obtain ⟨⟨m, whole, hmsg, hwhole, hhash⟩, htotal, hshort⟩ := h
  rw [topUp]
  by_cases hempty : sc.buffer.length ≠ 0
  · rw [if_pos hempty]
    set n := min (64 - sc.buffer.length) data.length with hn
    have htake : (data.take n).length = n := by rw [List.length_take]; omega
    have hlen : (sc.buffer ++ data.take n).length = sc.buffer.length + n := by
      rw [List.length_append, htake]
    have hbits : UInt64.ofNat (n * 8) = UInt64.ofNat ((data.take n).length * 8) := by rw [htake]
    have htotal' := total_append htotal hbits
    refine ⟨data.take n, (List.take_append_drop n data).symm, ?_⟩
    by_cases hfull : (sc.buffer ++ data.take n).length = 64
    · simp only [hfull, if_true]
      -- the buffer is full and is absorbed as one more block
      refine ⟨⟨⟨m + 1, whole ++ (sc.buffer ++ data.take n), ?_, ?_, ?_⟩, htotal', ?_⟩, .inl trivial⟩
      · rw [hmsg, List.append_nil, List.append_assoc]
      · rw [List.length_append, hwhole, hfull, Nat.mul_succ]
      · rw [absorb_block hwhole hfull, ← hhash]
      · exact Nat.zero_lt_succ 63
    · simp only [hfull, if_false]
      -- the data has run out first
      refine ⟨⟨⟨m, whole, ?_, hwhole, hhash⟩, htotal', ?_⟩, .inr ?_⟩
      · rw [hmsg, List.append_assoc]
      · rw [hlen] at hfull ⊢
        omega
      · rw [hlen] at hfull
        exact List.drop_eq_nil_of_le (by omega)
  · rw [if_neg hempty]
    have hnil : sc.buffer = [] := List.length_eq_zero_iff.mp (not_not.mp hempty)
    refine ⟨[], rfl, ?_, .inl hnil⟩
    rw [List.append_nil]
    exact ⟨⟨m, whole, hmsg, hwhole, hhash⟩, htotal, hshort⟩

theorem absorbed_wholeBlocks {n : ℕ} {sc : Sha256Ctx} {msg data : List UInt8} (h : Absorbed sc msg)
    (hbuf : sc.buffer = []) (hn : 64 * n ≤ data.length) :
    (wholeBlocks n sc data).2 = data.drop (64 * n) ∧ (wholeBlocks n sc data).1.buffer = [] ∧
      Absorbed (wholeBlocks n sc data).1 (msg ++ data.take (64 * n)) := by
  induction n generalizing sc msg data with
  | zero =>
    refine ⟨rfl, hbuf, ?_⟩
    rw [Nat.mul_zero, List.take_zero, List.append_nil]
    exact h
  | succ n ih =>
    obtain ⟨⟨m, whole, hmsg, hwhole, hhash⟩, htotal, -⟩ := h
    rw [hbuf, List.append_nil] at hmsg
    have hblock : (data.take 64).length = 64 := by rw [List.length_take]; omega
    -- one block straight from the data; 512 is its length in bits
    have hstep : Absorbed
        { sc with
          totalLength := sc.totalLength + 512
          hash := sha256Guts sc.hash (data.take 64) } (msg ++ data.take 64) := by
      refine ⟨⟨m + 1, whole ++ data.take 64, ?_, ?_, ?_⟩, ?_, ?_⟩
      · rw [hmsg, hbuf, List.append_nil]
      · rw [List.length_append, hwhole, hblock, Nat.mul_succ]
      · rw [absorb_block hwhole hblock, ← hhash]
      · exact total_append htotal (by rw [hblock]; rfl)
      · rw [hbuf]
        exact Nat.zero_lt_succ 63
    have hrest : 64 * n ≤ (data.drop 64).length := by
      rw [List.length_drop]
      omega
    obtain ⟨hdrop, hbuf', habs⟩ := ih hstep hbuf hrest
    refine ⟨?_, hbuf', ?_⟩
    · rw [wholeBlocks, hdrop, List.drop_drop]
      congr 1
      omega
    · rw [List.append_assoc] at habs
      have htake : data.take 64 ++ (data.drop 64).take (64 * n) = data.take (64 * (n + 1)) := by
        rw [Nat.mul_succ, Nat.add_comm (64 * n), List.take_add]
      rw [← htake]
      exact habs

/-- **`sha256_update` appends its data to the message.** -/
theorem absorbed_update {sc : Sha256Ctx} {msg : List UInt8} (h : Absorbed sc msg)
    (data : List UInt8) : Absorbed (sha256Update sc data) (msg ++ data) := by
  obtain ⟨bs, hdata, htop, hor⟩ := absorbed_topUp h data
  rw [sha256Update]
  set sc' := (topUp sc data).1
  set rest := (topUp sc data).2
  -- either the buffer is empty, or nothing is left
  have hblocks : ∃ cs, rest = cs ++ (wholeBlocks (rest.length / 64) sc' rest).2 ∧
      Absorbed (wholeBlocks (rest.length / 64) sc' rest).1 (msg ++ bs ++ cs) ∧
      ((wholeBlocks (rest.length / 64) sc' rest).1.buffer = [] ∨
        (wholeBlocks (rest.length / 64) sc' rest).2 = []) ∧
      (wholeBlocks (rest.length / 64) sc' rest).2.length < 64 := by
    rcases hor with hbuf | hrest
    · obtain ⟨hdrop, hbuf', habs⟩ := absorbed_wholeBlocks (n := rest.length / 64) htop hbuf
        (Nat.mul_div_le _ _)
      refine ⟨rest.take (64 * (rest.length / 64)), ?_, habs, .inl hbuf', ?_⟩
      · rw [hdrop, List.take_append_drop]
      · rw [hdrop, List.length_drop]
        omega
    · rw [hrest]
      refine ⟨[], rfl, ?_, .inr rfl, Nat.zero_lt_succ 63⟩
      rw [List.append_nil]
      exact htop
  obtain ⟨cs, hrest, ⟨⟨m, whole, hmsg, hwhole, hhash⟩, htotal, hshort⟩, hor', hlt⟩ := hblocks
  set sc'' := (wholeBlocks (rest.length / 64) sc' rest).1
  set tail := (wholeBlocks (rest.length / 64) sc' rest).2
  have hall : msg ++ data = msg ++ bs ++ cs ++ tail := by
    rw [hdata, List.append_assoc, List.append_assoc, ← hrest]
  rw [hall]
  show Absorbed (if tail.length ≠ 0 then { sc'' with
      buffer := sc''.buffer ++ tail
      totalLength := sc''.totalLength + UInt64.ofNat (tail.length * 8) } else sc'') _
  by_cases htail : tail.length ≠ 0
  · rw [if_pos htail]
    have hbuf : sc''.buffer = [] := hor'.resolve_right fun hnil => htail (by rw [hnil]; rfl)
    refine ⟨⟨m, whole, ?_, hwhole, hhash⟩, total_append htotal rfl, ?_⟩
    · rw [hmsg, List.append_assoc]
    · rw [hbuf]
      exact hlt
  · rw [if_neg htail, List.length_eq_zero_iff.mp (not_not.mp htail), List.append_nil]
    exact ⟨⟨m, whole, hmsg, hwhole, hhash⟩, htotal, hshort⟩

/-- The two words of a `unit64` and its bytes. -/
theorem storeWord64_byteswap64 (x : UInt64) :
    storeWord64 (byteswap64 x)
      = Sha256.bytesBE (x >>> 32).toUInt32 ++ Sha256.bytesBE x.toUInt32 := by
  have hlow : (byteswap64 x).toUInt32 = byteswap (x >>> 32).toUInt32 := by
    apply UInt32.toBitVec_inj.mp
    ext i hi
    simp [byteswap64]
  have hhigh : (byteswap64 x >>> 32).toUInt32 = byteswap x.toUInt32 := by
    apply UInt32.toBitVec_inj.mp
    ext i hi
    have h64 : i < 64 := by omega
    have h64' : 32 + i < 64 := by omega
    simp [byteswap64, h64, h64', BitVec.getLsbD_eq_getElem hi]
  rw [storeWord64, hlow, hhigh, storeWord_byteswap, storeWord_byteswap]

theorem padding_take {n : ℕ} (h : n < 64) : padding.take (n + 1) = 0x80 :: List.replicate n 0 := by
  rw [padding, List.take_succ_cons, List.take_replicate]
  congr 2
  omega

theorem absorbed_pad {sc : Sha256Ctx} {msg : List UInt8} (h : Absorbed sc msg) :
    msg ++ padding.take (if 120 - sc.buffer.length > 64 then 120 - sc.buffer.length - 64
        else 120 - sc.buffer.length) ++ storeWord64 (byteswap64 sc.totalLength)
      = Sha256.pad msg := by
  obtain ⟨⟨m, whole, hmsg, hwhole, -⟩, htotal, hshort⟩ := h
  have hlen : msg.length % 64 = sc.buffer.length := by
    rw [hmsg, List.length_append, hwhole]
    omega
  have hpad : (if 120 - sc.buffer.length > 64 then 120 - sc.buffer.length - 64
      else 120 - sc.buffer.length) = (119 - msg.length % 64) % 64 + 1 := by
    rw [hlen]
    split <;> omega
  rw [hpad, padding_take (Nat.mod_lt _ (by decide)), storeWord64_byteswap64, htotal]
  rfl

/-- **Streaming computes the standard's hash.** -/
theorem sha256Finalize_eq {sc : Sha256Ctx} {msg : List UInt8} (h : Absorbed sc msg) :
    sha256Finalize sc = Sha256.digest msg := by
  have hpad := absorbed_pad h
  have hfinal := absorbed_update (absorbed_update h (padding.take
    (if 120 - sc.buffer.length > 64 then 120 - sc.buffer.length - 64
      else 120 - sc.buffer.length))) (storeWord64 (byteswap64 sc.totalLength))
  rw [hpad] at hfinal
  obtain ⟨⟨m, whole, hmsg, hwhole, hhash⟩, -, hshort⟩ := hfinal
  set final := sha256Update (sha256Update sc _) _
  have hwhole' : (Sha256.pad msg).length % 64 = 0 := by
    simp only [Sha256.pad, List.length_append, List.length_cons, List.length_replicate,
      Sha256.length_lengthBytes]
    omega
  -- the padded message fills its blocks
  have hdiv : (Sha256.pad msg).length / 64 = m ∧ whole = Sha256.pad msg := by
    rw [hmsg, List.length_append, hwhole] at hwhole'
    have hnil : final.buffer = [] := List.length_eq_zero_iff.mp (by omega)
    rw [hnil, List.append_nil] at hmsg
    exact ⟨by rw [hmsg, hwhole]; omega, hmsg.symm⟩
  rw [Sha256.digest, hdiv.1, ← hdiv.2, ← hhash, sha256Finalize]
  simp only [List.flatMap_cons, List.flatMap_nil, storeWord_byteswap, List.append_nil]
  rfl

theorem computeSHA256_eq (input : List UInt8) : (computeSHA256 input).1 = Sha256.digest input :=
  sha256Finalize_eq (absorbed_update absorbed_init input)

end BitcoinAnalysis.BlockchainSha256
