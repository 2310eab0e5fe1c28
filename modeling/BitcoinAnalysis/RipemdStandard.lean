/-
`computeRIPEMD160` is RIPEMD-160.

The 160 macro calls of `compress` are the two lines of 80 steps of the standard,
with the exchange of the variables written out: the calls of step `n` name the
variables in the places where the standard has moved them (`role`).  After 80
steps, a multiple of five, each is back in its own place (`state_compress`).

The loop over the chunks and `MDfinish` compress the blocks of the padded message
(`absorbs_padded`): one more block when at most 55 bytes are left, two when more.
-/
import BitcoinAnalysis.BlockchainRipemd160
import BitcoinAnalysis.Ripemd160

open Run

namespace BitcoinAnalysis.BlockchainRipemd160

open Reg

/-! ### The lines -/

/-- The variable in the place of `a` (`i = 0`), …, `e` (`i = 4`) in the call of
step `n`.  The variables move on by one place from call to call. -/
def role (n i : ℕ) : Reg :=
  match (i + 4 * n) % 5 with
  | 0 => .aa
  | 1 => .bb
  | 2 => .cc
  | 3 => .dd
  | _ => .ee

/-- The variables in the places of step `n`. -/
def Regs.view (r : Regs) (n : ℕ) : Ripemd160.State :=
  ⟨r.get (role n 0), r.get (role n 1), r.get (role n 2), r.get (role n 3), r.get (role n 4)⟩

/-- A macro called with the places of step `n`. -/
def callAt (line : Reg → Reg → Reg → Reg → Reg → ℕ → UInt32 → Line) (n x : ℕ) (s : UInt32) : Line :=
  line (role n 0) (role n 1) (role n 2) (role n 3) (role n 4) x s

def leftLine (n : ℕ) : Line :=
  match n / 16 with
  | 0 => callAt .ff n (Ripemd160.left.r n) (Ripemd160.left.s n)
  | 1 => callAt .gg n (Ripemd160.left.r n) (Ripemd160.left.s n)
  | 2 => callAt .hh n (Ripemd160.left.r n) (Ripemd160.left.s n)
  | 3 => callAt .ii n (Ripemd160.left.r n) (Ripemd160.left.s n)
  | _ => callAt .jj n (Ripemd160.left.r n) (Ripemd160.left.s n)

def rightLine (n : ℕ) : Line :=
  match n / 16 with
  | 0 => callAt .jjj n (Ripemd160.right.r n) (Ripemd160.right.s n)
  | 1 => callAt .iii n (Ripemd160.right.r n) (Ripemd160.right.s n)
  | 2 => callAt .hhh n (Ripemd160.right.r n) (Ripemd160.right.s n)
  | 3 => callAt .ggg n (Ripemd160.right.r n) (Ripemd160.right.s n)
  | _ => callAt .fff n (Ripemd160.right.r n) (Ripemd160.right.s n)

theorem leftLines_eq : leftLines = (List.range 80).map leftLine := by rfl

theorem rightLines_eq : rightLines = (List.range 80).map rightLine := by rfl

theorem rol_eq (x s : UInt32) : rol x s = Ripemd160.rol s x := rfl

theorem view_operate (r : Regs) (fn : UInt32 → UInt32 → UInt32 → UInt32) (k x s : UInt32) (n : ℕ) :
    (r.operate fn k (role n 0) (role n 1) (role n 2) (role n 3) (role n 4) x s).view (n + 1)
      = (r.view n).step fn x k s := by
  have hmod : (4 * n) % 5 = 0 ∨ (4 * n) % 5 = 1 ∨ (4 * n) % 5 = 2 ∨ (4 * n) % 5 = 3
      ∨ (4 * n) % 5 = 4 := by omega
  have hsum : ∀ a b c d : UInt32, a + (b + c + d) = a + b + c + d := by
    intro a b c d
    rw [← UInt32.add_assoc, ← UInt32.add_assoc]
  rcases hmod with h | h | h | h | h <;>
    simp [Regs.operate, Regs.view, role, Regs.get, Regs.set, Ripemd160.State.step, rol_eq, h,
      Nat.mul_add, Nat.add_mod, hsum]

theorem exec_leftLine (words : List UInt32) (r : Regs) {n : ℕ} (hn : n < 80) :
    (r.exec words (leftLine n)).view (n + 1) = Ripemd160.left.round words (r.view n) n := by
  have hround : n / 16 = 0 ∨ n / 16 = 1 ∨ n / 16 = 2 ∨ n / 16 = 3 ∨ n / 16 = 4 := by omega
  have hf : Ripemd160.left.f n = Ripemd160.nonlinear (n / 16) := rfl
  have hk : Ripemd160.left.k n
      = [0, 0x5a827999, 0x6ed9eba1, 0x8f1bbcdc, 0xa953fd4e].getD (n / 16) 0 := rfl
  rw [Ripemd160.Side.round, hf, hk]
  rcases hround with h | h | h | h | h
  all_goals
    simp only [leftLine, h]
    exact view_operate r _ _ _ _ n

theorem exec_rightLine (words : List UInt32) (r : Regs) {n : ℕ} (hn : n < 80) :
    (r.exec words (rightLine n)).view (n + 1) = Ripemd160.right.round words (r.view n) n := by
  have hround : n / 16 = 0 ∨ n / 16 = 1 ∨ n / 16 = 2 ∨ n / 16 = 3 ∨ n / 16 = 4 := by omega
  have hf : Ripemd160.right.f n = Ripemd160.nonlinear (4 - n / 16) := rfl
  have hk : Ripemd160.right.k n
      = [0x50a28be6, 0x5c4dd124, 0x6d703ef3, 0x7a6d76e9, 0].getD (n / 16) 0 := rfl
  rw [Ripemd160.Side.round, hf, hk]
  rcases hround with h | h | h | h | h
  all_goals
    simp only [rightLine, h]
    exact view_operate r _ _ _ _ n

/-- The calls of the first `n` steps, in the places of step `n`. -/
theorem view_foldl {line : ℕ → Line} {side : Ripemd160.Side} {words : List UInt32}
    (hstep : ∀ r : Regs, ∀ n < 80, (r.exec words (line n)).view (n + 1)
      = side.round words (r.view n) n) (r : Regs) {n : ℕ} (hn : n ≤ 80) :
    (((List.range n).map line).foldl (Regs.exec words) r).view n
      = (List.range n).foldl (side.round words) (r.view 0) := by
  induction n with
  | zero => rfl
  | succ n ih =>
    rw [List.range_succ, List.map_append, List.foldl_append, List.foldl_append, ← ih (by omega)]
    exact hstep _ n (by omega)

/-- `MDbuf` as a chaining value. -/
def Regs.state (r : Regs) : Ripemd160.State := ⟨r.aa, r.bb, r.cc, r.dd, r.ee⟩

/-- After 80 calls each variable is back in its own place. -/
theorem view_eighty (r : Regs) : r.view 80 = r.state := rfl

theorem state_leftLines (words : List UInt32) (md : Regs) :
    (leftLines.foldl (Regs.exec words) md).state = Ripemd160.left.run words md.state := by
  rw [leftLines_eq, ← view_eighty]
  exact view_foldl (fun r n hn => exec_leftLine words r hn) md le_rfl

theorem state_rightLines (words : List UInt32) (md : Regs) :
    (rightLines.foldl (Regs.exec words) md).state = Ripemd160.right.run words md.state := by
  rw [rightLines_eq, ← view_eighty]
  exact view_foldl (fun r n hn => exec_rightLine words r hn) md le_rfl

/-- **`compress` is the compression function of the standard.** -/
theorem state_compress (md : Regs) (words : List UInt32) :
    (compress md words).state = Ripemd160.compress md.state words := by
  have hl := state_leftLines words md
  have hr := state_rightLines words md
  rw [Ripemd160.compress, ← hl, ← hr, compress]
  generalize leftLines.foldl (Regs.exec words) md = l
  generalize rightLines.foldl (Regs.exec words) md = r
  have hfirst : r.dd + (l.cc + md.bb) = md.bb + l.cc + r.dd := by
    rw [UInt32.add_comm, UInt32.add_comm l.cc]
  rw [hfirst]
  rfl

/-! ### The padded message -/

theorem bytesToDword_append (front rest : List UInt8) (b₀ b₁ b₂ b₃ : UInt8) {p : ℕ}
    (hp : front.length = p) :
    bytesToDword (front ++ b₀ :: b₁ :: b₂ :: b₃ :: rest) p
      = .ok (Ripemd160.wordLE b₀ b₁ b₂ b₃) := by
  have h₁ := fetch_middle (front ++ [b₀]) (b₂ :: b₃ :: rest) b₁ (i := p + 1) (by simp [hp])
  have h₂ := fetch_middle (front ++ [b₀, b₁]) (b₃ :: rest) b₂ (i := p + 2) (by simp [hp])
  have h₃ := fetch_middle (front ++ [b₀, b₁, b₂]) rest b₃ (i := p + 3) (by simp [hp])
  simp only [List.append_assoc, List.cons_append, List.nil_append] at h₁ h₂ h₃
  rw [bytesToDword, h₁, h₂, h₃, fetch_middle front _ b₀ hp]
  simp only [ok_bind, Ripemd160.wordLE]
  rw [UInt32.or_comm _ b₀.toUInt32, UInt32.or_comm _ (b₁.toUInt32 <<< 8),
    UInt32.or_comm (b₃.toUInt32 <<< 24), ← UInt32.or_assoc, ← UInt32.or_assoc]

/-- `n` words from position `p + 4 * i` on. -/
theorem mapM_bytesToDword {n i p : ℕ} {front block : List UInt8} (rest : List UInt8)
    (hfront : front.length = p + 4 * i) (hblock : block.length = 4 * n) :
    (List.range' i n).mapM (fun n => bytesToDword (front ++ (block ++ rest)) (p + 4 * n))
      = .ok (Ripemd160.words block) := by
  induction n generalizing i front block with
  | zero =>
    rw [List.length_eq_zero_iff.mp hblock]
    rfl
  | succ n ih =>
    match block, hblock with
    | b₀ :: b₁ :: b₂ :: b₃ :: block, hblock =>
      have hlen : block.length = 4 * n := by simpa [Nat.mul_succ] using hblock
      have hnext := @ih (i + 1) (front ++ [b₀, b₁, b₂, b₃]) block (by simp [hfront]; omega) hlen
      simp only [List.append_assoc, List.cons_append, List.nil_append] at hnext ⊢
      rw [List.range'_succ, List.mapM_cons, bytesToDword_append _ _ _ _ _ _ hfront, ok_bind, hnext]
      rfl

theorem readChunk_append {front block : List UInt8} (rest : List UInt8)
    (hblock : block.length = 64) :
    readChunk (front ++ (block ++ rest)) front.length = .ok (Ripemd160.words block) := by
  rw [readChunk, List.range_eq_range']
  exact mapM_bytesToDword rest rfl hblock

theorem chunkLoop_append {n : ℕ} {front blocks : List UInt8} (rest : List UInt8) (md : Regs)
    (hblocks : blocks.length = 64 * n) :
    ∃ md', chunkLoop (front ++ (blocks ++ rest)) n front.length md
        = .ok (md', (front ++ blocks).length) ∧
      md'.state = MerkleDamgard.absorb Ripemd160.compressBlock n md.state blocks := by
  induction n generalizing front blocks md with
  | zero =>
    rw [List.length_eq_zero_iff.mp hblocks, List.append_nil]
    exact ⟨md, rfl, rfl⟩
  | succ n ih =>
    have hblock : (blocks.take 64).length = 64 := by
      rw [List.length_take]
      omega
    have hdrop : (blocks.drop 64).length = 64 * n := by
      rw [List.length_drop]
      omega
    have hread := @readChunk_append front _ (blocks.drop 64 ++ rest) hblock
    obtain ⟨md', hrun, hstate⟩ :=
      @ih (front ++ blocks.take 64) _ (compress md (Ripemd160.words (blocks.take 64))) hdrop
    rw [← List.append_assoc (blocks.take 64), List.take_append_drop] at hread
    rw [List.append_assoc, ← List.append_assoc (blocks.take 64), List.take_append_drop,
      List.length_append, hblock, List.append_assoc, List.take_append_drop] at hrun
    refine ⟨md', ?_, ?_⟩
    · rw [chunkLoop, hread, ok_bind, hrun]
    · rw [hstate, state_compress]
      rfl

theorem wordLE_xor (b z₁ z₂ z₃ : UInt8) :
    Ripemd160.wordLE 0 z₁ z₂ z₃ ^^^ (b.toUInt32 <<< 0) = Ripemd160.wordLE b z₁ z₂ z₃ ∧
    Ripemd160.wordLE z₁ 0 z₂ z₃ ^^^ (b.toUInt32 <<< 8) = Ripemd160.wordLE z₁ b z₂ z₃ ∧
    Ripemd160.wordLE z₁ z₂ 0 z₃ ^^^ (b.toUInt32 <<< 16) = Ripemd160.wordLE z₁ z₂ b z₃ ∧
    Ripemd160.wordLE z₁ z₂ z₃ 0 ^^^ (b.toUInt32 <<< 24) = Ripemd160.wordLE z₁ z₂ z₃ b := by
  refine ⟨?_, ?_, ?_, ?_⟩ <;>
  · apply UInt32.toBitVec_inj.mp
    ext i hi
    simp [Ripemd160.wordLE]
    interval_cases i <;> simp

/-- A zero byte of `X` becomes `b`. -/
theorem xorAt_words {n : ℕ} {bs zs : List UInt8} (hlen : (bs ++ 0 :: zs).length = 4 * n)
    (b : UInt8) :
    xorAt (Ripemd160.words (bs ++ 0 :: zs)) (bs.length / 4)
        (b.toUInt32 <<< UInt32.ofNat (8 * (bs.length % 4)))
      = Ripemd160.words (bs ++ b :: zs) := by
  induction n generalizing bs with
  | zero => simp at hlen
  | succ n ih =>
    match bs, zs, hlen with
    | [], z₁ :: z₂ :: z₃ :: zs, _ =>
      exact congrArg (· :: Ripemd160.words zs) (wordLE_xor b z₁ z₂ z₃).1
    | [b₁], z₂ :: z₃ :: zs, _ =>
      simp only [List.length_cons, List.length_nil, Nat.reduceAdd, Nat.reduceDiv, Nat.reduceMod]
      exact congrArg (· :: Ripemd160.words zs) (wordLE_xor b b₁ z₂ z₃).2.1
    | [b₁, b₂], z₃ :: zs, _ =>
      simp only [List.length_cons, List.length_nil, Nat.reduceAdd, Nat.reduceDiv, Nat.reduceMod]
      exact congrArg (· :: Ripemd160.words zs) (wordLE_xor b b₁ b₂ z₃).2.2.1
    | [b₁, b₂, b₃], zs, _ =>
      simp only [List.length_cons, List.length_nil, Nat.reduceAdd, Nat.reduceDiv, Nat.reduceMod]
      exact congrArg (· :: Ripemd160.words zs) (wordLE_xor b b₁ b₂ b₃).2.2.2
    | b₁ :: b₂ :: b₃ :: b₄ :: bs, zs, hlen =>
      have hrest : (bs ++ 0 :: zs).length = 4 * n := by
        simp only [List.length_append, List.length_cons] at hlen ⊢
        omega
      have hdiv : (b₁ :: b₂ :: b₃ :: b₄ :: bs).length / 4 = bs.length / 4 + 1 := by
        simp only [List.length_cons]
        omega
      have hmod : (b₁ :: b₂ :: b₃ :: b₄ :: bs).length % 4 = bs.length % 4 := by
        simp only [List.length_cons]
        omega
      rw [hdiv, hmod]
      exact congrArg (_ :: ·) (ih hrest)

theorem replicate_zero_words : List.replicate 16 (0 : UInt32)
    = Ripemd160.words (List.replicate 64 0) := rfl

/-- The first `n` of the last bytes. -/
theorem foldlM_xorAt {front tail : List UInt8} (rest : List UInt8) (htail : tail.length < 64)
    {n : ℕ} (hn : n ≤ tail.length) :
    (List.range n).foldlM (fun words n => do
        let b ← fetch (front ++ (tail ++ rest)) (front.length + n)
        .ok (xorAt words (n / 4) (b.toUInt32 <<< UInt32.ofNat (8 * (n % 4))))) (List.replicate 16 0)
      = .ok (Ripemd160.words (tail.take n ++ List.replicate (64 - n) 0)) := by
  induction n with
  | zero => exact congrArg _ replicate_zero_words
  | succ n ih =>
    obtain ⟨b, hb⟩ : ∃ b, tail[n]? = some b := ⟨_, List.getElem?_eq_getElem (by omega)⟩
    have hlen : (tail.take n).length = n := by
      rw [List.length_take]
      omega
    have htake : tail.take (n + 1) = tail.take n ++ [b] := by
      rw [List.take_add_one, hb]
      rfl
    have hfetch : fetch (front ++ (tail ++ rest)) (front.length + n) = .ok b := by
      rw [fetch, List.getElem?_append_right (Nat.le_add_right _ _), Nat.add_sub_cancel_left,
        List.getElem?_append_left (by omega), hb]
    have hzeros : List.replicate (64 - n) (0 : UInt8) = 0 :: List.replicate (64 - (n + 1)) 0 := by
      rw [← List.replicate_succ]
      congr 1
      omega
    have hxor := @xorAt_words 16 (tail.take n) (List.replicate (64 - (n + 1)) 0)
      (by simp only [List.length_append, List.length_cons, List.length_replicate, hlen]; omega) b
    rw [hlen] at hxor
    rw [List.range_succ, List.foldlM_append, ih (by omega), ok_bind, List.foldlM_cons, hfetch,
      ok_bind, hzeros, ok_bind, hxor, htake, List.append_assoc]
    rfl

theorem toNat_and_63 (length : UInt32) : (length &&& 63).toNat = length.toNat % 64 := by
  rw [UInt32.toNat_and]
  exact Nat.and_two_pow_sub_one_eq_mod _ 6

theorem putBytes_append {front tail : List UInt8} (rest : List UInt8) {length : UInt32}
    (hlength : length.toNat % 64 = tail.length) :
    putBytes (front ++ (tail ++ rest)) front.length length
      = .ok (Ripemd160.words (tail ++ List.replicate (64 - tail.length) 0)) := by
  have htail : tail.length < 64 := by omega
  rw [putBytes, toNat_and_63, hlength]
  have hall := @foldlM_xorAt front tail rest htail tail.length le_rfl
  rw [List.take_length] at hall
  exact hall

/-- The one bit behind the last bytes. -/
theorem xorAt_one {tail : List UInt8} {length : UInt32}
    (hlength : length.toNat % 64 = tail.length) :
    xorAt (Ripemd160.words (tail ++ List.replicate (64 - tail.length) 0))
        ((length >>> 2) &&& 15).toNat (1 <<< (8 * (length &&& 3) + 7))
      = Ripemd160.words (tail ++ 0x80 :: List.replicate (63 - tail.length) 0) := by
  have hplace : ((length >>> 2) &&& 15).toNat = tail.length / 4 := by
    rw [UInt32.toNat_and, UInt32.toNat_shiftRight]
    show length.toNat >>> 2 &&& 2 ^ 4 - 1 = tail.length / 4
    rw [Nat.and_two_pow_sub_one_eq_mod, Nat.shiftRight_eq_div_pow]
    omega
  have hbit : (1 : UInt32) <<< (8 * (length &&& 3) + 7)
      = (0x80 : UInt8).toUInt32 <<< UInt32.ofNat (8 * (tail.length % 4)) := by
    have hand : length &&& 3 = UInt32.ofNat (tail.length % 4) := by
      apply UInt32.toNat_inj.mp
      have hlt : tail.length % 4 < UInt32.size := lt_trans (Nat.mod_lt _ (by decide)) (by decide)
      rw [UInt32.toNat_and, UInt32.toNat_ofNat_of_lt' hlt]
      show length.toNat &&& 2 ^ 2 - 1 = tail.length % 4
      rw [Nat.and_two_pow_sub_one_eq_mod]
      omega
    have hfour : tail.length % 4 = 0 ∨ tail.length % 4 = 1 ∨ tail.length % 4 = 2
        ∨ tail.length % 4 = 3 := by omega
    rw [hand]
    rcases hfour with h | h | h | h
    all_goals
      rw [h]
      decide
  have hzeros : List.replicate (64 - tail.length) (0 : UInt8)
      = 0 :: List.replicate (63 - tail.length) 0 := by
    rw [← List.replicate_succ]
    congr 1
    omega
  rw [hplace, hbit, hzeros]
  refine @xorAt_words 16 _ _ ?_ 0x80
  simp only [List.length_append, List.length_cons, List.length_replicate]
  omega

/-- The two words of the length, behind 56 bytes. -/
theorem set_length_words {bs : List UInt8} (hbs : bs.length = 56) (x y : UInt32) :
    ((Ripemd160.words (bs ++ List.replicate 8 0)).set 14 x).set 15 y
      = Ripemd160.words (bs ++ (Ripemd160.bytesLE x ++ Ripemd160.bytesLE y)) := by
  have hwords : (Ripemd160.words bs).length = 14 := Ripemd160.length_words hbs
  have hxy : Ripemd160.words (Ripemd160.bytesLE x ++ Ripemd160.bytesLE y) = [x, y] := by
    rw [@Ripemd160.words_append _ 1 rfl, Ripemd160.words_bytesLE, Ripemd160.words_bytesLE]
    rfl
  have hzeros : Ripemd160.words (List.replicate 8 0) = [0, 0] := rfl
  rw [@Ripemd160.words_append bs 14 hbs, @Ripemd160.words_append bs 14 hbs, hxy, hzeros,
    List.set_append_right _ _ (by omega), List.set_append_right _ _ (by omega), hwords]
  rfl

/-- The length in bits, as the two words. -/
theorem lengthBytes_eq {msg : List UInt8} {length : UInt32} (hlength : length.toNat = msg.length) :
    Ripemd160.lengthBytes msg
      = Ripemd160.bytesLE (length <<< 3)
        ++ Ripemd160.bytesLE ((length >>> 29) ||| ((0 : UInt32) <<< 3)) := by
  have hlt : length.toNat < 2 ^ 32 := length.toNat_lt
  have hlow : (UInt64.ofNat (8 * msg.length)).toUInt32 = length <<< 3 := by
    apply UInt32.toNat_inj.mp
    rw [← hlength]
    simp [Nat.shiftLeft_eq, Nat.mul_comm]
  have hhigh : (UInt64.ofNat (8 * msg.length) >>> 32).toUInt32
      = (length >>> 29) ||| ((0 : UInt32) <<< 3) := by
    have hor : (length >>> 29) ||| ((0 : UInt32) <<< 3) = length >>> 29 := UInt32.or_zero
    apply UInt32.toNat_inj.mp
    rw [hor, ← hlength]
    simp only [UInt64.toNat_toUInt32, UInt64.toNat_shiftRight, UInt64.toNat_ofNat',
      UInt32.toNat_shiftRight, Nat.shiftRight_eq_div_pow, UInt64.reduceToNat, UInt32.reduceToNat,
      Nat.reduceMod, Nat.reducePow]
    omega
  rw [Ripemd160.lengthBytes, hlow, hhigh]

section Finish

variable {front tail : List UInt8} {length : UInt32}

theorem gt_55_iff (hlength : length.toNat % 64 = tail.length) :
    length &&& 63 > 55 ↔ 55 < tail.length := by
  rw [gt_iff_lt, UInt32.lt_iff_toNat_lt, toNat_and_63, hlength]
  rfl

/-- At most 55 bytes left: one more block. -/
theorem mdFinish_short (rest : List UInt8) (md : Regs) {msg : List UInt8}
    (hmsg : length.toNat = msg.length) (hlength : length.toNat % 64 = tail.length)
    (hshort : tail.length ≤ 55) :
    mdFinish md (front ++ (tail ++ rest)) front.length length 0
      = .ok (compress md (Ripemd160.words
          (tail ++ 0x80 :: List.replicate (55 - tail.length) 0 ++ Ripemd160.lengthBytes msg))) := by
  have hzeros : List.replicate (63 - tail.length) (0 : UInt8)
      = List.replicate (55 - tail.length) 0 ++ List.replicate 8 0 := by
    rw [List.replicate_append_replicate]
    congr 1
    omega
  have hbs : (tail ++ 0x80 :: List.replicate (55 - tail.length) 0).length = 56 := by
    simp only [List.length_append, List.length_cons, List.length_replicate]
    omega
  have hcond : ¬ (length &&& 63 > 55) := by
    rw [gt_55_iff hlength]
    omega
  rw [mdFinish, putBytes_append rest hlength, ok_bind, xorAt_one hlength]
  simp only [hcond, if_false]
  rw [hzeros, ← List.cons_append, ← List.append_assoc, set_length_words hbs, lengthBytes_eq hmsg]

/-- More than 55: the length comes in a second block. -/
theorem mdFinish_long (rest : List UInt8) (md : Regs) {msg : List UInt8}
    (hmsg : length.toNat = msg.length) (hlength : length.toNat % 64 = tail.length)
    (hlong : 55 < tail.length) :
    mdFinish md (front ++ (tail ++ rest)) front.length length 0
      = .ok (compress (compress md
          (Ripemd160.words (tail ++ 0x80 :: List.replicate (63 - tail.length) 0)))
          (Ripemd160.words (List.replicate 56 0 ++ Ripemd160.lengthBytes msg))) := by
  have hzeros : List.replicate 16 (0 : UInt32)
      = Ripemd160.words (List.replicate 56 0 ++ List.replicate 8 0) := rfl
  rw [mdFinish, putBytes_append rest hlength, ok_bind, xorAt_one hlength]
  simp only [(gt_55_iff hlength).mpr hlong, if_true]
  rw [hzeros, set_length_words List.length_replicate, lengthBytes_eq hmsg]

/-- What follows the whole blocks of a padded message. -/
def lastBlocks (tail msg : List UInt8) : List UInt8 :=
  tail ++ 0x80 :: List.replicate ((119 - tail.length) % 64) 0 ++ Ripemd160.lengthBytes msg

theorem state_mdFinish (rest : List UInt8) (md : Regs) {msg : List UInt8}
    (hmsg : length.toNat = msg.length) (hlength : length.toNat % 64 = tail.length) :
    ∃ md', mdFinish md (front ++ (tail ++ rest)) front.length length 0 = .ok md' ∧
      md'.state = MerkleDamgard.absorb Ripemd160.compressBlock
        ((lastBlocks tail msg).length / 64) md.state (lastBlocks tail msg) := by
  have hlen8 : (Ripemd160.lengthBytes msg).length = 8 := rfl
  by_cases hshort : tail.length ≤ 55
  · have hcount : (119 - tail.length) % 64 = 55 - tail.length := by omega
    have hblock : (lastBlocks tail msg).length = 64 := by
      simp only [lastBlocks, List.length_append, List.length_cons, List.length_replicate, hlen8]
      omega
    refine ⟨_, mdFinish_short rest md hmsg hlength hshort, ?_⟩
    rw [hblock, state_compress, Nat.div_self (by decide), MerkleDamgard.absorb_one _ _ hblock,
      lastBlocks, hcount]
    rfl
  · have hlong : 55 < tail.length := by omega
    have htail : tail.length < 64 := by omega
    have hzeros : List.replicate ((119 - tail.length) % 64) (0 : UInt8)
        = List.replicate (63 - tail.length) 0 ++ List.replicate 56 0 := by
      rw [List.replicate_append_replicate]
      congr 1
      omega
    have hsplit : lastBlocks tail msg = (tail ++ 0x80 :: List.replicate (63 - tail.length) 0)
        ++ (List.replicate 56 0 ++ Ripemd160.lengthBytes msg) := by
      rw [lastBlocks, hzeros]
      simp only [List.append_assoc, List.cons_append]
    have hfirst : (tail ++ 0x80 :: List.replicate (63 - tail.length) 0).length = 64 * 1 := by
      simp only [List.length_append, List.length_cons, List.length_replicate]
      omega
    have hsecond : (List.replicate 56 0 ++ Ripemd160.lengthBytes msg).length = 64 := rfl
    refine ⟨_, mdFinish_long rest md hmsg hlength hlong, ?_⟩
    have htwo : (64 * 1 + 64) / 64 = 1 + 1 := rfl
    rw [hsplit, List.length_append, hfirst, hsecond, htwo, state_compress, state_compress,
      MerkleDamgard.absorb_block _ _ hfirst hsecond, MerkleDamgard.absorb_one _ _ hfirst]
    rfl

end Finish

/-- **The chunks and the last blocks are the padded message.**  `rest` is what
stands behind the message in memory. -/
theorem absorbs_padded {msg : List UInt8} (rest : List UInt8) (hmsg : msg.length < 2 ^ 32) :
    ∃ md p md', chunkLoop (msg ++ rest) (msg.length / 64) 0 mdInit = .ok (md, p) ∧
      mdFinish md (msg ++ rest) p (.ofNat msg.length) 0 = .ok md' ∧
      md'.state = MerkleDamgard.absorb Ripemd160.compressBlock
        ((Ripemd160.pad msg).length / 64) Ripemd160.initial (Ripemd160.pad msg) := by
  have hlen : (UInt32.ofNat msg.length).toNat = msg.length := UInt32.toNat_ofNat_of_lt' hmsg
  set n := msg.length / 64 with hn
  obtain ⟨blocks, tail, hcut, hblocks, htail⟩ : ∃ blocks tail, msg = blocks ++ tail ∧
      blocks.length = 64 * n ∧ tail.length = msg.length % 64 := by
    refine ⟨msg.take (64 * n), msg.drop (64 * n), (List.take_append_drop _ _).symm, ?_, ?_⟩
    · rw [List.length_take]
      omega
    · rw [List.length_drop]
      omega
  have hbuf : msg ++ rest = blocks ++ (tail ++ rest) := by rw [hcut, List.append_assoc]
  obtain ⟨md, hloop, hmd⟩ := @chunkLoop_append n [] blocks (tail ++ rest) mdInit hblocks
  obtain ⟨md', hfinish, hmd'⟩ :=
    @state_mdFinish blocks tail (.ofNat msg.length) rest md msg hlen (by rw [hlen, htail])
  have hpad : Ripemd160.pad msg = blocks ++ lastBlocks tail msg := by
    rw [Ripemd160.pad, lastBlocks, htail]
    nth_rewrite 1 [hcut]
    simp only [List.append_assoc]
  have hcount : (Ripemd160.pad msg).length / 64 = n + (lastBlocks tail msg).length / 64 := by
    rw [hpad, List.length_append, hblocks]
    omega
  rw [hbuf]
  refine ⟨md, blocks.length, md', hloop, hfinish, ?_⟩
  rw [hcount, hpad, MerkleDamgard.absorb_append _ _ _ hblocks, hmd', hmd]
  rfl

theorem computeRIPEMD160_append {msg : List UInt8} (rest : List UInt8)
    (hmsg : msg.length < 2 ^ 32) :
    computeRIPEMD160 (msg ++ rest) (.ofNat msg.length) = .ok ⟨Ripemd160.digest msg, rfl⟩ := by
  have hlen : (UInt32.ofNat msg.length).toNat = msg.length := UInt32.toNat_ofNat_of_lt' hmsg
  obtain ⟨md, p, md', hloop, hfinish, hstate⟩ := absorbs_padded rest hmsg
  have hcode : md'.hashcode = ⟨Ripemd160.digest msg, rfl⟩ := by
    apply Subtype.ext
    show md'.hashcode.1 = Ripemd160.State.bytes _
    rw [← hstate]
    rfl
  rw [computeRIPEMD160, hlen, hloop, ok_bind]
  simp only [hfinish, ok_bind, hcode]

/-- The hash reads as many bytes as it is told. -/
theorem computeRIPEMD160_eq {message : List UInt8} {length : UInt32}
    (h : length.toNat ≤ message.length) :
    computeRIPEMD160 message length
      = .ok ⟨Ripemd160.digest (message.take length.toNat), rfl⟩ := by
  have hlen : (message.take length.toNat).length = length.toNat := by
    rw [List.length_take]
    omega
  have hlt : (message.take length.toNat).length < 2 ^ 32 := by
    rw [hlen]
    exact length.toNat_lt
  have hfront := computeRIPEMD160_append (message.drop length.toNat) hlt
  rw [List.take_append_drop, hlen, UInt32.ofNat_toNat] at hfront
  exact hfront

/-- **`computeRIPEMD160` is the standard's function**: its compression, its
padding and its result, for every message it can be given. -/
theorem computeRIPEMD160_eq_standard :
    (∀ md words, (compress md words).state = Ripemd160.compress md.state words) ∧
    ∀ msg rest : List UInt8, msg.length < 2 ^ 32 →
      (∃ md p md', chunkLoop (msg ++ rest) (msg.length / 64) 0 mdInit = .ok (md, p) ∧
        mdFinish md (msg ++ rest) p (.ofNat msg.length) 0 = .ok md' ∧
        md'.state = MerkleDamgard.absorb Ripemd160.compressBlock
          ((Ripemd160.pad msg).length / 64) Ripemd160.initial (Ripemd160.pad msg)) ∧
      computeRIPEMD160 (msg ++ rest) (.ofNat msg.length) = .ok ⟨Ripemd160.digest msg, rfl⟩ :=
  ⟨state_compress, fun _ rest hmsg =>
    ⟨absorbs_padded rest hmsg, computeRIPEMD160_append rest hmsg⟩⟩

/-- The letters `abc`. -/
theorem computeRIPEMD160_eq_standard_abc :
    computeRIPEMD160 [0x61, 0x62, 0x63] 3 = .ok ⟨Ripemd160.digest [0x61, 0x62, 0x63], rfl⟩ :=
  (computeRIPEMD160_eq_standard.2 [0x61, 0x62, 0x63] [] (by decide)).2

end BitcoinAnalysis.BlockchainRipemd160
