/-
The distributions at the end of the report (`Statistical.h`, section 9, and
`tx_amount`).

A distribution is a family of queries that count the rows of a table whose value
lies between two bounds.  `distributions_exact`: in the ten families over
`addressinfo`, `entityinfo` and `txinfo` the bounds lie side by side, so that
every row is counted once.  In `tx_amount` they leave out the amounts from 400
to 420 BTC (`largeAmounts_iff`).

Products and comparisons of `DECIMAL` literals are exact.  A row whose value is
`NULL` is selected by no query.
-/
import BitcoinAnalysis.Buckets
import BitcoinAnalysis.TimeRange
import BitcoinAnalysis.CallSpec

open Buckets

namespace BitcoinAnalysis

/-! ### Queries -/

/-- The rows of a table, the conditions in front of the bounds, the expression
that is compared and the bounds. -/
structure Distribution (ρ : Type) where
  table : Db → List ρ
  scope : ρ → Bool
  column : ρ → Option ℤ
  buckets : List (Bucket ℚ)

variable {ρ : Type}

/-- `… AND x >= low AND x < high` -/
def Distribution.selects (d : Distribution ρ) (b : Bucket ℚ) (row : ρ) : Bool :=
  d.scope row && (d.column row).any fun x : ℤ => b.Contains (x : ℚ)

/-- The rows in scope. -/
def Distribution.rows (d : Distribution ρ) (db : Db) : List ρ := (d.table db).filter d.scope

/-- `SELECT count(*)`, one after the other. -/
def Distribution.counts (d : Distribution ρ) (db : Db) : List ℕ :=
  d.buckets.map fun b => (d.table db).countP (d.selects b)

/-- Every row in scope is counted by one query, and the counts add up. -/
structure Distribution.Exact (d : Distribution ρ) (db : Db) : Prop where
  once : ∀ row ∈ d.rows db, ∃! i : ℕ, ∃ b, d.buckets[i]? = some b ∧ d.selects b row
  total : (d.counts db).sum = (d.rows db).length

def Db.addresses (db : Db) : List AddressRow := db.addressinfo.entries.map Prod.snd

def Db.entities (db : Db) : List EntityRow := db.entityinfo.entries.map Prod.snd

/-! ### Bounds -/

/-- Bounds in a unit; the last query has none above. -/
def amounts (unit : ℚ) (bounds : List (ℚ × ℚ)) (last : ℚ) : List (Bucket ℚ) :=
  bounds.map (fun b => ⟨b.1 * unit, ((b.2 * unit : ℚ) : WithTop ℚ)⟩) ++ [⟨last * unit, ⊤⟩]

/-- The bounds of `NumOfAddOfEntity`. -/
def addcntBuckets : List (Bucket ℚ) :=
  amounts 1
    [(1, 2), (2, 3), (3, 4), (4, 5), (5, 6), (6, 7), (7, 8), (8, 9), (9, 10), (10, 20), (20, 30),
     (30, 40), (40, 50), (50, 60), (60, 70), (70, 80), (80, 90), (90, 100), (100, 200), (200, 300),
     (300, 400), (400, 500), (500, 1000), (1000, 2000), (2000, 3000), (3000, 4000), (4000, 5000),
     (5000, 10000), (10000, 50000), (50000, 100000)] 100000

/-- The bounds of `OutvalOfAdd`, `OutvalOfEntity` and `OutvalOfTx`. -/
def outvalBuckets : List (Bucket ℚ) :=
  amounts 100000000
    [(0, 1), (1, 2), (2, 3), (3, 4), (4, 5), (5, 6), (6, 7), (7, 8), (8, 9), (9, 10), (10, 20),
     (20, 30), (30, 40), (40, 50), (50, 60), (60, 70), (70, 80), (80, 90), (90, 100), (100, 1000),
     (1000, 2000), (2000, 3000), (3000, 4000), (4000, 5000), (5000, 6000), (6000, 7000),
     (7000, 8000), (8000, 9000), (9000, 10000), (10000, 20000), (20000, 30000), (30000, 40000),
     (40000, 50000), (50000, 60000), (60000, 70000), (70000, 80000), (80000, 90000),
     (90000, 100000), (100000, 200000), (200000, 300000), (300000, 400000), (400000, 500000),
     (500000, 600000), (600000, 700000), (700000, 800000), (800000, 900000), (900000, 1000000)]
    1000000

/-- The bounds of `BalOfAdd`, `BalOfEntity`, `MaxbalOfAdd` and `MaxbalOfEntity`. -/
def balBuckets : List (Bucket ℚ) :=
  amounts 100000000
    [(0, 0.01), (0.01, 0.1), (0.1, 0.2), (0.2, 0.3), (0.3, 0.4), (0.4, 0.5), (0.5, 0.6), (0.6, 0.7),
     (0.7, 0.8), (0.8, 0.9), (0.9, 1), (1, 2), (2, 3), (3, 4), (4, 5), (5, 6), (6, 7), (7, 8),
     (8, 9), (9, 10), (10, 20), (20, 30), (30, 40), (40, 50), (50, 60), (60, 70), (70, 80),
     (80, 90), (90, 100), (100, 1000), (1000, 2000), (2000, 3000), (3000, 4000), (4000, 5000),
     (5000, 6000), (6000, 7000), (7000, 8000), (8000, 9000), (9000, 10000), (10000, 20000),
     (20000, 30000), (30000, 40000), (40000, 50000), (50000, 60000), (60000, 70000), (70000, 80000),
     (80000, 90000), (90000, 100000), (100000, 200000), (200000, 300000), (300000, 400000),
     (400000, 500000), (500000, 600000), (600000, 700000), (700000, 800000), (800000, 900000),
     (900000, 1000000)] 1000000

/-- The bounds of `TxcntOfAdd` and `TxcntOfEntity`. -/
def txcntBuckets : List (Bucket ℚ) :=
  amounts 1
    [(1, 2), (2, 3), (3, 4), (4, 5), (5, 6), (6, 7), (7, 8), (8, 9), (9, 10), (10, 100), (100, 200),
     (200, 300), (300, 400), (400, 500), (500, 600), (600, 700), (700, 800), (800, 900),
     (900, 1000), (1000, 5000), (5000, 10000), (10000, 50000), (50000, 100000), (100000, 500000)]
    500000

/-- `tx_amount` -/
def txAmount : List (Bucket ℚ) :=
  amounts 100000000
    [(0, 10), (10, 20), (20, 30), (30, 40), (40, 50), (50, 60), (60, 70), (70, 80), (80, 90),
     (90, 100), (100, 120), (120, 140), (140, 160), (160, 180), (180, 200), (200, 220), (220, 240),
     (240, 260), (260, 280), (280, 300), (300, 320)] 320 ++
  amounts 100000000
    [(320, 340), (340, 360), (360, 380), (380, 400), (420, 440), (440, 460), (460, 480), (480, 500),
     (500, 520), (520, 540), (540, 560), (560, 580), (580, 600)] 600

/-! ### The families -/

def numOfAddOfEntity : Distribution EntityRow where
  table := Db.entities
  scope _ := true
  column row := row.addcnt.map Nat.cast
  buckets := addcntBuckets

def outvalOfAdd : Distribution AddressRow where
  table := Db.addresses
  scope _ := true
  column row := some row.outval
  buckets := outvalBuckets

def outvalOfEntity : Distribution EntityRow where
  table := Db.entities
  scope _ := true
  column := EntityRow.outval
  buckets := outvalBuckets

def balOfAdd : Distribution AddressRow where
  table := Db.addresses
  scope _ := true
  column row := some row.bal
  buckets := balBuckets

def balOfEntity : Distribution EntityRow where
  table := Db.entities
  scope _ := true
  column := EntityRow.bal
  buckets := balBuckets

def maxbalOfAdd : Distribution AddressRow where
  table := Db.addresses
  scope _ := true
  column row := some row.maxbal
  buckets := balBuckets

def maxbalOfEntity : Distribution EntityRow where
  table := Db.entities
  scope _ := true
  column := EntityRow.maxbal
  buckets := balBuckets

def txcntOfAdd : Distribution AddressRow where
  table := Db.addresses
  scope _ := true
  column row := some ((row.incnt + row.outcnt : ℕ) : ℤ)
  buckets := txcntBuckets

/-- A sum with `NULL` is `NULL`. -/
def txcntOfEntity : Distribution EntityRow where
  table := Db.entities
  scope _ := true
  column row := do
    let incnt ← row.incnt
    let outcnt ← row.outcnt
    some ((incnt + outcnt : ℕ) : ℤ)
  buckets := txcntBuckets

/-- `unix_timestamp(txtime) > unix_timestamp('after')`; a comparison with `NULL` is
not true. -/
def transactionTime (after : List Char) (row : TxRow) : Bool :=
  match unixTimestamp after with
  | none => false
  | some t => t < (row.txtime.toNat : ℤ)

def outvalOfTx (after : List Char) : Distribution TxRow where
  table := Db.txinfo
  scope := transactionTime after
  column row := some (row.outvalue.toNat : ℤ)
  buckets := outvalBuckets

/-- `unix_timestamp(txtime) >= unix_timestamp('after') AND unix_timestamp(txtime) <
unix_timestamp('before')` -/
def txTime (after before : List Char) (row : TxRow) : Bool :=
  match unixTimestamp after, unixTimestamp before with
  | some a, some b => a ≤ (row.txtime.toNat : ℤ) ∧ (row.txtime.toNat : ℤ) < b
  | _, _ => false

/-- The queries of the loop `for (j = 22; j < 36; j++)`. -/
def largeAmounts (after before : List Char) : Distribution TxRow where
  table := Db.txinfo
  scope := txTime after before
  column row := some (row.outvalue.toNat : ℤ)
  buckets := (txAmount.drop 22).take 14

/-! ### Tilings -/

theorem tiles_addcntBuckets : Tiles ((1 : ℚ) : WithTop ℚ) addcntBuckets ⊤ := by decide +kernel

theorem tiles_outvalBuckets : Tiles ((0 : ℚ) : WithTop ℚ) outvalBuckets ⊤ := by decide +kernel

theorem tiles_balBuckets : Tiles ((0 : ℚ) : WithTop ℚ) balBuckets ⊤ := by decide +kernel

theorem tiles_txcntBuckets : Tiles ((1 : ℚ) : WithTop ℚ) txcntBuckets ⊤ := by decide +kernel

/-- How many queries select a row in scope. -/
theorem Distribution.countP_selects {d : Distribution ρ} {row : ρ} {x : ℤ} (hscope : d.scope row)
    (hcolumn : d.column row = some x) :
    d.buckets.countP (d.selects · row) = d.buckets.countP fun b => b.Contains (x : ℚ) := by
  refine List.countP_congr fun b _ => ?_
  rw [selects, hscope, hcolumn, Bool.true_and, Option.any_some]

/-- **Bounds that lie side by side count every row once.** -/
theorem Distribution.Exact.of_tiles {d : Distribution ρ} {db : Db} {low : ℚ}
    (htiles : Tiles (low : WithTop ℚ) d.buckets ⊤)
    (hcolumn : ∀ row ∈ d.table db, ∃ x : ℤ, d.column row = some x ∧ low ≤ x) : d.Exact db := by
  have hone : ∀ row ∈ d.table db, d.scope row → d.buckets.countP (d.selects · row) = 1 := by
    intro row hrow hscope
    obtain ⟨x, hx, hlow⟩ := hcolumn row hrow
    rw [countP_selects hscope hx, htiles.countP_contains, if_pos]
    exact ⟨WithTop.coe_le_coe.mpr hlow, WithTop.coe_lt_top _⟩
  constructor
  · intro row hrow
    obtain ⟨hmem, hscope⟩ := List.mem_filter.mp hrow
    exact countP_eq_one_iff.mp (hone row hmem hscope)
  · rw [counts, rows, ← List.countP_eq_length_filter]
    refine sum_countP fun row hrow => ?_
    split
    · rename_i hscope
      exact hone row hrow hscope
    · rename_i hscope
      rw [List.countP_eq_zero]
      intro b _ hb
      exact hscope (Bool.and_eq_true_iff.mp hb).1

/-! ### The ten families -/

/-- Columns that are not negative, and a transaction. -/
structure AddressRow.Regular (row : AddressRow) : Prop where
  outval : 0 ≤ row.outval
  bal : 0 ≤ row.bal
  maxbal : 0 ≤ row.maxbal
  txcnt : 1 ≤ row.incnt + row.outcnt

/-- Columns that are neither `NULL` nor negative, an address and a transaction. -/
structure EntityRow.Regular (row : EntityRow) : Prop where
  addcnt : ∃ n, row.addcnt = some n ∧ 1 ≤ n
  outval : ∃ x, row.outval = some x ∧ 0 ≤ x
  bal : ∃ x, row.bal = some x ∧ 0 ≤ x
  maxbal : ∃ x, row.maxbal = some x ∧ 0 ≤ x
  txcnt : ∃ m n, row.incnt = some m ∧ row.outcnt = some n ∧ 1 ≤ m + n

/-- **The distributions lose no row and count none twice.** -/
theorem distributions_exact {db : Db} (haddresses : ∀ row ∈ db.addresses, row.Regular)
    (hentities : ∀ row ∈ db.entities, row.Regular) (after : List Char) :
    numOfAddOfEntity.Exact db ∧ outvalOfAdd.Exact db ∧ outvalOfEntity.Exact db ∧
    balOfAdd.Exact db ∧ balOfEntity.Exact db ∧ maxbalOfAdd.Exact db ∧ maxbalOfEntity.Exact db ∧
    txcntOfAdd.Exact db ∧ txcntOfEntity.Exact db ∧ (outvalOfTx after).Exact db := by
  refine ⟨.of_tiles tiles_addcntBuckets fun row hrow => ?_,
    .of_tiles tiles_outvalBuckets fun row hrow => ?_,
    .of_tiles tiles_outvalBuckets fun row hrow => ?_,
    .of_tiles tiles_balBuckets fun row hrow => ?_, .of_tiles tiles_balBuckets fun row hrow => ?_,
    .of_tiles tiles_balBuckets fun row hrow => ?_, .of_tiles tiles_balBuckets fun row hrow => ?_,
    .of_tiles tiles_txcntBuckets fun row hrow => ?_,
    .of_tiles tiles_txcntBuckets fun row hrow => ?_,
    .of_tiles tiles_outvalBuckets fun row hrow => ?_⟩
  · obtain ⟨n, hn, hle⟩ := (hentities row hrow).addcnt
    exact ⟨n, congrArg (Option.map Nat.cast) hn, by exact_mod_cast hle⟩
  · exact ⟨row.outval, rfl, by exact_mod_cast (haddresses row hrow).outval⟩
  · obtain ⟨x, hx, hle⟩ := (hentities row hrow).outval
    exact ⟨x, hx, by exact_mod_cast hle⟩
  · exact ⟨row.bal, rfl, by exact_mod_cast (haddresses row hrow).bal⟩
  · obtain ⟨x, hx, hle⟩ := (hentities row hrow).bal
    exact ⟨x, hx, by exact_mod_cast hle⟩
  · exact ⟨row.maxbal, rfl, by exact_mod_cast (haddresses row hrow).maxbal⟩
  · obtain ⟨x, hx, hle⟩ := (hentities row hrow).maxbal
    exact ⟨x, hx, by exact_mod_cast hle⟩
  · exact ⟨_, rfl, by exact_mod_cast (haddresses row hrow).txcnt⟩
  · obtain ⟨m, n, hm, hn, hle⟩ := (hentities row hrow).txcnt
    refine ⟨(m + n : ℕ), ?_, by exact_mod_cast hle⟩
    show (row.incnt >>= fun m => row.outcnt >>= fun n => some ((m + n : ℕ) : ℤ)) = _
    rw [hm, hn]
    rfl
  · exact ⟨_, rfl, by exact_mod_cast Nat.zero_le _⟩

/-- One address of one entity, and one transaction. -/
def paidDb : Db :=
  [Stmt.upsertOutput (.replicate 20 1) 5000000000 1000, .insertEntity 1,
    .setEntity (.replicate 20 1) 1, .insertTx (mined.txRow []), .aggregateEntity 1].foldl Db.exec
      (Db.empty .null)

theorem distributions_paidDb :
    numOfAddOfEntity.counts paidDb = 1 :: List.replicate 30 0 ∧ numOfAddOfEntity.Exact paidDb := by
  have haddresses : paidDb.addresses
      = [⟨1, 5000000000, 0, 5000000000, 0, 1, 0, 1000, 1000⟩] := by decide +kernel
  have hentities : paidDb.entities = [⟨some 1, some 0, some 5000000000, some 1000, some 1000,
      some 5000000000, some 0, some 0, some 1⟩] := by decide +kernel
  refine ⟨by decide +kernel, (distributions_exact (fun row hrow => ?_) (fun row hrow => ?_)
    "2009-01-01-00-00-00".toList).1⟩
  · rw [haddresses, List.mem_singleton] at hrow
    subst hrow
    exact ⟨by decide, by decide, by decide, by decide⟩
  · rw [hentities, List.mem_singleton] at hrow
    subst hrow
    exact ⟨⟨1, rfl, by decide⟩, ⟨_, rfl, by decide⟩, ⟨_, rfl, by decide⟩, ⟨_, rfl, by decide⟩,
      ⟨0, 1, rfl, rfl, by decide⟩⟩

/-! ### Large amounts -/

/-- Every transaction of the window from 320 BTC on is counted by one query, and
the counts add up. -/
structure LargeAmounts (after before : List Char) (db : Db) : Prop where
  once : ∀ row ∈ db.txinfo, txTime after before row → 320 * 10 ^ 8 ≤ row.outvalue.toNat →
    ∃! i : ℕ, ∃ b, (largeAmounts after before).buckets[i]? = some b ∧
      (largeAmounts after before).selects b row
  total : ((largeAmounts after before).counts db).sum
    = db.txinfo.countP fun row => txTime after before row ∧ 320 * 10 ^ 8 ≤ row.outvalue.toNat

theorem tiles_below : Tiles ((320 * 100000000 : ℚ) : WithTop ℚ)
    ((txAmount.drop 22).take 4) ((400 * 100000000 : ℚ) : WithTop ℚ) := by decide +kernel

theorem tiles_above : Tiles ((420 * 100000000 : ℚ) : WithTop ℚ)
    ((txAmount.drop 26).take 10) ⊤ := by decide +kernel

theorem btc_le_iff {low : ℚ} {n : ℕ} (h : low = n) (v : ℕ) :
    (low : WithTop ℚ) ≤ (((v : ℤ) : ℚ) : WithTop ℚ) ↔ n ≤ v := by
  rw [WithTop.coe_le_coe, h, Int.cast_natCast, Nat.cast_le]

theorem lt_btc_iff {high : ℚ} {n : ℕ} (h : high = n) (v : ℕ) :
    (((v : ℤ) : ℚ) : WithTop ℚ) < (high : WithTop ℚ) ↔ v < n := by
  rw [← not_le, btc_le_iff h, not_le]

/-- A transaction of the window is counted once or not at all. -/
theorem countP_largeAmounts (after before : List Char) (row : TxRow) :
    (largeAmounts after before).buckets.countP ((largeAmounts after before).selects · row)
      = if txTime after before row ∧ 320 * 10 ^ 8 ≤ row.outvalue.toNat ∧
          ¬ (400 * 10 ^ 8 ≤ row.outvalue.toNat ∧ row.outvalue.toNat < 420 * 10 ^ 8)
        then 1 else 0 := by
  by_cases hscope : txTime after before row
  · have hsplit : (largeAmounts after before).buckets
        = (txAmount.drop 22).take 4 ++ (txAmount.drop 26).take 10 := by
      show (txAmount.drop 22).take (4 + 10) = _
      rw [List.take_add, List.drop_drop]
    rw [Distribution.countP_selects (x := (row.outvalue.toNat : ℤ)) hscope rfl, hsplit,
      List.countP_append, tiles_below.countP_contains, tiles_above.countP_contains]
    have h320 : (320 * 100000000 : ℚ) = (320 * 10 ^ 8 : ℕ) := by norm_num
    have h400 : (400 * 100000000 : ℚ) = (400 * 10 ^ 8 : ℕ) := by norm_num
    have h420 : (420 * 100000000 : ℚ) = (420 * 10 ^ 8 : ℕ) := by norm_num
    simp only [btc_le_iff h320, lt_btc_iff h400, btc_le_iff h420, hscope, true_and,
      WithTop.coe_lt_top, and_true]
    generalize row.outvalue.toNat = v
    split_ifs <;> omega
  · rw [if_neg fun h => hscope h.1, List.countP_eq_zero]
    intro b _ hb
    exact hscope (Bool.and_eq_true_iff.mp hb).1

/-- **The large amounts.**  What is missing is the interval from 400 to 420 BTC. -/
theorem largeAmounts_iff (after before : List Char) (db : Db) :
    LargeAmounts after before db ↔ ∀ row ∈ db.txinfo, txTime after before row →
      ¬ (400 * 10 ^ 8 ≤ row.outvalue.toNat ∧ row.outvalue.toNat < 420 * 10 ^ 8) := by
  constructor
  · intro h row hrow hscope hgap
    have hone := countP_eq_one_iff.mpr (h.once row hrow hscope (by omega))
    rw [countP_largeAmounts, if_neg fun hno => hno.2.2 hgap] at hone
    cases hone
  · intro h
    constructor
    · intro row hrow hscope hlarge
      refine countP_eq_one_iff.mp ?_
      rw [countP_largeAmounts, if_pos ⟨hscope, hlarge, h row hrow hscope⟩]
    · refine sum_countP fun row hrow => ?_
      rw [countP_largeAmounts]
      refine if_congr ?_ rfl rfl
      rw [decide_eq_true_eq]
      exact ⟨fun hr => ⟨hr.1, hr.2.1⟩, fun hr => ⟨hr.1, hr.2, h row hrow hr.1⟩⟩

/-- A transaction of 410 BTC on 9 September 2010. -/
def gapDb : Db :=
  (Db.empty .null).exec (.insertTx
    { mined.txRow [] with txtime := 1283990400, outvalue := 410 * oneBtc })

theorem largeAmounts_gapDb :
    (largeAmounts "2010-09-01-00-00-00".toList "2010-10-01-00-00-00".toList).counts gapDb
      = List.replicate 14 0 ∧
    gapDb.txinfo.countP (fun row =>
      txTime "2010-09-01-00-00-00".toList "2010-10-01-00-00-00".toList row ∧
      320 * 10 ^ 8 ≤ row.outvalue.toNat) = 1 ∧
    ¬ LargeAmounts "2010-09-01-00-00-00".toList "2010-10-01-00-00-00".toList gapDb := by
  have hcounts : (largeAmounts "2010-09-01-00-00-00".toList "2010-10-01-00-00-00".toList).counts
      gapDb = List.replicate 14 0 := by decide +kernel
  have hone : gapDb.txinfo.countP (fun row =>
      txTime "2010-09-01-00-00-00".toList "2010-10-01-00-00-00".toList row ∧
      320 * 10 ^ 8 ≤ row.outvalue.toNat) = 1 := by decide +kernel
  refine ⟨hcounts, hone, fun h => ?_⟩
  have htotal := h.total
  rw [hcounts, hone] at htotal
  cases htotal

end BitcoinAnalysis
