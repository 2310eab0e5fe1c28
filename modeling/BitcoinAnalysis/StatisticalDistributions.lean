/-
The distributions of a report.

The texts of a family, sent one by one, return the counts of the family
(`fetchLine_buckets`), for the ten families of section 9 and for the two that are
counted between `after` and `before`.  In every month `before` is earlier than
`after`, so nothing lies between them.
-/
import BitcoinAnalysis.StatisticalSections

open SqlSyntax SqlSemantics Run Buckets

namespace BitcoinAnalysis

/-! ### Bounds -/

def unitOf (btc : Bool) : ℚ := if btc then 100000000 else 1

/-- The bucket two bounds stand for. -/
def bucketOf (btc : Bool) (bounds : String × Option String) : Bucket ℚ where
  low := decimal bounds.1.toList * unitOf btc
  high := bounds.2.elim ⊤ fun high => ((decimal high.toList * unitOf btc : ℚ) : WithTop ℚ)

/-- The ends of a bucket. -/
def ends (b : Bucket ℚ) : ℚ × Option ℚ := (b.low, WithTop.recTopCoe none some b.high)

theorem ends_injective : Function.Injective ends := by
  rintro ⟨low, high⟩ ⟨low', high'⟩ h
  obtain ⟨rfl, hhigh⟩ := Prod.mk.inj h
  cases high with
  | top =>
    cases high' with
    | top => rfl
    | coe q => cases hhigh
  | coe q =>
    cases high' with
    | top => cases hhigh
    | coe q' =>
      cases hhigh
      rfl

/-- Texts that are numbers and stand for some buckets. -/
structure Bounds (btc : Bool) (texts : List (String × Option String)) (buckets : List (Bucket ℚ)) :
    Prop where
  numbers : ∀ b ∈ texts, AreNumbers b
  buckets : texts.map (bucketOf btc) = buckets

theorem Bounds.of_ends {btc : Bool} {texts : List (String × Option String)}
    {buckets : List (Bucket ℚ)} (hnumbers : ∀ b ∈ texts, AreNumbers b)
    (hends : (texts.map (bucketOf btc)).map ends = buckets.map ends) :
    Bounds btc texts buckets :=
  ⟨hnumbers, List.map_injective_iff.mpr ends_injective hends⟩

theorem bounds_addcnt : Bounds false addcntBounds addcntBuckets :=
  .of_ends (by decide +kernel) (by decide +kernel)

theorem bounds_outval : Bounds true outvalBounds outvalBuckets :=
  .of_ends (by decide +kernel) (by decide +kernel)

theorem bounds_bal : Bounds true balBounds balBuckets :=
  .of_ends (by decide +kernel) (by decide +kernel)

theorem bounds_txcnt : Bounds false txcntBounds txcntBuckets :=
  .of_ends (by decide +kernel) (by decide +kernel)

theorem bounds_largeAmounts :
    Bounds true ((txAmountBounds.drop 22).take 14) ((txAmount.drop 22).take 14) :=
  .of_ends (by decide +kernel) (by decide +kernel)

/-! ### Counts -/

section Counts

variable {diffOf : UInt32 → ℕ} {db : Db} {d : EntityRow} {t : Table} {row : Row Column}
  {e : Scalar Column} {v : Option ℤ} {btc : Bool}

theorem decimal_btc : decimal "100000000".toList = 100000000 := by decide +kernel

theorem scalar_boundScalar (s : List Char) :
    (schema d).scalar t row (boundScalar btc s) = some (.number (decimal s * unitOf btc)) := by
  cases btc with
  | false => simp [boundScalar, unitOf, Schema.scalar]
  | true =>
    have hbtc := decimal_btc
    simp only [boundScalar, unitOf, Schema.scalar, if_true, hbtc]
    rfl

theorem holds_low (btc : Bool)
    (he : (schema d).scalar t row e = some ((v.map Int.cast).elim .null .number))
    (s : List Char) :
    (schema d).holds t row [(e, .ge, boundScalar btc s)]
      = some (v.any fun x : ℤ => decide (decimal s * unitOf btc ≤ (x : ℚ))) := by
  cases v <;> simp [Schema.holds, he, scalar_boundScalar, compareValues, compareBy]

theorem holds_high (btc : Bool)
    (he : (schema d).scalar t row e = some ((v.map Int.cast).elim .null .number))
    (s : List Char) :
    (schema d).holds t row [(e, .lt, boundScalar btc s)]
      = some (v.any fun x : ℤ => decide ((x : ℚ) < decimal s * unitOf btc)) := by
  cases v <;> simp [Schema.holds, he, scalar_boundScalar, compareValues, compareBy]

theorem holds_bucketTests
    (he : (schema d).scalar t row e = some ((v.map Int.cast).elim .null .number))
    (bounds : String × Option String) :
    (schema d).holds t row (bucketTests btc e bounds)
      = some (v.any fun x : ℤ => decide ((bucketOf btc bounds).Contains (x : ℚ))) := by
  obtain ⟨low, high⟩ := bounds
  have hlow := holds_low btc he low.toList
  cases high with
  | none =>
    simp only [bucketTests, Option.map_none, Option.toList_none, hlow]
    simp [bucketOf, Bucket.Contains]
  | some high =>
    have hhigh := holds_high btc he high.toList
    have hboth := (schema d).holds_append t row [(e, .ge, boundScalar btc low.toList)]
      [(e, .lt, boundScalar btc high.toList)]
    rw [hlow, hhigh] at hboth
    simp only [List.singleton_append] at hboth
    simp only [bucketTests, Option.map_some, Option.toList_some, hboth]
    cases v with
    | none => rfl
    | some x =>
      simp only [bucketOf, Bucket.Contains, Option.elim_some, WithTop.coe_lt_coe,
        Option.bind_eq_bind, Option.bind_some, Option.any_some, Bool.decide_and]

variable {α ρ : Type} {l : List α} {f : α → Row Column} {π : α → ρ} {x y : List Char}
  {cond : Condition Column}

/-- **The texts of a family** return its counts. -/
theorem fetchLine_buckets {dist : Distribution ρ} {texts : List (String × Option String)}
    (hy : Heads y t cond) (hx : Compared x e) (hbounds : Bounds btc texts dist.buckets)
    (hrows : db.tables diffOf t = l.map f) (htable : dist.table db = l.map π)
    (hcond : ∀ i, (schema db.entityDefault).holds t (f i) cond = some (dist.scope (π i)))
    (he : ∀ i, (schema db.entityDefault).scalar t (f i) e
      = some (((dist.column (π i)).map Int.cast).elim .null .number)) :
    fetchLine diffOf db (texts.map (bucketText y x btc))
      = .ok ((dist.counts db).map number) := by
  have hfetch : ∀ b ∈ texts, fetchValue diffOf db (bucketText y x btc b)
      = .ok [number ((dist.table db).countP (dist.selects (bucketOf btc b)))] := by
    intro b hb
    have hholds : ∀ i ∈ l, (schema db.entityDefault).holds t (f i) (cond ++ bucketTests btc e b)
        = some (dist.selects (bucketOf btc b) (π i)) := by
      intro i _
      rw [Schema.holds_append, hcond, holds_bucketTests (he i)]
      rfl
    have hquery := query_count hrows hholds
    have hcount : l.countP (fun i => dist.selects (bucketOf btc b) (π i))
        = (dist.table db).countP (dist.selects (bucketOf btc b)) := by
      rw [htable, List.countP_map]
      rfl
    rw [hcount] at hquery
    exact fetchValue_of_query (parse_bucketText hy hx (hbounds.numbers b hb)) hquery
  rw [Distribution.counts, ← hbounds.buckets, List.map_map, List.map_map]
  clear hbounds
  induction texts with
  | nil => rfl
  | cons b texts ih =>
    rw [List.map_cons, fetchLine_cons (hfetch b (by simp)),
      ih fun b hb => hfetch b (by simp [hb])]
    rfl

end Counts

/-! ### The families -/

section Families

variable {diffOf : UInt32 → ℕ} {db : Db} {before after : List Char} {tb ta : ℤ}

-- the literal parts are read by computation, one level for each character
set_option maxRecDepth 4000

theorem heads_addressinfo : Heads (countWhere "addressinfo") .addressinfo [] :=
  heads_countWhere rfl

theorem heads_entityinfo : Heads (countWhere "entityinfo") .entityinfo [] := heads_countWhere rfl

theorem compared_addcnt : Compared "addcnt".toList (.column .addcnt) := compared_column rfl rfl

theorem compared_outval : Compared "outval".toList (.column .outval) := compared_column rfl rfl

theorem compared_bal : Compared "bal".toList (.column .bal) := compared_column rfl rfl

theorem compared_maxbal : Compared "maxbal".toList (.column .maxbal) := compared_column rfl rfl

theorem fetchLine_numOfAddOfEntity :
    fetchLine diffOf db numOfAddOfEntityTexts = .ok ((numOfAddOfEntity.counts db).map number) := by
  have hcolumn : ∀ i : UInt32 × EntityRow,
      (schema db.entityDefault).scalar .entityinfo (entityValues i.1 i.2) (.column .addcnt)
        = some (((numOfAddOfEntity.column i.2).map Int.cast).elim .null .number) := by
    rintro ⟨e, row⟩
    cases haddcnt : row.addcnt <;>
      simp [Schema.scalar, schema, columnKind, entityValues, EntityRow.values, numOfAddOfEntity,
        haddcnt, numberOrNull]
  rw [numOfAddOfEntityTexts]
  exact fetchLine_buckets heads_entityinfo compared_addcnt bounds_addcnt rfl rfl (fun _ => rfl)
    hcolumn

theorem fetchLine_outvalOfAdd :
    fetchLine diffOf db outvalOfAddTexts = .ok ((outvalOfAdd.counts db).map number) := by
  rw [outvalOfAddTexts]
  exact fetchLine_buckets heads_addressinfo compared_outval bounds_outval rfl rfl (fun _ => rfl)
    fun _ => rfl

theorem fetchLine_outvalOfEntity :
    fetchLine diffOf db outvalOfEntityTexts = .ok ((outvalOfEntity.counts db).map number) := by
  rw [outvalOfEntityTexts]
  exact fetchLine_buckets heads_entityinfo compared_outval bounds_outval rfl rfl (fun _ => rfl)
    fun i => congrArg some (numberOrNull_eq Int.cast i.2.outval)

theorem fetchLine_balOfAdd :
    fetchLine diffOf db balOfAddTexts = .ok ((balOfAdd.counts db).map number) := by
  rw [balOfAddTexts]
  exact fetchLine_buckets heads_addressinfo compared_bal bounds_bal rfl rfl (fun _ => rfl)
    fun _ => rfl

theorem fetchLine_balOfEntity :
    fetchLine diffOf db balOfEntityTexts = .ok ((balOfEntity.counts db).map number) := by
  rw [balOfEntityTexts]
  exact fetchLine_buckets heads_entityinfo compared_bal bounds_bal rfl rfl (fun _ => rfl)
    fun i => congrArg some (numberOrNull_eq Int.cast i.2.bal)

theorem fetchLine_maxbalOfAdd :
    fetchLine diffOf db maxbalOfAddTexts = .ok ((maxbalOfAdd.counts db).map number) := by
  rw [maxbalOfAddTexts]
  exact fetchLine_buckets heads_addressinfo compared_maxbal bounds_bal rfl rfl (fun _ => rfl)
    fun _ => rfl

theorem fetchLine_maxbalOfEntity :
    fetchLine diffOf db maxbalOfEntityTexts = .ok ((maxbalOfEntity.counts db).map number) := by
  rw [maxbalOfEntityTexts]
  exact fetchLine_buckets heads_entityinfo compared_maxbal bounds_bal rfl rfl (fun _ => rfl)
    fun i => congrArg some (numberOrNull_eq Int.cast i.2.maxbal)

theorem fetchLine_txcntOfAdd :
    fetchLine diffOf db txcntOfAddTexts = .ok ((txcntOfAdd.counts db).map number) := by
  have hcolumn : ∀ i : Address × AddressRow,
      (schema db.entityDefault).scalar .addressinfo (addressValues i.1 i.2) txcount
        = some (((txcntOfAdd.column i.2).map Int.cast).elim .null .number) := by
    intro i
    simp [Schema.scalar, schema, columnKind, addressValues, txcount, arithmetic, txcntOfAdd]
  rw [txcntOfAddTexts]
  exact fetchLine_buckets heads_addressinfo compared_txcount bounds_txcnt rfl rfl (fun _ => rfl)
    hcolumn

theorem fetchLine_txcntOfEntity :
    fetchLine diffOf db txcntOfEntityTexts = .ok ((txcntOfEntity.counts db).map number) := by
  have hcolumn : ∀ i : UInt32 × EntityRow,
      (schema db.entityDefault).scalar .entityinfo (entityValues i.1 i.2) txcount
        = some (((txcntOfEntity.column i.2).map Int.cast).elim .null .number) := by
    rintro ⟨e, row⟩
    rw [scalar_entityTxcount (e, row)]
    cases hin : row.incnt <;> cases hout : row.outcnt <;>
      simp [EntityRow.txcount, txcntOfEntity, hin, hout]
  rw [txcntOfEntityTexts]
  exact fetchLine_buckets heads_entityinfo compared_txcount bounds_txcnt rfl rfl (fun _ => rfl)
    hcolumn

theorem compared_outvalue : Compared "outvalue".toList (.column .outvalue) :=
  compared_column rfl rfl

theorem transactionTime_eq (h : TimeText after ta) (row : TxRow) :
    transactionTime after row = row.since ta := by
  simp only [transactionTime, h.unix, TxRow.since]

theorem fetchLine_outvalOfTx (ha : TimeText after ta) :
    fetchLine diffOf db (outvalOfTxTexts after)
      = .ok (((outvalOfTx after).counts db).map number) := by
  have hcond : ∀ row : TxRow, (schema db.entityDefault).holds .txinfo row.values
      [timeTest .txtime .gt after] = some ((outvalOfTx after).scope (id row)) := by
    intro row
    rw [holds_tx ha]
    exact congrArg some (transactionTime_eq ha row).symm
  rw [outvalOfTxTexts]
  exact fetchLine_buckets (heads_after ha.ne_quote) compared_outvalue bounds_outval rfl
    (List.map_id _).symm hcond fun _ => rfl

/-! ### Between `after` and `before` -/

/-- `tx_size` -/
def sizeOfTx (after before : List Char) : Distribution TxRow where
  table := Db.txinfo
  scope := txTime after before
  column row := some (row.rawlength.toNat : ℤ)
  buckets := txSizeBounds.map (bucketOf false)

theorem holds_window {d : EntityRow} (ha : TimeText after ta) (hb : TimeText before tb)
    (row : TxRow) :
    (schema d).holds .txinfo row.values
        [timeTest .txtime .ge after, timeTest .txtime .lt before]
      = some (txTime after before row) := by
  have hafter : (schema d).holds .txinfo row.values [timeTest .txtime .ge after]
      = some (decide (ta ≤ (row.txtime.toNat : ℤ))) := by
    rw [holds_timeTest (v := some row.txtime.toNat) .ge rfl rfl ha.reads]
    simp [compareBy]
  have hbefore : (schema d).holds .txinfo row.values [timeTest .txtime .lt before]
      = some (decide ((row.txtime.toNat : ℤ) < tb)) := by
    rw [holds_timeTest (v := some row.txtime.toNat) .lt rfl rfl hb.reads]
    simp [compareBy]
  have hboth := (schema d).holds_append .txinfo row.values [timeTest .txtime .ge after]
    [timeTest .txtime .lt before]
  rw [hafter, hbefore] at hboth
  simp only [List.singleton_append] at hboth
  rw [hboth]
  simp [txTime, ha.unix, hb.unix]

theorem fetchLine_largeAmounts (ha : TimeText after ta) (hb : TimeText before tb) :
    fetchLine diffOf db (((txAmountTexts after before).drop 22).take 14)
      = .ok (((largeAmounts after before).counts db).map number) := by
  rw [txAmountTexts, ← List.map_drop, ← List.map_take]
  exact fetchLine_buckets (heads_window ha.ne_quote hb.ne_quote) compared_outvalue
    bounds_largeAmounts rfl (List.map_id _).symm (holds_window ha hb) fun _ => rfl

theorem fetchLine_sizeOfTx (ha : TimeText after ta) (hb : TimeText before tb) :
    fetchLine diffOf db (txSizeTexts after before)
      = .ok (((sizeOfTx after before).counts db).map number) := by
  rw [txSizeTexts]
  exact fetchLine_buckets (heads_window ha.ne_quote hb.ne_quote) (compared_column rfl rfl)
    ⟨by decide +kernel, rfl⟩ rfl (List.map_id _).symm (holds_window ha hb) fun _ => rfl

/-- No row lies in a window that ends before it begins. -/
theorem counts_eq_replicate {ρ : Type} {dist : Distribution ρ}
    (h : ∀ row ∈ dist.table db, dist.scope row = false) :
    dist.counts db = List.replicate dist.buckets.length 0 := by
  rw [Distribution.counts, List.eq_replicate_iff]
  refine ⟨by rw [List.length_map], fun n hn => ?_⟩
  obtain ⟨b, -, rfl⟩ := List.mem_map.mp hn
  rw [List.countP_eq_zero]
  intro row hrow
  simp [Distribution.selects, h row hrow]

theorem txTime_eq_false (ha : TimeText after ta) (hb : TimeText before tb) (h : tb ≤ ta)
    (row : TxRow) : txTime after before row = false := by
  simp only [txTime, ha.unix, hb.unix, decide_eq_false_iff_not]
  omega

end Families

end BitcoinAnalysis
