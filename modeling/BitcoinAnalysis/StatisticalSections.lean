/-
The sections of a report.

The queries of a section, sent as texts, return counts and statistics of the typed
rows they are about (`fetchLine_address` and the theorems behind it).  A statistic
leaves `NULL` out; over nothing it is `NULL`, and the copy of it reads from a null
pointer.
-/
import BitcoinAnalysis.StatisticalParsing
import BitcoinAnalysis.Distributions

open SqlSyntax SqlSemantics Run

namespace BitcoinAnalysis

/-! ### Statistics of typed rows -/

section Figures

variable {ρ : Type}

/-- The four statistics of a column without its `NULL`s. -/
def statistics (qs : List ℚ) : Except Fault (List Value) :=
  if qs = [] then .error .outOfRange else .ok (functions.map fun f => statistic f qs)

/-- The statistics of some columns, one after the other. -/
def figures (rows : List ρ) (columns : List (ρ → Option ℚ)) : Except Fault (List Value) := do
  let values ← columns.mapM fun g => statistics (rows.filterMap g)
  .ok values.flatten

def number (n : ℕ) : Value := .number n

/-- A lifetime in days. -/
def days (firsttm lasttm : ℕ) : ℚ := ((lasttm : ℚ) - firsttm) / 86400

/-- `outval`, `inval`, `bal` and `maxbal` -/
def addressTurnover : List (AddressRow → Option ℚ) :=
  [fun row => some row.outval, fun row => some row.inval, fun row => some row.bal,
   fun row => some row.maxbal]

def AddressRow.days (row : AddressRow) : Option ℚ :=
  some (BitcoinAnalysis.days row.firsttm row.lasttm)

def AddressRow.txcount (row : AddressRow) : Option ℚ := some (row.incnt + row.outcnt)

/-- `addcnt`, `outval`, `inval`, `bal` and `maxbal` -/
def entityTurnover : List (EntityRow → Option ℚ) :=
  [fun row => row.addcnt.map Nat.cast, fun row => row.outval.map Int.cast,
   fun row => row.inval.map Int.cast, fun row => row.bal.map Int.cast,
   fun row => row.maxbal.map Int.cast]

def EntityRow.days (row : EntityRow) : Option ℚ := do
  let lasttm ← row.lasttm
  let firsttm ← row.firsttm
  some (BitcoinAnalysis.days firsttm lasttm)

def EntityRow.txcount (row : EntityRow) : Option ℚ := do
  let incnt ← row.incnt
  let outcnt ← row.outcnt
  some (incnt + outcnt)

/-- `outvalue`, `txsize`, `txfee`, `incnt` and `outcnt` -/
def txFigures : List (TxRow → Option ℚ) :=
  [fun row => some row.outvalue.toNat, fun row => some row.rawlength.toNat,
   fun row => some row.txfee.toNat, fun row => some row.incounter.toNat,
   fun row => some row.outcounter.toNat]

/-- `txcnt`, `diff`, `blksize` and `reward` -/
def blkFigures (diffOf : UInt32 → ℕ) : List (BlkRow → Option ℚ) :=
  [fun row => some row.transCount.toNat, fun row => some (diffOf row.bits),
   fun row => some row.blocksize.toNat, fun row => some row.reward.toNat]

end Figures

/-! ### Result sets -/

section Views

variable {diffOf : UInt32 → ℕ} {db : Db} {text x y : List Char} {t : Table}
  {cond : Condition Column}

theorem fetchValue_of_query {q : Query Table Column} {v : Value}
    (hparse : parse names text = some (.select q))
    (hquery : (schema db.entityDefault).query (db.tables diffOf) q = some [v]) :
    fetchValue diffOf db text = if v = .null then .error .outOfRange else .ok [v] := by
  simp only [fetchValue, Schema.resultOf, hparse, hquery]

theorem fetchLine_append (as bs : List (List Char)) :
    fetchLine diffOf db (as ++ bs) = (do
      let vs ← fetchLine diffOf db as
      let ws ← fetchLine diffOf db bs
      .ok (vs ++ ws)) := by
  simp only [fetchLine, List.mapM_append, bind_assoc, ok_bind]
  refine bind_congr fun vs => ?_
  refine bind_congr fun ws => ?_
  simp

theorem fetchLine_cons {v : Value} (h : fetchValue diffOf db text = .ok [v])
    (texts : List (List Char)) :
    fetchLine diffOf db (text :: texts) = (do
      let vs ← fetchLine diffOf db texts
      .ok (v :: vs)) := by
  simp [fetchLine, List.mapM_cons, h]

-- the rows of a table are `l.map f`, and what they hold as typed rows is `l.map π`
variable {α ρ : Type} {l : List α} {f : α → Row Column} {π : α → ρ} {p : ρ → Bool}

theorem fetchValue_countText (hrows : db.tables diffOf t = l.map f)
    (hcond : ∀ i, (schema db.entityDefault).holds t (f i) cond = some (p (π i)))
    (hy : Limits (x ++ y) t cond) :
    fetchValue diffOf db (countText x y) = .ok [number ((l.map π).countP p)] := by
  have hquery := query_count hrows fun i _ => hcond i
  have hcount : l.countP (fun i => p (π i)) = (l.map π).countP p := by
    rw [List.countP_map]
    rfl
  rw [hcount] at hquery
  exact fetchValue_of_query (parse_countText hy) hquery

/-- The numbers a row gives for an expression. -/
def Measures (d : EntityRow) (t : Table) (f : α → Row Column) (π : α → ρ) (x : List Char)
    (g : ρ → Option ℚ) : Prop :=
  ∃ e, Spells x e ∧ ∀ i, (schema d).scalar t (f i) e = some ((g (π i)).elim .null .number)

theorem fetchLine_functionTexts {g : ρ → Option ℚ} (hrows : db.tables diffOf t = l.map f)
    (hcond : ∀ i, (schema db.entityDefault).holds t (f i) cond = some (p (π i)))
    {table tail : List Char} (hy : Limits (table ++ tail) t cond)
    (hx : Measures db.entityDefault t f π x g) :
    fetchLine diffOf db (functionTexts table tail x)
      = statistics (((l.map π).filter p).filterMap g) := by
  obtain ⟨e, hspells, hscalar⟩ := hx
  set qs := ((l.map π).filter p).filterMap g with hqs
  have hvalues : (l.filter fun i => p (π i)).filterMap (fun i => g (π i)) = qs := by
    rw [hqs, List.filter_map, List.filterMap_map]
    rfl
  have hfetch : ∀ k, fetchValue diffOf db (functionQuery table tail x k)
      = if qs = [] then .error .outOfRange else .ok [statistic k qs] := by
    intro k
    have hquery := query_aggregate (k := k) hrows (fun i _ => hcond i) fun i _ => hscalar i
    rw [hvalues] at hquery
    rw [fetchValue_of_query (parse_functionQuery k hspells hy) hquery]
    simp only [statistic_eq_null]
  have hcomp : fetchValue diffOf db ∘ functionQuery table tail x
      = fun k => if qs = [] then .error .outOfRange else .ok [statistic k qs] := funext hfetch
  rw [fetchLine, functionTexts, List.mapM_map, hcomp, statistics]
  by_cases hempty : qs = []
  · simp only [hempty, if_true]
    rfl
  · simp only [hempty, if_false]
    rfl

theorem fetchLine_figures {xs : List (List Char)} {gs : List (ρ → Option ℚ)}
    (hrows : db.tables diffOf t = l.map f)
    (hcond : ∀ i, (schema db.entityDefault).holds t (f i) cond = some (p (π i)))
    {table tail : List Char} (hy : Limits (table ++ tail) t cond)
    (hxs : List.Forall₂ (Measures db.entityDefault t f π) xs gs) :
    fetchLine diffOf db (xs.flatMap (functionTexts table tail))
      = figures ((l.map π).filter p) gs := by
  induction hxs with
  | nil => rfl
  | cons hx _ ih =>
    rw [List.flatMap_cons, fetchLine_append, ih,
      fetchLine_functionTexts hrows hcond hy hx, figures, figures, List.mapM_cons]
    simp only [bind_assoc, ok_bind]
    refine bind_congr fun vs => ?_
    refine bind_congr fun ws => ?_
    simp

/-- A count and the statistics, of the rows in a scope. -/
def scopeValues (rows : List ρ) (p : ρ → Bool) (gs : List (ρ → Option ℚ)) :
    Except Fault (List Value) := do
  let values ← figures (rows.filter p) gs
  .ok (number (rows.countP p) :: values)

theorem fetchLine_scope {xs : List (List Char)} {gs : List (ρ → Option ℚ)}
    (hrows : db.tables diffOf t = l.map f)
    (hcond : ∀ i, (schema db.entityDefault).holds t (f i) cond = some (p (π i)))
    {table tail : List Char} (hy : Limits (table ++ tail) t cond)
    (hxs : List.Forall₂ (Measures db.entityDefault t f π) xs gs) :
    fetchLine diffOf db (countText table tail :: xs.flatMap (functionTexts table tail))
      = scopeValues (l.map π) p gs := by
  rw [fetchLine_cons (fetchValue_countText hrows hcond hy), fetchLine_figures hrows hcond hy hxs]
  rfl

end Views

/-! ### Limits of time -/

section Times

variable {d : EntityRow} {t : Table} {c : Column} {row : Row Column} {s : List Char} {u : ℤ}

/-- The comparison of a time, or of `NULL`, with a limit. -/
theorem holds_timeTest {k : Kind} {v : Option ℕ} (r : Comparison)
    (hkind : columnKind t c = some k) (hv : row c = timeOrNull v) (hs : readTime s = some u) :
    (schema d).holds t row [timeTest c r s]
      = some (v.any fun w => compareBy r ((w : ℤ) : ℚ) u) := by
  have hlimit : (schema d).scalar t row (.unixTimestamp (.text s)) = some (.number u) := by
    simp [Schema.scalar, hs]
  cases v with
  | none =>
    have hcolumn : (schema d).scalar t row (.unixTimestamp (.column c)) = some .null := by
      simp [Schema.scalar, schema, hkind, hv, timeOrNull]
    simp [Schema.holds, timeTest, hcolumn, hlimit, compareValues]
  | some w =>
    have hcolumn : (schema d).scalar t row (.unixTimestamp (.column c))
        = some (.number ((w : ℤ) : ℚ)) := by
      simp [Schema.scalar, schema, hkind, hv, timeOrNull]
    simp [Schema.holds, timeTest, hcolumn, hlimit, compareValues]

theorem compareBy_lt (a b : ℤ) : compareBy .lt (a : ℚ) b = decide (a < b) := by
  simp [compareBy]

theorem compareBy_gt (a b : ℤ) : compareBy .gt (a : ℚ) b = decide (b < a) := by
  simp [compareBy]

/-- The limits in a report: digits with bars between them. -/
structure TimeText (s : List Char) (u : ℤ) : Prop where
  chars : ∀ c ∈ s, c.isDigit = true ∨ c = '-'
  unix : unixTimestamp s = some u

theorem TimeText.reads (h : TimeText s u) : readTime s = some u := by
  have hsplit : s.splitOnP (fun c => !c.isDigit) = s.splitOn '-' := by
    rw [List.splitOn]
    have hcongr : ∀ l : List Char, (∀ c ∈ l, c.isDigit = true ∨ c = '-') →
        l.splitOnP (fun c => !c.isDigit) = l.splitOnP (· == '-') := by
      intro l hl
      induction l with
      | nil => rfl
      | cons c l ih =>
        have hc : (!c.isDigit) = (c == '-') := by
          rcases hl c (by simp) with hdigit | rfl
          · have hne : c ≠ '-' := by rintro rfl; simp at hdigit
            simp [hdigit, hne]
          · rfl
        rw [List.splitOnP_cons_eq_if_modifyHead, List.splitOnP_cons_eq_if_modifyHead, hc,
          ih fun c hc => hl c (by simp [hc])]
    exact hcongr s h.chars
  have hunix := h.unix
  rw [unixTimestamp, ← hsplit] at hunix
  exact hunix

theorem TimeText.ne_quote (h : TimeText s u) : ∀ c ∈ s, c ≠ '\'' := by
  intro c hc
  rcases h.chars c hc with hdigit | rfl
  · exact ne_quote_of_isDigit hdigit
  · decide

end Times

/-! ### The sections -/

section Sections

variable {diffOf : UInt32 → ℕ} {db : Db} {before after : List Char} {tb ta : ℤ} {d : EntityRow}

-- the literal parts are read by computation, one level for each character
set_option maxRecDepth 4000

theorem spells_outval : Spells "outval".toList (.column .outval) := spells_column rfl

theorem spells_inval : Spells "inval".toList (.column .inval) := spells_column rfl

theorem spells_bal : Spells "bal".toList (.column .bal) := spells_column rfl

theorem spells_maxbal : Spells "maxbal".toList (.column .maxbal) := spells_column rfl

/-- The rows of `addressinfo`, and what they hold. -/
abbrev MeasuresAddress (d : EntityRow) :=
  Measures d .addressinfo (fun e : Address × AddressRow => addressValues e.1 e.2) Prod.snd

theorem measures_addressTurnover {xs : List (List Char)} {gs : List (AddressRow → Option ℚ)}
    (h : List.Forall₂ (MeasuresAddress d) xs gs) :
    List.Forall₂ (MeasuresAddress d)
      ("outval".toList :: "inval".toList :: "bal".toList :: "maxbal".toList :: xs)
      (addressTurnover ++ gs) :=
  .cons ⟨_, spells_outval, fun _ => rfl⟩ (.cons ⟨_, spells_inval, fun _ => rfl⟩
    (.cons ⟨_, spells_bal, fun _ => rfl⟩ (.cons ⟨_, spells_maxbal, fun _ => rfl⟩ h)))

theorem decimal_day : decimal ['8', '6', '4', '0', '0'] = 86400 := by decide +kernel

theorem measures_addressDays : MeasuresAddress d lifetimeText AddressRow.days := by
  refine ⟨_, spells_lifetime, fun e => ?_⟩
  simp [lifetime, Schema.scalar, schema, columnKind, addressValues, arithmetic, decimal_day,
    AddressRow.days, days]

theorem measures_addressTxcount : MeasuresAddress d "incnt + outcnt".toList AddressRow.txcount :=
  ⟨_, spells_txcount, fun _ => rfl⟩

/-- The rows of `entityinfo`, and what they hold. -/
abbrev MeasuresEntity (d : EntityRow) :=
  Measures d .entityinfo (fun e : UInt32 × EntityRow => entityValues e.1 e.2) Prod.snd

theorem numberOrNull_eq {α : Type} (toRat : α → ℚ) (x : Option α) :
    numberOrNull toRat x = (x.map toRat).elim .null .number := by
  cases x <;> rfl

theorem measures_entityTurnover {xs : List (List Char)} {gs : List (EntityRow → Option ℚ)}
    (h : List.Forall₂ (MeasuresEntity d) xs gs) :
    List.Forall₂ (MeasuresEntity d)
      ("addcnt".toList :: "outval".toList :: "inval".toList :: "bal".toList :: "maxbal".toList ::
        xs) (entityTurnover ++ gs) :=
  .cons ⟨_, spells_column rfl, fun _ => congrArg some (numberOrNull_eq _ _)⟩
    (.cons ⟨_, spells_outval, fun _ => congrArg some (numberOrNull_eq _ _)⟩
    (.cons ⟨_, spells_inval, fun _ => congrArg some (numberOrNull_eq _ _)⟩
    (.cons ⟨_, spells_bal, fun _ => congrArg some (numberOrNull_eq _ _)⟩
    (.cons ⟨_, spells_maxbal, fun _ => congrArg some (numberOrNull_eq _ _)⟩ h))))

theorem scalar_entityDays (e : UInt32 × EntityRow) :
    (schema d).scalar .entityinfo (entityValues e.1 e.2) lifetime
      = some (e.2.days.elim .null .number) := by
  have hfirst : entityValues e.1 e.2 .firsttm = timeOrNull e.2.firsttm := rfl
  have hlast : entityValues e.1 e.2 .lasttm = timeOrNull e.2.lasttm := rfl
  cases hf : e.2.firsttm <;> cases hl : e.2.lasttm <;>
    simp [lifetime, Schema.scalar, schema, columnKind, hfirst, hlast, hf, hl, timeOrNull,
      arithmetic, decimal_day, EntityRow.days, days]

theorem scalar_entityTxcount (e : UInt32 × EntityRow) :
    (schema d).scalar .entityinfo (entityValues e.1 e.2) txcount
      = some (e.2.txcount.elim .null .number) := by
  have hin : entityValues e.1 e.2 .incnt = numberOrNull Nat.cast e.2.incnt := rfl
  have hout : entityValues e.1 e.2 .outcnt = numberOrNull Nat.cast e.2.outcnt := rfl
  cases hi : e.2.incnt <;> cases ho : e.2.outcnt <;>
    simp [txcount, Schema.scalar, schema, columnKind, hin, hout, hi, ho, numberOrNull, arithmetic,
      EntityRow.txcount]

theorem measures_tx : List.Forall₂ (Measures d .txinfo TxRow.values id)
    ["outvalue".toList, "txsize".toList, "txfee".toList, "incnt".toList, "outcnt".toList]
    txFigures :=
  .cons ⟨_, spells_column rfl, fun _ => rfl⟩ (.cons ⟨_, spells_column rfl, fun _ => rfl⟩
    (.cons ⟨_, spells_column rfl, fun _ => rfl⟩ (.cons ⟨_, spells_column rfl, fun _ => rfl⟩
      (.cons ⟨_, spells_column rfl, fun _ => rfl⟩ .nil))))

theorem measures_blk : List.Forall₂ (Measures d .blkinfo (BlkRow.values diffOf) id)
    ["txcnt".toList, "diff".toList, "blksize".toList, "reward".toList] (blkFigures diffOf) :=
  .cons ⟨_, spells_column rfl, fun _ => rfl⟩ (.cons ⟨_, spells_column rfl, fun _ => rfl⟩
    (.cons ⟨_, spells_column rfl, fun _ => rfl⟩ (.cons ⟨_, spells_column rfl, fun _ => rfl⟩
      .nil)))

/-! ### Scopes -/

def AddressRow.newSince (ta : ℤ) (row : AddressRow) : Bool := ta < row.firsttm

def AddressRow.activeSince (t : ℤ) (row : AddressRow) : Bool := t < row.lasttm

def AddressRow.stoppedBefore (tb : ℤ) (row : AddressRow) : Bool := row.lasttm < tb

def EntityRow.newSince (ta : ℤ) (row : EntityRow) : Bool := row.firsttm.any fun w => ta < w

def EntityRow.activeSince (t : ℤ) (row : EntityRow) : Bool := row.lasttm.any fun w => t < w

def EntityRow.stoppedBefore (tb : ℤ) (row : EntityRow) : Bool := row.lasttm.any fun w => w < tb

def TxRow.since (ta : ℤ) (row : TxRow) : Bool := ta < row.txtime.toNat

def BlkRow.since (ta : ℤ) (row : BlkRow) : Bool := ta < row.blktime.toNat

theorem holds_newAddress (h : TimeText after ta) (e : Address × AddressRow) :
    (schema d).holds .addressinfo (addressValues e.1 e.2) [timeTest .firsttm .gt after]
      = some (e.2.newSince ta) := by
  rw [holds_timeTest (v := some e.2.firsttm) .gt rfl rfl h.reads]
  simp [compareBy_gt, AddressRow.newSince]

theorem holds_activeAddress (h : TimeText after ta) (e : Address × AddressRow) :
    (schema d).holds .addressinfo (addressValues e.1 e.2) [timeTest .lasttm .gt after]
      = some (e.2.activeSince ta) := by
  rw [holds_timeTest (v := some e.2.lasttm) .gt rfl rfl h.reads]
  simp [compareBy_gt, AddressRow.activeSince]

theorem holds_stoppedAddress (h : TimeText before tb) (e : Address × AddressRow) :
    (schema d).holds .addressinfo (addressValues e.1 e.2) [timeTest .lasttm .lt before]
      = some (e.2.stoppedBefore tb) := by
  rw [holds_timeTest (v := some e.2.lasttm) .lt rfl rfl h.reads]
  simp [compareBy_lt, AddressRow.stoppedBefore]

theorem holds_newEntity (h : TimeText after ta) (e : UInt32 × EntityRow) :
    (schema d).holds .entityinfo (entityValues e.1 e.2) [timeTest .firsttm .gt after]
      = some (e.2.newSince ta) := by
  rw [holds_timeTest (v := e.2.firsttm) .gt rfl rfl h.reads]
  simp only [compareBy_gt, EntityRow.newSince]

theorem holds_activeEntity (h : TimeText after ta) (e : UInt32 × EntityRow) :
    (schema d).holds .entityinfo (entityValues e.1 e.2) [timeTest .lasttm .gt after]
      = some (e.2.activeSince ta) := by
  rw [holds_timeTest (v := e.2.lasttm) .gt rfl rfl h.reads]
  simp only [compareBy_gt, EntityRow.activeSince]

theorem holds_stoppedEntity (h : TimeText before tb) (e : UInt32 × EntityRow) :
    (schema d).holds .entityinfo (entityValues e.1 e.2) [timeTest .lasttm .lt before]
      = some (e.2.stoppedBefore tb) := by
  rw [holds_timeTest (v := e.2.lasttm) .lt rfl rfl h.reads]
  simp only [compareBy_lt, EntityRow.stoppedBefore]

theorem holds_tx (h : TimeText after ta) (row : TxRow) :
    (schema d).holds .txinfo row.values [timeTest .txtime .gt after]
      = some (row.since ta) := by
  rw [holds_timeTest (v := some row.txtime.toNat) .gt rfl rfl h.reads]
  simp [compareBy_gt, TxRow.since]

theorem holds_blk (h : TimeText after ta) (row : BlkRow) :
    (schema d).holds .blkinfo (row.values diffOf) [timeTest .blktime .gt after]
      = some (row.since ta) := by
  rw [holds_timeTest (v := some row.blktime.toNat) .gt rfl rfl h.reads]
  simp [compareBy_gt, BlkRow.since]

/-! ### The lines of the sections -/

theorem limits_stoppedAddress (h : TimeText before tb) :
    Limits ("addressinfo".toList ++ timeText "lasttm".toList "<".toList before) .addressinfo
      [timeTest .lasttm .lt before] :=
  limits_before named_addressinfo rfl h.ne_quote

theorem decimal_zero : decimal ['0'] = 0 := by decide +kernel

/-- The balance of the addresses that have stopped. -/
theorem fetchValue_stoppedBalance (h : TimeText before tb) :
    fetchValue diffOf db ("SELECT IFNULL(sum(bal),0) FROM test1.".toList
        ++ ("addressinfo".toList ++ timeText "lasttm".toList "<".toList before))
      = .ok [.number ((db.addresses.filter (AddressRow.stoppedBefore tb)).map
          fun row => (row.bal : ℚ)).sum] := by
  have hparse := parse_ifnullText (limits_stoppedAddress h)
  rw [decimal_zero] at hparse
  have hquery : (schema db.entityDefault).query (db.tables diffOf)
      ⟨.ifnull (.aggregate .sum (.column .bal)) (.number 0), .addressinfo,
        [timeTest .lasttm .lt before]⟩
      = some [.number ((db.addressinfo.entries.filter fun e => e.2.stoppedBefore tb).filterMap
          fun e => some (e.2.bal : ℚ)).sum] :=
    query_sum rfl (fun e _ => holds_stoppedAddress h e) fun _ _ => rfl
  have hsum : ((db.addressinfo.entries.filter fun e => e.2.stoppedBefore tb).filterMap
      fun e => some (e.2.bal : ℚ))
      = (db.addresses.filter (AddressRow.stoppedBefore tb)).map fun row => (row.bal : ℚ) := by
    rw [Db.addresses, List.filter_map, List.map_map, List.filterMap_eq_map']
    rfl
  rw [hsum] at hquery
  exact fetchValue_of_query hparse hquery

/-- Section 1. -/
def addressLine (db : Db) (tb ta : ℤ) : Except Fault (List Value) := do
  let values ← figures db.addresses (addressTurnover ++ [AddressRow.days, AddressRow.txcount])
  .ok ([number db.addresses.length, number (db.addresses.countP (AddressRow.stoppedBefore tb)),
      number (db.addresses.countP (AddressRow.activeSince ta))] ++ values ++
    [.number ((db.addresses.filter (AddressRow.stoppedBefore tb)).map
      fun row => (row.bal : ℚ)).sum])

theorem fetchLine_address (hb : TimeText before tb) (ha : TimeText after ta) :
    fetchLine diffOf db (addressTexts before after) = addressLine db tb ta := by
  have hall : fetchValue diffOf db (countText "addressinfo".toList ";".toList)
      = .ok [number (db.addresses.countP fun _ => true)] :=
    fetchValue_countText rfl (fun _ => rfl) (limits_none named_addressinfo)
  have hstopped : fetchValue diffOf db
      (countText "addressinfo".toList (timeText "lasttm".toList "<".toList before))
      = .ok [number (db.addresses.countP (AddressRow.stoppedBefore tb))] :=
    fetchValue_countText rfl (holds_stoppedAddress hb) (limits_stoppedAddress hb)
  have hactive : fetchValue diffOf db
      (countText "addressinfo".toList (timeText "lasttm".toList ">".toList after))
      = .ok [number (db.addresses.countP (AddressRow.activeSince ta))] :=
    fetchValue_countText rfl (holds_activeAddress ha)
      (limits_after named_addressinfo rfl ha.ne_quote)
  have hfigures : fetchLine diffOf db (["outval".toList, "inval".toList, "bal".toList,
      "maxbal".toList, lifetimeText, "incnt + outcnt".toList].flatMap
        (functionTexts "addressinfo".toList ";".toList))
      = figures (db.addresses.filter fun _ => true)
          (addressTurnover ++ [AddressRow.days, AddressRow.txcount]) :=
    fetchLine_figures rfl (fun _ => rfl) (limits_none named_addressinfo)
      (measures_addressTurnover
        (.cons measures_addressDays (.cons measures_addressTxcount .nil)))
  have hlast : fetchLine diffOf db ["SELECT IFNULL(sum(bal),0) FROM test1.".toList
        ++ ("addressinfo".toList ++ timeText "lasttm".toList "<".toList before)]
      = .ok [.number ((db.addresses.filter (AddressRow.stoppedBefore tb)).map
          fun row => (row.bal : ℚ)).sum] := by
    rw [fetchLine_cons (fetchValue_stoppedBalance hb)]
    rfl
  rw [List.countP_true] at hall
  rw [List.filter_true] at hfigures
  rw [addressTexts, fetchLine_append, fetchLine_append, hfigures, hlast, fetchLine_cons hall,
    fetchLine_cons hstopped, fetchLine_cons hactive, addressLine]
  simp only [bind_assoc, ok_bind]
  rfl

theorem fetchLine_newAdd (ha : TimeText after ta) :
    fetchLine diffOf db (newAddTexts after)
      = scopeValues db.addresses (AddressRow.newSince ta)
          (addressTurnover ++ [AddressRow.txcount]) :=
  fetchLine_scope rfl (holds_newAddress ha) (limits_after named_addressinfo rfl ha.ne_quote)
    (measures_addressTurnover (.cons measures_addressTxcount .nil))

theorem fetchLine_unstopAdd (hb : TimeText before tb) :
    fetchLine diffOf db (unstopAddTexts before)
      = scopeValues db.addresses (AddressRow.activeSince tb)
          (addressTurnover ++ [AddressRow.days, AddressRow.txcount]) :=
  fetchLine_scope rfl (holds_activeAddress hb) (limits_after named_addressinfo rfl hb.ne_quote)
    (measures_addressTurnover (.cons measures_addressDays (.cons measures_addressTxcount .nil)))

/-- Section 4. -/
def entityLine (db : Db) (tb ta : ℤ) : Except Fault (List Value) := do
  let values ← figures db.entities (entityTurnover ++ [EntityRow.days, EntityRow.txcount])
  .ok ([number db.entities.length, number (db.entities.countP (EntityRow.stoppedBefore tb)),
      number (db.entities.countP (EntityRow.activeSince ta))] ++ values)

theorem measures_entityTxcount : MeasuresEntity d "incnt + outcnt".toList EntityRow.txcount :=
  ⟨_, spells_txcount, scalar_entityTxcount⟩

theorem fetchLine_entity (hb : TimeText before tb) (ha : TimeText after ta) :
    fetchLine diffOf db (entityTexts before after) = entityLine db tb ta := by
  have hall : fetchValue diffOf db (countText "entityinfo".toList ";".toList)
      = .ok [number (db.entities.countP fun _ => true)] :=
    fetchValue_countText rfl (fun _ => rfl) (limits_none named_entityinfo)
  have hstopped : fetchValue diffOf db
      (countText "entityinfo".toList (timeText "lasttm".toList "<".toList before))
      = .ok [number (db.entities.countP (EntityRow.stoppedBefore tb))] :=
    fetchValue_countText rfl (holds_stoppedEntity hb)
      (limits_before named_entityinfo rfl hb.ne_quote)
  have hactive : fetchValue diffOf db
      (countText "entityinfo".toList (timeText "lasttm".toList ">".toList after))
      = .ok [number (db.entities.countP (EntityRow.activeSince ta))] :=
    fetchValue_countText rfl (holds_activeEntity ha) (limits_after named_entityinfo rfl ha.ne_quote)
  have hfigures : fetchLine diffOf db (["addcnt".toList, "outval".toList, "inval".toList,
      "bal".toList, "maxbal".toList, lifetimeText', "incnt + outcnt".toList].flatMap
        (functionTexts "entityinfo".toList ";".toList))
      = figures (db.entities.filter fun _ => true)
          (entityTurnover ++ [EntityRow.days, EntityRow.txcount]) :=
    fetchLine_figures rfl (fun _ => rfl) (limits_none named_entityinfo)
      (measures_entityTurnover
        (.cons ⟨_, spells_lifetime', scalar_entityDays⟩ (.cons measures_entityTxcount .nil)))
  rw [List.countP_true] at hall
  rw [List.filter_true] at hfigures
  rw [entityTexts, fetchLine_append, hfigures, fetchLine_cons hall, fetchLine_cons hstopped,
    fetchLine_cons hactive, entityLine]
  simp only [bind_assoc, ok_bind]
  rfl

theorem fetchLine_newEntity (ha : TimeText after ta) :
    fetchLine diffOf db (newEntityTexts after)
      = scopeValues db.entities (EntityRow.newSince ta) (entityTurnover ++ [EntityRow.txcount]) :=
  fetchLine_scope rfl (holds_newEntity ha) (limits_after named_entityinfo rfl ha.ne_quote)
    (measures_entityTurnover (.cons measures_entityTxcount .nil))

theorem fetchLine_unstopEntity (hb : TimeText before tb) :
    fetchLine diffOf db (unstopEntityTexts before)
      = scopeValues db.entities (EntityRow.activeSince tb)
          (entityTurnover ++ [EntityRow.days, EntityRow.txcount]) :=
  fetchLine_scope rfl (holds_activeEntity hb) (limits_after named_entityinfo rfl hb.ne_quote)
    (measures_entityTurnover
      (.cons ⟨_, spells_lifetime, scalar_entityDays⟩ (.cons measures_entityTxcount .nil)))

/-- A count of all rows in front of what is said about a scope. -/
def totalAndScope {ρ : Type} (rows : List ρ) (p : ρ → Bool) (gs : List (ρ → Option ℚ)) :
    Except Fault (List Value) := do
  let values ← scopeValues rows p gs
  .ok (number rows.length :: values)

theorem fetchLine_transaction (ha : TimeText after ta) :
    fetchLine diffOf db (transactionTexts after)
      = totalAndScope db.txinfo (TxRow.since ta) txFigures := by
  have hall : fetchValue diffOf db (countText "txinfo".toList ";".toList)
      = .ok [number ((db.txinfo.map id).countP fun _ => true)] :=
    fetchValue_countText rfl (fun _ => rfl) (limits_none named_txinfo)
  have hscope : fetchLine diffOf db
      (countText "txinfo".toList (timeText "txtime".toList ">".toList after) ::
        ["outvalue".toList, "txsize".toList, "txfee".toList, "incnt".toList,
          "outcnt".toList].flatMap
          (functionTexts "txinfo".toList (timeText "txtime".toList ">".toList after)))
      = scopeValues (db.txinfo.map id) (TxRow.since ta) txFigures :=
    fetchLine_scope rfl (holds_tx ha) (limits_after named_txinfo rfl ha.ne_quote) measures_tx
  rw [List.map_id, List.countP_true] at hall
  rw [List.map_id] at hscope
  rw [transactionTexts, List.cons_append, List.singleton_append, fetchLine_cons hall, hscope]
  rfl

theorem fetchLine_block (ha : TimeText after ta) :
    fetchLine diffOf db (blockTexts after)
      = totalAndScope db.blkinfo (BlkRow.since ta) (blkFigures diffOf) := by
  have hall : fetchValue diffOf db (countText "blkinfo".toList ";".toList)
      = .ok [number ((db.blkinfo.map id).countP fun _ => true)] :=
    fetchValue_countText rfl (fun _ => rfl) (limits_none named_blkinfo)
  have hscope : fetchLine diffOf db
      (countText "blkinfo".toList (timeText "blktime".toList ">".toList after) ::
        ["txcnt".toList, "diff".toList, "blksize".toList, "reward".toList].flatMap
          (functionTexts "blkinfo".toList (timeText "blktime".toList ">".toList after)))
      = scopeValues (db.blkinfo.map id) (BlkRow.since ta) (blkFigures diffOf) :=
    fetchLine_scope rfl (holds_blk ha) (limits_after named_blkinfo rfl ha.ne_quote) measures_blk
  rw [List.map_id, List.countP_true] at hall
  rw [List.map_id] at hscope
  rw [blockTexts, List.cons_append, List.singleton_append, fetchLine_cons hall, hscope]
  rfl

end Sections

end BitcoinAnalysis
