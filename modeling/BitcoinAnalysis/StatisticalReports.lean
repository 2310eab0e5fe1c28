/-
What a report leaves in the files.

* `statistical_eq` — the lines of a report are the counts and the statistics
  of the rows they are about.  Of the two files of the loops at the end, only the
  second is written: the stream is still open when the first is to be opened;
* `statistical_returns_iff` — a report is finished exactly if every section
  has a row to speak of;
* `fullMonths_returns_iff` — the program gets through its months exactly if the
  blocks can be read and every month has its report;
* `fullMonths_reports`, `fullMonths_files` — what the months leave in the files.
-/
import BitcoinAnalysis.StatisticalDistributions
import BitcoinAnalysis.Duplicates

open SqlSyntax SqlSemantics Run

namespace BitcoinAnalysis

variable {diffOf : UInt32 → ℕ} {db : Db} {before after timerange timefile timeC : List Char}
  {tb ta : ℤ} {files : Files}

/-! ### Files -/

def appendTo (files : Files) (name : List Char) (lines : List Line) : Files :=
  Function.update files name (files name ++ lines)

theorem appendTo_append (name : List Char) (as bs : List Line) :
    appendTo (appendTo files name as) name bs = appendTo files name (as ++ bs) := by
  simp [appendTo]

/-- A stream that has a file open and has not failed. -/
def writing (name : List Char) (files : Files) : Record := ⟨some name, false, files⟩

theorem print_writing (name : List Char) (line : Line) :
    (writing name files).print line = writing name (appendTo files name [line]) := rfl

theorem foldl_print_writing (name : List Char) (lines : List Line) :
    lines.foldl (fun r line => r.print line) (writing name files)
      = writing name (appendTo files name lines) := by
  induction lines generalizing files with
  | nil => simp [appendTo]
  | cons line lines ih => rw [List.foldl_cons, print_writing, ih, appendTo_append,
      List.singleton_append]

/-- The lines of some parts, the values of each behind its heading. -/
def linesOf (headings : List (List Line)) (values : List (Except Fault (List Value))) :
    Except Fault (List Line) := do
  let lines ← (headings.zip values).mapM fun part => do
    let vs ← part.2
    .ok (part.1 ++ [.values vs])
  .ok lines.flatten

theorem linesOf_cons (heading : List Line) (headings : List (List Line))
    (v : Except Fault (List Value)) (values : List (Except Fault (List Value))) :
    linesOf (heading :: headings) (v :: values) = (do
      let vs ← v
      let lines ← linesOf headings values
      .ok (heading ++ [.values vs] ++ lines)) := by
  simp only [linesOf, List.zip_cons_cons, List.mapM_cons, bind_assoc, ok_bind]
  refine bind_congr fun vs => ?_
  refine bind_congr fun lines => ?_
  simp

/-- **The parts of a report**, one after the other. -/
theorem run_part (name : List Char) {parts : List (List Line × List (List Char))}
    {values : List (Except Fault (List Value))}
    (h : List.Forall₂ (fun part v => fetchLine diffOf db part.2 = v) parts values) :
    run (Record.part diffOf db) (writing name files) parts = (do
      let lines ← linesOf (parts.map Prod.fst) values
      .ok (writing name (appendTo files name lines))) := by
  induction h generalizing files with
  | nil => simp [linesOf, appendTo]
  | @cons part v parts values hv _ ih =>
    have hpart : Record.part diffOf db (writing name files) part = (do
        let vs ← v
        .ok (writing name (appendTo files name (part.1 ++ [.values vs])))) := by
      rw [Record.part, foldl_print_writing, Record.queries, hv]
      simp only [print_writing, appendTo_append]
    rw [run_cons, hpart, List.map_cons, linesOf_cons]
    simp only [bind_assoc, ok_bind, ih, appendTo_append]

theorem loops_writing (name : List Char) {texts : List (List Char)} {vs : List Value}
    (h : fetchLine diffOf db texts = .ok vs) :
    (writing name files).loops diffOf db texts
      = .ok (writing name (appendTo files name (List.replicate 71 (.values vs)))) := by
  have hrun : ∀ (ns : List ℕ) (files : Files),
      run (fun r (_ : ℕ) => r.queries diffOf db texts) (writing name files) ns
        = .ok (writing name (appendTo files name (List.replicate ns.length (.values vs)))) := by
    intro ns
    induction ns with
    | nil =>
      intro files
      simp [appendTo]
    | cons n ns ih =>
      intro files
      have hstep : (writing name files).queries diffOf db texts
          = .ok (writing name (appendTo files name [.values vs])) := by
        simp [Record.queries, h, print_writing]
      rw [run_cons, hstep, ok_bind, ih, appendTo_append, List.length_cons, List.replicate_succ,
        List.singleton_append]
  rw [Record.loops, hrun, List.length_range]

/-- What is printed to a stream that has failed is lost. -/
theorem loops_failed {r : Record} {texts : List (List Char)} {vs : List Value}
    (hfail : r.fail = true) (h : fetchLine diffOf db texts = .ok vs) :
    r.loops diffOf db texts = .ok r := by
  have hstep : r.queries diffOf db texts = .ok r := by
    rw [Record.queries, h, ok_bind, Record.print]
    cases r.file <;> simp [hfail]
  have hrun : ∀ ns : List ℕ, run (fun r (_ : ℕ) => r.queries diffOf db texts) r ns = .ok r := by
    intro ns
    induction ns with
    | nil => rfl
    | cons n ns ih => rw [run_cons, hstep, ok_bind, ih]
  exact hrun _

/-! ### The report -/

/-- What the parts of a report say. -/
def reportValues (diffOf : UInt32 → ℕ) (db : Db) (tb ta : ℤ) (after : List Char) :
    List (Except Fault (List Value)) :=
  [addressLine db tb ta,
   scopeValues db.addresses (AddressRow.newSince ta) (addressTurnover ++ [AddressRow.txcount]),
   scopeValues db.addresses (AddressRow.activeSince tb)
     (addressTurnover ++ [AddressRow.days, AddressRow.txcount]),
   entityLine db tb ta,
   scopeValues db.entities (EntityRow.newSince ta) (entityTurnover ++ [EntityRow.txcount]),
   scopeValues db.entities (EntityRow.activeSince tb)
     (entityTurnover ++ [EntityRow.days, EntityRow.txcount]),
   totalAndScope db.txinfo (TxRow.since ta) txFigures,
   totalAndScope db.blkinfo (BlkRow.since ta) (blkFigures diffOf),
   .ok ((numOfAddOfEntity.counts db).map number),
   .ok ((outvalOfAdd.counts db).map number),
   .ok ((outvalOfEntity.counts db).map number),
   .ok ((balOfAdd.counts db).map number),
   .ok ((balOfEntity.counts db).map number),
   .ok ((maxbalOfAdd.counts db).map number),
   .ok ((maxbalOfEntity.counts db).map number),
   .ok ((txcntOfAdd.counts db).map number),
   .ok ((txcntOfEntity.counts db).map number),
   .ok (((outvalOfTx after).counts db).map number),
   .ok ((maxbalOfAdd.counts db).map number)]

theorem fetchLine_parts (hb : TimeText before tb) (ha : TimeText after ta) :
    List.Forall₂ (fun part v => fetchLine diffOf db part.2 = v) (reportParts before after)
      (reportValues diffOf db tb ta after) :=
  .cons (fetchLine_address hb ha) <| .cons (fetchLine_newAdd ha) <|
  .cons (fetchLine_unstopAdd hb) <| .cons (fetchLine_entity hb ha) <|
  .cons (fetchLine_newEntity ha) <| .cons (fetchLine_unstopEntity hb) <|
  .cons (fetchLine_transaction ha) <| .cons (fetchLine_block ha) <|
  .cons fetchLine_numOfAddOfEntity <| .cons fetchLine_outvalOfAdd <|
  .cons fetchLine_outvalOfEntity <| .cons fetchLine_balOfAdd <| .cons fetchLine_balOfEntity <|
  .cons fetchLine_maxbalOfAdd <| .cons fetchLine_maxbalOfEntity <| .cons fetchLine_txcntOfAdd <|
  .cons fetchLine_txcntOfEntity <| .cons (fetchLine_outvalOfTx ha) <|
  .cons fetchLine_maxbalOfAdd .nil

/-- The first two lines of a report. -/
def openingLines (timeC timerange : List Char) : List Line :=
  [.text ("-------------".toList ++ timeC ++ "-------------".toList),
   .text ("***统计时间段：".toList ++ timerange ++ "***".toList)]

/-- The loops at the end: the second `open` fails, the third succeeds. -/
theorem loops_end (name : List Char) (hb : TimeText before tb) (ha : TimeText after ta) :
    (do
      let r ← Record.loops diffOf db (((txAmountTexts after before).drop 22).take 14)
        ((writing name files).openFile txAmountFile)
      let r ← Record.loops diffOf db (txSizeTexts after before) (r.closeFile.openFile txSizeFile)
      .ok r.closeFile.files)
      = .ok (appendTo files txSizeFile
          (List.replicate 71 (.values (((sizeOfTx after before).counts db).map number)))) := by
  rw [loops_failed rfl (fetchLine_largeAmounts ha hb), ok_bind]
  exact bind_eq_ok.mpr ⟨_, loops_writing txSizeFile (fetchLine_sizeOfTx ha hb), rfl⟩

/-- **The files of a report.**  The report is appended to the file of its month and
the sizes, 71 times over, to theirs; the file for the amounts stays as it was. -/
theorem statistical_eq (hrange : readRange timefile = some (timerange, before, after))
    (hb : TimeText before tb) (ha : TimeText after ta) :
    statistical diffOf db timeC timefile files = (do
      let lines ← linesOf ((reportParts before after).map Prod.fst)
        (reportValues diffOf db tb ta after)
      .ok (appendTo
        (appendTo files (reportFile timerange) (openingLines timeC timerange ++ lines)) txSizeFile
        (List.replicate 71 (.values (((sizeOfTx after before).counts db).map number))))) := by
  have hopen : Record.openFile (reportFile timerange) ⟨none, false, files⟩
      = writing (reportFile timerange) files := rfl
  have hopening : ((writing (reportFile timerange) files).print
      (.text ("-------------".toList ++ timeC ++ "-------------".toList))).print
      (.text ("***统计时间段：".toList ++ timerange ++ "***".toList))
      = writing (reportFile timerange)
          (appendTo files (reportFile timerange) (openingLines timeC timerange)) := by
    rw [print_writing, print_writing, appendTo_append]
    rfl
  have hparts : run (Record.part diffOf db) (writing (reportFile timerange)
      (appendTo files (reportFile timerange) (openingLines timeC timerange)))
      (reportParts before after) = _ := run_part (reportFile timerange) (fetchLine_parts hb ha)
  simp only [statistical, hrange, hopen, hopening, hparts, bind_assoc, ok_bind,
    loops_end _ hb ha, appendTo_append]

/-! ### Reports that are finished -/

theorem returns_statistics {qs : List ℚ} : Returns (statistics qs) ↔ qs ≠ [] := by
  by_cases hqs : qs = []
  · simp [statistics, hqs, Returns]
  · simp [statistics, hqs, Returns]

theorem returns_figures {ρ : Type} {rows : List ρ} {gs : List (ρ → Option ℚ)} :
    Returns (figures rows gs) ↔ ∀ g ∈ gs, ∃ row ∈ rows, (g row).isSome := by
  rw [figures, returns_bind_iff fun _ => ⟨_, rfl⟩, returns_mapM_iff]
  refine forall₂_congr fun g _ => ?_
  rw [returns_statistics, ne_eq, List.filterMap_eq_nil_iff]
  simp [Option.ne_none_iff_isSome]

theorem returns_scopeValues {ρ : Type} {rows : List ρ} {p : ρ → Bool}
    {gs : List (ρ → Option ℚ)} :
    Returns (scopeValues rows p gs) ↔ ∀ g ∈ gs, ∃ row ∈ rows, p row ∧ (g row).isSome := by
  rw [scopeValues, returns_bind_iff fun _ => ⟨_, rfl⟩, returns_figures]
  simp [List.mem_filter, and_assoc]

theorem returns_linesOf {headings : List (List Line)} {values : List (Except Fault (List Value))}
    (h : headings.length = values.length) :
    Returns (linesOf headings values) ↔ ∀ v ∈ values, Returns v := by
  rw [linesOf, returns_bind_iff fun _ => ⟨_, rfl⟩, returns_mapM_iff]
  constructor
  · intro hall v hv
    have hmem : v ∈ (headings.zip values).map Prod.snd := by
      rwa [List.map_snd_zip h.ge]
    obtain ⟨part, hpart, rfl⟩ := List.mem_map.mp hmem
    exact (returns_bind_iff fun _ => ⟨_, rfl⟩).mp (hall part hpart)
  · intro hall part hpart
    exact (returns_bind_iff fun _ => ⟨_, rfl⟩).mpr (hall _ (List.of_mem_zip hpart).2)

/-- Every section has a row to speak of: since `after` there is a new address, an
entity whose columns are set, a transaction and a block, and since `before` an
address and an entity have not stopped. -/
structure Reportable (db : Db) (tb ta : ℤ) : Prop where
  newAddress : ∃ row ∈ db.addresses, row.newSince ta
  unstopAddress : ∃ row ∈ db.addresses, row.activeSince tb
  newEntity : ∀ g ∈ entityTurnover ++ [EntityRow.txcount],
    ∃ row ∈ db.entities, row.newSince ta ∧ (g row).isSome
  unstopEntity : ∀ g ∈ entityTurnover ++ [EntityRow.days, EntityRow.txcount],
    ∃ row ∈ db.entities, row.activeSince tb ∧ (g row).isSome
  transaction : ∃ row ∈ db.txinfo, row.since ta
  block : ∃ row ∈ db.blkinfo, row.since ta

section Sections

variable {ρ : Type} {rows : List ρ} {p : ρ → Bool} {gs : List (ρ → Option ℚ)}

/-- Columns that no row leaves `NULL`: all they need is a row. -/
theorem figures_of_set (hgs : gs ≠ []) (hset : ∀ g ∈ gs, ∀ row, (g row).isSome) :
    (∀ g ∈ gs, ∃ row ∈ rows, p row ∧ (g row).isSome) ↔ ∃ row ∈ rows, p row := by
  constructor
  · intro h
    obtain ⟨g, hg⟩ := List.exists_mem_of_ne_nil gs hgs
    obtain ⟨row, hrow, hp, -⟩ := h g hg
    exact ⟨row, hrow, hp⟩
  · rintro ⟨row, hrow, hp⟩ g hg
    exact ⟨row, hrow, hp, hset g hg row⟩

theorem returns_totalAndScope (hgs : gs ≠ []) (hset : ∀ g ∈ gs, ∀ row, (g row).isSome) :
    Returns (totalAndScope rows p gs) ↔ ∃ row ∈ rows, p row := by
  rw [totalAndScope, returns_bind_iff fun _ => ⟨_, rfl⟩, returns_scopeValues,
    figures_of_set hgs hset]

end Sections

theorem isSome_addressColumns :
    ∀ g ∈ addressTurnover ++ [AddressRow.days, AddressRow.txcount], ∀ row, (g row).isSome := by
  simp [addressTurnover, AddressRow.days, AddressRow.txcount]

theorem isSome_newAddressColumns :
    ∀ g ∈ addressTurnover ++ [AddressRow.txcount], ∀ row, (g row).isSome := by
  simp [addressTurnover, AddressRow.txcount]

/-- The totals of section 1 ask for less than the section on active addresses. -/
theorem returns_addressLine (h : ∃ row ∈ db.addresses, row.activeSince tb) :
    Returns (addressLine db tb ta) := by
  obtain ⟨row, hrow, -⟩ := h
  rw [addressLine, returns_bind_iff fun _ => ⟨_, rfl⟩, returns_figures]
  exact fun g hg => ⟨row, hrow, isSome_addressColumns g hg row⟩

theorem returns_entityLine
    (h : ∀ g ∈ entityTurnover ++ [EntityRow.days, EntityRow.txcount],
      ∃ row ∈ db.entities, row.activeSince tb ∧ (g row).isSome) :
    Returns (entityLine db tb ta) := by
  rw [entityLine, returns_bind_iff fun _ => ⟨_, rfl⟩, returns_figures]
  intro g hg
  obtain ⟨row, hrow, -, hset⟩ := h g hg
  exact ⟨row, hrow, hset⟩

theorem returns_transactions :
    Returns (totalAndScope db.txinfo (TxRow.since ta) txFigures)
      ↔ ∃ row ∈ db.txinfo, row.since ta :=
  returns_totalAndScope (by simp [txFigures]) (by simp [txFigures])

theorem returns_blocks :
    Returns (totalAndScope db.blkinfo (BlkRow.since ta) (blkFigures diffOf))
      ↔ ∃ row ∈ db.blkinfo, row.since ta :=
  returns_totalAndScope (by simp [blkFigures]) (by simp [blkFigures])

instance (db : Db) (tb ta : ℤ) : Decidable (Reportable db tb ta) :=
  decidable_of_iff
    ((∃ row ∈ db.addresses, row.newSince ta) ∧ (∃ row ∈ db.addresses, row.activeSince tb) ∧
      (∀ g ∈ entityTurnover ++ [EntityRow.txcount],
        ∃ row ∈ db.entities, row.newSince ta ∧ (g row).isSome) ∧
      (∀ g ∈ entityTurnover ++ [EntityRow.days, EntityRow.txcount],
        ∃ row ∈ db.entities, row.activeSince tb ∧ (g row).isSome) ∧
      (∃ row ∈ db.txinfo, row.since ta) ∧ ∃ row ∈ db.blkinfo, row.since ta)
    ⟨fun ⟨h₁, h₂, h₃, h₄, h₅, h₆⟩ => ⟨h₁, h₂, h₃, h₄, h₅, h₆⟩,
      fun h => ⟨h.newAddress, h.unstopAddress, h.newEntity, h.unstopEntity, h.transaction, h.block⟩⟩

theorem returns_reportValues :
    (∀ v ∈ reportValues diffOf db tb ta after, Returns v) ↔ Reportable db tb ta := by
  have hnew : (∀ g ∈ addressTurnover ++ [AddressRow.txcount],
      ∃ row ∈ db.addresses, row.newSince ta ∧ (g row).isSome)
      ↔ ∃ row ∈ db.addresses, row.newSince ta :=
    figures_of_set (by simp) isSome_newAddressColumns
  have hunstop : (∀ g ∈ addressTurnover ++ [AddressRow.days, AddressRow.txcount],
      ∃ row ∈ db.addresses, row.activeSince tb ∧ (g row).isSome)
      ↔ ∃ row ∈ db.addresses, row.activeSince tb :=
    figures_of_set (by simp) isSome_addressColumns
  simp only [reportValues, List.forall_mem_cons, returns_scopeValues, returns_transactions,
    returns_blocks, hnew, hunstop]
  constructor
  · rintro ⟨-, hnewAdd, hunstopAdd, -, hnewEntity, hunstopEntity, htx, hblk, -⟩
    exact ⟨hnewAdd, hunstopAdd, hnewEntity, hunstopEntity, htx, hblk⟩
  · intro h
    refine ⟨returns_addressLine h.unstopAddress, h.newAddress, h.unstopAddress,
      returns_entityLine h.unstopEntity, h.newEntity, h.unstopEntity, h.transaction, h.block, ?_⟩
    simp [Returns]

/-- **A report is finished** exactly if every section has a row to speak of. -/
theorem statistical_returns_iff
    (hrange : readRange timefile = some (timerange, before, after)) (hb : TimeText before tb)
    (ha : TimeText after ta) :
    Returns (statistical diffOf db timeC timefile files) ↔ Reportable db tb ta := by
  rw [statistical_eq hrange hb ha, returns_bind_iff fun _ => ⟨_, rfl⟩,
    returns_linesOf rfl, returns_reportValues]

/-! ### The months -/

section Months

variable {clock : ℕ → List Char} {env : Env} {i : ℕ}

/-- The first second of the last day of the month three months earlier. -/
def beforeTime (i : ℕ) : ℤ :=
  (Calendar.DateTime.mk (2008 + (i + 9) / 12) ((i + 9) % 12 + 1)
    (Calendar.daysIn (2008 + (i + 9) / 12) ((i + 9) % 12 + 1)) 0 0 0).unix

theorem timeText_before (hi : i < 72) : TimeText (beforeText i) (beforeTime i) :=
  have hchars : ∀ i < 72, (beforeText i).all (fun c => c.isDigit || c == '-') = true := by
    decide +kernel
  have hunix : ∀ i < 72, unixTimestamp (beforeText i) = some (beforeTime i) := by decide +kernel
  ⟨by simpa using hchars i hi, hunix i hi⟩

theorem timeText_after (hi : i < 72) : TimeText (afterText i) (monthStart i) :=
  have hchars : ∀ i < 72, (afterText i).all (fun c => c.isDigit || c == '-') = true := by
    decide +kernel
  have hunix : ∀ i < 72, unixTimestamp (afterText i) = some (monthStart i) := by decide +kernel
  ⟨by simpa using hchars i hi, hunix i hi⟩

/-- The time `before` of a report is earlier than its time `after`. -/
theorem beforeTime_le : ∀ i < 72, beforeTime i ≤ monthStart i := by decide +kernel

/-- So the loops at the end count nothing. -/
theorem sizes_month (hi : i < 72) :
    ((sizeOfTx (afterText i) (beforeText i)).counts db).map number
      = List.replicate 33 (number 0) := by
  rw [counts_eq_replicate fun row _ =>
      txTime_eq_false (timeText_after hi) (timeText_before hi) (beforeTime_le i hi) row,
    List.map_replicate]
  rfl

/-- The report of a month. -/
def monthReport (diffOf : UInt32 → ℕ) (db : Db) (timeC : List Char) (i : ℕ) :
    Except Fault (List Line) := do
  let lines ← linesOf ((reportParts (beforeText i) (afterText i)).map Prod.fst)
    (reportValues diffOf db (beforeTime i) (monthStart i) (afterText i))
  .ok (openingLines timeC (rangeText i) ++ lines)

theorem statistical_month (hi : i < 72) :
    statistical diffOf db timeC (parameterTexts i).2 files = (do
      let report ← monthReport diffOf db timeC i
      .ok (appendTo (appendTo files (reportFile (rangeText i)) report) txSizeFile
        (List.replicate 71 (.values (List.replicate 33 (number 0)))))) := by
  rw [statistical_eq (readRange_month i hi) (timeText_before hi) (timeText_after hi),
    sizes_month hi]
  simp only [monthReport, bind_assoc, ok_bind]

/-- Every month of a run has its report. -/
def EachReportable (env : Env) (first count : ℕ) (s : Console Unit) : Prop :=
  ∀ k < count, ∀ t, months noReport env first (k + 1) s = .ok t →
    Reportable t.world.conn.db (beforeTime (first + k)) (monthStart (first + k))

theorem EachReportable.of_succ {a n : ℕ} {t : Console Unit} (h : EachReportable env a (n + 1) t) :
    EachReportable env a n t :=
  fun k hk => h k (hk.trans n.lt_succ_self)

variable {a n : ℕ} {s s' : Console Files}

theorem printReport_returns_iff (hi : i < 72) :
    Returns (printReport diffOf clock i db (parameterTexts i).2 files)
      ↔ Reportable db (beforeTime i) (monthStart i) :=
  statistical_returns_iff (readRange_month i hi) (timeText_before hi) (timeText_after hi)

theorem eachReportable_of_fullMonths (h : fullMonths diffOf clock env a n s = .ok s') :
    EachReportable env a n s.stores := by
  intro k hk t ht
  obtain ⟨u, hu⟩ := months_of_le h (Nat.succ_le_of_lt hk)
  obtain rfl : u.stores = t := Except.ok.inj ((months_stores hu).symm.trans ht)
  obtain ⟨v, -, hmonth⟩ := months_succ.mp hu
  obtain ⟨hi, o, printed, -, hprinted, rfl⟩ := month_eq_ok.mp hmonth
  exact (printReport_returns_iff hi).mp ⟨printed, hprinted⟩

theorem fullMonths_of_stores {t : Console Unit} (h : months noReport env a n s.stores = .ok t)
    (heach : EachReportable env a n s.stores) :
    ∃ s', fullMonths diffOf clock env a n s = .ok s' ∧ s'.stores = t := by
  induction n generalizing t with
  | zero =>
    cases h
    exact ⟨s, rfl, rfl⟩
  | succ n ih =>
    have hreport := heach n n.lt_succ_self t h
    obtain ⟨u, hu, hmonth⟩ := months_succ.mp h
    obtain ⟨v, hv, rfl⟩ := ih hu heach.of_succ
    obtain ⟨hi, o, printed, ho, -, rfl⟩ := month_eq_ok.mp hmonth
    obtain ⟨files, hfiles⟩ := (printReport_returns_iff hi).mpr hreport
    exact ⟨⟨o.world, o.checkpoint, files⟩,
      months_succ.mpr ⟨v, hv, month_eq_ok.mpr ⟨hi, o, files, ho, hfiles, rfl⟩⟩, rfl⟩

/-- **The program gets through its months** exactly if the blocks can be read and
every month leaves a database that has its report. -/
theorem fullMonths_returns_iff :
    Returns (fullMonths diffOf clock env a n s)
      ↔ Returns (months noReport env a n s.stores) ∧ EachReportable env a n s.stores := by
  constructor
  · rintro ⟨s', hs'⟩
    exact ⟨⟨s'.stores, months_stores hs'⟩, eachReportable_of_fullMonths hs'⟩
  · rintro ⟨⟨t, ht⟩, heach⟩
    obtain ⟨s', hs', -⟩ := fullMonths_of_stores ht heach
    exact ⟨s', hs'⟩

/-- The months can be read, and each of them has its report. -/
def allReportable (env : Env) (first count : ℕ) (s : Console Unit) : Bool :=
  (List.range count).all fun k => (months noReport env first (k + 1) s).toOption.any fun t =>
    Reportable t.world.conn.db (beforeTime (first + k)) (monthStart (first + k))

theorem exists_of_allReportable {t : Console Unit} (h : allReportable env a n t) {k : ℕ}
    (hk : k < n) : ∃ u, months noReport env a (k + 1) t = .ok u ∧
      Reportable u.world.conn.db (beforeTime (a + k)) (monthStart (a + k)) := by
  obtain ⟨u, hu, hreport⟩ := exists_ok_of_any (List.all_eq_true.mp h k (List.mem_range.mpr hk))
  exact ⟨u, hu, of_decide_eq_true hreport⟩

theorem fullMonths_of_allReportable (h : allReportable env a (n + 1) s.stores) :
    Returns (fullMonths diffOf clock env a (n + 1) s) := by
  obtain ⟨t, ht, -⟩ := exists_of_allReportable h n.lt_succ_self
  refine fullMonths_returns_iff.mpr ⟨⟨t, ht⟩, fun k hk u hu => ?_⟩
  obtain ⟨v, hv, hreport⟩ := exists_of_allReportable h hk
  obtain rfl : v = u := Except.ok.inj (hv.symm.trans hu)
  exact hreport

/-- A coinbase transaction that pays an address of twenty equal bytes. -/
def coinbaseTo (payee : UInt8) : RawTx :=
  { rawCoinbase with
    outs := [⟨5000000000, [0x76, 0xa9, 20] ++ List.replicate 20 payee ++ [0x88, 0xac]⟩] }

/-- One block file, with one block for each of some times and the address it pays. -/
def minedAt (blocks : List (ℕ × UInt8)) : Env where
  blkfile i := if i = 0 then
      some (blocks.flatMap fun b => (minedBlock b.1).take 88 ++ blockPayload [coinbaseTo b.2])
    else none
  heap _ _ := 0
  outside _ _ := none
  blockReward _ := none

/-- The program in front of its first month. -/
def beginning : Console Files := ⟨.fresh .null, startText, fun _ => []⟩

/-- September and October 2010, with a block in each, by two miners. -/
def autumn : Env := minedAt [(1283300200, 7), (1285892200, 8)]

theorem allReportable_autumn : allReportable autumn 20 2 beginning.stores := by decide +kernel

/-- The program gets through September and October 2010 if each has a block of a miner
of its own.  A second block of the same miner does not save October: no address is
new. -/
theorem fullMonths_returns_autumn :
    Returns (fullMonths (fun _ => 1) (fun _ => []) autumn 20 2 beginning) ∧
      ¬ Returns (fullMonths (fun _ => 1) (fun _ => [])
        (minedAt [(1283300200, 7), (1285892200, 7)]) 20 2 beginning) := by
  refine ⟨fullMonths_of_allReportable allReportable_autumn, fun h => ?_⟩
  have heach := (fullMonths_returns_iff.mp h).2
  have hnone : (months noReport (minedAt [(1283300200, 7), (1285892200, 7)]) 20 2
      beginning.stores).toOption.any (fun t =>
        ¬ Reportable t.world.conn.db (beforeTime 21) (monthStart 21)) = true := by
    decide +kernel
  obtain ⟨t, ht, hnot⟩ := exists_ok_of_any hnone
  exact (of_decide_eq_true hnot) (heach 1 (by decide) t ht)

/-! ### The files of the months -/

/-- The names of the report files differ from those of the loops. -/
theorem reportFile_ne : ∀ i < 72,
    reportFile (rangeText i) ≠ txAmountFile ∧ reportFile (rangeText i) ≠ txSizeFile := by
  decide +kernel

/-- Every month has a file of its own. -/
theorem reportFile_inj {j : ℕ} (hi : i < 72) (hj : j < 72)
    (h : reportFile (rangeText i) = reportFile (rangeText j)) : i = j := by
  have hnodup : ((List.range 72).map fun k => reportFile (rangeText k)).Nodup := by decide +kernel
  exact List.inj_on_of_nodup_map hnodup (List.mem_range.mpr hi) (List.mem_range.mpr hj) h

theorem printed_month (h : month (printReport diffOf clock) env s i = .ok s') :
    i < 72 ∧ ∃ report, monthReport diffOf s'.world.conn.db (clock i) i = .ok report ∧
      s'.printed = appendTo (appendTo s.printed (reportFile (rangeText i)) report) txSizeFile
        (List.replicate 71 (.values (List.replicate 33 (number 0)))) := by
  obtain ⟨hi, o, files, -, hfiles, rfl⟩ := month_eq_ok.mp h
  rw [printReport, statistical_month hi] at hfiles
  obtain ⟨report, hreport, hfiles⟩ := bind_eq_ok.mp hfiles
  cases hfiles
  exact ⟨hi, report, hreport, rfl⟩

/-- **What whole runs leave in the files of the loops**: nothing in the first, 71
lines of zeros for every month in the second. -/
theorem fullMonths_files (h : fullMonths diffOf clock env a n s = .ok s') :
    s'.printed txAmountFile = s.printed txAmountFile ∧
      s'.printed txSizeFile = s.printed txSizeFile ++
        List.replicate (71 * n) (.values (List.replicate 33 (number 0))) := by
  induction n generalizing s' with
  | zero =>
    cases h
    simp
  | succ n ih =>
    obtain ⟨u, hu, hmonth⟩ := months_succ.mp h
    obtain ⟨hamount, hsize⟩ := ih hu
    obtain ⟨hi, report, -, hprinted⟩ := printed_month hmonth
    obtain ⟨hne, hne'⟩ := reportFile_ne _ hi
    have hloops : txAmountFile ≠ txSizeFile := by decide
    rw [hprinted]
    simp only [appendTo]
    rw [Function.update_of_ne hloops, Function.update_of_ne hne.symm, Function.update_self,
      Function.update_of_ne hne'.symm, hamount, hsize, List.append_assoc,
      List.replicate_append_replicate]
    exact ⟨rfl, rfl⟩

theorem fullMonths_files_autumn :
    ∃ s', fullMonths (fun _ => 1) (fun _ => []) autumn 20 2 beginning = .ok s' ∧
      s'.printed txAmountFile = [] ∧
      s'.printed txSizeFile = List.replicate 142 (.values (List.replicate 33 (number 0))) := by
  obtain ⟨s', hs'⟩ : Returns (fullMonths (fun _ => 1) (fun _ => []) autumn 20 2 beginning) :=
    fullMonths_of_allReportable allReportable_autumn
  obtain ⟨hamount, hsize⟩ := fullMonths_files hs'
  exact ⟨s', hs', hamount, hsize⟩

/-- The file of a month before or after a run is not written by it. -/
theorem printed_other {j : ℕ} (h : fullMonths diffOf clock env a n s = .ok s') (hj : j < 72)
    (hout : ∀ k < n, j ≠ a + k) :
    s'.printed (reportFile (rangeText j)) = s.printed (reportFile (rangeText j)) := by
  induction n generalizing s' with
  | zero =>
    cases h
    rfl
  | succ n ih =>
    obtain ⟨u, hu, hmonth⟩ := months_succ.mp h
    obtain ⟨hi, report, -, hprinted⟩ := printed_month hmonth
    have hsame : reportFile (rangeText j) ≠ reportFile (rangeText (a + n)) := fun heq =>
      hout n n.lt_succ_self (reportFile_inj hj hi heq)
    rw [hprinted, appendTo, Function.update_of_ne (reportFile_ne j hj).2, appendTo,
      Function.update_of_ne hsame]
    exact ih hu fun k hk => hout k (hk.trans n.lt_succ_self)

/-- **Every month's file gets the report of its month**: of the database as it was
when the blocks of the month had been read, once. -/
theorem fullMonths_reports {k : ℕ} (h : fullMonths diffOf clock env a n s = .ok s') (hk : k < n) :
    ∃ u report, fullMonths diffOf clock env a (k + 1) s = .ok u ∧
      monthReport diffOf u.world.conn.db (clock (a + k)) (a + k) = .ok report ∧
      s'.printed (reportFile (rangeText (a + k)))
        = s.printed (reportFile (rangeText (a + k))) ++ report := by
  induction n generalizing s' with
  | zero => exact absurd hk k.not_lt_zero
  | succ n ih =>
    obtain ⟨v, hv, hmonth⟩ := months_succ.mp h
    obtain ⟨hn, report, hreport, hprinted⟩ := printed_month hmonth
    have hne : reportFile (rangeText (a + k)) ≠ txSizeFile := (reportFile_ne _ (by omega)).2
    rcases Nat.lt_succ_iff_lt_or_eq.mp hk with hk | rfl
    · -- a later month leaves the file alone
      obtain ⟨u, report', hu, hreport', hprinted'⟩ := ih hv hk
      have hother : reportFile (rangeText (a + k)) ≠ reportFile (rangeText (a + n)) := fun heq =>
        absurd (reportFile_inj (by omega) hn heq) (by omega)
      refine ⟨u, report', hu, hreport', ?_⟩
      rw [hprinted, appendTo, Function.update_of_ne hne, appendTo, Function.update_of_ne hother,
        hprinted']
    · refine ⟨s', report, h, hreport, ?_⟩
      rw [hprinted, appendTo, Function.update_of_ne hne, appendTo, Function.update_self,
        printed_other hv hn fun j hj => by omega]

/-- The file of September holds one report, also behind October. -/
theorem fullMonths_reports_autumn :
    ∃ s' u report, fullMonths (fun _ => 1) (fun _ => []) autumn 20 2 beginning = .ok s' ∧
      fullMonths (fun _ => 1) (fun _ => []) autumn 20 1 beginning = .ok u ∧
      monthReport (fun _ => 1) u.world.conn.db [] 20 = .ok report ∧
      s'.printed (reportFile "2010-09".toList) = report := by
  obtain ⟨s', hs'⟩ : Returns (fullMonths (fun _ => 1) (fun _ => []) autumn 20 2 beginning) :=
    fullMonths_of_allReportable allReportable_autumn
  obtain ⟨u, report, hu, hreport, hprinted⟩ := fullMonths_reports hs' Nat.two_pos
  exact ⟨s', u, report, hs', hu, hreport, hprinted⟩

end Months

end BitcoinAnalysis
