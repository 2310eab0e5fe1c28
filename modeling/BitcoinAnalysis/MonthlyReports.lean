/-
In how many monthly reports a transaction is counted.

A run reads blocks up to the first one that is later than its month; the report
behind it counts what is later than the first second of its month, without an
upper limit.  A transaction is therefore counted at most once: by the report
behind the run that has inserted it, unless it is too early for that month.  It
is counted at all exactly if it comes after the first second of a month, not
after its last, and no block read before it is later than that month
(`countedOnce_iff`).

The months' runs together read what a single run up to the end of the last month
reads (`Caught`), and where an earlier run stops in it is the first block that is
late for it (`lt_length_applied_iff`).  What a report counts is what its query, read
as a text, selects of the rows of `txinfo` (`selectedRows`).
-/
import BitcoinAnalysis.RowGroups

open SqlSyntax SqlSemantics Run Trace

namespace BitcoinAnalysis

variable {env : Env} {t t' : ℤ} {c : Checkpoint} {evs evs' es : List Event} {num : Int32}
  {p q : Progress}

/-! ### The blocks in front of a transaction -/

/-- The blocks processed before the `k`-th transaction that is processed. -/
def blocksBefore : List Event → ℕ → List Block
  | [], _ => []
  | .block blk :: evs, k => blk :: blocksBefore evs k
  | .tx tx :: evs, k =>
    if tx.Skipped then blocksBefore evs k
    else if k = 0 then []
    else blocksBefore evs (k - 1)

theorem applied_append (evs es : List Event) : applied (evs ++ es) = applied evs ++ applied es := by
  rw [applied, parsed_append, List.filter_append]
  rfl

theorem mem_parsed_of_mem_applied {tx : Transaction} (h : tx ∈ applied evs) : tx ∈ parsed evs :=
  List.mem_of_mem_filter h

theorem blocksBefore_append_of_lt {k : ℕ} (h : k < (applied evs).length) :
    blocksBefore (evs ++ es) k = blocksBefore evs k := by
  induction evs generalizing k with
  | nil => cases h
  | cons e evs ih =>
    cases e with
    | block blk =>
      rw [List.cons_append, blocksBefore, blocksBefore, ih h]
    | tx tx =>
      rw [applied_tx] at h
      rw [List.cons_append, blocksBefore, blocksBefore]
      by_cases hskip : tx.Skipped
      · rw [if_pos hskip] at h
        rw [if_pos hskip, if_pos hskip, ih h]
      · rw [if_neg hskip, List.length_cons] at h
        rw [if_neg hskip, if_neg hskip]
        by_cases hk : k = 0
        · rw [if_pos hk, if_pos hk]
        · rw [if_neg hk, if_neg hk, ih (by omega)]

theorem blocksBefore_append_of_le {k : ℕ} (h : (applied evs).length ≤ k) :
    blocksBefore (evs ++ es) k
      = processedBlocks evs ++ blocksBefore es (k - (applied evs).length) := by
  induction evs generalizing k with
  | nil => rfl
  | cons e evs ih =>
    cases e with
    | block blk =>
      rw [List.cons_append, blocksBefore, ih h]
      rfl
    | tx tx =>
      rw [applied_tx] at h ⊢
      rw [List.cons_append, blocksBefore]
      by_cases hskip : tx.Skipped
      · rw [if_pos hskip] at h
        rw [if_pos hskip, if_pos hskip, ih h]
        rfl
      · rw [if_neg hskip, List.length_cons] at h
        have hsub : k - ((applied evs).length + 1) = k - 1 - (applied evs).length := by omega
        rw [if_neg hskip, if_neg hskip, List.length_cons, if_neg (by omega), ih (by omega), hsub]
        rfl

theorem mem_processedBlocks_of_mem_blocksBefore {k : ℕ} {blk : Block}
    (h : blk ∈ blocksBefore evs k) : blk ∈ processedBlocks evs := by
  induction evs generalizing k with
  | nil => cases h
  | cons e evs ih =>
    cases e with
    | block b =>
      rcases List.mem_cons.mp h with rfl | h
      · exact List.mem_cons_self
      · exact List.mem_cons_of_mem b (ih h)
    | tx tx =>
      rw [blocksBefore] at h
      split_ifs at h
      · exact ih h
      · cases h
      · exact ih h

/-! ### Where runs with different stop times part -/

/-- The time of a block. -/
def Block.time (blk : Block) : ℤ := blk.head.timeStamp.toNat

def Transaction.time (tx : Transaction) : ℤ := tx.txtime.toNat

/-- Nothing that was read is later than a time. -/
structure InTime (t : ℤ) (evs : List Event) : Prop where
  txs : ∀ tx ∈ parsed evs, tx.time ≤ t
  blocks : ∀ blk ∈ processedBlocks evs, blk.time ≤ t

/-- The first block that was read is later than a time. -/
def LateStart (t : ℤ) (evs : List Event) : Prop :=
  ∃ (txs : List Transaction) (blk : Block) (rest : List Event),
    evs = txs.map .tx ++ .block blk :: rest ∧ t < blk.time ∧ ∀ tx ∈ txs, tx.time = blk.time

/-- The transactions of a block have its time. -/
theorem BlockRead.time_eq {txs : List Transaction} {blk : Block} (h : BlockRead p txs blk q)
    {tx : Transaction} (htx : tx ∈ txs) : tx.time = blk.time := by
  obtain ⟨k, hk⟩ := List.mem_iff_getElem?.mp htx
  obtain ⟨-, htime, -, -⟩ := h.numbers k tx hk
  rw [Transaction.time, Block.time, htime, h.head]

theorem Reached.inTime (h : Reached env t c evs num p) : InTime t evs := by
  induction h with
  | first =>
    refine ⟨fun tx htx => ?_, fun blk hblk => ?_⟩
    · cases htx
    · cases hblk
  | round _ hgoes ih =>
    obtain ⟨txs, blk, rfl, hread⟩ := hgoes.exists_block
    have hblk : blk.time ≤ t := by
      rw [Block.time, hread.head]
      exact not_lt.mp hgoes.inTime
    refine ⟨fun tx htx => ?_, fun b hb => ?_⟩
    · rw [parsed_append, parsed_block] at htx
      rcases List.mem_append.mp htx with htx | htx
      · exact ih.txs tx htx
      · rw [hread.time_eq htx]
        exact hblk
    · rw [processedBlocks_append, processedBlocks_block] at hb
      rcases List.mem_append.mp hb with hb | hb
      · exact ih.blocks b hb
      · rw [List.mem_singleton.mp hb]
        exact hblk
  | file _ _ _ ih => exact ih

theorem trace_inTime {r : Int32 × Progress} (h : trace env t c = .ok (evs, r)) : InTime t evs := by
  rcases (trace_ends h).reached with rfl | ⟨num, q, hr⟩
  · refine ⟨fun tx htx => ?_, fun blk hblk => ?_⟩
    · cases htx
    · cases hblk
  · exact hr.inTime

/-- A run that starts in front of a late block reads this block first. -/
theorem Reached.lateStart (h : Reached env t' c evs num p)
    (hopen : (c.start.enter env c c.blkfile.toInt32).Open)
    (hlate : (c.start.enter env c c.blkfile.toInt32).Late t) :
    evs = [] ∧ p = c.start.enter env c c.blkfile.toInt32 ∨ LateStart t evs := by
  induction h with
  | first => exact .inl ⟨rfl, rfl⟩
  | round _ hgoes ih =>
    right
    obtain ⟨txs, blk, rfl, hread⟩ := hgoes.exists_block
    rcases ih with ⟨rfl, rfl⟩ | ⟨us, b, rest, rfl, hb, hus⟩
    · refine ⟨txs, blk, [], rfl, ?_, fun tx htx => hread.time_eq htx⟩
      rw [Block.time, hread.head]
      exact hlate
    · exact ⟨us, b, rest ++ (txs.map .tx ++ [.block blk]), by simp, hb, hus⟩
  | file _ hshut _ ih =>
    rcases ih with ⟨-, rfl⟩ | ih
    · exact absurd hopen hshut
    · exact .inr ih

/-- What the run after a stop reads is nothing or starts with the late block. -/
theorem trace_saved_lateStart {e : UInt32} {r : Int32 × Progress}
    (h : trace env t c = .ok (evs, num, p)) (hstop : p.testflag = true)
    (hnext : trace env t' (saved num p e) = .ok (es, r)) : es = [] ∨ LateStart t es := by
  cases trace_ends h with
  | none => cases hstop
  | out hr => exact absurd (hr.testflag.symm.trans hstop) Bool.false_ne_true
  | late hr hopen hlate =>
    have henter := enter_saved hopen hr.at hr.testflag e
    rcases (trace_ends hnext).reached with rfl | ⟨num', q, hr'⟩
    · exact .inl rfl
    · refine (hr'.lateStart ?_ ?_).imp_left And.left
      · rw [blkfile_saved, henter]
        exact hopen
      · rw [blkfile_saved, henter]
        exact hlate

/-- A run with a later stop time reads the same and then perhaps a late block
and more. -/
theorem trace_split {r r' : Int32 × Progress} (ht : t ≤ t') (h : trace env t c = .ok (evs, r))
    (h' : trace env t' c = .ok (evs', r')) :
    ∃ es, evs' = evs ++ es ∧ (es = [] ∨ LateStart t es) := by
  obtain ⟨num, p⟩ := r
  by_cases hstop : p.testflag = true
  · obtain ⟨es, q, hes, hr⟩ := (trace_resume ht h hstop 0).mp h'
    cases hr
    exact ⟨es, rfl, trace_saved_lateStart h hstop hes⟩
  · rw [trace_later ht h (by simpa using hstop)] at h'
    cases h'
    exact ⟨[], (List.append_nil _).symm, .inl rfl⟩

theorem applied_map_tx (txs : List Transaction) :
    applied (txs.map .tx) = txs.filter fun tx => ¬ tx.Skipped := by
  rw [applied, parsed, List.filterMap_map]
  congr 1
  exact List.filterMap_some

/-- **Which transactions an earlier run has inserted**: those in front of which,
and in whose own block, nothing is late for it. -/
theorem lt_length_applied_iff {k : ℕ} {tx : Transaction} (hin : InTime t evs)
    (hes : es = [] ∨ LateStart t es) (htx : (applied (evs ++ es))[k]? = some tx) :
    k < (applied evs).length ↔ tx.time ≤ t ∧ ∀ blk ∈ blocksBefore (evs ++ es) k, blk.time ≤ t := by
  rw [applied_append] at htx
  constructor
  · intro hk
    rw [List.getElem?_append_left hk] at htx
    refine ⟨hin.txs tx (mem_parsed_of_mem_applied (List.mem_of_getElem? htx)), fun blk hblk => ?_⟩
    rw [blocksBefore_append_of_lt hk] at hblk
    exact hin.blocks blk (mem_processedBlocks_of_mem_blocksBefore hblk)
  · rintro ⟨htime, hbefore⟩
    by_contra hk
    rw [not_lt] at hk
    rw [List.getElem?_append_right hk] at htx
    rw [blocksBefore_append_of_le hk] at hbefore
    rcases hes with rfl | ⟨txs, blk, rest, rfl, hlate, htimes⟩
    · cases htx
    · rw [applied_append] at htx
      by_cases hj : k - (applied evs).length < (applied (txs.map Event.tx)).length
      · -- the transaction is in the late block
        rw [List.getElem?_append_left hj, applied_map_tx] at htx
        have hmem := List.mem_of_mem_filter (List.mem_of_getElem? htx)
        rw [htimes tx hmem] at htime
        omega
      · -- the late block is in front of it
        have hmem : blk ∈ blocksBefore (txs.map Event.tx ++ .block blk :: rest)
            (k - (applied evs).length) := by
          rw [blocksBefore_append_of_le (not_lt.mp hj)]
          exact List.mem_append_right _ List.mem_cons_self
        have := hbefore blk (List.mem_append_right _ hmem)
        omega

/-! ### What is inserted -/

/-- The column `txtime` of `txinfo`. -/
def World.txtimes (w : World) : List UInt32 := w.conn.db.txinfo.map TxRow.txtime

/-- After some months `txinfo` has a row for each transaction a single run would have
processed. -/
theorem Caught.txtimes {ρ : Type} {s : Console ρ} {w : World} (h : Caught env c w evs t s) :
    s.world.txtimes = w.txtimes ++ (applied evs).map Transaction.txtime := by
  obtain ⟨_, -, ⟨v, hv, -, htables⟩, -⟩ := h.next
  obtain ⟨rows, _, hrows, -, hof, -⟩ := rows_run hv
  rw [World.txtimes, htables.txinfo, hrows, List.map_append,
    TxRow.Of.map_eq (g := Transaction.txtime) (fun _ _ => rfl) hof]
  rfl

/-! ### What a report counts -/

section Counted

variable {diffOf : UInt32 → ℕ} {clock : ℕ → List Char} {db : Db} {after : List Char} {ta : ℤ}

/-- `transaction[1] + transaction_time`: the second query of section 7. -/
def thisMonthText (after : List Char) : List Char := (transactionTexts after).getD 1 []

/-- The rows of `txinfo` a query with this text selects, by their positions: rows are
never deleted. -/
def selectedRows (db : Db) (text : List Char) : List ℕ :=
  match parse names text with
  | some (.select ⟨_, .txinfo, condition⟩) =>
    (List.range db.txinfo.length).filter fun k => db.txinfo[k]?.any fun row =>
      (schema db.entityDefault).holds .txinfo row.values condition = some true
  | _ => []

theorem selectedRows_eq (ha : TimeText after ta) :
    selectedRows db (thisMonthText after)
      = (List.range db.txinfo.length).filter fun k => db.txinfo[k]?.any (TxRow.since ta) := by
  have hparse : parse names (thisMonthText after)
      = some (.select ⟨.count, .txinfo, [timeTest .txtime .gt after]⟩) :=
    parse_countText (limits_after named_txinfo rfl ha.ne_quote)
  simp [selectedRows, hparse, holds_tx ha]

theorem mem_selectedRows (ha : TimeText after ta) {k : ℕ} :
    k ∈ selectedRows db (thisMonthText after) ↔
      ∃ x, (db.txinfo.map TxRow.txtime)[k]? = some x ∧ ta < x.toNat := by
  rw [selectedRows_eq ha, List.mem_filter, List.mem_range, List.getElem?_map]
  constructor
  · rintro ⟨hk, hsince⟩
    rw [List.getElem?_eq_getElem hk] at hsince ⊢
    exact ⟨_, rfl, of_decide_eq_true hsince⟩
  · rintro ⟨x, hx, hlt⟩
    obtain ⟨row, hrow, rfl⟩ := Option.map_eq_some_iff.mp hx
    refine ⟨(List.getElem?_eq_some_iff.mp hrow).1, ?_⟩
    rw [hrow]
    exact decide_eq_true hlt

theorem length_filter_range {α : Type} (p : α → Bool) (l : List α) :
    ((List.range l.length).filter fun k => l[k]?.any p).length = l.countP p := by
  induction l using List.reverseRecOn with
  | nil => rfl
  | append_singleton l x ih =>
    have hfront : (List.range l.length).filter (fun k => (l ++ [x])[k]?.any p)
        = (List.range l.length).filter fun k => l[k]?.any p := by
      refine List.filter_congr fun k hk => ?_
      rw [List.getElem?_append_left (List.mem_range.mp hk)]
    rw [List.length_append, List.length_singleton, List.range_succ, List.filter_append, hfront,
      List.length_append, ih, List.countP_append]
    cases hx : p x <;> simp [hx]

/-- The number that is printed is that of the selected rows. -/
theorem fetchValue_thisMonth (ha : TimeText after ta) :
    fetchValue diffOf db (thisMonthText after)
      = .ok [number (selectedRows db (thisMonthText after)).length] := by
  have hcount : fetchValue diffOf db (thisMonthText after)
      = .ok [number ((db.txinfo.map id).countP (TxRow.since ta))] :=
    fetchValue_countText rfl (holds_tx ha) (limits_after named_txinfo rfl ha.ne_quote)
  rw [hcount, selectedRows_eq ha, length_filter_range, List.map_id]

/-! ### Counted once -/

/-- The report of the `m`-th month counts a row: the query it sends to the database
this month leaves selects it. -/
def CountedIn (diffOf : UInt32 → ℕ) (clock : ℕ → List Char) (env : Env) (first : ℕ)
    (s : Console Files) (m k : ℕ) : Prop :=
  ∃ u timerange before after, fullMonths diffOf clock env first (m + 1) s = .ok u ∧
    readRange (parameterTexts (first + m)).2 = some (timerange, before, after) ∧
    k ∈ selectedRows u.world.conn.db (thisMonthText after)

/-- Exactly one of the months' reports counts the row at a position. -/
def CountedOnce (diffOf : UInt32 → ℕ) (clock : ℕ → List Char) (env : Env) (first count : ℕ)
    (s : Console Files) (k : ℕ) : Prop :=
  ∃! m : ℕ, m < count ∧ CountedIn diffOf clock env first s m k

variable {w : World} {a n m k : ℕ} {s s' u : Console Files} {parameter : List Char} {files : Files}
  {r : Int32 × Progress} {tx : Transaction} {row : TxRow}

theorem countedIn_iff (hu : fullMonths diffOf clock env a (m + 1) s = .ok u) :
    CountedIn diffOf clock env a s m k ↔
      ∃ x, u.world.txtimes[k]? = some x ∧ monthStart (a + m) < x.toNat := by
  have hi : a + m < 72 := by
    obtain ⟨v, -, hmonth⟩ := months_succ.mp hu
    exact (month_eq_ok.mp hmonth).1
  rw [World.txtimes, ← mem_selectedRows (timeText_after hi)]
  constructor
  · rintro ⟨u', timerange, before, after, hu', hrange, hk⟩
    obtain rfl : u = u' := Except.ok.inj (hu.symm.trans hu')
    rw [readRange_month _ hi] at hrange
    cases hrange
    exact hk
  · intro hk
    exact ⟨u, _, _, _, hu, readRange_month _ hi, hk⟩

/-- A report counts a transaction exactly if it is later than the first second of
the month, and neither it nor a block before it is later than the last. -/
theorem countedIn_iff_time (hc : readCheckpoint parameter = some c)
    (hu : fullMonths diffOf clock env a (m + 1) ⟨w, parameter, files⟩ = .ok u)
    (ht : monthEnd (a + m) ≤ t) (htrace : trace env t c = .ok (evs, r))
    (htx : (applied evs)[k]? = some tx) :
    CountedIn diffOf clock env a ⟨w, parameter, files⟩ m (w.txtimes.length + k) ↔
      monthStart (a + m) < tx.time ∧ tx.time ≤ monthEnd (a + m) ∧
        ∀ blk ∈ blocksBefore evs k, blk.time ≤ monthEnd (a + m) := by
  obtain ⟨evs', _, hcaught, -, -, hread⟩ := caught_months hc hu
  obtain ⟨r', htrace'⟩ : ∃ r, trace env (monthEnd (a + m)) c = .ok (evs', r) :=
    hread m.succ_ne_zero
  obtain ⟨es, rfl, hes⟩ := trace_split ht htrace' htrace
  rw [countedIn_iff hu, hcaught.txtimes,
    ← lt_length_applied_iff (trace_inTime htrace') hes htx, List.getElem?_append_right (by omega),
    Nat.add_sub_cancel_left, List.getElem?_map]
  rw [applied_append] at htx
  constructor
  · rintro ⟨x, hx, hlt⟩
    obtain ⟨tx', htx', rfl⟩ := Option.map_eq_some_iff.mp hx
    have hk := (List.getElem?_eq_some_iff.mp htx').1
    rw [List.getElem?_append_left hk, htx'] at htx
    cases htx
    exact ⟨hlt, hk⟩
  · rintro ⟨hlt, hk⟩
    rw [List.getElem?_append_left hk] at htx
    exact ⟨tx.txtime, by rw [htx, Option.map_some], hlt⟩

/-- A row the months have inserted is that of a transaction they have read. -/
theorem exists_tx_of_row (hc : readCheckpoint parameter = some c)
    (hmonths : fullMonths diffOf clock env a n ⟨w, parameter, files⟩ = .ok s)
    (htrace : trace env (monthEnd (a + n - 1)) c = .ok (evs, r))
    (hrow : s.world.conn.db.txinfo[w.txtimes.length + k]? = some row) :
    ∃ tx, (applied evs)[k]? = some tx ∧ tx.txtime = row.txtime := by
  obtain ⟨evs', _, hcaught, -, hzero, hread⟩ := caught_months hc hmonths
  have hcol : s.world.txtimes[w.txtimes.length + k]? = some row.txtime := by
    rw [World.txtimes, List.getElem?_map, hrow, Option.map_some]
  rw [hcaught.txtimes, List.getElem?_append_right (Nat.le_add_right _ _), Nat.add_sub_cancel_left,
    List.getElem?_map] at hcol
  obtain ⟨tx, htx, htime⟩ := Option.map_eq_some_iff.mp hcol
  have hn : n ≠ 0 := by
    intro hn
    rw [hzero hn] at htx
    cases htx
  obtain ⟨r', hr'⟩ := hread hn
  rw [htrace] at hr'
  cases hr'
  exact ⟨tx, htx, htime⟩

/-- **In how many reports a transaction is counted.**  After any run of
consecutive months, a row they have inserted is counted by exactly one of their
reports if and only if its time is after the first second of one of the months
and not after its last, and no block read before it is later than this month. -/
theorem countedOnce_iff (hc : readCheckpoint parameter = some c)
    (hmonths : fullMonths diffOf clock env a n ⟨w, parameter, files⟩ = .ok s)
    (htrace : trace env (monthEnd (a + n - 1)) c = .ok (evs, r))
    (hrow : s.world.conn.db.txinfo[k]? = some row) (hk : w.conn.db.txinfo.length ≤ k) :
    CountedOnce diffOf clock env a n ⟨w, parameter, files⟩ k ↔ ∃ i ∈ List.range' a n,
      monthStart i < row.txtime.toNat ∧ (row.txtime.toNat : ℤ) ≤ monthEnd i ∧
        ∀ blk ∈ blocksBefore evs (k - w.conn.db.txinfo.length), blk.time ≤ monthEnd i := by
  have hlen : w.txtimes.length = w.conn.db.txinfo.length := List.length_map _
  obtain ⟨j, rfl⟩ : ∃ j, k = w.txtimes.length + j := ⟨k - w.txtimes.length, by omega⟩
  obtain ⟨tx, htx, htime⟩ := exists_tx_of_row hc hmonths htrace hrow
  rw [← hlen, Nat.add_sub_cancel_left, ← htime]
  -- which of the months count it
  have hcounted : ∀ m < n, (CountedIn diffOf clock env a ⟨w, parameter, files⟩ m
      (w.txtimes.length + j) ↔ monthStart (a + m) < tx.time ∧ tx.time ≤ monthEnd (a + m) ∧
        ∀ blk ∈ blocksBefore evs j, blk.time ≤ monthEnd (a + m)) := by
    intro m hm
    obtain ⟨u, hu⟩ := months_of_le hmonths (Nat.succ_le_of_lt hm)
    exact countedIn_iff_time hc hu (monthEnd_mono (by omega)) htrace htx
  constructor
  · rintro ⟨m, ⟨hm, hmem⟩, -⟩
    exact ⟨a + m, List.mem_range'_1.mpr (by omega), (hcounted m hm).mp hmem⟩
  · rintro ⟨i, hi, hcond⟩
    have hi' := List.mem_range'_1.mp hi
    obtain ⟨m, rfl⟩ : ∃ m, i = a + m := ⟨i - a, by omega⟩
    have hm : m < n := by omega
    refine ⟨m, ⟨hm, (hcounted m hm).mpr hcond⟩, ?_⟩
    -- a second report would put the time into two months
    rintro m' ⟨hm', hmem'⟩
    have hcond' := (hcounted m' hm').mp hmem'
    have := month_unique hcond.1 hcond.2.1 hcond'.1 hcond'.2.1
    omega

theorem txtimes_of_stores {l : List UInt32} (h : fullMonths diffOf clock env a n s = .ok u)
    (hl : (months noReport env a n s.stores).toOption.map (fun t => t.world.txtimes) = some l) :
    u.world.txtimes = l := by
  rw [months_stores h] at hl
  exact Option.some.inj hl

/-- The block of October is counted once, in the second of two months. -/
theorem countedOnce_autumn :
    ∃ s, fullMonths (fun _ => 1) (fun _ => []) autumn 20 2 beginning = .ok s ∧
      s.world.txtimes = [1283300200, 1285892200] ∧
      CountedOnce (fun _ => 1) (fun _ => []) autumn 20 2 beginning 1 := by
  obtain ⟨s, hs⟩ : Returns (fullMonths (fun _ => 1) (fun _ => []) autumn 20 2 beginning) :=
    fullMonths_of_allReportable allReportable_autumn
  have htimes : s.world.txtimes = [1283300200, 1285892200] :=
    txtimes_of_stores hs (by decide +kernel)
  have htrace : ∃ r, trace autumn (monthEnd 21) ⟨0, 0, -1, -1, 0⟩ = .ok r ∧
      (blocksBefore r.1 1).all (fun blk => blk.time ≤ monthEnd 21) = true := by
    decide +kernel
  obtain ⟨⟨evs, r⟩, hr, hbefore⟩ := htrace
  obtain ⟨row, hrow, htime⟩ : ∃ row, s.world.conn.db.txinfo[1]? = some row ∧
      row.txtime = 1285892200 := by
    rw [← Option.map_eq_some_iff, ← List.getElem?_map]
    exact congrArg (·[1]?) htimes
  refine ⟨s, hs, htimes, (countedOnce_iff readCheckpoint_startText hs hr hrow
    (Nat.zero_le 1)).mpr ⟨21, by decide, ?_, ?_, ?_⟩⟩
  · rw [htime]
    decide
  · rw [htime]
    decide
  · intro blk hblk
    exact of_decide_eq_true (List.all_eq_true.mp hbefore blk hblk)

theorem not_countedOnce (h : ∀ m < n, ¬ CountedIn diffOf clock env a s m k) :
    ¬ CountedOnce diffOf clock env a n s k := by
  rintro ⟨m, ⟨hm, hcounted⟩, -⟩
  exact h m hm hcounted

/-- A block of the first second of September 2010, in front of another one. -/
def firstSecond : Env := minedAt [(1283299200, 7), (1283300200, 8)]

/-- A block of September behind one of October. -/
def outOfOrder : Env := minedAt [(1283300200, 7), (1285892200, 8), (1283300300, 9)]

/-- The block of the first second is counted by no report.  Nor is the block of
September that comes behind one of October: September's run stops in front of both,
and October's report does not look back. -/
theorem counted_by_none :
    (∃ s, fullMonths (fun _ => 1) (fun _ => []) firstSecond 20 1 beginning = .ok s ∧
      s.world.txtimes = [1283299200, 1283300200] ∧
      ¬ CountedOnce (fun _ => 1) (fun _ => []) firstSecond 20 1 beginning 0) ∧
    ∃ s, fullMonths (fun _ => 1) (fun _ => []) outOfOrder 20 2 beginning = .ok s ∧
      s.world.txtimes = [1283300200, 1285892200, 1283300300] ∧
      ¬ CountedOnce (fun _ => 1) (fun _ => []) outOfOrder 20 2 beginning 2 := by
  constructor
  · obtain ⟨s, hs⟩ : Returns (fullMonths (fun _ => 1) (fun _ => []) firstSecond 20 1 beginning) :=
      fullMonths_of_allReportable (by decide +kernel)
    have htimes : s.world.txtimes = [1283299200, 1283300200] :=
      txtimes_of_stores hs (by decide +kernel)
    refine ⟨s, hs, htimes, not_countedOnce fun m hm => ?_⟩
    obtain rfl : m = 0 := by omega
    rw [countedIn_iff hs, htimes]
    decide
  · obtain ⟨s, hs⟩ : Returns (fullMonths (fun _ => 1) (fun _ => []) outOfOrder 20 2 beginning) :=
      fullMonths_of_allReportable (by decide +kernel)
    have htimes : s.world.txtimes = [1283300200, 1285892200, 1283300300] :=
      txtimes_of_stores hs (by decide +kernel)
    refine ⟨s, hs, htimes, not_countedOnce fun m hm => ?_⟩
    obtain rfl | rfl : m = 0 ∨ m = 1 := by omega
    · -- September's run has not read it
      obtain ⟨u, hu⟩ := months_of_le hs (Nat.le_succ 1)
      have htimes' : u.world.txtimes = [1283300200] := txtimes_of_stores hu (by decide +kernel)
      rw [countedIn_iff hu, htimes']
      simp
    · rw [countedIn_iff hs, htimes]
      decide

end Counted

end BitcoinAnalysis
