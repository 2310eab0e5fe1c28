/-
Sending the texts has the effect the model gives the statements.

`execText_text`: on the tables of a database, the text of any statement does what
`Db.exec` does.  So the tables behind a connection are what its journal, sent as
texts, makes of the tables it started from (`foldl_execText_journal`), and the
query for an entity number returns what `selectEntity` takes
(`selectEntity_eq_resultOf`).
-/
import BitcoinAnalysis.QueryParsing

open SqlSyntax SqlSemantics

namespace BitcoinAnalysis

variable (diffOf : UInt32 → ℕ) (db : Db)

/-! ### Keys -/

theorem entityColumn_inj {e e' : UInt32} : (entityColumn e).1 = (entityColumn e').1 ↔ e = e' := by
  constructor
  · intro h
    rw [← entityOfColumn_entityColumn e, Subtype.ext h, entityOfColumn_entityColumn]
  · rintro rfl
    rfl

variable {d : EntityRow} {a b : Address} {e e' : UInt32} {row : AddressRow} {er : EntityRow}

theorem holds_address : (schema d).holds .addressinfo (addressValues a row) (keyIs .address b.1)
    = some (decide (a = b)) := by
  simp [Schema.holds, keyIs, Schema.scalar, schema, columnKind, compareValues, addressValues,
    Subtype.ext_iff]

theorem holds_addressEntity :
    (schema d).holds .addressinfo (addressValues a row) (keyIs .entity (entityColumn e).1)
      = some (decide (row.entity = e)) := by
  simp [Schema.holds, keyIs, Schema.scalar, schema, columnKind, compareValues, addressValues,
    entityColumn_inj]

theorem holds_entity :
    (schema d).holds .entityinfo (entityValues e er) (keyIs .entity (entityColumn e').1)
      = some (decide (e = e')) := by
  simp [Schema.holds, keyIs, Schema.scalar, schema, columnKind, compareValues, entityValues,
    entityColumn_inj]

theorem clashes_address (r : AddressRow) :
    (schema d).clashes .addressinfo (addressValues b r) (addressValues a row)
      = decide (a = b) := by
  simp [Schema.clashes, schema, addressValues, Subtype.ext_iff]

theorem clashes_entity (r : EntityRow) :
    (schema d).clashes .entityinfo (entityValues e' r) (entityValues e er)
      = decide (e = e') := by
  simp [Schema.clashes, schema, entityValues, entityColumn_inj]

theorem any_key {κ ν : Type} [DecidableEq κ] (t : KeyedTable κ ν) (k : κ) :
    (t.entries.any fun x => decide (x.1 = k)) = true ↔ k ∈ t.keys := by
  simp [KeyedTable.keys]

/-! ### Tables -/

theorem update_addressinfo (t : KeyedTable Address AddressRow) :
    Function.update (db.tables diffOf) .addressinfo
        (t.entries.map fun e => addressValues e.1 e.2)
      = ({ db with addressinfo := t } : Db).tables diffOf := by
  funext tb
  cases tb <;> rfl

theorem update_entityinfo (t : KeyedTable UInt32 EntityRow) :
    Function.update (db.tables diffOf) .entityinfo
        (t.entries.map fun e => entityValues e.1 e.2)
      = ({ db with entityinfo := t } : Db).tables diffOf := by
  funext tb
  cases tb <;> rfl

/-- An `UPDATE` of `addressinfo` whose condition and assignments are known. -/
theorem exec_updateAddresses {set : List (Column × Expr Table Column)}
    {cond : Condition Column} {p : Address → AddressRow → Bool} {f : AddressRow → AddressRow}
    (hcond : ∀ a row, (schema d).holds .addressinfo (addressValues a row) cond = some (p a row))
    (hset : ∀ a row, p a row → (schema d).assign (db.tables diffOf) .addressinfo
      (addressValues a row) set = some (addressValues a (f row))) :
    (schema d).exec (db.tables diffOf) (.update .addressinfo set cond)
      = ({ db with addressinfo := db.addressinfo.update p f } : Db).tables diffOf := by
  have hrows : db.tables diffOf .addressinfo
      = db.addressinfo.entries.map fun x => addressValues x.1 x.2 := rfl
  rw [exec_update hrows (fun x _ => hcond x.1 x.2) (fun x _ hp => hset x.1 x.2 hp),
    ← update_addressinfo diffOf db (db.addressinfo.update p f), KeyedTable.entries_update,
    List.map_map]
  congr 1
  refine List.map_congr_left fun x _ => ?_
  by_cases hp : p x.1 x.2 = true
  · simp [hp]
  · simp [hp]

/-! ### Assignments -/

theorem store_decimal (n : ℕ) : storeAs .number (.text (decimalText n)) = some (.number n) := by
  have hdigits : (decimalText n).all Char.isDigit = true := by
    simpa using isDigit_decimalText n
  have hvalue : decimal (decimalText n) = n := decimal_toDigits n
  simp [storeAs, decimalText_ne_nil, hdigits, hvalue]

theorem assign_entity :
    (schema d).assign (db.tables diffOf) .addressinfo (addressValues a row)
        [(.entity, .scalar (.bytes (entityColumn e).1))]
      = some (addressValues a (row.relabel e)) := by
  simp only [Schema.assign, Schema.expr, Schema.scalar, schema, columnKind, storeAs,
    Option.bind_eq_bind, Option.bind_some, Option.some.injEq]
  funext c
  cases c <;> rfl

theorem assign_debit (v : UInt64) (u : UInt32) :
    (schema d).assign (db.tables diffOf) .addressinfo (addressValues a row)
        [increment .inval (decimal (decimalText v.toNat)), (.lasttm, quotedTime u),
         (.bal, balance), increment .incnt (decimal ['1'])]
      = some (addressValues a (row.debit v u)) := by
  have hvalue : decimal (decimalText v.toNat) = v.toNat := decimal_toDigits v.toNat
  have hone : decimal ['1'] = 1 := decimal_toDigits 1 |>.trans Nat.cast_one
  simp only [Schema.assign, Schema.expr, Schema.scalar, increment, quotedTime, balance, schema,
    columnKind, readTime_getTimeString, hvalue, hone, Option.map_some, Option.bind_eq_bind,
    Option.bind_some,
    Function.update_self, addressValues, arithmetic, storeAs, Option.some.injEq,
    Function.update_of_ne, ne_eq, reduceCtorEq, not_false_eq_true]
  funext c
  cases c <;> simp [addressValues, AddressRow.debit]

theorem assign_credit (v : UInt64) (u : UInt32) :
    (schema d).assign (db.tables diffOf) .addressinfo (addressValues a row)
        [increment .outval (decimal (decimalText v.toNat)), (.lasttm, quotedTime u),
         (.bal, balance), increment .outcnt (decimal ['1'])]
      = some (addressValues a (row.credit v u)) := by
  have hvalue : decimal (decimalText v.toNat) = v.toNat := decimal_toDigits v.toNat
  have hone : decimal ['1'] = 1 := decimal_toDigits 1 |>.trans Nat.cast_one
  simp only [Schema.assign, Schema.expr, Schema.scalar, increment, quotedTime, balance, schema,
    columnKind, readTime_getTimeString, hvalue, hone, Option.map_some, Option.bind_eq_bind,
    Option.bind_some,
    Function.update_self, addressValues, arithmetic, storeAs, Option.some.injEq,
    Function.update_of_ne, ne_eq, reduceCtorEq, not_false_eq_true]
  funext c
  cases c <;> simp [addressValues, AddressRow.credit]

theorem assign_maxbal (h : row.maxbal < row.bal) :
    (schema d).assign (db.tables diffOf) .addressinfo (addressValues a row)
        [(.maxbal, .scalar (.column .bal))]
      = some (addressValues a row.raiseMaxbal) := by
  simp only [Schema.assign, Schema.expr, Schema.scalar, schema, columnKind, storeAs,
    addressValues, Option.map_some, Option.bind_eq_bind, Option.bind_some, Option.some.injEq]
  funext c
  cases c <;> simp [addressValues, AddressRow.raiseMaxbal, h]

/-- The row an `INSERT` makes for a new address. -/
theorem assign_opening (v : UInt64) (u : UInt32) :
    (schema d).assign (db.tables diffOf) .addressinfo ((schema d).default .addressinfo)
        (([.address, .outval, .firsttm, .lasttm, .bal] : List Column).zip
          [.scalar (.bytes a.1), quotedNumber v.toNat, quotedTime u, quotedTime u, balance])
      = some (addressValues a (.opening v u)) := by
  have hdecimal := store_decimal v.toNat
  simp only [List.zip_cons_cons, List.zip_nil_left, Schema.assign, Schema.expr, Schema.scalar,
    quotedNumber, quotedTime, balance, schema, columnKind, hdecimal, Option.map_some,
    Option.bind_eq_bind, Option.bind_some, Function.update_self, addressValues, arithmetic,
    Function.update_of_ne, ne_eq, reduceCtorEq, not_false_eq_true]
  simp only [storeAs, readTime_getTimeString, Option.map_some, Option.bind_some, Option.some.injEq]
  funext c
  cases c <;> simp [addressValues, AddressRow.opening, AddressRow.default]

/-! ### Statements on `addressinfo` -/

theorem exec_relabelEntity (e0 e : UInt32) :
    (schema db.entityDefault).exec (db.tables diffOf) (Stmt.statement diffOf (.relabelEntity e0 e))
      = (db.exec (.relabelEntity e0 e)).tables diffOf :=
  exec_updateAddresses diffOf db (fun _ _ => holds_addressEntity)
    (fun _ _ _ => assign_entity diffOf db)

theorem exec_setEntity (a : Address) (e : UInt32) :
    (schema db.entityDefault).exec (db.tables diffOf) (Stmt.statement diffOf (.setEntity a e))
      = (db.exec (.setEntity a e)).tables diffOf :=
  exec_updateAddresses diffOf db (fun _ _ => holds_address) (fun _ _ _ => assign_entity diffOf db)

theorem exec_updateInput (a : Address) (v : UInt64) (u : UInt32) :
    (schema db.entityDefault).exec (db.tables diffOf) (Stmt.statement diffOf (.updateInput a v u))
      = (db.exec (.updateInput a v u)).tables diffOf :=
  exec_updateAddresses diffOf db (fun _ _ => holds_address)
    (fun _ _ _ => assign_debit diffOf db v u)

theorem exec_updateMaxbal (a : Address) :
    (schema db.entityDefault).exec (db.tables diffOf) (Stmt.statement diffOf (.updateMaxbal a))
      = (db.exec (.updateMaxbal a)).tables diffOf := by
  have hcond (a' : Address) (row : AddressRow) :
      (schema db.entityDefault).holds .addressinfo (addressValues a' row)
          ((.column .bal, .gt, .column .maxbal) :: keyIs .address a.1)
        = some (decide (row.maxbal < row.bal) && decide (a' = a)) := by
    rw [Schema.holds, holds_address]
    simp [Schema.scalar, schema, columnKind, compareValues, compareBy, addressValues]
  have hexec := exec_updateAddresses diffOf db hcond (f := AddressRow.raiseMaxbal) fun a' row hp =>
    assign_maxbal diffOf db (by simpa using (Bool.and_eq_true_iff.mp hp).1)
  have hsame : db.addressinfo.update
      (fun a' row => decide (row.maxbal < row.bal) && decide (a' = a)) AddressRow.raiseMaxbal
      = db.addressinfo.modify a .raiseMaxbal := by
    -- where the condition on the balance fails, `raiseMaxbal` changes nothing
    refine KeyedTable.ext ?_
    rw [KeyedTable.modify, KeyedTable.entries_update, KeyedTable.entries_update]
    refine List.map_congr_left fun x _ => ?_
    by_cases hbal : x.2.maxbal < x.2.bal
    · simp [hbal]
    · simp [hbal, AddressRow.raiseMaxbal]
  rw [hsame] at hexec
  exact hexec

theorem exec_upsertOutput (a : Address) (v : UInt64) (u : UInt32) :
    (schema db.entityDefault).exec (db.tables diffOf) (Stmt.statement diffOf (.upsertOutput a v u))
      = (db.exec (.upsertOutput a v u)).tables diffOf := by
  have hrows : db.tables diffOf .addressinfo
      = db.addressinfo.entries.map fun x => addressValues x.1 x.2 := rfl
  have hrow := assign_opening diffOf db (d := db.entityDefault) (a := a) v u
  have hany : (db.tables diffOf .addressinfo).any ((schema db.entityDefault).clashes .addressinfo
      (addressValues a (.opening v u))) = true ↔ a ∈ db.addressinfo.keys := by
    rw [hrows, List.any_map, ← any_key]
    simp only [Function.comp_def, clashes_address]
  rw [Db.exec]
  by_cases hmem : a ∈ db.addressinfo.keys
  · rw [KeyedTable.upsert_of_mem hmem, KeyedTable.modify, ← update_addressinfo diffOf db
      (db.addressinfo.update (fun k _ => k = a) (.credit v u)), KeyedTable.entries_update,
      List.map_map]
    refine (exec_insert_duplicate rfl hrow (hany.mpr hmem) hrows
      (fun x _ => clashes_address _) (fun x _ _ => assign_credit diffOf db v u)).trans ?_
    congr 1
    refine List.map_congr_left fun x _ => ?_
    by_cases hx : x.1 = a
    · simp [hx]
    · simp [hx]
  · rw [← update_addressinfo diffOf db (db.addressinfo.upsert a (.opening v u) (.credit v u)),
      KeyedTable.entries_upsert_of_notMem hmem, List.map_append]
    exact exec_insert_free rfl hrow (Bool.eq_false_iff.mpr (mt hany.mp hmem))

/-! ### Statements on `entityinfo` -/

theorem exec_deleteEntity (e : UInt32) :
    (schema db.entityDefault).exec (db.tables diffOf) (Stmt.statement diffOf (.deleteEntity e))
      = (db.exec (.deleteEntity e)).tables diffOf := by
  have hrows : db.tables diffOf .entityinfo
      = db.entityinfo.entries.map fun x => entityValues x.1 x.2 := rfl
  rw [Stmt.statement, exec_delete hrows fun x _ => holds_entity, Db.exec,
    ← update_entityinfo diffOf db (db.entityinfo.delete e), KeyedTable.entries_delete]
  simp

theorem exec_insertEntity (e : UInt32) :
    (schema db.entityDefault).exec (db.tables diffOf) (Stmt.statement diffOf (.insertEntity e))
      = (db.exec (.insertEntity e)).tables diffOf := by
  have hrows : db.tables diffOf .entityinfo
      = db.entityinfo.entries.map fun x => entityValues x.1 x.2 := rfl
  have hrow : (schema db.entityDefault).assign (db.tables diffOf) .entityinfo
      ((schema db.entityDefault).default .entityinfo)
      (([.entity] : List Column).zip [.scalar (.bytes (entityColumn e).1)])
      = some (entityValues e db.entityDefault) := rfl
  have hany : (db.tables diffOf .entityinfo).any ((schema db.entityDefault).clashes .entityinfo
      (entityValues e db.entityDefault)) = true ↔ e ∈ db.entityinfo.keys := by
    rw [hrows, List.any_map, ← any_key]
    simp only [Function.comp_def, clashes_entity]
  rw [Db.exec]
  by_cases hmem : e ∈ db.entityinfo.keys
  · have hsame : db.entityinfo.modify e id = db.entityinfo := by
      refine KeyedTable.ext ?_
      simp [KeyedTable.modify, KeyedTable.entries_update]
    rw [KeyedTable.upsert_of_mem hmem, hsame]
    exact exec_insert_refused rfl hrow (hany.mpr hmem)
  · rw [← update_entityinfo diffOf db (db.entityinfo.upsert e db.entityDefault id),
      KeyedTable.entries_upsert_of_notMem hmem, List.map_append]
    exact exec_insert_free rfl hrow (Bool.eq_false_iff.mpr (mt hany.mp hmem))

/-! ### Aggregates -/

/-- The rows the subqueries look at. -/
theorem query_ofEntity (e : UInt32) (i : Item Column) :
    (schema d).query (db.tables diffOf) ⟨i, .addressinfo, keyIs .entity (entityColumn e).1⟩
      = (schema d).item .addressinfo
          ((db.addressinfo.entries.filter fun x => x.2.entity = e).map fun x =>
            addressValues x.1 x.2) i := by
  have hselect : (schema d).select .addressinfo (keyIs .entity (entityColumn e).1) true
      (db.tables diffOf .addressinfo)
      = some ((db.addressinfo.entries.filter fun x => x.2.entity = e).map fun x =>
          addressValues x.1 x.2) := by
    refine (select_map true (l := db.addressinfo.entries) (f := fun x => addressValues x.1 x.2)
      fun x _ => holds_addressEntity).trans ?_
    simp
  simp [Schema.query, hselect]

theorem filter_null {α : Type} (l : List α) (v : α → Value) (h : ∀ x, v x ≠ .null) :
    (l.map v).filter (· ≠ .null) = l.map v := by
  rw [List.filter_eq_self]
  intro w hw
  obtain ⟨x, -, rfl⟩ := List.mem_map.mp hw
  simpa using h x

/-- An aggregate of a column over the rows of an entity. -/
theorem expr_aggregate (e : UInt32) (f : Aggregate) {c : Column} (r : Row Column)
    {v : AddressRow → Value} {w : Value} (hc : c ∈ tableColumns .addressinfo)
    (hcolumn : ∀ a row, addressValues a row c = v row) (hnull : ∀ row, v row ≠ .null)
    (haggregate : aggregate f ((db.rowsOf e).map v) = some w) :
    (schema d).expr (db.tables diffOf) .entityinfo r (ofEntity e (.aggregate f (.column c)))
      = some w := by
  have hvalues : ((db.addressinfo.entries.filter fun x => x.2.entity = e).map fun x =>
      addressValues x.1 x.2).mapM (fun row => (schema d).scalar .addressinfo row (.column c))
      = some ((db.rowsOf e).map v) := by
    obtain ⟨k, hk⟩ := Option.isSome_iff_exists.mp (isSome_columnKind .addressinfo c hc)
    rw [List.mapM_map, Db.rowsOf, KeyedTable.valuesWhere, List.map_map]
    refine mapM_eq_map fun x _ => ?_
    simp [Schema.scalar, schema, hk, hcolumn]
  simp only [Schema.expr, ofEntity, query_ofEntity, Schema.item, hvalues, Option.bind_eq_bind,
    Option.bind_some, filter_null _ v hnull, haggregate]

theorem expr_count (e : UInt32) (r : Row Column) :
    (schema d).expr (db.tables diffOf) .entityinfo r (ofEntity e .count)
      = some (.number (db.rowsOf e).length) := by
  simp [Schema.expr, ofEntity, query_ofEntity, Schema.item, Db.rowsOf, KeyedTable.valuesWhere]

theorem aggregate_sum {α : Type} [Add α] [Zero α] (toRat : α → ℚ)
    (hsum : ∀ l : List α, toRat l.sum = (l.map toRat).sum) (rows : List AddressRow)
    (g : AddressRow → α) :
    aggregate .sum (rows.map fun row => .number (toRat (g row)))
      = some (numberOrNull toRat (sqlSum (rows.map g))) := by
  rw [aggregate, ofNumbers, numbers_map]
  cases rows with
  | nil => rfl
  | cons row rows =>
    have hcast := hsum ((row :: rows).map g)
    simp only [List.map_map, List.map_cons, Function.comp_def, List.sum_cons] at hcast
    simp [sqlSum, numberOrNull, hcast]

theorem times_map {α : Type} (l : List α) (g : α → ℤ) :
    times (l.map fun x => .time (g x)) = some (l.map g) := by
  rw [times, List.mapM_map]
  exact mapM_eq_map fun x _ => rfl

theorem numbers_time_cons (t : ℤ) (vs : List Value) : numbers (.time t :: vs) = none := by
  simp [numbers, List.mapM_cons]

theorem min?_map_cast (l : List ℕ) :
    (l.map (Nat.cast : ℕ → ℤ)).min? = l.min?.map Nat.cast := by
  cases l with
  | nil => rfl
  | cons n l =>
    simp only [List.map_cons, List.min?_cons', Option.map_some, Option.some.injEq]
    induction l generalizing n with
    | nil => rfl
    | cons m l ih => simp only [List.map_cons, List.foldl_cons, ← Nat.cast_min, ih]

theorem max?_map_cast (l : List ℕ) :
    (l.map (Nat.cast : ℕ → ℤ)).max? = l.max?.map Nat.cast := by
  cases l with
  | nil => rfl
  | cons n l =>
    simp only [List.map_cons, List.max?_cons', Option.map_some, Option.some.injEq]
    induction l generalizing n with
    | nil => rfl
    | cons m l ih => simp only [List.map_cons, List.foldl_cons, ← Nat.cast_max, ih]

theorem aggregate_min (rows : List AddressRow) (g : AddressRow → ℕ) :
    aggregate .min (rows.map fun row => .time (g row))
      = some (timeOrNull (rows.map g).min?) := by
  cases rows with
  | nil => rfl
  | cons row rows =>
    have htimes := times_map (row :: rows) fun row => (g row : ℤ)
    have hmin := min?_map_cast ((row :: rows).map g)
    rw [List.map_map] at hmin
    simp only [aggregate, htimes, Option.map_some]
    rw [List.map_cons, numbers_time_cons]
    simp only [Function.comp_def] at hmin
    rw [hmin, timeOrNull, Option.elim_map]
    rfl

theorem aggregate_max (rows : List AddressRow) (g : AddressRow → ℕ) :
    aggregate .max (rows.map fun row => .time (g row))
      = some (timeOrNull (rows.map g).max?) := by
  cases rows with
  | nil => rfl
  | cons row rows =>
    have htimes := times_map (row :: rows) fun row => (g row : ℤ)
    have hmax := max?_map_cast ((row :: rows).map g)
    rw [List.map_map] at hmax
    simp only [aggregate, htimes, Option.map_some]
    rw [List.map_cons, numbers_time_cons]
    simp only [Function.comp_def] at hmax
    rw [hmax, timeOrNull, Option.elim_map]
    rfl

theorem store_numberOrNull {α : Type} (toRat : α → ℚ) (x : Option α) :
    storeAs .number (numberOrNull toRat x) = some (numberOrNull toRat x) := by
  cases x <;> rfl

theorem store_timeOrNull (x : Option ℕ) : storeAs .time (timeOrNull x) = some (timeOrNull x) := by
  cases x <;> rfl

section Sums

variable (r : Row Column)

theorem expr_intSum (e : UInt32) {c : Column} (g : AddressRow → ℤ)
    (hc : c ∈ tableColumns .addressinfo)
    (hcolumn : ∀ a row, addressValues a row c = .number (g row)) :
    (schema d).expr (db.tables diffOf) .entityinfo r (ofEntity e (.aggregate .sum (.column c)))
      = some (numberOrNull Int.cast (sqlSum ((db.rowsOf e).map g))) :=
  expr_aggregate diffOf db e .sum r hc hcolumn (by simp)
    (aggregate_sum Int.cast (fun l => map_list_sum (Int.castAddHom ℚ) l) _ g)

theorem expr_natSum (e : UInt32) {c : Column} (g : AddressRow → ℕ)
    (hc : c ∈ tableColumns .addressinfo)
    (hcolumn : ∀ a row, addressValues a row c = .number (g row)) :
    (schema d).expr (db.tables diffOf) .entityinfo r (ofEntity e (.aggregate .sum (.column c)))
      = some (numberOrNull Nat.cast (sqlSum ((db.rowsOf e).map g))) :=
  expr_aggregate diffOf db e .sum r hc hcolumn (by simp)
    (aggregate_sum Nat.cast (fun l => map_list_sum (Nat.castAddMonoidHom ℚ) l) _ g)

theorem expr_min (e : UInt32) :
    (schema d).expr (db.tables diffOf) .entityinfo r
        (ofEntity e (.aggregate .min (.column .firsttm)))
      = some (timeOrNull ((db.rowsOf e).map AddressRow.firsttm).min?) :=
  expr_aggregate diffOf db e .min r (by decide) (fun _ _ => rfl) (by simp)
    (aggregate_min _ AddressRow.firsttm)

theorem expr_max (e : UInt32) :
    (schema d).expr (db.tables diffOf) .entityinfo r
        (ofEntity e (.aggregate .max (.column .lasttm)))
      = some (timeOrNull ((db.rowsOf e).map AddressRow.lasttm).max?) :=
  expr_aggregate diffOf db e .max r (by decide) (fun _ _ => rfl) (by simp)
    (aggregate_max _ AddressRow.lasttm)

end Sums

/-- The nine assignments of `update_entity_mysql`. -/
theorem assign_aggregates (e e' : UInt32) (er : EntityRow) :
    (schema d).assign (db.tables diffOf) .entityinfo (entityValues e' er)
        [(.addcnt, ofEntity e .count), (.inval, ofEntity e (.aggregate .sum (.column .inval))),
         (.outval, ofEntity e (.aggregate .sum (.column .outval))),
         (.firsttm, ofEntity e (.aggregate .min (.column .firsttm))),
         (.lasttm, ofEntity e (.aggregate .max (.column .lasttm))),
         (.bal, ofEntity e (.aggregate .sum (.column .bal))),
         (.maxbal, ofEntity e (.aggregate .sum (.column .maxbal))),
         (.incnt, ofEntity e (.aggregate .sum (.column .incnt))),
         (.outcnt, ofEntity e (.aggregate .sum (.column .outcnt)))]
      = some (entityValues e' (.aggregate (db.rowsOf e))) := by
  have hinval r :=
    expr_intSum (d := d) (c := .inval) diffOf db r e AddressRow.inval (by decide) fun _ _ => rfl
  have houtval r :=
    expr_intSum (d := d) (c := .outval) diffOf db r e AddressRow.outval (by decide) fun _ _ => rfl
  have hbal r :=
    expr_intSum (d := d) (c := .bal) diffOf db r e AddressRow.bal (by decide) fun _ _ => rfl
  have hmaxbal r :=
    expr_intSum (d := d) (c := .maxbal) diffOf db r e AddressRow.maxbal (by decide) fun _ _ => rfl
  have hincnt r :=
    expr_natSum (d := d) (c := .incnt) diffOf db r e AddressRow.incnt (by decide) fun _ _ => rfl
  have houtcnt r :=
    expr_natSum (d := d) (c := .outcnt) diffOf db r e AddressRow.outcnt (by decide) fun _ _ => rfl
  have hkind (c : Column) : (schema d).kind .entityinfo c = columnKind .entityinfo c := rfl
  simp only [Schema.assign, hkind, columnKind, expr_count, hinval, houtval, hbal, hmaxbal, hincnt,
    houtcnt, expr_min, expr_max, store_numberOrNull, store_timeOrNull, Option.bind_eq_bind,
    Option.bind_some]
  simp only [storeAs, Option.bind_some, Option.some.injEq]
  funext c
  cases c <;> rfl

theorem exec_aggregateEntity (e : UInt32) :
    (schema db.entityDefault).exec (db.tables diffOf) (Stmt.statement diffOf (.aggregateEntity e))
      = (db.exec (.aggregateEntity e)).tables diffOf := by
  have hrows : db.tables diffOf .entityinfo
      = db.entityinfo.entries.map fun x => entityValues x.1 x.2 := rfl
  rw [Stmt.statement, exec_update hrows (fun x _ => holds_entity)
    (fun x _ _ => assign_aggregates diffOf db e x.1 x.2), Db.exec, ← update_entityinfo diffOf db
    (db.entityinfo.modify e fun _ => .aggregate (db.rowsOf e)), KeyedTable.modify,
    KeyedTable.entries_update, List.map_map]
  congr 1
  refine List.map_congr_left fun x _ => ?_
  by_cases hx : x.1 = e
  · simp [hx]
  · simp [hx]

/-! ### The rows of transactions and blocks -/

theorem exec_insertTx (tx : TxRow) :
    (schema db.entityDefault).exec (db.tables diffOf) (Stmt.statement diffOf (.insertTx tx))
      = (db.exec (.insertTx tx)).tables diffOf := by
  have hrow : (schema db.entityDefault).assign (db.tables diffOf) .txinfo
      ((schema db.entityDefault).default .txinfo) ((tableColumns .txinfo).zip
      [.scalar (.bytes tx.txhash.1), quotedNumber tx.txcounter.toNat,
       quotedNumber tx.blocknumber.toNat, quotedTime tx.txtime, quotedNumber tx.rawlength.toNat,
       quotedNumber tx.txfee.toNat, quotedNumber tx.incounter.toNat,
       quotedNumber tx.invalue.toNat, quotedNumber tx.outcounter.toNat,
       quotedNumber tx.outvalue.toNat]) = some tx.values := by
    simp only [tableColumns, List.zip_cons_cons, List.zip_nil_left, Schema.assign, Schema.expr,
      Schema.scalar, quotedNumber, quotedTime, schema, columnKind, store_decimal,
      Option.bind_eq_bind, Option.bind_some]
    simp only [storeAs, readTime_getTimeString, Option.map_some, Option.bind_some,
      Option.some.injEq]
    funext c
    cases c <;> rfl
  refine (exec_insert_free rfl hrow (by simp [Schema.clashes, schema])).trans ?_
  funext tb
  cases tb <;> simp [Db.exec, Db.tables]

theorem exec_insertBlk (blk : BlkRow) :
    (schema db.entityDefault).exec (db.tables diffOf) (Stmt.statement diffOf (.insertBlk blk))
      = (db.exec (.insertBlk blk)).tables diffOf := by
  have hrow : (schema db.entityDefault).assign (db.tables diffOf) .blkinfo
      ((schema db.entityDefault).default .blkinfo) ((tableColumns .blkinfo).zip
      [.scalar (.bytes blk.curhash.1), quotedNumber blk.blocknumber.toNat,
       quotedNumber blk.blocksize.toNat, quotedNumber blk.transCount.toNat,
       quotedTime blk.blktime, quotedNumber (diffOf blk.bits), quotedNumber blk.reward.toNat])
      = some (blk.values diffOf) := by
    simp only [tableColumns, List.zip_cons_cons, List.zip_nil_left, Schema.assign, Schema.expr,
      Schema.scalar, quotedNumber, quotedTime, schema, columnKind, store_decimal,
      Option.bind_eq_bind, Option.bind_some]
    simp only [storeAs, readTime_getTimeString, Option.map_some, Option.bind_some,
      Option.some.injEq]
    funext c
    cases c <;> rfl
  refine (exec_insert_free rfl hrow (by simp [Schema.clashes, schema])).trans ?_
  funext tb
  cases tb <;> simp [Db.exec, Db.tables]

/-! ### Texts and statements -/

/-- **The text of a statement does what the statement does.** -/
theorem execText_text (j : Stmt) :
    (schema db.entityDefault).execText names (db.tables diffOf) (j.text diffOf)
      = (db.exec j).tables diffOf := by
  rw [Schema.execText, Stmt.parse_text, Option.map_some, Option.getD_some]
  cases j with
  | relabelEntity e0 e => exact exec_relabelEntity diffOf db e0 e
  | deleteEntity e => exact exec_deleteEntity diffOf db e
  | insertEntity e => exact exec_insertEntity diffOf db e
  | setEntity a e => exact exec_setEntity diffOf db a e
  | aggregateEntity e => exact exec_aggregateEntity diffOf db e
  | insertTx row => exact exec_insertTx diffOf db row
  | updateInput a v u => exact exec_updateInput diffOf db a v u
  | upsertOutput a v u => exact exec_upsertOutput diffOf db a v u
  | updateMaxbal a => exact exec_updateMaxbal diffOf db a
  | insertBlk row => exact exec_insertBlk diffOf db row

theorem entityDefault_exec (j : Stmt) : (db.exec j).entityDefault = db.entityDefault := by
  cases j <;> rfl

theorem foldl_execText (js : List Stmt) :
    (js.map (Stmt.text diffOf)).foldl ((schema db.entityDefault).execText names)
        (db.tables diffOf)
      = (js.foldl Db.exec db).tables diffOf := by
  induction js generalizing db with
  | nil => rfl
  | cons j js ih =>
    rw [List.map_cons, List.foldl_cons, List.foldl_cons, execText_text,
      ← entityDefault_exec db j, ih]

/-- **The tables behind a connection** are what its journal, sent text by text,
makes of the tables it was opened on. -/
theorem foldl_execText_journal (conn : Conn) :
    (conn.journal.map (Stmt.text diffOf)).foldl
        ((schema conn.start.entityDefault).execText names) (conn.start.tables diffOf)
      = conn.db.tables diffOf :=
  foldl_execText diffOf conn.start conn.journal

/-! ### The query for an entity number -/

/-- `row = mysql_fetch_row(result); memcpy(temp1, row[0], 4)` and the swap of the
bytes. -/
def fetchEntity : List Value → Except Fault UInt32
  | .bytes bs :: _ => do
    let temp1 ← memcpy bs 0 4
    .ok (entityOfColumn temp1)
  | _ => .error .nullRow

/-- The result set has the row of the address, if there is one. -/
theorem query_entityQuery (a : Address) :
    (schema d).query (db.tables diffOf) (entityQuery a)
      = some ((db.addressinfo.entries.filter fun x => x.1 = a).map fun x =>
          .bytes (entityColumn x.2.entity).1) := by
  have hselect : (schema d).select .addressinfo (keyIs .address a.1) true
      (db.tables diffOf .addressinfo)
      = some ((db.addressinfo.entries.filter fun x => x.1 = a).map fun x =>
          addressValues x.1 x.2) := by
    refine (select_map true (l := db.addressinfo.entries) (f := fun x => addressValues x.1 x.2)
      fun x _ => holds_address).trans ?_
    simp
  simp only [Schema.query, entityQuery, hselect, Option.bind_eq_bind, Option.bind_some,
    Schema.item, List.mapM_map]
  exact mapM_eq_map fun x _ => rfl

theorem fetchEntity_filter (a : Address) :
    fetchEntity ((db.addressinfo.entries.filter fun x => x.1 = a).map fun x =>
      .bytes (entityColumn x.2.entity).1) = selectEntity db a := by
  rw [selectEntity, KeyedTable.find?, ← List.head?_filter]
  cases db.addressinfo.entries.filter fun x => x.1 = a with
  | nil => rfl
  | cons x l =>
    have hlength : 0 + 4 ≤ (entityColumn x.2.entity).1.length := by
      rw [(entityColumn x.2.entity).2]
    have hcopy : memcpy (entityColumn x.2.entity).1 0 4 = .ok (entityColumn x.2.entity) := by
      rw [memcpy, dif_pos hlength]
      exact congrArg Except.ok (Subtype.ext (List.take_of_length_le (entityColumn _).2.le))
    simp only [List.map_cons, fetchEntity, hcopy, List.head?_cons, Option.map_some]
    rfl

/-- **Both spellings of the query** return the row that `selectEntity` fetches
from. -/
theorem selectEntity_eq_resultOf (a : Address) :
    ∃ rows, (schema db.entityDefault).resultOf names (db.tables diffOf) (selectEntityText a)
        = some rows ∧
      (schema db.entityDefault).resultOf names (db.tables diffOf) (selectEntityText' a)
        = some rows ∧
      fetchEntity rows = selectEntity db a := by
  refine ⟨_, ?_, ?_, fetchEntity_filter db a⟩
  · rw [Schema.resultOf, parse_selectEntityText]
    exact query_entityQuery diffOf db a
  · rw [Schema.resultOf, parse_selectEntityText']
    exact query_entityQuery diffOf db a

end BitcoinAnalysis
