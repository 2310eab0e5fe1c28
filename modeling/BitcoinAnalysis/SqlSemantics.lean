/-
What a statement of the fragment does to a database.

A row gives every column a value, a table is a list of rows, and a statement
either changes the database or is refused and leaves it as it is (`Schema.exec`):

* `SET` assignments are evaluated left to right, each in the row the earlier ones
  have made; so are the columns of an `INSERT`, from the row of defaults on;
* a value is converted to the kind of its column when it is assigned;
* an operand that is `NULL` makes the result `NULL`, and a comparison with `NULL`
  selects nothing;
* the aggregates leave `NULL` out, and over nothing they are `NULL`, but for
  `count(*)`;
* an `INSERT` whose key is taken is refused, or changes the row that has it.

A standard deviation is kept as the variance it is the square root of.
-/
import BitcoinAnalysis.SqlSyntax
import BitcoinAnalysis.Calendar

open SqlSyntax

namespace SqlSemantics

/-! ### Values -/

inductive Value where
  | null
  | number (q : ℚ)
  | bytes (bs : List UInt8)
  | text (s : List Char)
  /-- A date and time, as seconds. -/
  | time (t : ℤ)
  /-- The square root of a number. -/
  | root (q : ℚ)
  deriving DecidableEq

/-- What a column holds. -/
inductive Kind where
  | number | bytes | time
  deriving DecidableEq

/-- A date and time: six numbers with one character between them. -/
def readTime (s : List Char) : Option ℤ :=
  match (s.splitOnP fun c => !c.isDigit).map (Nat.ofDigitChars 10 · 0) with
  | [year, month, day, hour, minute, second] =>
    some (Calendar.DateTime.mk year month day hour minute second).unix
  | _ => none

/-- Conversion to the kind of a column. -/
def storeAs : Kind → Value → Option Value
  | _, .null => some .null
  | .number, .number q => some (.number q)
  | .number, .text s =>
    if s ≠ [] ∧ s.all Char.isDigit then some (.number (decimal s)) else none
  | .bytes, .bytes bs => some (.bytes bs)
  | .time, .time t => some (.time t)
  | .time, .text s => (readTime s).map .time
  | _, _ => none

def arithmetic (f : ℚ → ℚ → Value) : Value → Value → Option Value
  | .number p, .number q => some (f p q)
  | .null, _ => some .null
  | _, .null => some .null
  | _, _ => none

def compareBy {α : Type} [DecidableEq α] [LT α] [DecidableLT α] : Comparison → α → α → Bool
  | .eq, x, y => x = y
  | .gt, x, y => y < x
  | .ge, x, y => ¬ x < y
  | .lt, x, y => x < y

def compareValues (c : Comparison) : Value → Value → Option Bool
  | .null, _ => some false
  | _, .null => some false
  | .number p, .number q => some (compareBy c p q)
  | .time s, .time t => some (compareBy c s t)
  | .bytes as, .bytes bs => if c = .eq then some (as = bs) else none
  | _, _ => none

/-! ### Aggregates -/

def numbers (vs : List Value) : Option (List ℚ) :=
  vs.mapM fun v => match v with
    | .number q => some q
    | _ => none

def times (vs : List Value) : Option (List ℤ) :=
  vs.mapM fun v => match v with
    | .time t => some t
    | _ => none

def average (qs : List ℚ) : ℚ := qs.sum / qs.length

def variance (qs : List ℚ) : ℚ := average (qs.map fun q => (q - average qs) ^ 2)

/-- An aggregate of numbers; `NULL` over none. -/
def ofNumbers (f : List ℚ → Value) (vs : List Value) : Option Value :=
  (numbers vs).map fun qs => if qs = [] then .null else f qs

def aggregate : Aggregate → List Value → Option Value
  | .sum, vs => ofNumbers (fun qs => .number qs.sum) vs
  | .avg, vs => ofNumbers (fun qs => .number (average qs)) vs
  | .stddevPop, vs => ofNumbers (fun qs => .root (variance qs)) vs
  | .min, vs =>
    match numbers vs with
    | some qs => some (qs.min?.elim .null .number)
    | none => (times vs).map fun ts => ts.min?.elim .null .time
  | .max, vs =>
    match numbers vs with
    | some qs => some (qs.max?.elim .null .number)
    | none => (times vs).map fun ts => ts.max?.elim .null .time

theorem mapM_eq_map {β γ : Type} {l : List β} {F : β → Option γ} {G : β → γ}
    (h : ∀ x ∈ l, F x = some (G x)) : l.mapM F = some (l.map G) := by
  induction l with
  | nil => rfl
  | cons x l ih =>
    have hx : F x = some (G x) := h x (by simp)
    have hl : l.mapM F = some (l.map G) := ih fun y hy => h y (by simp [hy])
    simp [List.mapM_cons, hx, hl]

theorem numbers_map {α : Type} (l : List α) (g : α → ℚ) :
    numbers (l.map fun x => .number (g x)) = some (l.map g) := by
  rw [numbers, List.mapM_map]
  exact mapM_eq_map fun x _ => rfl

/-- An aggregate of numbers none of which is `NULL`. -/
def statistic (f : Aggregate) (qs : List ℚ) : Value :=
  if qs = [] then .null
  else match f with
    | .sum => .number qs.sum
    | .avg => .number (average qs)
    | .stddevPop => .root (variance qs)
    | .min => qs.min?.elim .null .number
    | .max => qs.max?.elim .null .number

theorem aggregate_numbers (f : Aggregate) (qs : List ℚ) :
    aggregate f (qs.map .number) = some (statistic f qs) := by
  have hnumbers : numbers (qs.map .number) = some qs := by
    simpa using numbers_map qs id
  by_cases hqs : qs = []
  · subst hqs
    cases f <;> rfl
  · cases f <;> simp [aggregate, ofNumbers, statistic, hnumbers, hqs]

/-- Only `NULL` leaves a statistic `NULL`. -/
theorem statistic_eq_null {f : Aggregate} {qs : List ℚ} : statistic f qs = .null ↔ qs = [] := by
  refine ⟨fun h => ?_, fun h => if_pos h⟩
  by_contra hqs
  obtain ⟨q, rest, rfl⟩ := List.exists_cons_of_ne_nil hqs
  cases f <;> simp [statistic] at h

/-! ### Databases -/

abbrev Row (C : Type) := C → Value

abbrev Database (T C : Type) := T → List (Row C)

structure Schema (T C : Type) where
  /-- The columns of a table in their order. -/
  columns : T → List C
  /-- The kind of a column; `none` if the table does not have it. -/
  kind : T → C → Option Kind
  default : T → Row C
  key : T → Option C

variable {T C : Type}

def Schema.scalar (schema : Schema T C) (t : T) (row : Row C) : Scalar C → Option Value
  | .number q => some (.number q)
  | .bytes bs => some (.bytes bs)
  | .text s => some (.text s)
  | .column c => (schema.kind t c).map fun _ => row c
  | .unixTimestamp s => do
    match ← schema.scalar t row s with
    | .null => some .null
    | .time u => some (.number u)
    | .text s => (readTime s).map fun u => .number u
    | _ => none
  | .add a b => do
    arithmetic (fun p q => .number (p + q)) (← schema.scalar t row a) (← schema.scalar t row b)
  | .sub a b => do
    arithmetic (fun p q => .number (p - q)) (← schema.scalar t row a) (← schema.scalar t row b)
  | .mul a b => do
    arithmetic (fun p q => .number (p * q)) (← schema.scalar t row a) (← schema.scalar t row b)
  | .div a b => do
    arithmetic (fun p q => if q = 0 then .null else .number (p / q))
      (← schema.scalar t row a) (← schema.scalar t row b)

def Schema.holds (schema : Schema T C) (t : T) (row : Row C) : Condition C → Option Bool
  | [] => some true
  | (a, c, b) :: cond => do
    let here ← compareValues c (← schema.scalar t row a) (← schema.scalar t row b)
    let rest ← schema.holds t row cond
    some (here && rest)

theorem Schema.holds_append (schema : Schema T C) (t : T) (row : Row C) (cond cond' : Condition C) :
    schema.holds t row (cond ++ cond') = (do
      let a ← schema.holds t row cond
      let b ← schema.holds t row cond'
      some (a && b)) := by
  induction cond with
  | nil => simp [Schema.holds]
  | cons test cond ih =>
    obtain ⟨s, c, s'⟩ := test
    simp only [List.cons_append, Schema.holds, ih, Option.bind_eq_bind, Option.bind_assoc,
      Option.bind_some, Bool.and_assoc]

/-- The rows that satisfy a condition, or those that do not. -/
def Schema.select (schema : Schema T C) (t : T) (cond : Condition C) (want : Bool) :
    List (Row C) → Option (List (Row C))
  | [] => some []
  | row :: rows => do
    let here ← schema.holds t row cond
    let rest ← schema.select t cond want rows
    some (if here = want then row :: rest else rest)

/-- What a `SELECT` returns: one value for each row, or one for all of them. -/
def Schema.item (schema : Schema T C) (t : T) (rows : List (Row C)) :
    Item C → Option (List Value)
  | .scalar s => rows.mapM fun row => schema.scalar t row s
  | .count => some [.number rows.length]
  | .aggregate f s => do
    let vs ← rows.mapM fun row => schema.scalar t row s
    let v ← aggregate f (vs.filter (· ≠ .null))
    some [v]
  | .ifnull i s => do
    let vs ← schema.item t rows i
    let v ← schema.scalar t (fun _ => .null) s
    some (vs.map fun u => if u = .null then v else u)

def Schema.query (schema : Schema T C) (db : Database T C) (q : Query T C) :
    Option (List Value) := do
  let rows ← schema.select q.table q.condition true (db q.table)
  schema.item q.table rows q.item

/-- The value of a subquery is that of its only row. -/
def Schema.expr (schema : Schema T C) (db : Database T C) (t : T) (row : Row C) :
    Expr T C → Option Value
  | .scalar s => schema.scalar t row s
  | .query q => do
    match ← schema.query db q with
    | [] => some .null
    | [v] => some v
    | _ => none

variable [DecidableEq T] [DecidableEq C]

def Schema.assign (schema : Schema T C) (db : Database T C) (t : T) (row : Row C) :
    List (C × Expr T C) → Option (Row C)
  | [] => some row
  | (c, e) :: set => do
    let kind ← schema.kind t c
    let v ← storeAs kind (← schema.expr db t row e)
    schema.assign db t (Function.update row c v) set

/-- A row has the key of a new one. -/
def Schema.clashes (schema : Schema T C) (t : T) (row r : Row C) : Bool :=
  (schema.key t).any fun c => r c = row c

/-- Change the rows that satisfy a condition. -/
def Schema.updateRows (schema : Schema T C) (db : Database T C) (t : T)
    (set : List (C × Expr T C)) (cond : Condition C) (rows : List (Row C)) :
    Option (List (Row C)) :=
  rows.mapM fun row => do
    if ← schema.holds t row cond then schema.assign db t row set else some row

def Schema.exec? (schema : Schema T C) (db : Database T C) :
    Statement T C → Option (Database T C)
  | .update t set cond => do
    let rows ← schema.updateRows db t set cond (db t)
    some (Function.update db t rows)
  | .insert t columns values onDuplicate => do
    let columns := columns.getD (schema.columns t)
    if columns.length ≠ values.length then none
    else
      let row ← schema.assign db t (schema.default t) (columns.zip values)
      if (db t).any (schema.clashes t row) then
        let set ← onDuplicate
        let rows ← (db t).mapM fun r =>
          if schema.clashes t row r then schema.assign db t r set else some r
        some (Function.update db t rows)
      else some (Function.update db t (db t ++ [row]))
  | .delete t cond => do
    let rows ← schema.select t cond false (db t)
    some (Function.update db t rows)
  | .select q => (schema.query db q).map fun _ => db

/-- A statement, or nothing if it is refused. -/
def Schema.exec (schema : Schema T C) (db : Database T C) (s : Statement T C) : Database T C :=
  (schema.exec? db s).getD db

/-- A text that changes the database, or nothing if it cannot be read. -/
def Schema.execText (schema : Schema T C) (names : Names T C) (db : Database T C)
    (text : List Char) : Database T C :=
  ((parse names text).map (schema.exec db)).getD db

/-- The rows a `SELECT` returns. -/
def Schema.resultOf (schema : Schema T C) (names : Names T C) (db : Database T C)
    (text : List Char) : Option (List Value) :=
  match parse names text with
  | some (.select q) => schema.query db q
  | _ => none

/-! ### Statements over rows of a known form -/

section Forms

variable {schema : Schema T C} {db : Database T C} {t : T} {α : Type} {l : List α}
  {f g : α → Row C} {p : α → Bool} {set : List (C × Expr T C)} {cond : Condition C}

theorem exec_update (hrows : db t = l.map f)
    (hcond : ∀ x ∈ l, schema.holds t (f x) cond = some (p x))
    (hset : ∀ x ∈ l, p x → schema.assign db t (f x) set = some (g x)) :
    schema.exec db (.update t set cond)
      = Function.update db t (l.map fun x => if p x then g x else f x) := by
  have hupdate : schema.updateRows db t set cond (db t)
      = some (l.map fun x => if p x then g x else f x) := by
    rw [Schema.updateRows, hrows, List.mapM_map]
    refine mapM_eq_map fun x hx => ?_
    by_cases hp : p x = true
    · simp [hcond x hx, hp, hset x hx hp]
    · simp [hcond x hx, hp]
  simp [Schema.exec, Schema.exec?, hupdate]

omit [DecidableEq T] [DecidableEq C] in
theorem select_map (want : Bool)
    (hcond : ∀ x ∈ l, schema.holds t (f x) cond = some (p x)) :
    schema.select t cond want (l.map f) = some ((l.filter fun x => p x = want).map f) := by
  induction l with
  | nil => rfl
  | cons x l ih =>
    have hx := hcond x (by simp)
    have hl := ih fun y hy => hcond y (by simp [hy])
    by_cases hp : p x = want
    · simp [Schema.select, hx, hl, hp]
    · simp [Schema.select, hx, hl, hp]

omit [DecidableEq T] [DecidableEq C] in
theorem query_count (hrows : db t = l.map f)
    (hcond : ∀ x ∈ l, schema.holds t (f x) cond = some (p x)) :
    schema.query db ⟨.count, t, cond⟩ = some [.number (l.countP p)] := by
  have hselect := select_map true hcond
  simp only [Bool.decide_eq_true] at hselect
  simp [Schema.query, hrows, hselect, Schema.item, List.countP_eq_length_filter]

omit [DecidableEq T] [DecidableEq C] in
/-- An aggregate of an expression that is a number or `NULL`. -/
theorem query_aggregate {k : Aggregate} {s : Scalar C} {g : α → Option ℚ} (hrows : db t = l.map f)
    (hcond : ∀ x ∈ l, schema.holds t (f x) cond = some (p x))
    (hs : ∀ x ∈ l, schema.scalar t (f x) s = some ((g x).elim .null .number)) :
    schema.query db ⟨.aggregate k s, t, cond⟩
      = some [statistic k ((l.filter p).filterMap g)] := by
  have hselect := select_map true hcond
  simp only [Bool.decide_eq_true] at hselect
  have hvalues : ((l.filter p).map f).mapM (fun row => schema.scalar t row s)
      = some ((l.filter p).map fun x => (g x).elim .null .number) := by
    rw [List.mapM_map]
    exact mapM_eq_map fun x hx => hs x (List.mem_of_mem_filter hx)
  have hnull : ((l.filter p).map fun x => (g x).elim .null .number).filter (· ≠ Value.null)
      = ((l.filter p).filterMap g).map .number := by
    induction l.filter p with
    | nil => rfl
    | cons x l ih => cases hx : g x <;> simp_all
  simp only [Schema.query, hrows, hselect, Schema.item, hvalues, hnull, aggregate_numbers,
    Option.bind_eq_bind, Option.bind_some]

omit [DecidableEq T] [DecidableEq C] in
/-- `IFNULL(sum(s),0)` -/
theorem query_sum {s : Scalar C} {g : α → Option ℚ} (hrows : db t = l.map f)
    (hcond : ∀ x ∈ l, schema.holds t (f x) cond = some (p x))
    (hs : ∀ x ∈ l, schema.scalar t (f x) s = some ((g x).elim .null .number)) :
    schema.query db ⟨.ifnull (.aggregate .sum s) (.number 0), t, cond⟩
      = some [.number ((l.filter p).filterMap g).sum] := by
  have hselect := select_map true hcond
  have hsum := query_aggregate (k := .sum) hrows hcond hs
  simp only [Bool.decide_eq_true] at hselect
  simp only [Schema.query, hrows, hselect, Option.bind_eq_bind, Option.bind_some] at hsum
  have hitem : schema.item t ((l.filter fun x => p x).map f)
      (.ifnull (.aggregate .sum s) (.number 0))
      = some [.number ((l.filter p).filterMap g).sum] := by
    rw [Schema.item, hsum]
    by_cases hempty : (l.filter p).filterMap g = []
    · simp [statistic, hempty, Schema.scalar]
    · simp [statistic, hempty, Schema.scalar]
  simp only [Schema.query, hrows, hselect, hitem, Option.bind_eq_bind, Option.bind_some]

theorem exec_delete (hrows : db t = l.map f)
    (hcond : ∀ x ∈ l, schema.holds t (f x) cond = some (p x)) :
    schema.exec db (.delete t cond)
      = Function.update db t ((l.filter fun x => p x = false).map f) := by
  have hdelete := select_map false hcond
  simp [Schema.exec, Schema.exec?, hrows, hdelete]

section Insert

variable {columns : Option (List C)} {values : List (Expr T C)} {row : Row C}
  {onDuplicate : Option (List (C × Expr T C))}

/-- An `INSERT` of a row whose key is free. -/
theorem exec_insert_free (hlength : (columns.getD (schema.columns t)).length = values.length)
    (hrow : schema.assign db t (schema.default t) ((columns.getD (schema.columns t)).zip values)
      = some row)
    (hfree : (db t).any (schema.clashes t row) = false) :
    schema.exec db (.insert t columns values onDuplicate)
      = Function.update db t (db t ++ [row]) := by
  simp only [Schema.exec, Schema.exec?, hlength, hrow, hfree, ne_eq, not_true_eq_false, if_false,
    Option.bind_eq_bind, Option.bind_some, Bool.false_eq_true, Option.getD_some]

/-- An `INSERT` of a row whose key is taken is refused. -/
theorem exec_insert_refused (hlength : (columns.getD (schema.columns t)).length = values.length)
    (hrow : schema.assign db t (schema.default t) ((columns.getD (schema.columns t)).zip values)
      = some row)
    (htaken : (db t).any (schema.clashes t row) = true) :
    schema.exec db (.insert t columns values none) = db := by
  simp only [Schema.exec, Schema.exec?, hlength, hrow, htaken, ne_eq, not_true_eq_false, if_false,
    Option.bind_eq_bind, Option.bind_some, if_true, Option.bind_none, Option.getD_none]

/-- `ON DUPLICATE KEY UPDATE` changes the row that has the key. -/
theorem exec_insert_duplicate (hlength : (columns.getD (schema.columns t)).length = values.length)
    (hrow : schema.assign db t (schema.default t) ((columns.getD (schema.columns t)).zip values)
      = some row)
    (htaken : (db t).any (schema.clashes t row) = true) (hrows : db t = l.map f)
    (hp : ∀ x ∈ l, schema.clashes t row (f x) = p x)
    (hset : ∀ x ∈ l, p x → schema.assign db t (f x) set = some (g x)) :
    schema.exec db (.insert t columns values (some set))
      = Function.update db t (l.map fun x => if p x then g x else f x) := by
  have hmap : (db t).mapM (fun r =>
      if schema.clashes t row r then schema.assign db t r set else some r)
      = some (l.map fun x => if p x then g x else f x) := by
    rw [hrows, List.mapM_map]
    refine mapM_eq_map fun x hx => ?_
    by_cases hpx : p x = true
    · simp [hp x hx, hpx, hset x hx hpx]
    · simp [hp x hx, hpx]
  simp only [Schema.exec, Schema.exec?, hlength, hrow, htaken, ne_eq, not_true_eq_false, if_false,
    Option.bind_eq_bind, Option.bind_some, if_true, hmap, Option.getD_some]

end Insert

end Forms

end SqlSemantics
