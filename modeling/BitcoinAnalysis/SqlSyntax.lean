/-
A fragment of SQL, from text to statements.

A text is cut into tokens by an automaton that reads one character at a time,
so the tokens of a text that was put together from parts follow from its parts
(`feed_append`).  Words are looked up in a dictionary, without regard to case.
The grammar of the fragment, where brackets may be omitted and braces repeated:

  scalar     number | x'..' | '..' | column | unix_timestamp(scalar) | (scalar)
             and their sums, differences, products and quotients
  condition  scalar (= | > | >= | <) scalar {AND ..}
  item       count(*) | f(scalar) | IFNULL(item,scalar) | scalar
  query      SELECT item FROM [schema.]table [WHERE condition]
  expr       scalar | (query)
  statement  UPDATE table SET column=expr{,column=expr} [WHERE condition]
             INSERT INTO table[(column{,column})] VALUES(expr{,expr})
               [ON DUPLICATE KEY UPDATE column=expr{,column=expr}]
             DELETE FROM table [WHERE condition]
             query

A statement ends with a semicolon.
-/
import Mathlib.Tactic
import Mathlib.Data.List.TakeWhile

namespace SqlSyntax

/-! ### Tokens -/

inductive Keyword where
  | UPDATE | SET | WHERE | AND | INSERT | INTO | VALUES | ON | DUPLICATE | KEY | DELETE
  | SELECT | FROM | IFNULL | UNIXTIMESTAMP
  deriving DecidableEq

inductive Aggregate where
  | sum | avg | min | max | stddevPop
  deriving DecidableEq

/-- A word of the dictionary; `schema` is the name of the database. -/
inductive Word (T C : Type) where
  | keyword (k : Keyword)
  | count
  | aggregate (f : Aggregate)
  | schema
  | table (t : T)
  | column (c : C)
  deriving DecidableEq

inductive Symbol where
  | openParen | closeParen | comma | semicolon | equals | greater | less | plus | minus | times
  | over | dot
  deriving DecidableEq

inductive Token (T C : Type) where
  | word (w : Word T C)
  | number (q : ℚ)
  | bytes (bs : List UInt8)
  | text (s : List Char)
  | symbol (s : Symbol)
  deriving DecidableEq

/-- The names of the database, of its tables and of their columns. -/
structure Names (T C : Type) where
  schema : List Char
  tables : List (List Char × T)
  columns : List (List Char × C)

variable {T C : Type}

def keywords : List (List Char × Word T C) :=
  [("update".toList, .keyword .UPDATE), ("set".toList, .keyword .SET),
   ("where".toList, .keyword .WHERE), ("and".toList, .keyword .AND),
   ("insert".toList, .keyword .INSERT), ("into".toList, .keyword .INTO),
   ("values".toList, .keyword .VALUES), ("on".toList, .keyword .ON),
   ("duplicate".toList, .keyword .DUPLICATE), ("key".toList, .keyword .KEY),
   ("delete".toList, .keyword .DELETE), ("select".toList, .keyword .SELECT),
   ("from".toList, .keyword .FROM), ("ifnull".toList, .keyword .IFNULL),
   ("unix_timestamp".toList, .keyword .UNIXTIMESTAMP), ("count".toList, .count),
   ("sum".toList, .aggregate .sum), ("avg".toList, .aggregate .avg),
   ("min".toList, .aggregate .min), ("max".toList, .aggregate .max),
   ("stddev_pop".toList, .aggregate .stddevPop)]

def Names.dictionary (names : Names T C) : List (List Char × Word T C) :=
  keywords ++ (names.schema, .schema) :: names.tables.map (Prod.map id .table)
    ++ names.columns.map (Prod.map id .column)

def Names.word (names : Names T C) (w : List Char) : Option (Token T C) :=
  (names.dictionary.find? fun e => e.1 = w).map fun e => .word e.2

def symbolOf : Char → Option Symbol
  | '(' => some .openParen
  | ')' => some .closeParen
  | ',' => some .comma
  | ';' => some .semicolon
  | '=' => some .equals
  | '>' => some .greater
  | '<' => some .less
  | '+' => some .plus
  | '-' => some .minus
  | '*' => some .times
  | '/' => some .over
  | '.' => some .dot
  | _ => none

/-- The value of a number with a decimal point or without. -/
def decimal (ds : List Char) : ℚ :=
  let whole := ds.takeWhile (· ≠ '.')
  let fraction := (ds.dropWhile (· ≠ '.')).drop 1
  Nat.ofDigitChars 10 whole 0 + Nat.ofDigitChars 10 fraction 0 / 10 ^ fraction.length

def hexDigit (c : Char) : Option ℕ :=
  if c.isDigit then some (c.toNat - '0'.toNat)
  else if 'a' ≤ c ∧ c ≤ 'f' then some (c.toNat - 'a'.toNat + 10)
  else none

/-- The bytes of an `x'..'`, two digits each. -/
def hexBytes : List Char → Option (List UInt8)
  | [] => some []
  | [_] => none
  | c :: d :: ds => do
    let high ← hexDigit c
    let low ← hexDigit d
    let bs ← hexBytes ds
    some (UInt8.ofNat (16 * high + low) :: bs)

/-! ### The automaton -/

/-- What the automaton is in the middle of, with the characters so far. -/
inductive Mode where
  | idle
  | word (w : List Char)
  | number (ds : List Char)
  | quote (s : List Char)
  | hex (ds : List Char)

def isWordChar (c : Char) : Bool := c.isAlphanum || c = '_'

/-- A character at which no token is open. -/
def start (c : Char) : Option (List (Token T C) × Mode) :=
  if c = ' ' then some ([], .idle)
  else if c = '\'' then some ([], .quote [])
  else if c.isDigit then some ([], .number [c])
  else if isWordChar c then some ([], .word [c.toLower])
  else (symbolOf c).map fun s => ([.symbol s], .idle)

/-- The token a mode ends with, if it can end. -/
def close (names : Names T C) : Mode → Option (List (Token T C))
  | .idle => some []
  | .word w => (names.word w).map fun t => [t]
  | .number ds => some [.number (decimal ds)]
  | .quote _ => none
  | .hex _ => none

/-- The character belongs to the token that is open. -/
def Mode.continues : Mode → Char → Option Mode
  | .idle, _ => none
  | .word w, c =>
    if isWordChar c then some (.word (w ++ [c.toLower]))
    else if c = '\'' ∧ w = ['x'] then some (.hex [])
    else none
  | .number ds, c => if c.isDigit ∨ c = '.' then some (.number (ds ++ [c])) else none
  | .quote s, c => if c = '\'' then none else some (.quote (s ++ [c]))
  | .hex ds, c => if c = '\'' then none else some (.hex (ds ++ [c]))

def step (names : Names T C) (m : Mode) (c : Char) : Option (List (Token T C) × Mode) :=
  match m.continues c with
  | some m => some ([], m)
  | none =>
    match m with
    | .quote s => some ([.text s], .idle)
    | .hex ds => (hexBytes ds).map fun bs => ([.bytes bs], .idle)
    | m => do
      let ts ← close names m
      let (us, m) ← start c
      some (ts ++ us, m)

/-- The tokens of a text up to its last open one. -/
def feed (names : Names T C) : Mode → List Char → Option (List (Token T C) × Mode)
  | m, [] => some ([], m)
  | m, c :: cs => do
    let (ts, m) ← step names m c
    let (us, m) ← feed names m cs
    some (ts ++ us, m)

def lex (names : Names T C) (text : List Char) : Option (List (Token T C)) := do
  let (ts, m) ← feed names .idle text
  let us ← close names m
  some (ts ++ us)

/-! ### Texts put together from parts -/

/-- The text takes the automaton from one mode to another and yields the tokens. -/
def Reads (names : Names T C) (m : Mode) (text : List Char) (ts : List (Token T C)) (m' : Mode) :
    Prop := feed names m text = some (ts, m')

variable {names : Names T C} {m m' m'' : Mode} {s t rest : List Char} {ts us : List (Token T C)}

theorem Reads.append (hs : Reads names m s ts m') (ht : Reads names m' t us m'') :
    Reads names m (s ++ t) (ts ++ us) m'' := by
  induction s generalizing m ts with
  | nil =>
    obtain ⟨rfl, rfl⟩ : [] = ts ∧ m = m' := by simpa [Reads, feed] using hs
    exact ht
  | cons c s ih =>
    simp only [Reads, feed, Option.bind_eq_bind, Option.bind_eq_some_iff, Option.some.injEq,
      Prod.mk.injEq, Prod.exists] at hs
    obtain ⟨vs, m₁, hstep, ws, m₂, hfeed, rfl, rfl⟩ := hs
    have hrest : feed names m₁ (s ++ t) = some (ws ++ us, m'') := ih hfeed
    simp [Reads, feed, hstep, hrest]

/-- Characters that all belong to the open token yield none. -/
theorem reads_of_continues {f : List Char → Mode} {p : Char → Prop}
    (hf : ∀ acc c, p c → (f acc).continues c = some (f (acc ++ [c]))) (acc : List Char)
    (hs : ∀ c ∈ s, p c) : Reads names (f acc) s [] (f (acc ++ s)) := by
  induction s generalizing acc with
  | nil => simp [Reads, feed]
  | cons c s ih =>
    have hc : (f acc).continues c = some (f (acc ++ [c])) := hf acc c (hs c (by simp))
    have hrest := ih (acc ++ [c]) fun c hc => hs c (by simp [hc])
    simp only [Reads, List.append_assoc, List.singleton_append] at hrest ⊢
    simp [feed, step, hc, hrest]

/-- A number, with a point or without. -/
def IsNumber (s : List Char) : Prop :=
  s.head?.any Char.isDigit = true ∧ s.all (fun c => c.isDigit || c == '.') = true

instance decidableIsNumber (s : List Char) : Decidable (IsNumber s) :=
  inferInstanceAs (Decidable (_ ∧ _))

theorem isNumber_of_isDigit (hne : s ≠ []) (hs : ∀ c ∈ s, c.isDigit = true) : IsNumber s := by
  obtain ⟨c, s, rfl⟩ := List.exists_cons_of_ne_nil hne
  exact ⟨hs c List.mem_cons_self, List.all_eq_true.mpr fun d hd => by rw [hs d hd]; rfl⟩

/-- A number, at a place where no token is open. -/
theorem Reads.number (hs : IsNumber s) (h : Reads names (.number s) rest ts m) :
    Reads names .idle (s ++ rest) ts m := by
  obtain ⟨hhead, hall⟩ := hs
  obtain ⟨c, hhead, hc⟩ := (Option.any_eq_true _ _).mp hhead
  obtain ⟨s, rfl⟩ : ∃ s', s = c :: s' := List.head?_eq_some_iff.mp hhead
  simp only [List.all_eq_true, Bool.or_eq_true, beq_iff_eq] at hall
  have hfirst : Reads names .idle [c] [] (.number [c]) := by
    have hspace : c ≠ ' ' := by rintro rfl; simp at hc
    have hquote : c ≠ '\'' := by rintro rfl; simp at hc
    simp [Reads, feed, step, Mode.continues, close, start, hspace, hquote, hc]
  have hmore : Reads names (.number [c]) s [] (.number ([c] ++ s)) :=
    reads_of_continues (p := fun c => c.isDigit = true ∨ c = '.')
      (fun acc c hc => by simp [Mode.continues, hc]) [c] fun c hc => hall c (by simp [hc])
  exact (hfirst.append hmore).append h

/-- What stands between two quotes. -/
theorem Reads.quoted (hs : ∀ c ∈ s, c ≠ '\'') (h : Reads names .idle rest ts m) :
    Reads names (.quote []) (s ++ '\'' :: rest) (.text s :: ts) m := by
  have hopen : Reads names (.quote []) s [] (.quote s) :=
    reads_of_continues (p := (· ≠ '\'')) (fun acc c hc => by simp [Mode.continues, hc]) [] hs
  have hclose : Reads names (.quote s) ['\''] [.text s] .idle := by
    simp [Reads, feed, step, Mode.continues]
  simpa using (hopen.append hclose).append h

/-- The digits of `x'..'`. -/
theorem Reads.hex {bs : List UInt8} (hs : hexBytes s = some bs) (hquote : ∀ c ∈ s, c ≠ '\'')
    (h : Reads names .idle rest ts m) :
    Reads names (.hex []) (s ++ '\'' :: rest) (.bytes bs :: ts) m := by
  have hopen : Reads names (.hex []) s [] (.hex s) :=
    reads_of_continues (p := (· ≠ '\'')) (fun acc c hc => by simp [Mode.continues, hc]) [] hquote
  have hclose : Reads names (.hex s) ['\''] [.bytes bs] .idle := by
    simp [Reads, feed, step, Mode.continues, hs]
  simpa using (hopen.append hclose).append h

/-- A literal text is read through its characters. -/
theorem reads_literal {names : Names T C} {m m' : Mode} {cs : List Char} {ts : List (Token T C)}
    (h : Reads names m cs ts m') : Reads names m (String.ofList cs).toList ts m' := by
  rw [String.toList_ofList]
  exact h

theorem lex_of_reads (h : Reads names .idle s ts .idle) : lex names s = some ts := by
  have hfeed : feed names .idle s = some (ts, .idle) := h
  simp [lex, hfeed, close]

/-- The value of a number without a point. -/
theorem decimal_toDigits (n : ℕ) : decimal (Nat.toDigits 10 n) = n := by
  have hdigits : ∀ c ∈ Nat.toDigits 10 n, c ≠ '.' := by
    rintro c hc rfl
    simpa using Nat.isDigit_of_mem_toDigits (by decide) (by decide) hc
  have hwhole : (Nat.toDigits 10 n).takeWhile (· ≠ '.') = Nat.toDigits 10 n :=
    List.takeWhile_eq_self_iff.mpr fun c hc => by simpa using hdigits c hc
  have hfraction : (Nat.toDigits 10 n).dropWhile (· ≠ '.') = [] :=
    List.dropWhile_eq_nil_iff.mpr fun c hc => by simpa using hdigits c hc
  simp only [decimal, hwhole, hfraction]
  simp [Nat.ofDigitChars_ten_toDigits]

/-! ### Statements -/

inductive Scalar (C : Type) where
  | number (q : ℚ)
  | bytes (bs : List UInt8)
  | text (s : List Char)
  | column (c : C)
  | unixTimestamp (s : Scalar C)
  | add (s t : Scalar C)
  | sub (s t : Scalar C)
  | mul (s t : Scalar C)
  | div (s t : Scalar C)
  deriving DecidableEq

inductive Comparison where
  | eq | gt | ge | lt
  deriving DecidableEq

/-- Comparisons joined by `AND`. -/
abbrev Condition (C : Type) := List (Scalar C × Comparison × Scalar C)

inductive Item (C : Type) where
  | scalar (s : Scalar C)
  | count
  | aggregate (f : Aggregate) (s : Scalar C)
  | ifnull (i : Item C) (s : Scalar C)
  deriving DecidableEq

structure Query (T C : Type) where
  item : Item C
  table : T
  condition : Condition C
  deriving DecidableEq

inductive Expr (T C : Type) where
  | scalar (s : Scalar C)
  | query (q : Query T C)
  deriving DecidableEq

inductive Statement (T C : Type) where
  | update (table : T) (set : List (C × Expr T C)) (condition : Condition C)
  | insert (table : T) (columns : Option (List C)) (values : List (Expr T C))
      (onDuplicate : Option (List (C × Expr T C)))
  | delete (table : T) (condition : Condition C)
  | select (q : Query T C)
  deriving DecidableEq

/-! ### The grammar -/

/-- What is read, and the tokens behind it. -/
abbrev Parser (T C α : Type) := List (Token T C) → Option (α × List (Token T C))

def symbol (s : Symbol) : Parser T C Unit
  | .symbol s' :: ts => if s' = s then some ((), ts) else none
  | _ => none

def keyword (k : Keyword) : Parser T C Unit
  | .word (.keyword k') :: ts => if k' = k then some ((), ts) else none
  | _ => none

def column : Parser T C C
  | .word (.column c) :: ts => some (c, ts)
  | _ => none

def table : Parser T C T
  | .word .schema :: .symbol .dot :: .word (.table t) :: ts => some (t, ts)
  | .word (.table t) :: ts => some (t, ts)
  | _ => none

/-- `p` in brackets. -/
def parens {α : Type} (p : Parser T C α) : Parser T C α := fun ts => do
  let (_, ts) ← symbol .openParen ts
  let (x, ts) ← p ts
  let (_, ts) ← symbol .closeParen ts
  some (x, ts)

/-- One `p` or more, at most `n`, with `sep` between them. -/
def sepBy {α : Type} (sep : Parser T C Unit) (p : Parser T C α) : ℕ → Parser T C (List α)
  | 0 => fun _ => none
  | n + 1 => fun ts => do
    let (x, ts) ← p ts
    match sep ts with
    | none => some ([x], ts)
    | some (_, ts) => do
      let (xs, ts) ← sepBy sep p n ts
      some (x :: xs, ts)

theorem sepBy_cons {α : Type} {sep : Parser T C Unit} {p : Parser T C α} {n : ℕ} {x : α}
    {xs : List α} {ts us vs ws : List (Token T C)} (hp : p ts = some (x, us))
    (hsep : sep us = some ((), vs)) (hrest : sepBy sep p n vs = some (xs, ws)) :
    sepBy sep p (n + 1) ts = some (x :: xs, ws) := by
  simp [sepBy, hp, hsep, hrest]

theorem sepBy_singleton {α : Type} {sep : Parser T C Unit} {p : Parser T C α} {n : ℕ} {x : α}
    {ts us : List (Token T C)} (hp : p ts = some (x, us)) (hsep : sep us = none) :
    sepBy sep p (n + 1) ts = some ([x], us) := by
  simp [sepBy, hp, hsep]

/-- The rest of a chain of operators that group to the left, at most `n`. -/
def chain (op : Token T C → Option (Scalar C → Scalar C → Scalar C)) (p : Parser T C (Scalar C)) :
    ℕ → Scalar C → Parser T C (Scalar C)
  | 0, s, ts => some (s, ts)
  | _ + 1, s, [] => some (s, [])
  | n + 1, s, t :: ts =>
    match op t with
    | none => some (s, t :: ts)
    | some f => do
      let (s', ts) ← p ts
      chain op p n (f s s') ts

def product : Token T C → Option (Scalar C → Scalar C → Scalar C)
  | .symbol .times => some .mul
  | .symbol .over => some .div
  | _ => none

def addition : Token T C → Option (Scalar C → Scalar C → Scalar C)
  | .symbol .plus => some .add
  | .symbol .minus => some .sub
  | _ => none

def atom (nested : Parser T C (Scalar C)) : Parser T C (Scalar C)
  | .number q :: ts => some (.number q, ts)
  | .bytes bs :: ts => some (.bytes bs, ts)
  | .text s :: ts => some (.text s, ts)
  | .word (.column c) :: ts => some (.column c, ts)
  | .word (.keyword .UNIXTIMESTAMP) :: ts => do
    let (s, ts) ← parens nested ts
    some (.unixTimestamp s, ts)
  | ts => parens nested ts

/-- A scalar whose brackets are nested less than `n` deep, with less than `n`
operators of a kind in a row. -/
def scalar : ℕ → Parser T C (Scalar C)
  | 0 => fun _ => none
  | n + 1 => fun ts => do
    let factors : Parser T C (Scalar C) := fun ts => do
      let (s, ts) ← atom (scalar n) ts
      chain product (atom (scalar n)) n s ts
    let (s, ts) ← factors ts
    chain addition factors n s ts

def comparison : Parser T C Comparison
  | .symbol .equals :: ts => some (.eq, ts)
  | .symbol .greater :: .symbol .equals :: ts => some (.ge, ts)
  | .symbol .greater :: ts => some (.gt, ts)
  | .symbol .less :: ts => some (.lt, ts)
  | _ => none

def test (n : ℕ) : Parser T C (Scalar C × Comparison × Scalar C) := fun ts => do
  let (s, ts) ← scalar n ts
  let (c, ts) ← comparison ts
  let (t, ts) ← scalar n ts
  some ((s, c, t), ts)

def condition (n : ℕ) : Parser T C (Condition C) := sepBy (keyword .AND) (test n) n

theorem test_of_scalars {n : ℕ} {s s' : Scalar C} {c : Comparison}
    {ts us vs ws : List (Token T C)} (hs : scalar n ts = some (s, us))
    (hc : comparison us = some (c, vs)) (hs' : scalar n vs = some (s', ws)) :
    test n ts = some ((s, c, s'), ws) := by
  simp [test, hs, hc, hs']

/-- `WHERE condition`, or no condition. -/
def whereClause (n : ℕ) : Parser T C (Condition C) := fun ts =>
  match keyword .WHERE ts with
  | none => some ([], ts)
  | some (_, ts) => condition n ts

def item : ℕ → Parser T C (Item C)
  | 0 => fun _ => none
  | n + 1 => fun
    | .word .count :: ts => do
      let (_, ts) ← parens (symbol .times) ts
      some (.count, ts)
    | .word (.aggregate f) :: ts => do
      let (s, ts) ← parens (scalar n) ts
      some (.aggregate f s, ts)
    | .word (.keyword .IFNULL) :: ts => parens (fun ts => do
      let (i, ts) ← item n ts
      let (_, ts) ← symbol .comma ts
      let (s, ts) ← scalar n ts
      some (.ifnull i s, ts)) ts
    | ts => do
      let (s, ts) ← scalar n ts
      some (.scalar s, ts)

def query (n : ℕ) : Parser T C (Query T C) := fun ts => do
  let (_, ts) ← keyword .SELECT ts
  let (i, ts) ← item n ts
  let (_, ts) ← keyword .FROM ts
  let (t, ts) ← table ts
  let (c, ts) ← whereClause n ts
  some (⟨i, t, c⟩, ts)

def expr (n : ℕ) : Parser T C (Expr T C)
  | .symbol .openParen :: .word (.keyword .SELECT) :: ts => do
    let (q, ts) ← parens (query n) (.symbol .openParen :: .word (.keyword .SELECT) :: ts)
    some (.query q, ts)
  | ts => do
    let (s, ts) ← scalar n ts
    some (.scalar s, ts)

def assignment (n : ℕ) : Parser T C (C × Expr T C) := fun ts => do
  let (c, ts) ← column ts
  let (_, ts) ← symbol .equals ts
  let (e, ts) ← expr n ts
  some ((c, e), ts)

def assignments (n : ℕ) : Parser T C (List (C × Expr T C)) :=
  sepBy (symbol .comma) (assignment n) n

def columnList (n : ℕ) : Parser T C (Option (List C))
  | .symbol .openParen :: ts => do
    let (cs, ts) ← parens (sepBy (symbol .comma) column n) (.symbol .openParen :: ts)
    some (some cs, ts)
  | ts => some (none, ts)

def onDuplicate (n : ℕ) : Parser T C (Option (List (C × Expr T C))) := fun ts =>
  match keyword .ON ts with
  | none => some (none, ts)
  | some (_, ts) => do
    let (_, ts) ← keyword .DUPLICATE ts
    let (_, ts) ← keyword .KEY ts
    let (_, ts) ← keyword .UPDATE ts
    let (as, ts) ← assignments n ts
    some (some as, ts)

def statement (n : ℕ) : Parser T C (Statement T C)
  | .word (.keyword .UPDATE) :: ts => do
    let (t, ts) ← table ts
    let (_, ts) ← keyword .SET ts
    let (as, ts) ← assignments n ts
    let (c, ts) ← whereClause n ts
    some (.update t as c, ts)
  | .word (.keyword .INSERT) :: ts => do
    let (_, ts) ← keyword .INTO ts
    let (t, ts) ← table ts
    let (cs, ts) ← columnList n ts
    let (_, ts) ← keyword .VALUES ts
    let (es, ts) ← parens (sepBy (symbol .comma) (expr n) n) ts
    let (d, ts) ← onDuplicate n ts
    some (.insert t cs es d, ts)
  | .word (.keyword .DELETE) :: ts => do
    let (_, ts) ← keyword .FROM ts
    let (t, ts) ← table ts
    let (c, ts) ← whereClause n ts
    some (.delete t c, ts)
  | ts => do
    let (q, ts) ← query n ts
    some (.select q, ts)

theorem item_aggregate {n : ℕ} {f : Aggregate} {s : Scalar C} {ts us : List (Token T C)}
    (hs : scalar n ts = some (s, .symbol .closeParen :: us)) :
    item (n + 1) (.word (.aggregate f) :: .symbol .openParen :: ts)
      = some (.aggregate f s, us) := by
  simp [item, parens, symbol, hs]

theorem statement_select {n : ℕ} {i : Item C} {t : T} {cond : Condition C}
    {ts us vs ws : List (Token T C)} (hi : item n ts = some (i, .word (.keyword .FROM) :: us))
    (ht : table us = some (t, vs)) (hcond : whereClause n vs = some (cond, ws)) :
    statement n (.word (.keyword .SELECT) :: ts) = some (.select ⟨i, t, cond⟩, ws) := by
  simp [statement, query, keyword, hi, ht, hcond]

theorem statement_update {n : ℕ} {t : T} {set : List (C × Expr T C)} {cond : Condition C}
    {ts us vs : List (Token T C)} (hset : assignments n ts = some (set, us))
    (hcond : whereClause n us = some (cond, vs)) :
    statement n (.word (.keyword .UPDATE) :: .word (.table t) :: .word (.keyword .SET) :: ts)
      = some (.update t set cond, vs) := by
  simp [statement, table, keyword, hset, hcond]

theorem statement_insert {n : ℕ} {t : T} {es : List (Expr T C)} {ts us : List (Token T C)}
    (hes : sepBy (symbol .comma) (expr n) n ts = some (es, .symbol .closeParen :: us))
    (hon : keyword .ON us = none) :
    statement n (.word (.keyword .INSERT) :: .word (.keyword .INTO) :: .word (.table t) ::
        .word (.keyword .VALUES) :: .symbol .openParen :: ts)
      = some (.insert t none es none, us) := by
  have hnone : onDuplicate n us = some (none, us) := by simp [onDuplicate, hon]
  simp [statement, table, keyword, columnList, parens, symbol, hes, hnone]

/-- Quoted texts with commas between them. -/
def quotedTokens : List Char → List (List Char) → List (Token T C)
  | s, [] => [.text s]
  | s, s' :: ss => .text s :: .symbol .comma :: quotedTokens s' ss

theorem sepBy_quotedTokens (n k : ℕ) (s : List Char) (ss : List (List Char))
    (rest : List (Token T C)) (hk : ss.length < k) :
    sepBy (symbol .comma) (expr (n + 2)) k
        (quotedTokens s ss ++ .symbol .closeParen :: rest : List (Token T C))
      = some ((s :: ss).map fun s => .scalar (.text s), .symbol .closeParen :: rest) := by
  induction ss generalizing s k with
  | nil =>
    obtain ⟨k, rfl⟩ : ∃ j, k = j + 1 := ⟨k - 1, by omega⟩
    exact sepBy_singleton rfl rfl
  | cons s' ss ih =>
    rw [List.length_cons] at hk
    obtain ⟨k, rfl⟩ : ∃ j, k = j + 1 := ⟨k - 1, by omega⟩
    exact sepBy_cons rfl rfl (ih k s' (by omega))

/-- A statement and its semicolon, and nothing behind it. -/
def parseTokens (ts : List (Token T C)) : Option (Statement T C) :=
  match statement ts.length ts with
  | some (s, [.symbol .semicolon]) => some s
  | _ => none

theorem parseTokens_of_statement {st : Statement T C} {ts : List (Token T C)} {n : ℕ}
    (hn : ts.length = n) (h : statement n ts = some (st, [.symbol .semicolon])) :
    parseTokens ts = some st := by
  simp [parseTokens, hn, h]

def parse (names : Names T C) (text : List Char) : Option (Statement T C) := do
  let ts ← lex names text
  parseTokens ts

end SqlSyntax
