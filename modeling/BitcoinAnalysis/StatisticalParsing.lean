/-
How the texts of a report are read.

Each text of a section is a function or a count, an expression, a table and, at
most, a limit of time; each text of a distribution is a count with one bound or
two.  The parts are read one by one (`Spells`, `Limits`, `Compared`, `Heads`), and
a text is the query made of what its parts stand for (`parse_functionQuery`,
`parse_countText`, `parse_bucketText`).
-/
import BitcoinAnalysis.Statistical
import BitcoinAnalysis.QueryParsing

open SqlSyntax SqlSemantics

namespace BitcoinAnalysis

variable {x y s : List Char} {t : Table} {cond : Condition Column} {c : Column}

/-! ### Expressions -/

/-- In front of the bracket that closes a function, the text is the scalar. -/
def Spells (x : List Char) (e : Scalar Column) : Prop :=
  ∃ ts, Reads names .idle (x ++ ") FROM test1.".toList)
      (ts ++ [sym .closeParen, kw .FROM, .word .schema, sym .dot]) .idle ∧
    ∀ n rest, scalar (n + 4) (ts ++ sym .closeParen :: rest)
      = some (e, sym .closeParen :: rest)

/-- `(unix_timestamp(lasttm) - unix_timestamp(firsttm))/86400` -/
def lifetime : Scalar Column :=
  .div (.sub (.unixTimestamp (.column .lasttm)) (.unixTimestamp (.column .firsttm)))
    (.number (decimal "86400".toList))

/-- `incnt + outcnt` -/
def txcount : Scalar Column := .add (.column .incnt) (.column .outcnt)

def lifetimeTokens : List QueryToken :=
  [sym .openParen, kw .UNIXTIMESTAMP, sym .openParen, col .lasttm, sym .closeParen, sym .minus,
   kw .UNIXTIMESTAMP, sym .openParen, col .firsttm, sym .closeParen, sym .closeParen, sym .over,
   .number (decimal "86400".toList)]

section Expressions

-- the literal parts are read by computation, one level for each character
set_option maxRecDepth 4000

/-- The name of a column. -/
theorem spells_column
    (h : Reads names .idle (x ++ ") FROM test1.".toList)
      [col c, sym .closeParen, kw .FROM, .word .schema, sym .dot] .idle) :
    Spells x (.column c) :=
  ⟨[col c], h, fun _ _ => rfl⟩

theorem spells_lifetime : Spells lifetimeText lifetime :=
  ⟨lifetimeTokens, rfl, fun _ _ => rfl⟩

theorem spells_lifetime' : Spells lifetimeText' lifetime :=
  ⟨lifetimeTokens, rfl, fun _ _ => rfl⟩

theorem spells_txcount : Spells "incnt + outcnt".toList txcount :=
  ⟨[col .incnt, sym .plus, col .outcnt], rfl, fun _ _ => rfl⟩

/-! ### Tables and limits of time -/

/-- The name of a table, in front of what may follow it. -/
structure Named (x : List Char) (t : Table) : Prop where
  alone : Reads names .idle (x ++ ";".toList) [tab t, sym .semicolon] .idle
  limited : Reads names .idle (x ++ " WHERE unix_timestamp(".toList)
    [tab t, kw .WHERE, kw .UNIXTIMESTAMP, sym .openParen] .idle

theorem named_addressinfo : Named "addressinfo".toList .addressinfo := ⟨rfl, rfl⟩

theorem named_entityinfo : Named "entityinfo".toList .entityinfo := ⟨rfl, rfl⟩

theorem named_txinfo : Named "txinfo".toList .txinfo := ⟨rfl, rfl⟩

theorem named_blkinfo : Named "blkinfo".toList .blkinfo := ⟨rfl, rfl⟩

/-- The comparison of a column with a time. -/
def timeTest (c : Column) (r : Comparison) (s : List Char) :
    Scalar Column × Comparison × Scalar Column :=
  (.unixTimestamp (.column c), r, .unixTimestamp (.text s))

/-- The name of a table and what stands behind it, up to the semicolon. -/
def Limits (y : List Char) (t : Table) (cond : Condition Column) : Prop :=
  ∃ ts, Reads names .idle y (tab t :: ts) .idle ∧
    ∀ n, whereClause (n + 4) ts = some (cond, [sym .semicolon])

theorem limits_none (h : Named x t) : Limits (x ++ ";".toList) t [] :=
  ⟨_, h.alone, fun _ => rfl⟩

/-- The tokens of a limit of time. -/
theorem reads_time_limit {relation : List Char} {symbol : Symbol} (h : Named x t)
    (hc : Reads names .idle (y ++ ") ".toList) [col c, sym .closeParen] .idle)
    (hr : Reads names .idle (relation ++ " unix_timestamp('".toList)
      [sym symbol, kw .UNIXTIMESTAMP, sym .openParen] (.quote []))
    (hs : ∀ c ∈ s, c ≠ '\'') :
    Reads names .idle (x ++ timeText y relation s)
      (tab t :: kw .WHERE :: kw .UNIXTIMESTAMP :: sym .openParen :: col c :: sym .closeParen ::
        sym symbol :: kw .UNIXTIMESTAMP :: sym .openParen :: .text s :: sym .closeParen ::
        [sym .semicolon]) .idle := by
  have hlast : Reads names (.quote []) (s ++ "');".toList)
      [.text s, sym .closeParen, sym .semicolon] .idle := reads_quoted hs rfl
  have hassoc : ∀ a b c d e : List Char, a ++ (b ++ c ++ d ++ e) = a ++ b ++ c ++ d ++ e := by
    intro a b c d e
    simp only [List.append_assoc]
  have hall := ((h.limited.append hc).append hr).append hlast
  rw [← hassoc] at hall
  simp only [List.cons_append, List.nil_append] at hall
  exact hall

theorem limits_before (h : Named x t)
    (hc : Reads names .idle (y ++ ") ".toList) [col c, sym .closeParen] .idle)
    (hs : ∀ c ∈ s, c ≠ '\'') :
    Limits (x ++ timeText y "<".toList s) t [timeTest c .lt s] :=
  ⟨_, reads_time_limit h hc rfl hs, fun _ => rfl⟩

theorem limits_after (h : Named x t)
    (hc : Reads names .idle (y ++ ") ".toList) [col c, sym .closeParen] .idle)
    (hs : ∀ c ∈ s, c ≠ '\'') :
    Limits (x ++ timeText y ">".toList s) t [timeTest c .gt s] :=
  ⟨_, reads_time_limit h hc rfl hs, fun _ => rfl⟩

/-! ### The texts of a section -/

theorem reads_function (f : Aggregate) :
    Reads names .idle ("SELECT ".toList ++ (functionText f ++ "(".toList))
      [kw .SELECT, .word (.aggregate f), sym .openParen] .idle := by
  cases f <;> rfl

end Expressions

theorem parse_functionQuery {table tail : List Char} {e : Scalar Column} (f : Aggregate)
    (hx : Spells x e) (hy : Limits (table ++ tail) t cond) :
    parse names (functionQuery table tail x f) = some (.select ⟨.aggregate f e, t, cond⟩) := by
  obtain ⟨ts, hreads, hscalar⟩ := hx
  obtain ⟨us, hlimit, hwhere⟩ := hy
  have hall := ((reads_function f).append hreads).append hlimit
  refine parse_of_reads hall ?_
  have hn : ([kw .SELECT, .word (.aggregate f), sym .openParen]
      ++ (ts ++ [sym .closeParen, kw .FROM, .word .schema, sym .dot]) ++ (tab t :: us)).length
      = ts.length + us.length + 3 + 5 := by
    simp only [List.length_append, List.length_cons, List.length_nil]
    omega
  refine parseTokens_of_statement hn ?_
  simp only [List.cons_append, List.nil_append, List.append_assoc]
  exact statement_select (item_aggregate (hscalar _ _)) rfl (hwhere _)

theorem parse_countText (hy : Limits (x ++ y) t cond) :
    parse names (countText x y) = some (.select ⟨.count, t, cond⟩) := by
  obtain ⟨us, hlimit, hwhere⟩ := hy
  have hhead : Reads names .idle "SELECT count(*) FROM test1.".toList
      [kw .SELECT, .word .count, sym .openParen, sym .times, sym .closeParen, kw .FROM,
       .word .schema, sym .dot] .idle := reads_literal rfl
  refine parse_of_reads (hhead.append hlimit) ?_
  refine parseTokens_of_statement (n := us.length + 5 + 4) ?_
    (statement_select rfl rfl (hwhere _))
  simp only [List.length_append, List.length_cons, List.length_nil]
  omega

/-- `SELECT IFNULL(sum(bal),0) FROM ..` -/
theorem parse_ifnullText (hy : Limits y t cond) :
    parse names ("SELECT IFNULL(sum(bal),0) FROM test1.".toList ++ y)
      = some (.select ⟨.ifnull (.aggregate .sum (.column .bal)) (.number (decimal ['0'])), t,
          cond⟩) := by
  obtain ⟨us, hlimit, hwhere⟩ := hy
  have hhead : Reads names .idle "SELECT IFNULL(sum(bal),0) FROM test1.".toList
      [kw .SELECT, kw .IFNULL, sym .openParen, .word (.aggregate .sum), sym .openParen, col .bal,
       sym .closeParen, sym .comma, .number (decimal ['0']), sym .closeParen, kw .FROM,
       .word .schema, sym .dot] .idle := reads_literal rfl
  refine parse_of_reads (hhead.append hlimit) ?_
  refine parseTokens_of_statement (n := us.length + 10 + 4) ?_
    (statement_select rfl rfl (hwhere _))
  simp only [List.length_append, List.length_cons, List.length_nil]
  omega

/-! ### The texts of a distribution -/

def boundScalar (btc : Bool) (s : List Char) : Scalar Column :=
  if btc then .mul (.number (decimal s)) (.number (decimal "100000000".toList))
  else .number (decimal s)

def boundTokens (btc : Bool) (s : List Char) : List QueryToken :=
  if btc then [.number (decimal s), sym .times, .number (decimal "100000000".toList)]
  else [.number (decimal s)]

theorem reads_bound_and (btc : Bool) (hs : IsNumber s) :
    Reads names .idle (s ++ (unitText btc ++ " AND ".toList)) (boundTokens btc s ++ [kw .AND])
      .idle := by
  cases btc with
  | false => exact Reads.number hs rfl
  | true => exact Reads.number hs rfl

theorem reads_bound_end (btc : Bool) (hs : IsNumber s) :
    Reads names .idle (s ++ (unitText btc ++ ";".toList)) (boundTokens btc s ++ [sym .semicolon])
      .idle := by
  cases btc with
  | false => exact Reads.number hs rfl
  | true => exact Reads.number hs rfl

theorem scalar_bound_and (n : ℕ) (btc : Bool) (s : List Char) (rest : List QueryToken) :
    scalar (n + 4) (boundTokens btc s ++ kw .AND :: rest)
      = some (boundScalar btc s, kw .AND :: rest) := by
  cases btc <;> rfl

theorem scalar_bound_end (n : ℕ) (btc : Bool) (s : List Char) :
    scalar (n + 4) (boundTokens btc s ++ [sym .semicolon])
      = some (boundScalar btc s, [sym .semicolon]) := by
  cases btc <;> rfl

/-- In front of `>=` and of `<` the text is the scalar. -/
def Compared (x : List Char) (e : Scalar Column) : Prop :=
  ∃ ts, Reads names .idle (x ++ ">=".toList) (ts ++ [sym .greater, sym .equals]) .idle ∧
    Reads names .idle (x ++ "<".toList) (ts ++ [sym .less]) .idle ∧
    (∀ n rest, scalar (n + 4) (ts ++ sym .greater :: rest) = some (e, sym .greater :: rest)) ∧
    ∀ n rest, scalar (n + 4) (ts ++ sym .less :: rest) = some (e, sym .less :: rest)

theorem compared_column
    (hge : Reads names .idle (x ++ ">=".toList) [col c, sym .greater, sym .equals] .idle)
    (hlt : Reads names .idle (x ++ "<".toList) [col c, sym .less] .idle) :
    Compared x (.column c) :=
  ⟨[col c], hge, hlt, fun _ _ => rfl, fun _ _ => rfl⟩

theorem compared_txcount : Compared "(incnt+outcnt)".toList txcount :=
  ⟨[sym .openParen, col .incnt, sym .plus, col .outcnt, sym .closeParen], rfl, rfl,
    fun _ _ => rfl, fun _ _ => rfl⟩

/-- What stands in front of the bounds: `SELECT count(*) FROM t WHERE`, and some
tests, each with its `AND`. -/
def Heads (y : List Char) (t : Table) (cond : Condition Column) : Prop :=
  ∃ us ts, Reads names .idle y (kw .SELECT :: .word .count :: sym .openParen :: sym .times ::
      sym .closeParen :: kw .FROM :: (us ++ kw .WHERE :: ts)) .idle ∧
    (∀ rest, table (us ++ rest) = some (t, rest)) ∧ cond.length ≤ ts.length ∧
    ∀ n k rest rest' cond', sepBy (keyword .AND) (test (n + 4)) k rest = some (cond', rest') →
      sepBy (keyword .AND) (test (n + 4)) (k + cond.length) (ts ++ rest)
        = some (cond ++ cond', rest')

theorem heads_countWhere {table : String}
    (h : Reads names .idle (countWhere table)
      [kw .SELECT, .word .count, sym .openParen, sym .times, sym .closeParen, kw .FROM, tab t,
       kw .WHERE] .idle) : Heads (countWhere table) t [] :=
  ⟨[tab t], [], h, fun _ => rfl, le_rfl, fun _ _ _ _ _ h => h⟩

set_option maxRecDepth 4000 in
/-- The text in front of the bounds of `OutvalOfTx`. -/
theorem heads_after (hs : ∀ c ∈ s, c ≠ '\'') :
    Heads (countWhere "txinfo" ++ "unix_timestamp(txtime) > unix_timestamp('".toList
      ++ (s ++ "') AND ".toList)) .txinfo [timeTest .txtime .gt s] := by
  have hhead : Reads names .idle
      (countWhere "txinfo" ++ "unix_timestamp(txtime) > unix_timestamp('".toList)
      [kw .SELECT, .word .count, sym .openParen, sym .times, sym .closeParen, kw .FROM,
       tab .txinfo, kw .WHERE, kw .UNIXTIMESTAMP, sym .openParen, col .txtime, sym .closeParen,
       sym .greater, kw .UNIXTIMESTAMP, sym .openParen] (.quote []) := rfl
  have htime : Reads names (.quote []) (s ++ "') AND ".toList)
      [.text s, sym .closeParen, kw .AND] .idle := reads_quoted hs rfl
  have hall := hhead.append htime
  simp only [List.cons_append, List.nil_append] at hall
  refine ⟨[tab .txinfo], _, hall, fun _ => rfl, by simp, fun n k rest rest' cond' h => ?_⟩
  exact sepBy_cons rfl rfl h

set_option maxRecDepth 4000 in
/-- The text in front of the bounds of `tx_amount` and `tx_size`. -/
theorem heads_window {before : List Char} (hs : ∀ c ∈ s, c ≠ '\'')
    (hbefore : ∀ c ∈ before, c ≠ '\'') :
    Heads (txTimeText s before) .txinfo
      [timeTest .txtime .ge s, timeTest .txtime .lt before] := by
  have hhead : Reads names .idle
      "SELECT count(*) FROM test1.txinfo WHERE unix_timestamp(txtime) >= unix_timestamp('".toList
      [kw .SELECT, .word .count, sym .openParen, sym .times, sym .closeParen, kw .FROM,
       .word .schema, sym .dot, tab .txinfo, kw .WHERE, kw .UNIXTIMESTAMP, sym .openParen,
       col .txtime, sym .closeParen, sym .greater, sym .equals, kw .UNIXTIMESTAMP,
       sym .openParen] (.quote []) := rfl
  have hafter : Reads names (.quote [])
      (s ++ "') AND unix_timestamp(txtime) < unix_timestamp('".toList)
      [.text s, sym .closeParen, kw .AND, kw .UNIXTIMESTAMP, sym .openParen, col .txtime,
       sym .closeParen, sym .less, kw .UNIXTIMESTAMP, sym .openParen] (.quote []) :=
    reads_quoted hs rfl
  have htime : Reads names (.quote []) (before ++ "') AND ".toList)
      [.text before, sym .closeParen, kw .AND] .idle := reads_quoted hbefore rfl
  have hall := (hhead.append hafter).append htime
  simp only [List.cons_append, List.nil_append] at hall
  refine ⟨[.word .schema, sym .dot, tab .txinfo], _, hall, fun _ => rfl, by simp,
    fun n k rest rest' cond' h => ?_⟩
  exact sepBy_cons rfl rfl (sepBy_cons rfl rfl h)

/-- The comparisons of a bucket. -/
def bucketTests (btc : Bool) (e : Scalar Column) (bounds : String × Option String) :
    Condition Column :=
  (e, .ge, boundScalar btc bounds.1.toList) ::
    (bounds.2.map fun high => (e, .lt, boundScalar btc high.toList)).toList

/-- The bounds are numbers. -/
def AreNumbers (bounds : String × Option String) : Prop :=
  IsNumber bounds.1.toList ∧ ∀ high ∈ bounds.2, IsNumber high.toList

instance decidableAreNumbers (bounds : String × Option String) : Decidable (AreNumbers bounds) :=
  inferInstanceAs (Decidable (_ ∧ _))

theorem parse_bucketText {e : Scalar Column} {btc : Bool} {bounds : String × Option String}
    (hy : Heads y t cond) (hx : Compared x e) (hb : AreNumbers bounds) :
    parse names (bucketText y x btc bounds)
      = some (.select ⟨.count, t, cond ++ bucketTests btc e bounds⟩) := by
  obtain ⟨us, ts, hhead, htable, hlength, hcond⟩ := hy
  obtain ⟨xs, hge, hlt, hscalarGe, hscalarLt⟩ := hx
  obtain ⟨low, high⟩ := bounds
  obtain ⟨hlow, hhigh⟩ := hb
  -- the tokens behind `ts`, and the tests they make
  obtain ⟨rest, hreads, htests⟩ : ∃ rest,
      Reads names .idle (bucketText y x btc (low, high))
        (kw .SELECT :: .word .count :: sym .openParen :: sym .times :: sym .closeParen ::
          kw .FROM :: (us ++ kw .WHERE :: (ts ++ rest))) .idle ∧
      ∀ n k, sepBy (keyword .AND) (test (n + 4)) (k + 2) rest
        = some (bucketTests btc e (low, high), [sym .semicolon]) := by
    cases high with
    | none =>
      refine ⟨xs ++ [sym .greater, sym .equals] ++ (boundTokens btc low.toList ++
        [sym .semicolon]), ?_, fun n k => ?_⟩
      · have hall := (hhead.append hge).append (reads_bound_end btc hlow)
        simpa only [bucketText, List.cons_append, List.append_assoc] using hall
      · simp only [List.append_assoc, List.cons_append, List.nil_append]
        exact sepBy_singleton
          (test_of_scalars (hscalarGe n _) rfl (scalar_bound_end n btc _)) rfl
    | some high =>
      refine ⟨xs ++ [sym .greater, sym .equals] ++ (boundTokens btc low.toList ++ [kw .AND]) ++
        (xs ++ [sym .less] ++ (boundTokens btc high.toList ++ [sym .semicolon])), ?_,
        fun n k => ?_⟩
      · have hall := ((hhead.append hge).append (reads_bound_and btc hlow)).append
          (hlt.append (reads_bound_end btc (hhigh high rfl)))
        simpa only [bucketText, List.cons_append, List.append_assoc] using hall
      · simp only [List.append_assoc, List.cons_append, List.nil_append]
        exact sepBy_cons (test_of_scalars (hscalarGe n _) rfl (scalar_bound_and n btc _ _)) rfl
          (sepBy_singleton
            (test_of_scalars (hscalarLt n _) rfl (scalar_bound_end n btc _)) rfl)
  refine parse_of_reads hreads (parseTokens_of_statement
    (n := us.length + ts.length + rest.length + 3 + 4) ?_
    (statement_select rfl (htable _) ?_))
  · simp only [List.length_append, List.length_cons]
    omega
  · have hsum : us.length + ts.length + rest.length + 3 + 4
        = us.length + (ts.length - cond.length) + rest.length + 5 + 2 + cond.length := by omega
    have hall := hcond (us.length + ts.length + rest.length + 3) _ _ _ _
      (htests (us.length + ts.length + rest.length + 3)
        (us.length + (ts.length - cond.length) + rest.length + 5))
    rw [← hsum] at hall
    exact hall

end BitcoinAnalysis
