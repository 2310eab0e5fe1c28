/-
How the query texts are read.

Whatever the numbers, times and hashes in it, a text is one statement of the
expected form (`Stmt.parse_text`, `parse_selectEntityText`): the literal parts
yield fixed tokens, and between them stand decimal digits, hexadecimal digits or
a quoted text, none of which can end its token early.
-/
import BitcoinAnalysis.QueryTexts

open SqlSyntax SqlSemantics Calendar

namespace BitcoinAnalysis

/-! ### The variable parts -/

theorem isDigit_decimalText (n : ℕ) : ∀ c ∈ decimalText n, c.isDigit = true := by
  intro c hc
  exact Nat.isDigit_of_mem_toDigits (by decide) (by decide) hc

theorem decimalText_ne_nil (n : ℕ) : decimalText n ≠ [] := Nat.toDigits_ne_nil

theorem ne_quote_of_isDigit {c : Char} (h : c.isDigit = true) : c ≠ '\'' := by
  rintro rfl
  simp at h

theorem hexDigit_digitChar {n : ℕ} (h : n < 16) : hexDigit (Nat.digitChar n) = some n := by
  interval_cases n <;> rfl

theorem digitChar_ne_quote {n : ℕ} (h : n < 16) : Nat.digitChar n ≠ '\'' := by
  interval_cases n <;> decide

theorem hexBytes_flatMap_hex02 (bs : List UInt8) : hexBytes (bs.flatMap hex02) = some bs := by
  induction bs with
  | nil => rfl
  | cons b bs ih =>
    have hlt := b.toNat_lt
    have hhigh : hexDigit (Nat.digitChar (b.toNat / 16)) = some (b.toNat / 16) :=
      hexDigit_digitChar (by omega)
    have hlow : hexDigit (Nat.digitChar (b.toNat % 16)) = some (b.toNat % 16) :=
      hexDigit_digitChar (by omega)
    have hb : UInt8.ofNat (16 * (b.toNat / 16) + b.toNat % 16) = b := by
      rw [Nat.div_add_mod, UInt8.ofNat_toNat]
    simp only [List.flatMap_cons, hex02, List.cons_append, List.nil_append, hexBytes, hhigh, hlow,
      ih, Option.bind_eq_bind, Option.bind_some, hb]

theorem flatMap_hex02_ne_quote (bs : List UInt8) : ∀ c ∈ bs.flatMap hex02, c ≠ '\'' := by
  intro c hc
  obtain ⟨b, -, hb⟩ := List.mem_flatMap.mp hc
  have hlt := b.toNat_lt
  rw [hex02, List.mem_cons, List.mem_singleton] at hb
  rcases hb with rfl | rfl
  · exact digitChar_ne_quote (by omega)
  · exact digitChar_ne_quote (by omega)

/-- `%08x` writes the four bytes of the column. -/
theorem hex08_eq (e : UInt32) : hex08 e = (entityColumn e).1.flatMap hex02 := by
  simp only [hex08, entityColumn, LittleEndian.leBytes, List.reverse_cons, List.reverse_nil,
    List.nil_append, List.cons_append, List.flatMap_cons, List.flatMap_nil, hex02,
    List.append_nil, List.map_cons, List.map_nil, UInt8.toNat_ofNat']
  simp only [List.cons.injEq, and_true]
  refine ⟨?_, ?_, ?_, ?_, ?_, ?_, ?_, ?_⟩ <;> congr 1 <;> omega

/-! ### Times -/

theorem isDigit_twoDigits {n : ℕ} (h : n < 100) : ∀ c ∈ twoDigits n, c.isDigit = true := by
  have hdigit : ∀ m < 10, (Nat.digitChar m).isDigit = true := by decide
  intro c hc
  rw [twoDigits, List.mem_cons, List.mem_singleton] at hc
  rcases hc with rfl | rfl
  · exact hdigit _ (by omega)
  · exact hdigit _ (by omega)

theorem toNat_digitChar {m : ℕ} (h : m < 10) : (Nat.digitChar m).toNat - '0'.toNat = m := by
  interval_cases m <;> rfl

theorem ofDigitChars_twoDigits {n : ℕ} (h : n < 100) (init : ℕ) :
    Nat.ofDigitChars 10 (twoDigits n) init = 100 * init + n := by
  rw [twoDigits, Nat.ofDigitChars_cons, Nat.ofDigitChars_cons, toNat_digitChar (by omega),
    toNat_digitChar (by omega), Nat.ofDigitChars_nil]
  omega

theorem not_mem_quote_getTimeString (ts : UInt32) : ∀ c ∈ getTimeString ts, c ≠ '\'' := by
  obtain ⟨hmonth, hday, hhour, hminute, hsecond⟩ := ofUnix_bounds ts.toNat
  have hyear : (DateTime.ofUnix ts.toNat).year < 10000 := ofUnix_year_lt ts.toNat_lt
  have htwo : ∀ n < 100, ∀ c ∈ twoDigits n, c ≠ '\'' :=
    fun n hn c hc => ne_quote_of_isDigit (isDigit_twoDigits hn c hc)
  intro c hc
  simp only [getTimeString, List.mem_append, List.mem_cons] at hc
  rcases hc with (hc | hc) | rfl | hc | rfl | hc | rfl | hc | rfl | hc | rfl | hc
  all_goals first | decide | exact htwo _ (by omega) c hc

/-- **A time that was written is read back.** -/
theorem readTime_getTimeString (ts : UInt32) :
    readTime (getTimeString ts) = some (ts.toNat : ℤ) := by
  obtain ⟨hmonth, hday, hhour, hminute, hsecond⟩ := ofUnix_bounds ts.toNat
  have hyear : (DateTime.ofUnix ts.toNat).year < 10000 := ofUnix_year_lt ts.toNat_lt
  have hunix := unix_ofUnix ts.toNat
  set gtm := DateTime.ofUnix ts.toNat with hgtm
  have hdigits : ∀ n < 100, ∀ c ∈ twoDigits n, (!c.isDigit) = false :=
    fun n hn c hc => by rw [isDigit_twoDigits hn c hc]; rfl
  have hfour : ∀ c ∈ twoDigits (gtm.year / 100) ++ twoDigits (gtm.year % 100),
      (!c.isDigit) = false := by
    intro c hc
    rcases List.mem_append.mp hc with hc | hc
    · exact hdigits _ (by omega) c hc
    · exact hdigits _ (by omega) c hc
  have hyearText : Nat.ofDigitChars 10
      (twoDigits (gtm.year / 100) ++ twoDigits (gtm.year % 100)) 0 = gtm.year := by
    rw [Nat.ofDigitChars_append, ofDigitChars_twoDigits (by omega),
      ofDigitChars_twoDigits (by omega)]
    omega
  simp only [readTime, getTimeString, ← hgtm]
  rw [List.splitOnP_append_cons_of_forall_mem hfour _ (by decide),
    List.splitOnP_append_cons_of_forall_mem (hdigits _ hmonth) _ (by decide),
    List.splitOnP_append_cons_of_forall_mem (hdigits _ hday) _ (by decide),
    List.splitOnP_append_cons_of_forall_mem (hdigits _ hhour) _ (by decide),
    List.splitOnP_append_cons_of_forall_mem (hdigits _ hminute) _ (by decide),
    List.splitOnP_eq_singleton (hdigits _ hsecond)]
  simp only [List.map_cons, List.map_nil, hyearText, ofDigitChars_twoDigits hmonth,
    ofDigitChars_twoDigits hday, ofDigitChars_twoDigits hhour, ofDigitChars_twoDigits hminute,
    ofDigitChars_twoDigits hsecond, Nat.mul_zero, Nat.zero_add]
  exact congrArg some hunix

/-! ### Tokens -/

abbrev QueryToken := Token Table Column

abbrev kw (k : Keyword) : QueryToken := .word (.keyword k)

abbrev tab (t : Table) : QueryToken := .word (.table t)

abbrev col (c : Column) : QueryToken := .word (.column c)

abbrev sym (s : Symbol) : QueryToken := .symbol s

variable {s : List Char} {ts : List QueryToken} {m : Mode}

/-- Decimal digits and the literal behind them. -/
theorem reads_decimal (n : ℕ) (h : Reads names (.number (decimalText n)) s ts m) :
    Reads names .idle (decimalText n ++ s) ts m :=
  Reads.number (isNumber_of_isDigit (decimalText_ne_nil n) (isDigit_decimalText n)) h

/-- A text in quotes and the literal behind it. -/
theorem reads_quoted {q : List Char} (hq : ∀ c ∈ q, c ≠ '\'') (h : Reads names .idle s ts m) :
    Reads names (.quote []) (q ++ (String.ofList ('\'' :: s)).toList) (.text q :: ts) m := by
  rw [String.toList_ofList]
  exact Reads.quoted hq h

/-- Decimal digits in quotes and the literal behind them. -/
theorem reads_quotedDecimal (n : ℕ) (h : Reads names .idle s ts m) :
    Reads names (.quote []) (decimalText n ++ (String.ofList ('\'' :: s)).toList)
      (.text (decimalText n) :: ts) m :=
  reads_quoted (fun c hc => ne_quote_of_isDigit (isDigit_decimalText n c hc)) h

theorem reads_time (u : UInt32) (h : Reads names .idle s ts m) :
    Reads names (.quote []) (getTimeString u ++ (String.ofList ('\'' :: s)).toList)
      (.text (getTimeString u) :: ts) m :=
  reads_quoted (not_mem_quote_getTimeString u) h

/-- Bytes in hexadecimal and the literal behind them. -/
theorem reads_hex (bs : List UInt8) (h : Reads names .idle s ts m) :
    Reads names (.hex []) (bs.flatMap hex02 ++ (String.ofList ('\'' :: s)).toList)
      (.bytes bs :: ts) m := by
  rw [String.toList_ofList]
  exact Reads.hex (hexBytes_flatMap_hex02 bs) (flatMap_hex02_ne_quote bs) h

theorem reads_entity (e : UInt32) (h : Reads names .idle s ts m) :
    Reads names (.hex []) (hex08 e ++ (String.ofList ('\'' :: s)).toList)
      (.bytes (entityColumn e).1 :: ts) m := by
  rw [hex08_eq]
  exact reads_hex _ h

theorem parse_of_reads {st : Statement Table Column} (h : Reads names .idle s ts .idle)
    (hparse : parseTokens ts = some st) : parse names s = some st := by
  rw [parse, lex_of_reads h]
  exact hparse

/-! ### The statements -/

/-- `c = x'..'` -/
def keyIs (c : Column) (bs : List UInt8) : Condition Column := [(.column c, .eq, .bytes bs)]

/-- `(SELECT item FROM addressinfo WHERE entity=x'..')` -/
def ofEntity (e : UInt32) (i : Item Column) : Expr Table Column :=
  .query ⟨i, .addressinfo, keyIs .entity (entityColumn e).1⟩

/-- The difference `outval-inval`. -/
def balance : Expr Table Column := .scalar (.sub (.column .outval) (.column .inval))

/-- `c=c+n` -/
def increment (c : Column) (q : ℚ) : Column × Expr Table Column :=
  (c, .scalar (.add (.column c) (.number q)))

def quotedNumber (n : ℕ) : Expr Table Column := .scalar (.text (decimalText n))

def quotedTime (u : UInt32) : Expr Table Column := .scalar (.text (getTimeString u))

/-- The statement a text stands for. -/
def Stmt.statement (diffOf : UInt32 → ℕ) : Stmt → Statement Table Column
  | .relabelEntity e0 e =>
    .update .addressinfo [(.entity, .scalar (.bytes (entityColumn e0).1))]
      (keyIs .entity (entityColumn e).1)
  | .deleteEntity e => .delete .entityinfo (keyIs .entity (entityColumn e).1)
  | .insertEntity e =>
    .insert .entityinfo (some [.entity]) [.scalar (.bytes (entityColumn e).1)] none
  | .setEntity a e =>
    .update .addressinfo [(.entity, .scalar (.bytes (entityColumn e).1))] (keyIs .address a.1)
  | .aggregateEntity e =>
    .update .entityinfo
      [(.addcnt, ofEntity e .count), (.inval, ofEntity e (.aggregate .sum (.column .inval))),
       (.outval, ofEntity e (.aggregate .sum (.column .outval))),
       (.firsttm, ofEntity e (.aggregate .min (.column .firsttm))),
       (.lasttm, ofEntity e (.aggregate .max (.column .lasttm))),
       (.bal, ofEntity e (.aggregate .sum (.column .bal))),
       (.maxbal, ofEntity e (.aggregate .sum (.column .maxbal))),
       (.incnt, ofEntity e (.aggregate .sum (.column .incnt))),
       (.outcnt, ofEntity e (.aggregate .sum (.column .outcnt)))]
      (keyIs .entity (entityColumn e).1)
  | .insertTx row =>
    .insert .txinfo none
      [.scalar (.bytes row.txhash.1), quotedNumber row.txcounter.toNat,
       quotedNumber row.blocknumber.toNat, quotedTime row.txtime,
       quotedNumber row.rawlength.toNat, quotedNumber row.txfee.toNat,
       quotedNumber row.incounter.toNat, quotedNumber row.invalue.toNat,
       quotedNumber row.outcounter.toNat, quotedNumber row.outvalue.toNat] none
  | .updateInput a v t =>
    .update .addressinfo
      [increment .inval (decimal (decimalText v.toNat)), (.lasttm, quotedTime t), (.bal, balance),
       increment .incnt (decimal ['1'])]
      (keyIs .address a.1)
  | .upsertOutput a v t =>
    .insert .addressinfo (some [.address, .outval, .firsttm, .lasttm, .bal])
      [.scalar (.bytes a.1), quotedNumber v.toNat, quotedTime t, quotedTime t, balance]
      (some [increment .outval (decimal (decimalText v.toNat)), (.lasttm, quotedTime t),
        (.bal, balance), increment .outcnt (decimal ['1'])])
  | .updateMaxbal a =>
    .update .addressinfo [(.maxbal, .scalar (.column .bal))]
      ((.column .bal, .gt, .column .maxbal) :: keyIs .address a.1)
  | .insertBlk row =>
    .insert .blkinfo none
      [.scalar (.bytes row.curhash.1), quotedNumber row.blocknumber.toNat,
       quotedNumber row.blocksize.toNat, quotedNumber row.transCount.toNat,
       quotedTime row.blktime, quotedNumber (diffOf row.bits),
       quotedNumber row.reward.toNat] none

/-! ### One lemma for each text -/

section Texts

-- the literal parts are read by computation, one level for each character
set_option maxRecDepth 4000

variable (diffOf : UInt32 → ℕ)

theorem parse_relabelEntity (e0 e : UInt32) :
    parse names (Stmt.text diffOf (.relabelEntity e0 e))
      = some (Stmt.statement diffOf (.relabelEntity e0 e)) := by
  have hhead : Reads names .idle "UPDATE addressinfo SET entity = x'".toList
      [kw .UPDATE, tab .addressinfo, kw .SET, col .entity, sym .equals] (.hex []) :=
    reads_literal rfl
  have hset : Reads names (.hex []) (hex08 e0 ++ "' WHERE entity = x'".toList)
      [.bytes (entityColumn e0).1, kw .WHERE, col .entity, sym .equals] (.hex []) :=
    reads_entity e0 rfl
  have hwhere : Reads names (.hex []) (hex08 e ++ "';".toList)
      [.bytes (entityColumn e).1, sym .semicolon] .idle := reads_entity e rfl
  exact parse_of_reads ((hhead.append hset).append hwhere) rfl

theorem parse_deleteEntity (e : UInt32) :
    parse names (Stmt.text diffOf (.deleteEntity e))
      = some (Stmt.statement diffOf (.deleteEntity e)) := by
  have hhead : Reads names .idle "DELETE FROM entityinfo WHERE entity = x'".toList
      [kw .DELETE, kw .FROM, tab .entityinfo, kw .WHERE, col .entity, sym .equals] (.hex []) :=
    reads_literal rfl
  have hwhere : Reads names (.hex []) (hex08 e ++ "';".toList)
      [.bytes (entityColumn e).1, sym .semicolon] .idle := reads_entity e rfl
  exact parse_of_reads (hhead.append hwhere) rfl

theorem parse_updateInput (a : Address) (v : UInt64) (u : UInt32) :
    parse names (Stmt.text diffOf (.updateInput a v u))
      = some (Stmt.statement diffOf (.updateInput a v u)) := by
  have hhead : Reads names .idle "UPDATE addressinfo SET inval=inval+".toList
      [kw .UPDATE, tab .addressinfo, kw .SET, col .inval, sym .equals, col .inval, sym .plus]
      .idle := reads_literal rfl
  have hvalue : Reads names .idle (decimalText v.toNat ++ ",lasttm='".toList)
      [.number (decimal (decimalText v.toNat)), sym .comma, col .lasttm, sym .equals]
      (.quote []) := reads_decimal v.toNat rfl
  have htime : Reads names (.quote [])
      (getTimeString u ++ "',bal=outval-inval,incnt=incnt+1 WHERE address=x'".toList)
      [.text (getTimeString u), sym .comma, col .bal, sym .equals, col .outval, sym .minus,
       col .inval, sym .comma, col .incnt, sym .equals, col .incnt, sym .plus,
       .number (decimal ['1']), kw .WHERE, col .address, sym .equals] (.hex []) :=
    reads_time u rfl
  have hwhere : Reads names (.hex []) (addressHex a ++ "';".toList)
      [.bytes a.1, sym .semicolon] .idle := reads_hex a.1 rfl
  exact parse_of_reads (((hhead.append hvalue).append htime).append hwhere) rfl

theorem parse_insertEntity (e : UInt32) :
    parse names (Stmt.text diffOf (.insertEntity e))
      = some (Stmt.statement diffOf (.insertEntity e)) := by
  have hhead : Reads names .idle "INSERT INTO entityinfo(entity) VALUES(x'".toList
      [kw .INSERT, kw .INTO, tab .entityinfo, sym .openParen, col .entity, sym .closeParen,
       kw .VALUES, sym .openParen] (.hex []) := reads_literal rfl
  have hvalue : Reads names (.hex []) (hex08 e ++ "');".toList)
      [.bytes (entityColumn e).1, sym .closeParen, sym .semicolon] .idle := reads_entity e rfl
  exact parse_of_reads (hhead.append hvalue) rfl

theorem parse_setEntity (a : Address) (e : UInt32) :
    parse names (Stmt.text diffOf (.setEntity a e))
      = some (Stmt.statement diffOf (.setEntity a e)) := by
  have hhead : Reads names .idle "UPDATE addressinfo SET entity = x'".toList
      [kw .UPDATE, tab .addressinfo, kw .SET, col .entity, sym .equals] (.hex []) :=
    reads_literal rfl
  have hset : Reads names (.hex []) (hex08 e ++ "' WHERE address = x'".toList)
      [.bytes (entityColumn e).1, kw .WHERE, col .address, sym .equals] (.hex []) :=
    reads_entity e rfl
  have hwhere : Reads names (.hex []) (addressHex a ++ "';".toList)
      [.bytes a.1, sym .semicolon] .idle := reads_hex a.1 rfl
  exact parse_of_reads ((hhead.append hset).append hwhere) rfl

/-- The tokens of `'),c = (SELECT f(c) FROM addressinfo WHERE entity=x'` behind the
bytes. -/
def subqueryTokens (c : Column) (f : Aggregate) : List QueryToken :=
  [sym .closeParen, sym .comma, col c, sym .equals, sym .openParen, kw .SELECT,
   .word (.aggregate f), sym .openParen, col c, sym .closeParen, kw .FROM, tab .addressinfo,
   kw .WHERE, col .entity, sym .equals]

theorem reads_turnover (e : UInt32) (h : Reads names .idle s ts (.hex [])) :
    Reads names .idle
      (s ++ (hex08 e ++ "'),inval = (SELECT sum(inval) FROM addressinfo WHERE entity=x'".toList)
        ++ (hex08 e ++ "'),outval = (SELECT sum(outval) FROM addressinfo WHERE entity=x'".toList)
        ++ (hex08 e ++ "'),firsttm = (SELECT min(firsttm) FROM addressinfo WHERE entity=x'".toList)
        ++ (hex08 e ++ "'),lasttm = (SELECT max(lasttm) FROM addressinfo WHERE entity=x'".toList))
      (ts ++ (.bytes (entityColumn e).1 :: subqueryTokens .inval .sum)
        ++ (.bytes (entityColumn e).1 :: subqueryTokens .outval .sum)
        ++ (.bytes (entityColumn e).1 :: subqueryTokens .firsttm .min)
        ++ (.bytes (entityColumn e).1 :: subqueryTokens .lasttm .max)) (.hex []) := by
  have hinval : Reads names (.hex [])
      (hex08 e ++ "'),inval = (SELECT sum(inval) FROM addressinfo WHERE entity=x'".toList)
      (.bytes (entityColumn e).1 :: subqueryTokens .inval .sum) (.hex []) := reads_entity e rfl
  have houtval : Reads names (.hex [])
      (hex08 e ++ "'),outval = (SELECT sum(outval) FROM addressinfo WHERE entity=x'".toList)
      (.bytes (entityColumn e).1 :: subqueryTokens .outval .sum) (.hex []) := reads_entity e rfl
  have hfirsttm : Reads names (.hex [])
      (hex08 e ++ "'),firsttm = (SELECT min(firsttm) FROM addressinfo WHERE entity=x'".toList)
      (.bytes (entityColumn e).1 :: subqueryTokens .firsttm .min) (.hex []) :=
    reads_entity e rfl
  have hlasttm : Reads names (.hex [])
      (hex08 e ++ "'),lasttm = (SELECT max(lasttm) FROM addressinfo WHERE entity=x'".toList)
      (.bytes (entityColumn e).1 :: subqueryTokens .lasttm .max) (.hex []) := reads_entity e rfl
  exact (((h.append hinval).append houtval).append hfirsttm).append hlasttm

theorem reads_balances (e : UInt32) (h : Reads names .idle s ts (.hex [])) :
    Reads names .idle
      (s ++ (hex08 e ++ "'),bal = (SELECT sum(bal) FROM addressinfo WHERE entity=x'".toList)
        ++ (hex08 e ++ "'),maxbal = (SELECT sum(maxbal) FROM addressinfo WHERE entity=x'".toList)
        ++ (hex08 e ++ "'),incnt = (SELECT sum(incnt) FROM addressinfo WHERE entity=x'".toList)
        ++ (hex08 e ++ "'),outcnt = (SELECT sum(outcnt) FROM addressinfo WHERE entity=x'".toList))
      (ts ++ (.bytes (entityColumn e).1 :: subqueryTokens .bal .sum)
        ++ (.bytes (entityColumn e).1 :: subqueryTokens .maxbal .sum)
        ++ (.bytes (entityColumn e).1 :: subqueryTokens .incnt .sum)
        ++ (.bytes (entityColumn e).1 :: subqueryTokens .outcnt .sum)) (.hex []) := by
  have hbal : Reads names (.hex [])
      (hex08 e ++ "'),bal = (SELECT sum(bal) FROM addressinfo WHERE entity=x'".toList)
      (.bytes (entityColumn e).1 :: subqueryTokens .bal .sum) (.hex []) := reads_entity e rfl
  have hmaxbal : Reads names (.hex [])
      (hex08 e ++ "'),maxbal = (SELECT sum(maxbal) FROM addressinfo WHERE entity=x'".toList)
      (.bytes (entityColumn e).1 :: subqueryTokens .maxbal .sum) (.hex []) := reads_entity e rfl
  have hincnt : Reads names (.hex [])
      (hex08 e ++ "'),incnt = (SELECT sum(incnt) FROM addressinfo WHERE entity=x'".toList)
      (.bytes (entityColumn e).1 :: subqueryTokens .incnt .sum) (.hex []) := reads_entity e rfl
  have houtcnt : Reads names (.hex [])
      (hex08 e ++ "'),outcnt = (SELECT sum(outcnt) FROM addressinfo WHERE entity=x'".toList)
      (.bytes (entityColumn e).1 :: subqueryTokens .outcnt .sum) (.hex []) := reads_entity e rfl
  exact (((h.append hbal).append hmaxbal).append hincnt).append houtcnt

/-- The tokens of `c = (SELECT f(c) FROM addressinfo WHERE entity=x'..')`. -/
def aggregateTokens (e : UInt32) (c : Column) (f : Aggregate) : List QueryToken :=
  [col c, sym .equals, sym .openParen, kw .SELECT, .word (.aggregate f), sym .openParen, col c,
   sym .closeParen, kw .FROM, tab .addressinfo, kw .WHERE, col .entity, sym .equals,
   .bytes (entityColumn e).1, sym .closeParen]

theorem assignment_aggregateTokens (n : ℕ) (e : UInt32) (c : Column) (f : Aggregate)
    (rest : List QueryToken) :
    assignment (n + 3) (aggregateTokens e c f ++ rest)
      = some ((c, ofEntity e (.aggregate f (.column c))), rest) := rfl

/-- One of the sums in the `SET` list, in front of others. -/
theorem sepBy_aggregateTokens {n k : ℕ} (e : UInt32) (c : Column) (f : Aggregate)
    {rest us : List QueryToken} {set : List (Column × Expr Table Column)}
    (h : sepBy (symbol .comma) (assignment (n + 3)) k rest = some (set, us)) :
    sepBy (symbol .comma) (assignment (n + 3)) (k + 1)
        (aggregateTokens e c f ++ sym .comma :: rest)
      = some ((c, ofEntity e (.aggregate f (.column c))) :: set, us) :=
  sepBy_cons (assignment_aggregateTokens n e c f _) rfl h

/-- The tokens of the whole text. -/
def aggregateStatementTokens (e : UInt32) : List QueryToken :=
  kw .UPDATE :: tab .entityinfo :: kw .SET ::
    ([col .addcnt, sym .equals, sym .openParen, kw .SELECT, .word .count, sym .openParen,
      sym .times, sym .closeParen, kw .FROM, tab .addressinfo, kw .WHERE, col .entity, sym .equals,
      .bytes (entityColumn e).1, sym .closeParen] ++ sym .comma ::
    (aggregateTokens e .inval .sum ++ sym .comma :: (aggregateTokens e .outval .sum ++ sym .comma ::
    (aggregateTokens e .firsttm .min ++ sym .comma :: (aggregateTokens e .lasttm .max ++
    sym .comma :: (aggregateTokens e .bal .sum ++ sym .comma :: (aggregateTokens e .maxbal .sum ++
    sym .comma :: (aggregateTokens e .incnt .sum ++ sym .comma ::
    (aggregateTokens e .outcnt .sum ++ [kw .WHERE, col .entity, sym .equals,
      .bytes (entityColumn e).1, sym .semicolon])))))))))

theorem parseTokens_aggregate (e : UInt32) :
    parseTokens (aggregateStatementTokens e)
      = some (Stmt.statement diffOf (.aggregateEntity e)) := by
  have hset : assignments 151 ((aggregateStatementTokens e).drop 3)
      = some ([(.addcnt, ofEntity e .count),
        (.inval, ofEntity e (.aggregate .sum (.column .inval))),
        (.outval, ofEntity e (.aggregate .sum (.column .outval))),
        (.firsttm, ofEntity e (.aggregate .min (.column .firsttm))),
        (.lasttm, ofEntity e (.aggregate .max (.column .lasttm))),
        (.bal, ofEntity e (.aggregate .sum (.column .bal))),
        (.maxbal, ofEntity e (.aggregate .sum (.column .maxbal))),
        (.incnt, ofEntity e (.aggregate .sum (.column .incnt))),
        (.outcnt, ofEntity e (.aggregate .sum (.column .outcnt)))],
        [kw .WHERE, col .entity, sym .equals, .bytes (entityColumn e).1, sym .semicolon]) := by
    refine sepBy_cons rfl rfl ?_
    refine sepBy_aggregateTokens e .inval .sum (sepBy_aggregateTokens e .outval .sum ?_)
    refine sepBy_aggregateTokens e .firsttm .min (sepBy_aggregateTokens e .lasttm .max ?_)
    refine sepBy_aggregateTokens e .bal .sum (sepBy_aggregateTokens e .maxbal .sum ?_)
    refine sepBy_aggregateTokens e .incnt .sum ?_
    exact sepBy_singleton (assignment_aggregateTokens _ e .outcnt .sum _) rfl
  have hlength : (aggregateStatementTokens e).length = 151 := rfl
  exact parseTokens_of_statement hlength (statement_update hset rfl)

theorem parse_aggregateEntity (e : UInt32) :
    parse names (Stmt.text diffOf (.aggregateEntity e))
      = some (Stmt.statement diffOf (.aggregateEntity e)) := by
  have hhead : Reads names .idle
      "UPDATE entityinfo SET addcnt = (SELECT count(*) FROM addressinfo WHERE entity=x'".toList
      [kw .UPDATE, tab .entityinfo, kw .SET, col .addcnt, sym .equals, sym .openParen, kw .SELECT,
       .word .count, sym .openParen, sym .times, sym .closeParen, kw .FROM, tab .addressinfo,
       kw .WHERE, col .entity, sym .equals] (.hex []) := reads_literal rfl
  have hlast : Reads names (.hex []) (hex08 e ++ "') WHERE entity=x'".toList)
      [.bytes (entityColumn e).1, sym .closeParen, kw .WHERE, col .entity, sym .equals]
      (.hex []) := reads_entity e rfl
  have hwhere : Reads names (.hex []) (hex08 e ++ "';".toList)
      [.bytes (entityColumn e).1, sym .semicolon] .idle := reads_entity e rfl
  have hset := reads_balances e (reads_turnover e hhead)
  exact parse_of_reads ((hset.append hlast).append hwhere) (parseTokens_aggregate diffOf e)

/-- A quoted number between two columns. -/
theorem reads_nextNumber (n : ℕ) : Reads names (.quote []) (decimalText n ++ "','".toList)
    [.text (decimalText n), sym .comma] (.quote []) := reads_quotedDecimal n rfl

/-- A quoted time between two columns. -/
theorem reads_nextTime (u : UInt32) : Reads names (.quote []) (getTimeString u ++ "','".toList)
    [.text (getTimeString u), sym .comma] (.quote []) := reads_time u rfl

/-- Bytes in front of a quoted column. -/
theorem reads_firstHex (bs : List UInt8) :
    Reads names (.hex []) (bs.flatMap hex02 ++ "','".toList)
      [.bytes bs, sym .comma] (.quote []) := reads_hex bs rfl

/-- The last column of an `INSERT`. -/
theorem reads_lastNumber (n : ℕ) : Reads names (.quote []) (decimalText n ++ "');".toList)
    [.text (decimalText n), sym .closeParen, sym .semicolon] .idle := reads_quotedDecimal n rfl

/-- The tokens of `INSERT INTO t VALUES(x'..','..',..,'..');`. -/
def insertTokens (tb : Table) (bs : List UInt8) (first : List Char) (rest : List (List Char)) :
    List QueryToken :=
  kw .INSERT :: kw .INTO :: tab tb :: kw .VALUES :: sym .openParen :: .bytes bs :: sym .comma ::
    (quotedTokens first rest ++ [sym .closeParen, sym .semicolon])

theorem length_quotedTokens (first : List Char) (rest : List (List Char)) :
    rest.length < (quotedTokens first rest : List QueryToken).length := by
  induction rest generalizing first with
  | nil => simp [quotedTokens]
  | cons s rest ih =>
    have hrest := ih s
    simp only [quotedTokens, List.length_cons]
    omega

theorem parseTokens_insertTokens (tb : Table) (bs : List UInt8) (first : List Char)
    (rest : List (List Char)) :
    parseTokens (insertTokens tb bs first rest)
      = some (.insert tb none
          (.scalar (.bytes bs) :: (first :: rest).map fun s => .scalar (.text s)) none) := by
  obtain ⟨n, hn⟩ : ∃ n, (insertTokens tb bs first rest).length = n + 3 :=
    ⟨(insertTokens tb bs first rest).length - 3, by simp [insertTokens]⟩
  have hlength : rest.length < n + 2 := by
    have hquoted := length_quotedTokens first rest
    simp only [insertTokens, List.length_cons, List.length_append] at hn
    omega
  have hquoted := sepBy_quotedTokens (n + 1) (n + 2) first rest [sym .semicolon] hlength
  exact parseTokens_of_statement hn (statement_insert (sepBy_cons rfl rfl hquoted) rfl)

theorem parse_insertTx (row : TxRow) :
    parse names (Stmt.text diffOf (.insertTx row))
      = some (Stmt.statement diffOf (.insertTx row)) := by
  have hhead : Reads names .idle "INSERT INTO txinfo VALUES(x'".toList
      [kw .INSERT, kw .INTO, tab .txinfo, kw .VALUES, sym .openParen] (.hex []) := reads_literal rfl
  have hfirst := ((hhead.append (reads_firstHex row.txhash.1)).append
    (reads_nextNumber row.txcounter.toNat)).append (reads_nextNumber row.blocknumber.toNat)
  have hmiddle := ((hfirst.append (reads_nextTime row.txtime)).append
    (reads_nextNumber row.rawlength.toNat)).append (reads_nextNumber row.txfee.toNat)
  have hcounts := ((hmiddle.append (reads_nextNumber row.incounter.toNat)).append
    (reads_nextNumber row.invalue.toNat)).append (reads_nextNumber row.outcounter.toNat)
  exact parse_of_reads (hcounts.append (reads_lastNumber row.outvalue.toNat))
    (parseTokens_insertTokens .txinfo row.txhash.1 (decimalText row.txcounter.toNat)
      [decimalText row.blocknumber.toNat, getTimeString row.txtime,
       decimalText row.rawlength.toNat, decimalText row.txfee.toNat,
       decimalText row.incounter.toNat, decimalText row.invalue.toNat,
       decimalText row.outcounter.toNat, decimalText row.outvalue.toNat])

theorem parse_insertBlk (row : BlkRow) :
    parse names (Stmt.text diffOf (.insertBlk row))
      = some (Stmt.statement diffOf (.insertBlk row)) := by
  have hhead : Reads names .idle "INSERT INTO blkinfo VALUES(x'".toList
      [kw .INSERT, kw .INTO, tab .blkinfo, kw .VALUES, sym .openParen] (.hex []) :=
    reads_literal rfl
  have hfirst := ((hhead.append (reads_firstHex row.curhash.1)).append
    (reads_nextNumber row.blocknumber.toNat)).append (reads_nextNumber row.blocksize.toNat)
  have hmiddle := ((hfirst.append (reads_nextNumber row.transCount.toNat)).append
    (reads_nextTime row.blktime)).append (reads_nextNumber (diffOf row.bits))
  exact parse_of_reads (hmiddle.append (reads_lastNumber row.reward.toNat))
    (parseTokens_insertTokens .blkinfo row.curhash.1 (decimalText row.blocknumber.toNat)
      [decimalText row.blocksize.toNat, decimalText row.transCount.toNat,
       getTimeString row.blktime, decimalText (diffOf row.bits), decimalText row.reward.toNat])

theorem parse_upsertOutput (a : Address) (v : UInt64) (u : UInt32) :
    parse names (Stmt.text diffOf (.upsertOutput a v u))
      = some (Stmt.statement diffOf (.upsertOutput a v u)) := by
  have hhead : Reads names .idle
      "INSERT INTO addressinfo(address,outval,firsttm,lasttm,bal) VALUES(x'".toList
      [kw .INSERT, kw .INTO, tab .addressinfo, sym .openParen, col .address, sym .comma,
       col .outval, sym .comma, col .firsttm, sym .comma, col .lasttm, sym .comma, col .bal,
       sym .closeParen, kw .VALUES, sym .openParen] (.hex []) := reads_literal rfl
  have hbalance : Reads names (.quote [])
      (getTimeString u ++ "',outval-inval) ON DUPLICATE KEY UPDATE outval=outval+".toList)
      [.text (getTimeString u), sym .comma, col .outval, sym .minus, col .inval, sym .closeParen,
       kw .ON, kw .DUPLICATE, kw .KEY, kw .UPDATE, col .outval, sym .equals, col .outval,
       sym .plus] .idle := reads_time u rfl
  have hvalue : Reads names .idle (decimalText v.toNat ++ ",lasttm='".toList)
      [.number (decimal (decimalText v.toNat)), sym .comma, col .lasttm, sym .equals]
      (.quote []) := reads_decimal v.toNat rfl
  have hlast : Reads names (.quote [])
      (getTimeString u ++ "',bal=outval-inval,outcnt=outcnt+1;".toList)
      [.text (getTimeString u), sym .comma, col .bal, sym .equals, col .outval, sym .minus,
       col .inval, sym .comma, col .outcnt, sym .equals, col .outcnt, sym .plus,
       .number (decimal ['1']), sym .semicolon] .idle := reads_time u rfl
  have hvalues := ((hhead.append (reads_firstHex a.1)).append
    (reads_nextNumber v.toNat)).append (reads_nextTime u)
  exact parse_of_reads (((hvalues.append hbalance).append hvalue).append hlast) rfl

theorem parse_updateMaxbal (a : Address) :
    parse names (Stmt.text diffOf (.updateMaxbal a))
      = some (Stmt.statement diffOf (.updateMaxbal a)) := by
  have hhead : Reads names .idle
      "UPDATE addressinfo SET maxbal=bal WHERE bal>maxbal AND address=x'".toList
      [kw .UPDATE, tab .addressinfo, kw .SET, col .maxbal, sym .equals, col .bal, kw .WHERE,
       col .bal, sym .greater, col .maxbal, kw .AND, col .address, sym .equals] (.hex []) :=
    reads_literal rfl
  have hwhere : Reads names (.hex []) (addressHex a ++ "';".toList)
      [.bytes a.1, sym .semicolon] .idle := reads_hex a.1 rfl
  exact parse_of_reads (hhead.append hwhere) rfl

/-- **Every text is its statement.** -/
theorem Stmt.parse_text (j : Stmt) : parse names (j.text diffOf) = some (j.statement diffOf) := by
  cases j with
  | relabelEntity e0 e => exact parse_relabelEntity diffOf e0 e
  | deleteEntity e => exact parse_deleteEntity diffOf e
  | insertEntity e => exact parse_insertEntity diffOf e
  | setEntity a e => exact parse_setEntity diffOf a e
  | aggregateEntity e => exact parse_aggregateEntity diffOf e
  | insertTx row => exact parse_insertTx diffOf row
  | updateInput a v u => exact parse_updateInput diffOf a v u
  | upsertOutput a v u => exact parse_upsertOutput diffOf a v u
  | updateMaxbal a => exact parse_updateMaxbal diffOf a
  | insertBlk row => exact parse_insertBlk diffOf row

end Texts

/-- The query for the entity of an address. -/
def entityQuery (a : Address) : Query Table Column :=
  ⟨.scalar (.column .entity), .addressinfo, keyIs .address a.1⟩

theorem parse_selectEntityText (a : Address) :
    parse names (selectEntityText a) = some (.select (entityQuery a)) := by
  have hhead : Reads names .idle "SELECT entity FROM addressinfo WHERE address = x'".toList
      [kw .SELECT, col .entity, kw .FROM, tab .addressinfo, kw .WHERE, col .address, sym .equals]
      (.hex []) := reads_literal rfl
  have hwhere : Reads names (.hex []) (addressHex a ++ "';".toList)
      [.bytes a.1, sym .semicolon] .idle := reads_hex a.1 rfl
  exact parse_of_reads (hhead.append hwhere) rfl

theorem parse_selectEntityText' (a : Address) :
    parse names (selectEntityText' a) = some (.select (entityQuery a)) := by
  have hhead : Reads names .idle "SELECT entity FROM addressinfo where address = x'".toList
      [kw .SELECT, col .entity, kw .FROM, tab .addressinfo, kw .WHERE, col .address, sym .equals]
      (.hex []) := reads_literal rfl
  have hwhere : Reads names (.hex []) (addressHex a ++ "';".toList)
      [.bytes a.1, sym .semicolon] .idle := reads_hex a.1 rfl
  exact parse_of_reads (hhead.append hwhere) rfl

end BitcoinAnalysis
