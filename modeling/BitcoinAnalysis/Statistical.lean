/-
`Statistical.h`: the report behind a month, as queries and files.

Every figure of a report is the first value of a result set, copied by `strcpy`
and printed; a value that is `NULL` is a null pointer there.  `statistical` is the
whole function: the eight sections, the distributions and the two files of the loops
at the end.  What it prints is kept by file and line.

The stream `record` is opened three times.  Its first `open` has no `close` in
front of the second; an `open` of a stream that is open fails, and what is printed
to a stream that has failed is lost, up to an `open` that succeeds.  Directories
exist.  `unix_timestamp` has no last year, and differences of it are signed.
-/
import BitcoinAnalysis.QueryTexts
import BitcoinAnalysis.Console

open SqlSyntax SqlSemantics

namespace BitcoinAnalysis

/-! ### The texts of the sections -/

/-- The four functions of a section, in their order. -/
def functions : List Aggregate := [.avg, .stddevPop, .max, .min]

/-- The name of a function in a text. -/
def functionText : Aggregate → List Char
  | .avg => "avg".toList
  | .stddevPop => "stddev_pop".toList
  | .max => "max".toList
  | .min => "min".toList
  | .sum => "sum".toList

/-- ` WHERE unix_timestamp(c) > unix_timestamp('t');`, or with `<`. -/
def timeText (c relation t : List Char) : List Char :=
  " WHERE unix_timestamp(".toList ++ (c ++ ") ".toList) ++ (relation ++ " unix_timestamp('".toList)
    ++ (t ++ "');".toList)

def countText (table tail : List Char) : List Char :=
  "SELECT count(*) FROM test1.".toList ++ (table ++ tail)

/-- A text about an expression. -/
def functionQuery (table tail x : List Char) (f : Aggregate) : List Char :=
  "SELECT ".toList ++ (functionText f ++ "(".toList) ++ (x ++ ") FROM test1.".toList)
    ++ (table ++ tail)

/-- The four texts about an expression. -/
def functionTexts (table tail x : List Char) : List (List Char) :=
  functions.map (functionQuery table tail x)

def lifetimeText : List Char := "(unix_timestamp(lasttm) - unix_timestamp(firsttm))/86400".toList

/-- As it is spelled in the section on entities. -/
def lifetimeText' : List Char := "(unix_timestamp(lasttm)-unix_timestamp(firsttm))/86400".toList

/-- `address` -/
def addressTexts (before after : List Char) : List (List Char) :=
  let table := "addressinfo".toList
  let stopped := timeText "lasttm".toList "<".toList before
  [countText table ";".toList, countText table stopped,
    countText table (timeText "lasttm".toList ">".toList after)] ++
  ["outval".toList, "inval".toList, "bal".toList, "maxbal".toList, lifetimeText,
    "incnt + outcnt".toList].flatMap (functionTexts table ";".toList) ++
  ["SELECT IFNULL(sum(bal),0) FROM test1.".toList ++ (table ++ stopped)]

/-- `new_add[i] + new_add_time` -/
def newAddTexts (after : List Char) : List (List Char) :=
  let table := "addressinfo".toList
  let newAddTime := timeText "firsttm".toList ">".toList after
  countText table newAddTime ::
  ["outval".toList, "inval".toList, "bal".toList, "maxbal".toList,
    "incnt + outcnt".toList].flatMap (functionTexts table newAddTime)

/-- `unstop_add[i] + unstop_add_time` -/
def unstopAddTexts (before : List Char) : List (List Char) :=
  let table := "addressinfo".toList
  let unstopAddTime := timeText "lasttm".toList ">".toList before
  countText table unstopAddTime ::
  ["outval".toList, "inval".toList, "bal".toList, "maxbal".toList, lifetimeText,
    "incnt + outcnt".toList].flatMap (functionTexts table unstopAddTime)

/-- `entity` -/
def entityTexts (before after : List Char) : List (List Char) :=
  let table := "entityinfo".toList
  [countText table ";".toList, countText table (timeText "lasttm".toList "<".toList before),
    countText table (timeText "lasttm".toList ">".toList after)] ++
  ["addcnt".toList, "outval".toList, "inval".toList, "bal".toList, "maxbal".toList,
    lifetimeText', "incnt + outcnt".toList].flatMap (functionTexts table ";".toList)

/-- `new_entity[i] + new_entity_time` -/
def newEntityTexts (after : List Char) : List (List Char) :=
  let table := "entityinfo".toList
  let newEntityTime := timeText "firsttm".toList ">".toList after
  countText table newEntityTime ::
  ["addcnt".toList, "outval".toList, "inval".toList, "bal".toList, "maxbal".toList,
    "incnt + outcnt".toList].flatMap (functionTexts table newEntityTime)

/-- `unstop_entity[i] + unstop_entity_time` -/
def unstopEntityTexts (before : List Char) : List (List Char) :=
  let table := "entityinfo".toList
  let unstopEntityTime := timeText "lasttm".toList ">".toList before
  countText table unstopEntityTime ::
  ["addcnt".toList, "outval".toList, "inval".toList, "bal".toList, "maxbal".toList, lifetimeText,
    "incnt + outcnt".toList].flatMap (functionTexts table unstopEntityTime)

/-- `transaction[0]` and `transaction[i] + transaction_time` -/
def transactionTexts (after : List Char) : List (List Char) :=
  let table := "txinfo".toList
  let transactionTime := timeText "txtime".toList ">".toList after
  [countText table ";".toList, countText table transactionTime] ++
  ["outvalue".toList, "txsize".toList, "txfee".toList, "incnt".toList,
    "outcnt".toList].flatMap (functionTexts table transactionTime)

/-- `block[0]` and `block[i] + block_time` -/
def blockTexts (after : List Char) : List (List Char) :=
  let table := "blkinfo".toList
  let blockTime := timeText "blktime".toList ">".toList after
  [countText table ";".toList, countText table blockTime] ++
  ["txcnt".toList, "diff".toList, "blksize".toList, "reward".toList].flatMap
    (functionTexts table blockTime)

/-! ### The texts of the distributions -/

/-- Bounds side by side, without one above the last. -/
def between : List String → List (String × Option String)
  | [] => []
  | [low] => [(low, none)]
  | low :: high :: bounds => (low, some high) :: between (high :: bounds)

/-- What stands behind a bound: the unit, if it is a Bitcoin. -/
def unitText (btc : Bool) : List Char := if btc then "*100000000".toList else []

/-- `head x>=low AND x<high;`, or without `high`. -/
def bucketText (head x : List Char) (btc : Bool) (bounds : String × Option String) : List Char :=
  head ++ (x ++ ">=".toList) ++
    match bounds.2 with
    | none => bounds.1.toList ++ (unitText btc ++ ";".toList)
    | some high => (bounds.1.toList ++ (unitText btc ++ " AND ".toList)) ++
        ((x ++ "<".toList) ++ (high.toList ++ (unitText btc ++ ";".toList)))

def addcntBounds : List (String × Option String) :=
  between
    ["1", "2", "3", "4", "5", "6", "7", "8", "9", "10", "20", "30", "40", "50", "60", "70", "80",
     "90", "100", "200", "300", "400", "500", "1000", "2000", "3000", "4000", "5000", "10000",
     "50000", "100000"]

def outvalBounds : List (String × Option String) :=
  between
    ["0", "1", "2", "3", "4", "5", "6", "7", "8", "9", "10", "20", "30", "40", "50", "60", "70",
     "80", "90", "100", "1000", "2000", "3000", "4000", "5000", "6000", "7000", "8000", "9000",
     "10000", "20000", "30000", "40000", "50000", "60000", "70000", "80000", "90000", "100000",
     "200000", "300000", "400000", "500000", "600000", "700000", "800000", "900000", "1000000"]

def balBounds : List (String × Option String) :=
  between
    ["0", "0.01", "0.1", "0.2", "0.3", "0.4", "0.5", "0.6", "0.7", "0.8", "0.9", "1", "2", "3",
     "4", "5", "6", "7", "8", "9", "10", "20", "30", "40", "50", "60", "70", "80", "90", "100",
     "1000", "2000", "3000", "4000", "5000", "6000", "7000", "8000", "9000", "10000", "20000",
     "30000", "40000", "50000", "60000", "70000", "80000", "90000", "100000", "200000", "300000",
     "400000", "500000", "600000", "700000", "800000", "900000", "1000000"]

def txcntBounds : List (String × Option String) :=
  between
    ["1", "2", "3", "4", "5", "6", "7", "8", "9", "10", "100", "200", "300", "400", "500", "600",
     "700", "800", "900", "1000", "5000", "10000", "50000", "100000", "500000"]

def txAmountBounds : List (String × Option String) :=
  between
    ["0", "10", "20", "30", "40", "50", "60", "70", "80", "90", "100", "120", "140", "160", "180",
     "200", "220", "240", "260", "280", "300", "320"] ++
  [("320", some "340"), ("340", some "360"), ("360", some "380"), ("380", some "400")] ++
  between ["420", "440", "460", "480", "500", "520", "540", "560", "580", "600"]

def txSizeBounds : List (String × Option String) :=
  between
    ["0", "128", "256", "384", "512", "640", "768", "896", "1024", "1152", "1280", "1408", "1536",
     "1664", "1792", "1920", "2048", "2176", "2304", "2432", "2560", "2688", "2816", "2944",
     "3072", "3200", "3328", "3456", "3584", "3712", "3840", "3968", "4096"]

def countWhere (table : String) : List Char :=
  "SELECT count(*) FROM ".toList ++ (table.toList ++ " WHERE ".toList)

def numOfAddOfEntityTexts : List (List Char) :=
  addcntBounds.map (bucketText (countWhere "entityinfo") "addcnt".toList false)

def outvalOfAddTexts : List (List Char) :=
  outvalBounds.map (bucketText (countWhere "addressinfo") "outval".toList true)

def outvalOfEntityTexts : List (List Char) :=
  outvalBounds.map (bucketText (countWhere "entityinfo") "outval".toList true)

def balOfAddTexts : List (List Char) :=
  balBounds.map (bucketText (countWhere "addressinfo") "bal".toList true)

def balOfEntityTexts : List (List Char) :=
  balBounds.map (bucketText (countWhere "entityinfo") "bal".toList true)

def maxbalOfAddTexts : List (List Char) :=
  balBounds.map (bucketText (countWhere "addressinfo") "maxbal".toList true)

def maxbalOfEntityTexts : List (List Char) :=
  balBounds.map (bucketText (countWhere "entityinfo") "maxbal".toList true)

def txcntOfAddTexts : List (List Char) :=
  txcntBounds.map (bucketText (countWhere "addressinfo") "(incnt+outcnt)".toList false)

def txcntOfEntityTexts : List (List Char) :=
  txcntBounds.map (bucketText (countWhere "entityinfo") "(incnt+outcnt)".toList false)

def outvalOfTxTexts (after : List Char) : List (List Char) :=
  outvalBounds.map (bucketText
    (countWhere "txinfo" ++ "unix_timestamp(txtime) > unix_timestamp('".toList
      ++ (after ++ "') AND ".toList)) "outvalue".toList true)

/-- `tx_time` and the `AND` of the text behind it. -/
def txTimeText (after before : List Char) : List Char :=
  "SELECT count(*) FROM test1.txinfo WHERE unix_timestamp(txtime) >= unix_timestamp('".toList
    ++ (after ++ "') AND unix_timestamp(txtime) < unix_timestamp('".toList)
    ++ (before ++ "') AND ".toList)

/-- `tx_time + tx_amount[j]` -/
def txAmountTexts (after before : List Char) : List (List Char) :=
  txAmountBounds.map (bucketText (txTimeText after before) "outvalue".toList true)

/-- `tx_time + tx_size[j]` -/
def txSizeTexts (after before : List Char) : List (List Char) :=
  txSizeBounds.map (bucketText (txTimeText after before) "txsize".toList false)

/-! ### Result sets -/

variable (diffOf : UInt32 → ℕ) (db : Db)

/-- `mysql_store_result`, `mysql_fetch_row` and `strcpy(result_c, row[0])`: the
value that is printed, if there is a row. -/
def fetchValue (text : List Char) : Except Fault (List Value) :=
  match (schema db.entityDefault).resultOf names (db.tables diffOf) text with
  | none => .error .nullRow
  | some [] => .ok []
  | some (v :: _) => if v = .null then .error .outOfRange else .ok [v]

/-- The values of a line. -/
def fetchLine (texts : List (List Char)) : Except Fault (List Value) := do
  let printed ← texts.mapM (fetchValue diffOf db)
  .ok printed.flatten

/-! ### The stream -/

/-- A line of a file: a text, or the values of a loop with tabs behind them. -/
inductive Line where
  | text (s : List Char)
  | values (vs : List Value)
  deriving DecidableEq

/-- What has been appended to the files. -/
abbrev Files := List Char → List Line

/-- `ofstream record`: the file it has open, the failure bit, and what has been
appended to the files. -/
structure Record where
  file : Option (List Char)
  fail : Bool
  files : Files

/-- `record.open(name, ios::app)` -/
def Record.openFile (name : List Char) (r : Record) : Record :=
  match r.file with
  | none => { r with file := some name, fail := false }
  | some _ => { r with fail := true }

/-- `record.close()` -/
def Record.closeFile (r : Record) : Record :=
  match r.file with
  | none => { r with fail := true }
  | some _ => { r with file := none }

/-- `record << … << endl` -/
def Record.print (line : Line) (r : Record) : Record :=
  match r.file with
  | none => r
  | some name =>
    if r.fail then r else { r with files := Function.update r.files name (r.files name ++ [line]) }

/-- A loop over queries, and `record << endl` behind it. -/
def Record.queries (r : Record) (texts : List (List Char)) : Except Fault Record := do
  let values ← fetchLine diffOf db texts
  .ok (r.print (.values values))

/-- Some lines, and a loop over queries. -/
def Record.part (r : Record) (part : List Line × List (List Char)) : Except Fault Record :=
  (part.1.foldl (fun r line => r.print line) r).queries diffOf db part.2

/-- `for (unit8 i = 0; i < 71; i++)` with the same `after` and `before` every time. -/
def Record.loops (texts : List (List Char)) (r : Record) : Except Fault Record :=
  Run.run (fun r (_ : ℕ) => r.queries diffOf db texts) r (List.range 71)

/-! ### The report -/

/-- `filepath` -/
def reportFile (timerange : List Char) : List Char :=
  "G:\\Statistic\\".toList ++ (timerange ++ ".txt".toList)

def txAmountFile : List Char := "I:\\Statistic2\\tx-amount-2.txt".toList

def txSizeFile : List Char := "I:\\Statistic2\\tx-size-2.txt".toList

/-- The lines in front of a section. -/
def sectionLines (s : String) : List Line :=
  [.text "~~~~~~~~~~~~~~~~~~".toList, .text s.toList, .text "~~~~~~~~~~~~~~~~~~".toList]

/-- The lines in front of a distribution. -/
def distributionLines (s : String) : List Line := [.text "~~~~~~~~".toList, .text s.toList]

/-- The sections and the distributions of a report, in their order. -/
def reportParts (before after : List Char) : List (List Line × List (List Char)) :=
  [(sectionLines "1. address", addressTexts before after),
   (sectionLines "2. new address", newAddTexts after),
   (sectionLines "3. no stop address", unstopAddTexts before),
   (sectionLines "4. entity", entityTexts before after),
   (sectionLines "5. new entity", newEntityTexts after),
   (sectionLines "6. no stop entity", unstopEntityTexts before),
   (sectionLines "7. transaction", transactionTexts after),
   (sectionLines "8. block", blockTexts after),
   (sectionLines "9. other" ++ distributionLines "9.2 entity地址数量的分布",
     numOfAddOfEntityTexts),
   (distributionLines "9.3 address收入分布", outvalOfAddTexts),
   (distributionLines "9.4 entity收入分布", outvalOfEntityTexts),
   (distributionLines "9.5 address当前余额分布", balOfAddTexts),
   (distributionLines "9.6 entity当前余额分布", balOfEntityTexts),
   (distributionLines "9.7 address历史最大余额分布", maxbalOfAddTexts),
   (distributionLines "9.8 entity历史最大余额分布", maxbalOfEntityTexts),
   (distributionLines "9.9 address参与交易数", txcntOfAddTexts),
   (distributionLines "9.10 entity参与交易数", txcntOfEntityTexts),
   (distributionLines "交易金额分布", outvalOfTxTexts after),
   -- the loop behind `TxfeeOfTX` sends `MaxbalOfAdd` again
   (distributionLines "9.7 address历史最大余额分布", maxbalOfAddTexts)]

/-- From what has been appended to the files to what has been appended to them
afterwards.  `timeC` is the clock. -/
def statistical (timeC timefile : List Char) (files : Files) : Except Fault Files :=
  match readRange timefile with
  | none => .error .uninitialised
  | some (timerange, before, after) => do
    let r : Record := ⟨none, false, files⟩
    let r := r.openFile (reportFile timerange)
    let r := r.print (.text ("-------------".toList ++ timeC ++ "-------------".toList))
    let r := r.print (.text ("***统计时间段：".toList ++ timerange ++ "***".toList))
    let r ← Run.run (Record.part diffOf db) r (reportParts before after)
    let r := r.openFile txAmountFile
    let r ← r.loops diffOf db (((txAmountTexts after before).drop 22).take 14)
    let r := r.closeFile
    let r := r.openFile txSizeFile
    let r ← r.loops diffOf db (txSizeTexts after before)
    .ok r.closeFile.files

/-! ### The months with their reports -/

/-- The report of a month; `clock` gives the time it is printed at. -/
def printReport (clock : ℕ → List Char) : Report Files :=
  fun para db statistic files => statistical diffOf db (clock para) statistic files

/-- `count` months in a row, with their reports. -/
def fullMonths (clock : ℕ → List Char) (env : Env) (first count : ℕ) (s : Console Files) :
    Except Fault (Console Files) :=
  months (printReport diffOf clock) env first count s

/-- `for (para = 20; para < 30; para++)` -/
def main (clock : ℕ → List Char) (env : Env) (s : Console Files) : Except Fault (Console Files) :=
  fullMonths diffOf clock env 20 10 s

end BitcoinAnalysis
