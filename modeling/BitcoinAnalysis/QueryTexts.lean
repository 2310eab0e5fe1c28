/-
The query texts of the program.

`Stmt.text` is the text a statement is sent as, put together as the source puts
it together; `selectEntityText` is the query in front of every use of an entity
number.  Texts are read and executed by the SQL fragment of `SqlSyntax` and
`SqlSemantics` over the tables of `schema`.  Column names are those the queries
use; the columns of `txinfo` and `blkinfo` that no query names have none.
-/
import BitcoinAnalysis.SqlSemantics
import BitcoinAnalysis.TimeRange
import BitcoinAnalysis.TransactionProcess

open SqlSyntax SqlSemantics Calendar

namespace BitcoinAnalysis

/-! ### Numbers and times in a text -/

/-- `ss << n; ss >> n_s` -/
def decimalText (n : ℕ) : List Char := Nat.toDigits 10 n

/-- `sprintf_s(…, "%08x", e)` -/
def hex08 (e : UInt32) : List Char :=
  [7, 6, 5, 4, 3, 2, 1, 0].map fun i => Nat.digitChar (e.toNat / 16 ^ i % 16)

/-- `strftime(time_p, 20, "%Y-%m-%d %H:%M:%S", gmtime(&t))` -/
def getTimeString (ts : UInt32) : List Char :=
  let gtm := DateTime.ofUnix ts.toNat
  twoDigits (gtm.year / 100) ++ twoDigits (gtm.year % 100) ++ '-' :: (twoDigits gtm.month ++
    '-' :: (twoDigits gtm.day ++ ' ' :: (twoDigits gtm.hour ++ ':' :: (twoDigits gtm.minute ++
      ':' :: twoDigits gtm.second))))

/-- The hash of a row, `%02x` for each byte. -/
def hashHex (h : Hash) : List Char := h.1.flatMap hex02

/-! ### The texts -/

/-- The text of a statement; `diffOf` is `(unsigned long long)difficulty(bits)`. -/
def Stmt.text (diffOf : UInt32 → ℕ) : Stmt → List Char
  | .relabelEntity e0 e =>
    "UPDATE addressinfo SET entity = x'".toList ++ (hex08 e0 ++ "' WHERE entity = x'".toList)
      ++ (hex08 e ++ "';".toList)
  | .deleteEntity e =>
    "DELETE FROM entityinfo WHERE entity = x'".toList ++ (hex08 e ++ "';".toList)
  | .insertEntity e =>
    "INSERT INTO entityinfo(entity) VALUES(x'".toList ++ (hex08 e ++ "');".toList)
  | .setEntity a e =>
    "UPDATE addressinfo SET entity = x'".toList ++ (hex08 e ++ "' WHERE address = x'".toList)
      ++ (addressHex a ++ "';".toList)
  | .aggregateEntity e =>
    "UPDATE entityinfo SET addcnt = (SELECT count(*) FROM addressinfo WHERE entity=x'".toList
      ++ (hex08 e ++ "'),inval = (SELECT sum(inval) FROM addressinfo WHERE entity=x'".toList)
      ++ (hex08 e ++ "'),outval = (SELECT sum(outval) FROM addressinfo WHERE entity=x'".toList)
      ++ (hex08 e ++ "'),firsttm = (SELECT min(firsttm) FROM addressinfo WHERE entity=x'".toList)
      ++ (hex08 e ++ "'),lasttm = (SELECT max(lasttm) FROM addressinfo WHERE entity=x'".toList)
      ++ (hex08 e ++ "'),bal = (SELECT sum(bal) FROM addressinfo WHERE entity=x'".toList)
      ++ (hex08 e ++ "'),maxbal = (SELECT sum(maxbal) FROM addressinfo WHERE entity=x'".toList)
      ++ (hex08 e ++ "'),incnt = (SELECT sum(incnt) FROM addressinfo WHERE entity=x'".toList)
      ++ (hex08 e ++ "'),outcnt = (SELECT sum(outcnt) FROM addressinfo WHERE entity=x'".toList)
      ++ (hex08 e ++ "') WHERE entity=x'".toList)
      ++ (hex08 e ++ "';".toList)
  | .insertTx row =>
    "INSERT INTO txinfo VALUES(x'".toList ++ (hashHex row.txhash ++ "','".toList)
      ++ (decimalText row.txcounter.toNat ++ "','".toList)
      ++ (decimalText row.blocknumber.toNat ++ "','".toList)
      ++ (getTimeString row.txtime ++ "','".toList)
      ++ (decimalText row.rawlength.toNat ++ "','".toList)
      ++ (decimalText row.txfee.toNat ++ "','".toList)
      ++ (decimalText row.incounter.toNat ++ "','".toList)
      ++ (decimalText row.invalue.toNat ++ "','".toList)
      ++ (decimalText row.outcounter.toNat ++ "','".toList)
      ++ (decimalText row.outvalue.toNat ++ "');".toList)
  | .updateInput a v t =>
    "UPDATE addressinfo SET inval=inval+".toList ++ (decimalText v.toNat ++ ",lasttm='".toList)
      ++ (getTimeString t ++ "',bal=outval-inval,incnt=incnt+1 WHERE address=x'".toList)
      ++ (addressHex a ++ "';".toList)
  | .upsertOutput a v t =>
    "INSERT INTO addressinfo(address,outval,firsttm,lasttm,bal) VALUES(x'".toList
      ++ (addressHex a ++ "','".toList) ++ (decimalText v.toNat ++ "','".toList)
      ++ (getTimeString t ++ "','".toList)
      ++ (getTimeString t
        ++ "',outval-inval) ON DUPLICATE KEY UPDATE outval=outval+".toList)
      ++ (decimalText v.toNat ++ ",lasttm='".toList)
      ++ (getTimeString t ++ "',bal=outval-inval,outcnt=outcnt+1;".toList)
  | .updateMaxbal a =>
    "UPDATE addressinfo SET maxbal=bal WHERE bal>maxbal AND address=x'".toList
      ++ (addressHex a ++ "';".toList)
  | .insertBlk row =>
    "INSERT INTO blkinfo VALUES(x'".toList ++ (hashHex row.curhash ++ "','".toList)
      ++ (decimalText row.blocknumber.toNat ++ "','".toList)
      ++ (decimalText row.blocksize.toNat ++ "','".toList)
      ++ (decimalText row.transCount.toNat ++ "','".toList)
      ++ (getTimeString row.blktime ++ "','".toList)
      ++ (decimalText (diffOf row.bits) ++ "','".toList)
      ++ (decimalText row.reward.toNat ++ "');".toList)

/-- `getent`, as `input_entity_mysql` writes it. -/
def selectEntityText (a : Address) : List Char :=
  "SELECT entity FROM addressinfo WHERE address = x'".toList ++ (addressHex a ++ "';".toList)

/-- `getent`, as `output_entity_mysql` writes it. -/
def selectEntityText' (a : Address) : List Char :=
  "SELECT entity FROM addressinfo where address = x'".toList ++ (addressHex a ++ "';".toList)

/-! ### The tables -/

inductive Table where
  | addressinfo | entityinfo | txinfo | blkinfo
  deriving DecidableEq

inductive Column where
  | address | entity | inval | outval | bal | maxbal | firsttm | lasttm | incnt | outcnt | addcnt
  | txhash | txcounter | blocknumber | txtime | txsize | txfee | invalue | outvalue
  | curhash | blksize | txcnt | blktime | diff | reward
  deriving DecidableEq

/-- `test1` and the names in the queries. -/
def names : Names Table Column where
  schema := "test1".toList
  tables :=
    [("addressinfo".toList, .addressinfo), ("entityinfo".toList, .entityinfo),
     ("txinfo".toList, .txinfo), ("blkinfo".toList, .blkinfo)]
  columns :=
    [("address".toList, .address), ("entity".toList, .entity), ("inval".toList, .inval),
     ("outval".toList, .outval), ("bal".toList, .bal), ("maxbal".toList, .maxbal),
     ("firsttm".toList, .firsttm), ("lasttm".toList, .lasttm), ("incnt".toList, .incnt),
     ("outcnt".toList, .outcnt), ("addcnt".toList, .addcnt), ("txtime".toList, .txtime),
     ("txsize".toList, .txsize), ("txfee".toList, .txfee), ("outvalue".toList, .outvalue),
     ("blksize".toList, .blksize), ("txcnt".toList, .txcnt), ("blktime".toList, .blktime),
     ("diff".toList, .diff), ("reward".toList, .reward)]

def columnKind : Table → Column → Option Kind
  | .addressinfo, .address | .addressinfo, .entity => some .bytes
  | .addressinfo, .firsttm | .addressinfo, .lasttm => some .time
  | .addressinfo, .inval | .addressinfo, .outval | .addressinfo, .bal | .addressinfo, .maxbal
  | .addressinfo, .incnt | .addressinfo, .outcnt => some .number
  | .entityinfo, .entity => some .bytes
  | .entityinfo, .firsttm | .entityinfo, .lasttm => some .time
  | .entityinfo, .addcnt | .entityinfo, .inval | .entityinfo, .outval | .entityinfo, .bal
  | .entityinfo, .maxbal | .entityinfo, .incnt | .entityinfo, .outcnt => some .number
  | .txinfo, .txhash => some .bytes
  | .txinfo, .txtime => some .time
  | .txinfo, .txcounter | .txinfo, .blocknumber | .txinfo, .txsize | .txinfo, .txfee
  | .txinfo, .incnt | .txinfo, .invalue | .txinfo, .outcnt | .txinfo, .outvalue => some .number
  | .blkinfo, .curhash => some .bytes
  | .blkinfo, .blktime => some .time
  | .blkinfo, .blocknumber | .blkinfo, .blksize | .blkinfo, .txcnt | .blkinfo, .diff
  | .blkinfo, .reward => some .number
  | _, _ => none

/-- The columns of a table, in the order of an `INSERT` without column names. -/
def tableColumns : Table → List Column
  | .addressinfo =>
    [.address, .entity, .outval, .inval, .bal, .maxbal, .outcnt, .incnt, .firsttm, .lasttm]
  | .entityinfo =>
    [.entity, .addcnt, .inval, .outval, .firsttm, .lasttm, .bal, .maxbal, .incnt, .outcnt]
  | .txinfo =>
    [.txhash, .txcounter, .blocknumber, .txtime, .txsize, .txfee, .incnt, .invalue, .outcnt,
     .outvalue]
  | .blkinfo => [.curhash, .blocknumber, .blksize, .txcnt, .blktime, .diff, .reward]

/-- Every column of a table has a kind. -/
theorem isSome_columnKind (t : Table) : ∀ c ∈ tableColumns t, (columnKind t c).isSome := by
  cases t with
  | addressinfo => simp [tableColumns, columnKind]
  | entityinfo => simp [tableColumns, columnKind]
  | txinfo => simp [tableColumns, columnKind]
  | blkinfo => simp [tableColumns, columnKind]

/-! ### The tables as SQL sees them -/

def addressValues (a : Address) (row : AddressRow) : Row Column
  | .address => .bytes a.1
  | .entity => .bytes (entityColumn row.entity).1
  | .outval => .number row.outval
  | .inval => .number row.inval
  | .bal => .number row.bal
  | .maxbal => .number row.maxbal
  | .outcnt => .number row.outcnt
  | .incnt => .number row.incnt
  | .firsttm => .time row.firsttm
  | .lasttm => .time row.lasttm
  | _ => .null

/-- A column of `entityinfo` that is a number. -/
def numberOrNull {α : Type} (toRat : α → ℚ) (x : Option α) : Value :=
  x.elim .null fun x => .number (toRat x)

/-- A column of `entityinfo` that is a time. -/
def timeOrNull (x : Option ℕ) : Value := x.elim .null fun n => .time n

/-- The columns of `entityinfo` without its key. -/
def EntityRow.values (row : EntityRow) : Row Column
  | .addcnt => numberOrNull Nat.cast row.addcnt
  | .inval => numberOrNull Int.cast row.inval
  | .outval => numberOrNull Int.cast row.outval
  | .firsttm => timeOrNull row.firsttm
  | .lasttm => timeOrNull row.lasttm
  | .bal => numberOrNull Int.cast row.bal
  | .maxbal => numberOrNull Int.cast row.maxbal
  | .incnt => numberOrNull Nat.cast row.incnt
  | .outcnt => numberOrNull Nat.cast row.outcnt
  | _ => .null

def entityValues (e : UInt32) (row : EntityRow) : Row Column :=
  Function.update row.values .entity (.bytes (entityColumn e).1)

def TxRow.values (row : TxRow) : Row Column
  | .txhash => .bytes row.txhash.1
  | .txcounter => .number row.txcounter.toNat
  | .blocknumber => .number row.blocknumber.toNat
  | .txtime => .time row.txtime.toNat
  | .txsize => .number row.rawlength.toNat
  | .txfee => .number row.txfee.toNat
  | .incnt => .number row.incounter.toNat
  | .invalue => .number row.invalue.toNat
  | .outcnt => .number row.outcounter.toNat
  | .outvalue => .number row.outvalue.toNat
  | _ => .null

def BlkRow.values (diffOf : UInt32 → ℕ) (row : BlkRow) : Row Column
  | .curhash => .bytes row.curhash.1
  | .blocknumber => .number row.blocknumber.toNat
  | .blksize => .number row.blocksize.toNat
  | .txcnt => .number row.transCount.toNat
  | .blktime => .time row.blktime.toNat
  | .diff => .number (diffOf row.bits)
  | .reward => .number row.reward.toNat
  | _ => .null

/-- The tables of the database. -/
def Db.tables (diffOf : UInt32 → ℕ) (db : Db) : Database Table Column
  | .addressinfo => db.addressinfo.entries.map fun e => addressValues e.1 e.2
  | .entityinfo => db.entityinfo.entries.map fun e => entityValues e.1 e.2
  | .txinfo => db.txinfo.map TxRow.values
  | .blkinfo => db.blkinfo.map (BlkRow.values diffOf)

/-- The schema, given the defaults of `entityinfo`. -/
def schema (entityDefault : EntityRow) : Schema Table Column where
  columns := tableColumns
  kind := columnKind
  default
    | .addressinfo => addressValues (.replicate 20 0) .default
    | .entityinfo => entityDefault.values
    | _ => fun _ => .null
  key
    | .addressinfo => some .address
    | .entityinfo => some .entity
    | _ => none

end BitcoinAnalysis
