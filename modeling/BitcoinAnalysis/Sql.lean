/-
The MySQL side: rows, statements and what a statement does.

Every query string the program builds is one constructor of `Stmt`, and
`Db.exec` is its effect.  What is assumed of the server and of the schema, which
is not part of the program, is this and no more:

* `SET` assignments are evaluated left to right, so a later one sees the columns
  an earlier one has written; so are the columns of an `INSERT`;
* `address` and `entity` are the primary keys of `addressinfo` and `entityinfo`,
  and an `INSERT` that would break one has no effect;
* `txinfo` and `blkinfo` have no key, so that every `INSERT` adds a row;
* in `addressinfo`, `entity`, `inval`, `incnt` and `maxbal` default to `0` and
  `outcnt` to `1`; the defaults of `entityinfo` are a parameter of the database;
* columns hold exact integers.

A connection remembers the statements it has executed (`Conn.journal`); the
database behind it is what they made of the one it started from.
-/
import BitcoinAnalysis.KeyedTable
import BitcoinAnalysis.BlockTypes

namespace BitcoinAnalysis

/-- A row of `addressinfo`.  Times are the seconds `getTimeString` formats. -/
structure AddressRow where
  entity : UInt32
  outval : ℤ
  inval : ℤ
  bal : ℤ
  maxbal : ℤ
  outcnt : ℕ
  incnt : ℕ
  firsttm : ℕ
  lasttm : ℕ
  deriving DecidableEq

/-- A row of `entityinfo`; `none` is `NULL`. -/
structure EntityRow where
  addcnt : Option ℕ
  inval : Option ℤ
  outval : Option ℤ
  firsttm : Option ℕ
  lasttm : Option ℕ
  bal : Option ℤ
  maxbal : Option ℤ
  incnt : Option ℕ
  outcnt : Option ℕ
  deriving DecidableEq

structure TxRow where
  txhash : Hash
  txcounter : UInt32
  blocknumber : UInt32
  txtime : UInt32
  rawlength : UInt32
  txfee : UInt64
  incounter : UInt32
  invalue : UInt64
  outcounter : UInt32
  outvalue : UInt64
  deriving DecidableEq

/-- A row of `blkinfo`; the difficulty column is a function of `bits`. -/
structure BlkRow where
  curhash : Hash
  blocknumber : UInt32
  blocksize : UInt32
  transCount : UInt32
  blktime : UInt32
  bits : UInt32
  reward : UInt64
  deriving DecidableEq

structure Db where
  addressinfo : KeyedTable Address AddressRow
  entityinfo : KeyedTable UInt32 EntityRow
  txinfo : List TxRow
  blkinfo : List BlkRow
  /-- The column defaults of `entityinfo`. -/
  entityDefault : EntityRow

/-- The statements the program sends, in the order of the source files. -/
inductive Stmt where
  /-- `UPDATE addressinfo SET entity = x'e0' WHERE entity = x'e'` -/
  | relabelEntity (e0 e : UInt32)
  /-- `DELETE FROM entityinfo WHERE entity = x'e'` -/
  | deleteEntity (e : UInt32)
  /-- `INSERT INTO entityinfo(entity) VALUES(x'e')` -/
  | insertEntity (e : UInt32)
  /-- `UPDATE addressinfo SET entity = x'e' WHERE address = x'a'` -/
  | setEntity (a : Address) (e : UInt32)
  /-- `UPDATE entityinfo SET addcnt = (SELECT count(*) …), … WHERE entity = x'e'` -/
  | aggregateEntity (e : UInt32)
  /-- `INSERT INTO txinfo VALUES(…)` -/
  | insertTx (row : TxRow)
  /-- `UPDATE addressinfo SET inval=inval+v,lasttm='t',bal=outval-inval,incnt=incnt+1
  WHERE address=x'a'` -/
  | updateInput (a : Address) (v : UInt64) (t : UInt32)
  /-- `INSERT INTO addressinfo(address,outval,firsttm,lasttm,bal)
  VALUES(x'a','v','t','t',outval-inval) ON DUPLICATE KEY UPDATE
  outval=outval+v,lasttm='t',bal=outval-inval,outcnt=outcnt+1` -/
  | upsertOutput (a : Address) (v : UInt64) (t : UInt32)
  /-- `UPDATE addressinfo SET maxbal=bal WHERE bal>maxbal AND address=x'a'` -/
  | updateMaxbal (a : Address)
  /-- `INSERT INTO blkinfo VALUES(…)` -/
  | insertBlk (row : BlkRow)
  deriving DecidableEq

/-! ### Row updates -/

/-- The schema's default row of `addressinfo`. -/
def AddressRow.default : AddressRow where
  entity := 0
  outval := 0
  inval := 0
  bal := 0
  maxbal := 0
  outcnt := 1
  incnt := 0
  firsttm := 0
  lasttm := 0

/-- The assignments of `updateInput`, left to right. -/
def AddressRow.debit (v : UInt64) (t : UInt32) (row : AddressRow) : AddressRow :=
  let row := { row with inval := row.inval + v.toNat }
  let row := { row with lasttm := t.toNat }
  let row := { row with bal := row.outval - row.inval }
  { row with incnt := row.incnt + 1 }

/-- The row `upsertOutput` inserts for a new address. -/
def AddressRow.opening (v : UInt64) (t : UInt32) : AddressRow :=
  let row := { AddressRow.default with outval := v.toNat }
  let row := { row with firsttm := t.toNat }
  let row := { row with lasttm := t.toNat }
  { row with bal := row.outval - row.inval }

/-- The assignments of `upsertOutput` to the row of a known address. -/
def AddressRow.credit (v : UInt64) (t : UInt32) (row : AddressRow) : AddressRow :=
  let row := { row with outval := row.outval + v.toNat }
  let row := { row with lasttm := t.toNat }
  let row := { row with bal := row.outval - row.inval }
  { row with outcnt := row.outcnt + 1 }

/-- The assignment of `updateMaxbal` with its condition on the row. -/
def AddressRow.raiseMaxbal (row : AddressRow) : AddressRow :=
  if row.bal > row.maxbal then { row with maxbal := row.bal } else row

/-- The assignment of `relabelEntity` and of `setEntity`. -/
def AddressRow.relabel (e : UInt32) (row : AddressRow) : AddressRow := { row with entity := e }

/-- `sum` of a column: `NULL` over no rows. -/
def sqlSum {α : Type} [Add α] [Zero α] : List α → Option α
  | [] => none
  | l => some l.sum

/-- The nine subqueries of `aggregateEntity` over the rows of one entity. -/
def EntityRow.aggregate (rows : List AddressRow) : EntityRow where
  addcnt := some rows.length
  inval := sqlSum (rows.map AddressRow.inval)
  outval := sqlSum (rows.map AddressRow.outval)
  firsttm := (rows.map AddressRow.firsttm).min?
  lasttm := (rows.map AddressRow.lasttm).max?
  bal := sqlSum (rows.map AddressRow.bal)
  maxbal := sqlSum (rows.map AddressRow.maxbal)
  incnt := sqlSum (rows.map AddressRow.incnt)
  outcnt := sqlSum (rows.map AddressRow.outcnt)

/-- The rows of `addressinfo` that carry an entity number. -/
def Db.rowsOf (db : Db) (e : UInt32) : List AddressRow :=
  db.addressinfo.valuesWhere fun _ row => row.entity = e

/-! ### Statements -/

def Db.exec (db : Db) : Stmt → Db
  | .relabelEntity e0 e =>
    { db with addressinfo := db.addressinfo.update (fun _ row => row.entity = e) (.relabel e0) }
  | .deleteEntity e => { db with entityinfo := db.entityinfo.delete e }
  | .insertEntity e => { db with entityinfo := db.entityinfo.upsert e db.entityDefault id }
  | .setEntity a e =>
    { db with addressinfo := db.addressinfo.modify a (.relabel e) }
  | .aggregateEntity e =>
    { db with entityinfo := db.entityinfo.modify e (fun _ => .aggregate (db.rowsOf e)) }
  | .insertTx row => { db with txinfo := db.txinfo ++ [row] }
  | .updateInput a v t => { db with addressinfo := db.addressinfo.modify a (.debit v t) }
  | .upsertOutput a v t =>
    { db with addressinfo := db.addressinfo.upsert a (.opening v t) (.credit v t) }
  | .updateMaxbal a => { db with addressinfo := db.addressinfo.modify a .raiseMaxbal }
  | .insertBlk row => { db with blkinfo := db.blkinfo ++ [row] }

/-- The database without rows. -/
def Db.empty (entityDefault : EntityRow) : Db where
  addressinfo := .empty
  entityinfo := .empty
  txinfo := []
  blkinfo := []
  entityDefault := entityDefault

/-- `MYSQL conn`: the database when it was opened and the statements executed
since. -/
structure Conn where
  start : Db
  journal : List Stmt

/-- The database now. -/
def Conn.db (conn : Conn) : Db := conn.journal.foldl Db.exec conn.start

/-- `mysql_query` of a list of statements, in order. -/
def Conn.queries (conn : Conn) (js : List Stmt) : Conn :=
  { conn with journal := conn.journal ++ js }

/-- `mysql_query` -/
def Conn.query (conn : Conn) (j : Stmt) : Conn := conn.queries [j]

@[simp] theorem Conn.db_queries (conn : Conn) (js : List Stmt) :
    (conn.queries js).db = js.foldl Db.exec conn.db := by
  rw [Conn.db, Conn.db, Conn.queries, List.foldl_append]

@[simp] theorem Conn.db_query (conn : Conn) (j : Stmt) : (conn.query j).db = conn.db.exec j :=
  conn.db_queries [j]

@[simp] theorem Conn.queries_nil (conn : Conn) : conn.queries [] = conn := by
  rw [Conn.queries, List.append_nil]

theorem Conn.queries_queries (conn : Conn) (js ks : List Stmt) :
    (conn.queries js).queries ks = conn.queries (js ++ ks) := by
  rw [Conn.queries, Conn.queries, Conn.queries, List.append_assoc]

@[simp] theorem Conn.queries_query (conn : Conn) (js : List Stmt) (k : Stmt) :
    (conn.queries js).query k = conn.queries (js ++ [k]) := conn.queries_queries js [k]

end BitcoinAnalysis
