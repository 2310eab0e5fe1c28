/-
`EntityProcess.h`: the entity numbers of addresses.

An address gets an entity number when it is first paid (`outputEntityMysql`);
the inputs of one transaction are merged under their smallest number
(`inputEntityMysql`); the columns of `entityinfo` are recomputed, for the
numbers recorded in `entitychange_v`, at the end of a run
(`updateEntityMysql`).
-/
import BitcoinAnalysis.Run
import BitcoinAnalysis.LittleEndian
import BitcoinAnalysis.Sql
import Mathlib.Data.List.Sort

open LittleEndian

namespace BitcoinAnalysis

/-- The stores and the global variables of the program. -/
structure World where
  conn : Conn
  txDb : KeyedTable Hash (List UInt8)
  entitycnt : UInt32
  entitychangeV : List UInt32

def coinbaseH : Address := Bytes.replicate 20 0x30

/-- The four bytes of an `entity` column, written as `x'%08x'`. -/
def entityColumn (e : UInt32) : Bytes 4 :=
  ⟨(leBytes 4 e.toNat).reverse, by rw [List.length_reverse, length_leBytes]⟩

/-- `temp2[3 - i] = temp1[i]; memcpy(&entity, temp2, 4)` -/
def entityOfColumn (temp1 : Bytes 4) : UInt32 := UInt32.ofNat (leNat temp1.reverse.1)

/-- `SELECT entity FROM addressinfo WHERE address = x'a'` and the unchecked
fetch of its first row. -/
def selectEntity (db : Db) (a : Address) : Except Fault UInt32 :=
  match db.addressinfo.find? a with
  | none => .error .nullRow
  | some row => .ok (entityOfColumn (entityColumn row.entity))

/-- The loop over the sorted numbers: each one that differs from its
predecessor is relabelled to `e0` and deleted. -/
def mergeStmts (e0 : UInt32) : UInt32 → List UInt32 → List Stmt
  | _, [] => []
  | prev, e :: es =>
    (if prev ≠ e then [.relabelEntity e0 e, .deleteEntity e] else []) ++ mergeStmts e0 e es

def inputEntityMysql (w : World) (addressBv : List Address) : Except Fault World :=
  match addressBv with
  | [a] =>
    if a ≠ coinbaseH then do
      let entity ← selectEntity w.conn.db a
      .ok { w with entitychangeV := w.entitychangeV ++ [entity] }
    else .ok w
  | _ => do
    let entityV ← addressBv.mapM (selectEntity w.conn.db)
    match entityV.insertionSort (· ≤ ·) with
    | [] => .error .emptyVector
    | e0 :: es =>
      let conn := if es.any (e0 ≠ ·) then w.conn.queries (mergeStmts e0 e0 es) else w.conn
      .ok { w with conn := conn, entitychangeV := w.entitychangeV ++ [e0] }

def insertEntityMysql (conn : Conn) (entitycnt : UInt32) : Conn :=
  conn.query (.insertEntity entitycnt)

/-- One iteration of `output_entity_mysql`. -/
def outputEntityStep (w : World) (a : Address) : Except Fault World := do
  let entity ← selectEntity w.conn.db a
  if 0 = entity then
    let entitycnt := w.entitycnt + 1
    let conn := insertEntityMysql (w.conn.query (.setEntity a entitycnt)) entitycnt
    .ok { w with
      conn := conn
      entitycnt := entitycnt
      entitychangeV := w.entitychangeV ++ [entitycnt] }
  else
    -- the number recorded is the counter, not `entity`
    .ok { w with entitychangeV := w.entitychangeV ++ [w.entitycnt] }

def outputEntityMysql (w : World) (addressBv : List Address) : Except Fault World :=
  Run.run outputEntityStep w addressBv

/-- `std::unique`: drop every element equal to its predecessor. -/
def unique : List UInt32 → List UInt32
  | a :: b :: l => if a = b then unique (b :: l) else a :: unique (b :: l)
  | l => l

def updateEntityMysql (w : World) : World :=
  let entChangeV := unique (w.entitychangeV.insertionSort (· ≤ ·))
  { w with conn := w.conn.queries (entChangeV.map .aggregateEntity), entitychangeV := [] }

theorem entityOfColumn_entityColumn (e : UInt32) : entityOfColumn (entityColumn e) = e := by
  have hlt : e.toNat < 256 ^ 4 := e.toNat_lt
  rw [entityOfColumn, entityColumn, Bytes.val_reverse, List.reverse_reverse,
    leNat_leBytes_of_lt hlt, UInt32.ofNat_toNat]

/-- The byte order of the column cancels out. -/
theorem selectEntity_eq_ok {db : Db} {a : Address} {e : UInt32} :
    selectEntity db a = .ok e ↔ ∃ row, db.addressinfo.find? a = some row ∧ row.entity = e := by
  rw [selectEntity]
  cases h : db.addressinfo.find? a with
  | none => simp
  | some row => simp [entityOfColumn_entityColumn]

end BitcoinAnalysis
