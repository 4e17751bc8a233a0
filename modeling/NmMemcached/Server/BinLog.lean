import NmMemcached.Lib.Runs
import NmMemcached.Server.Item
import NmMemcached.Table.Refinement

/-!
# BinLog — the replication loop of `src/nmmc_server.cc`

`BinLogLoop` reads the binary log of MySQL and applies the rows of one table to the lookup table.

* An event is a table map, a rows event or something else.  A rows event has at least one row: the
  loop over rows is a `do … while` and looks at the first row before it asks for the end.
* A field is what the two conversions of the client library make of it: `converter.to(long)` and
  `as_blob`.
* A thrown exception leaves the thread, so the loop stops there (`Except`).  A row without a key
  column makes the source call the table with an uninitialised variable; the model stops as well.
-/

namespace NmMemcached
namespace Server

open Lib Table

/-! ## Events -/

structure Field where
  toLong : Int
  /-- The bytes `as_blob` points at; `none` is a null pointer. -/
  asBlob : Option (List UInt8)
  deriving DecidableEq

abbrev RowOfFields := List Field

inductive RowsEventType
  | write
  | update
  | delete
  deriving DecidableEq

structure RowsEvent where
  type : RowsEventType
  tableId : Nat
  first : RowOfFields
  rest : List RowOfFields
  deriving DecidableEq

def RowsEvent.rows (ev : RowsEvent) : List RowOfFields := ev.first :: ev.rest

structure TableMapEvent where
  tableId : Nat
  tblnam : List Char
  deriving DecidableEq

inductive BinaryLogEvent
  | tableMap (ev : TableMapEvent)
  | rows (ev : RowsEvent)
  | other
  deriving DecidableEq

/-! ## One row -/

/-- `KVS_COL::KEY` and `KVS_COL::VALUE`. -/
def kvsColKey : Nat := 1
def kvsColValue : Nat := 2

/-- The locals of the row loop that the columns fill in; `itmKey` starts uninitialised. -/
structure RowLocals where
  itmKey : Option Int
  itm : NmmcItem

/-- One turn of the loop over columns. -/
def onColumn (loc : RowLocals) (colid : Nat) (itf : Field) : RowLocals :=
  if colid = kvsColKey then
    { loc with itmKey := some itf.toLong }
  else if colid = kvsColValue then
    match itf.asBlob with
    | none => loc
    | some itmAdr =>
        -- The copy is cut at `ITEM_LEN`; the length is stored as it is, in 11 bits.
        { loc with
          itm :=
            { loc.itm.memcpyData itmAdr (min itmAdr.length itemLen) with
              datalen := BitVec.ofNat 11 itmAdr.length } }
  else
    loc

def onColumns : RowLocals → Nat → RowOfFields → RowLocals
  | loc, _, [] => loc
  | loc, colid, itf :: itfs => onColumns (onColumn loc colid itf) (colid + 1) itfs

def readRow (rof : RowOfFields) : RowLocals :=
  onColumns { itmKey := none, itm := NmmcItem.zeroed } 0 rof

/-- The conversion of `long` to the key type `uint32_t`. -/
def toKey (itmKey : Int) : Nat := (itmKey % 4294967296).toNat

/-- A call of the table: its return code is dropped, its exception is not caught. -/
def afterCall (res : Except String Int × Val) : Except String Val :=
  match res.1 with
  | .ok _ => .ok res.2
  | .error msg => .error msg

/-- The locals that live through the row loop. -/
structure RowLoop where
  updateIdx : Nat
  tbl : Val

/-- What the row loop does with the table for a row. -/
inductive RowCall
  | none
  | op (op : LookupTable.Update NmmcItem)
  /-- A call with a key that was never set. -/
  | stray

/-- The type of the event is tested first: `itm_key` is read in front of a call only. -/
def rowCall (type : RowsEventType) (updateIdx : Nat) (rof : RowOfFields) : RowCall :=
  let loc := readRow rof
  let callWith (f : Nat → LookupTable.Update NmmcItem) : RowCall :=
    match loc.itmKey with
    | .none => .stray
    | some itmKey => .op (f (toKey itmKey))
  match type with
  | .write => callWith fun key => .add key loc.itm
  | .update =>
      -- `update_idx++` is zero for the first row of the event only.
      if updateIdx ≠ 0 then
        callWith fun key => if loc.itm.valid = 0 then .del key else .add key loc.itm
      else
        .none
  | .delete => callWith .del

/-- `updateIdx` counts the rows of an UPDATE event only. -/
def nextIdx (type : RowsEventType) (i : Nat) : Nat :=
  match type with
  | .update => i + 1
  | _ => i

/-- The table behind a row. -/
def RowCall.exec (tbl : Val) : RowCall → Except String Val
  | .none => .ok tbl
  | .op update => afterCall (update.exec tbl)
  | .stray => .error "itm_key is not initialised"

def onRow (type : RowsEventType) (st : RowLoop) (rof : RowOfFields) : Except String RowLoop := do
  let tbl ← (rowCall type st.updateIdx rof).exec st.tbl
  .ok { updateIdx := nextIdx type st.updateIdx, tbl := tbl }

/-- The row loop of one rows event. -/
def rowLoop (tbl : Val) (ev : RowsEvent) : Except String Val := do
  let st ← runM (onRow ev.type) { updateIdx := 0, tbl := tbl } ev.rows
  .ok st.tbl

/-! ## The event loop -/

def tblKvs : List Char := "kvs".toList

/-- `strncasecmp(a, b, n) == 0`. -/
def strncaseeq : Nat → List Char → List Char → Bool
  | 0, _, _ => true
  | _ + 1, [], [] => true
  | n + 1, a :: s, b :: t => if a.toLower = b.toLower then strncaseeq n s t else false
  | _ + 1, _, _ => false

structure EventLoop where
  tmpevent : Option TableMapEvent
  tbl : Val

def EventLoop.start : EventLoop :=
  { tmpevent := none
    tbl := LookupTable.clear }

def onEvent (st : EventLoop) : BinaryLogEvent → Except String EventLoop
  | .tableMap ev =>
      -- The latest map replaces the one before, whatever the table ids are.
      if strncaseeq tblKvs.length tblKvs ev.tblnam then .ok { st with tmpevent := some ev }
      else .ok { st with tmpevent := none }
  | .rows ev =>
      match st.tmpevent with
      | none => .ok st
      | some _ => do
          -- The table id of the event is not compared with that of the map.
          let tbl ← rowLoop st.tbl ev
          .ok { st with tbl := tbl }
  | .other => .ok st

/-- The loop over a whole log. -/
def binLogLoop (log : List BinaryLogEvent) : Except String EventLoop :=
  runM onEvent EventLoop.start log

end Server
end NmMemcached
