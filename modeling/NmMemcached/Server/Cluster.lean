import NmMemcached.Lib.Simulation
import NmMemcached.Server.EndToEnd

/-!
# Cluster — several instances on one database

Every instance answers requests from its own lookup table, hands SETs to the one database, and reads
the whole binary log at its own pace.  An answer to a request, and what the loop makes of one event
of the log, are one step each.

What the clients see is explained by a store without tables and events (`Step`): the SETs that were
carried out are one log, an instance has seen a prefix of it, and a GET is answered from what the
instance has seen.

* A key shows the value of its SET after one SET.  After none it shows nothing, and after two of
  them nothing either: an overwritten key is logged as an UPDATE_ROWS event.
* A statement that gives a key the value it has changes no row, and may be logged or not.
* A statement that reports an error has been undone, or carried out before the connection was lost.
-/

namespace NmMemcached
namespace Server

open Lib Base Net Table

/-! ## The database -/

/-- The rows event that puts a value in the place of what kvs holds for the key. -/
def RowsOf (key : Nat) (val : List UInt8) : Option (List UInt8) → RowsEvent → Prop
  | none, ev => ∃ tableId row, ev = ⟨.write, tableId, row, []⟩ ∧ IsRow row key val
  | some old, ev => ∃ tableId row row', ev = ⟨.update, tableId, row, [row']⟩ ∧
      IsRow row key old ∧ IsRow row' key val

section Statements

variable {Db : Type} (my : Mysql Db)

/-- The statement of a SET is carried out and logged. -/
structure Mysql.Executed (db : Db) (key : Nat) (digits : List Char) (db' : Db) : Prop where
  stores : my.kvs db' = Function.update (my.kvs db) key (some (Hex.literal digits))
  logs : ∃ chunk ev, Logged chunk ev ∧ RowsOf key (Hex.literal digits) (my.kvs db key) ev ∧
    my.binlog db' = my.binlog db ++ chunk

/-- Nothing that the instances look at has changed. -/
def Mysql.Same (db db' : Db) : Prop :=
  my.kvs db' = my.kvs db ∧ my.binlog db' = my.binlog db

/-- The documented behaviour of the statement of a SET, whatever it reports. -/
structure Mysql.Statements : Prop where
  accepted : ∀ db key digits, key < tableSize → digits ≠ [] →
    (∀ c ∈ digits, Hex.isDigit c = true) → (my.query db (setStatement key digits)).1 = 0 →
      my.Executed db key digits (my.query db (setStatement key digits)).2 ∨
      (my.kvs db key = some (Hex.literal digits) ∧
        my.Same db (my.query db (setStatement key digits)).2)
  refused : ∀ db key digits, key < tableSize → digits ≠ [] →
    (∀ c ∈ digits, Hex.isDigit c = true) → (my.query db (setStatement key digits)).1 ≠ 0 →
      my.Same db (my.query db (setStatement key digits)).2 ∨
      my.Executed db key digits (my.query db (setStatement key digits)).2

/-- An engine that carries out every statement it reports success for. -/
theorem Mysql.Documented.executed {my : Mysql Db} (hmy : my.Documented) {db : Db} {key : Nat}
    {digits : List Char} (hkey : key < tableSize) (hdigits : digits ≠ [])
    (hhex : ∀ c ∈ digits, Hex.isDigit c = true)
    (hok : (my.query db (setStatement key digits)).1 = 0) :
    my.Executed db key digits (my.query db (setStatement key digits)).2 := by
  refine ⟨hmy.stores db key digits hkey hdigits hhex hok, ?_⟩
  cases hheld : my.kvs db key with
  | none =>
      rcases hmy.logsWrite db key digits hkey hdigits hhex hok hheld with
        ⟨chunk, tableId, row, hchunk, hrow, hlog⟩
      exact ⟨chunk, _, hchunk, ⟨tableId, row, rfl, hrow⟩, hlog⟩
  | some old =>
      rcases hmy.logsUpdate db key digits old hkey hdigits hhex hok hheld with
        ⟨chunk, tableId, row, row', hchunk, hrow, hrow', hlog⟩
      exact ⟨chunk, _, hchunk, ⟨tableId, row, row', rfl, hrow, hrow'⟩, hlog⟩

end Statements

theorem memMysql_statements : memMysql.Statements :=
  ⟨fun _ _ _ hkey hdigits hhex hok =>
      Or.inl (memMysql_documented.executed hkey hdigits hhex hok),
    fun _ _ _ _ _ _ hno => absurd rfl hno⟩

/-! ## The instances -/

/-- `consumed` is how many events the loop has taken from the log. -/
structure Instance where
  consumed : Nat
  loop : Except String EventLoop

def Instance.start : Instance :=
  { consumed := 0
    loop := .ok EventLoop.start }

structure Cluster (ι : Type) (Db : Type) where
  db : Db
  instances : ι → Instance

namespace Cluster

inductive Event (ι : Type)
  | recieve (i : ι) (pkt : Packet)
  | binlog (i : ι)
  | restart (i : ι)

section Steps

variable {ι Db : Type} [DecidableEq ι] (my : Mysql Db) (heap : ι → Iterator → Nat → UInt8)

/-- The server of an instance with the table of its loop. -/
def server (i : ι) (st : EventLoop) : Server Db :=
  { lookupValue := st.tbl
    behind := heap i
    mysqlQuery := my.query }

def setInstance (c : Cluster ι Db) (i : ι) (inst : Instance) : Cluster ι Db :=
  { c with instances := Function.update c.instances i inst }

def step (c : Cluster ι Db) : Event ι → Cluster ι Db
  | .recieve i pkt =>
      match (c.instances i).loop with
      -- An exception of the loop has ended the process.
      | .error _ => c
      | .ok st => { c with db := (onRecieve (server my heap i st) pkt c.db).2.2 }
  | .binlog i =>
      match (my.binlog c.db)[(c.instances i).consumed]? with
      -- `get_next_event` waits.
      | none => c
      | some ev =>
          setInstance c i
            { consumed := (c.instances i).consumed + 1
              loop := (c.instances i).loop >>= fun st => onEvent st ev }
  -- `set_position(4)`: a new process reads the log from its beginning.
  | .restart i => setInstance c i .start

def start (db : Db) : Cluster ι Db :=
  { db := db
    instances := fun _ => .start }

/-- The answer that is sent for an event. -/
def answer (c : Cluster ι Db) : Event ι → Option Response
  | .recieve i pkt =>
      match (c.instances i).loop with
      | .error _ => none
      | .ok st =>
          if (onRecieve (server my heap i st) pkt c.db).1 &&& needSend ≠ 0 then
            Response.ofPacket (onRecieve (server my heap i st) pkt c.db).2.1
          else none
  | _ => none

def label (c : Cluster ι Db) (e : Event ι) : Event ι × Option Response :=
  (e, answer my heap c e)

end Steps

/-- A SET that the server accepts has a value, of not more than 1024 bytes. -/
def Event.Fits {ι : Type} : Event ι → Prop
  | .recieve _ pkt =>
      Accepted pkt → Header.opcode pkt.data pkt.payload = opcodeSet → SetRequest pkt
  | _ => True

/-! ## The store that explains them -/

/-- The answer to a GET that finds this. -/
def found : Option (List UInt8) → Response
  | some v => ⟨0, zeros 4, v⟩
  | none => ⟨1, [], notfound⟩

/-- What MySQL makes of the value of a SET. -/
def stored (pkt : Packet) : List UInt8 := Hex.literal (hexval pkt)

/-- The value that kvs has after the SETs on a key. -/
def current (k : Nat) (sets : List Packet) : Option (List UInt8) :=
  (setsOn k sets).getLast?.map stored

section Step

variable {ι : Type} [DecidableEq ι]

inductive Step : Replicas ι Packet → Event ι × Option Response → Replicas ι Packet → Prop
  | get {s : Replicas ι Packet} {i : ι} {pkt : Packet} : GetRequest pkt →
      Step s (.recieve i pkt, some (found (heldAfter (setsOn (requestKey pkt) (s.seen i))))) s
  | set {s : Replicas ι Packet} {i : ι} {pkt : Packet} : SetRequest pkt →
      Step s (.recieve i pkt, some ⟨0, [], []⟩) (s.commit pkt)
  | again {s : Replicas ι Packet} {i : ι} {pkt : Packet} : SetRequest pkt →
      current (requestKey pkt) s.log = some (stored pkt) →
      Step s (.recieve i pkt, some ⟨0, [], []⟩) s
  | refused {s : Replicas ι Packet} {i : ι} {pkt : Packet} : SetRequest pkt →
      Step s (.recieve i pkt, some ⟨1, [], []⟩) s
  | unsure {s : Replicas ι Packet} {i : ι} {pkt : Packet} : SetRequest pkt →
      Step s (.recieve i pkt, some ⟨1, [], []⟩) (s.commit pkt)
  | dropped {s : Replicas ι Packet} {i : ι} {pkt : Packet} : ¬ Accepted pkt →
      Step s (.recieve i pkt, none) s
  | seen {s : Replicas ι Packet} {i : ι} : s.view i < s.log.length →
      Step s (.binlog i, none) (s.advance i)
  | skipped {s : Replicas ι Packet} {i : ι} :
      Step s (.binlog i, none) s
  | restarted {s : Replicas ι Packet} {i : ι} :
      Step s (.restart i, none) (s.restart i)

end Step

/-! ## The prefixes of a log -/

def isRows : BinaryLogEvent → Bool
  | .rows _ => true
  | _ => false

/-- How many rows events a log has. -/
def rowsIn (log : List BinaryLogEvent) : Nat := log.countP isRows

theorem rowsIn_eq_zero {log : List BinaryLogEvent} :
    rowsIn log = 0 ↔ ∀ e ∈ log, ∀ ev, e ≠ .rows ev := by
  rw [rowsIn, List.countP_eq_zero]
  refine forall_congr' fun e => forall_congr' fun _ => ?_
  cases e <;> simp [isRows]

theorem rowsIn_append (log log' : List BinaryLogEvent) :
    rowsIn (log ++ log') = rowsIn log + rowsIn log' := List.countP_append

/-- Events without rows leave the table as it is. -/
theorem runM_of_no_rows (st : EventLoop) {es : List BinaryLogEvent} (h : rowsIn es = 0) :
    ∃ st', runM onEvent st es = .ok st' ∧ st'.tbl = st.tbl := by
  have hno := rowsIn_eq_zero.1 h
  clear h
  induction es generalizing st with
  | nil =>
      exact ⟨st, rfl, rfl⟩
  | cons e es ih =>
      have hone : ∃ m, onEvent st e = .ok m ∧ m.tbl = st.tbl := by
        cases e with
        | tableMap ev =>
            by_cases hlike : strncaseeq tblKvs.length tblKvs ev.tblnam = true <;>
              simp [onEvent, hlike]
        | rows ev => exact absurd rfl (hno _ (by simp) ev)
        | other => exact ⟨st, rfl, rfl⟩
      rcases hone with ⟨m, hm, htbl⟩
      rcases ih m fun e' he' => hno e' (List.mem_cons_of_mem _ he') with ⟨st', hst', htbl'⟩
      exact ⟨st', (runM_cons_ok onEvent).2 ⟨m, hm, hst'⟩, htbl'.trans htbl⟩

theorem prefix_append_cases {α : Type} {pre l r : List α} (h : pre <+: l ++ r) :
    pre <+: l ∨ ∃ t, t <+: r ∧ pre = l ++ t := by
  rcases List.prefix_or_prefix_of_prefix h (List.prefix_append l r) with hpre | ⟨t, rfl⟩
  · exact Or.inl hpre
  · exact Or.inr ⟨t, (List.prefix_append_right_inj l).1 h, rfl⟩

/-- A prefix of what one statement logs has the rows event, behind its map, or no rows. -/
theorem rowsIn_logged {chunk pre : List BinaryLogEvent} {ev : RowsEvent} (h : Logged chunk ev)
    (hpre : pre <+: chunk) : rowsIn pre = 0 ∨ (rowsIn pre = 1 ∧ Logged pre ev) := by
  rcases h with ⟨before, between, after, hother, rfl⟩
  have hzero : ∀ es : List BinaryLogEvent, (∀ e ∈ es, e = .other) → rowsIn es = 0 := by
    intro es hes
    refine rowsIn_eq_zero.2 fun e he ev' => ?_
    rw [hes e he]
    exact nofun
  have hfront : rowsIn (before ++ [.tableMap { tableId := ev.tableId, tblnam := tblKvs }] ++
      between) = 0 := by
    rw [rowsIn_append, rowsIn_append, hzero before fun e he => hother e (by simp [he]),
      hzero between fun e he => hother e (by simp [he])]
    rfl
  rw [List.append_assoc] at hpre
  rcases prefix_append_cases hpre with hshort | ⟨t, ht, rfl⟩
  · left
    have hle : rowsIn pre ≤ 0 := hfront ▸ hshort.sublist.countP_le
    exact Nat.le_zero.1 hle
  · rw [rowsIn_append, hfront, Nat.zero_add]
    rcases List.prefix_cons_iff.1 ht with rfl | ⟨rest, rfl, hrest⟩
    · exact Or.inl rfl
    · right
      have hothers : ∀ e ∈ rest, e = .other :=
        fun e he => hother e (List.mem_append_right _ (hrest.mem he))
      refine ⟨?_, before, between, rest, ?_, ?_⟩
      · rw [← List.singleton_append, rowsIn_append, hzero rest hothers]
        rfl
      · intro e he
        rcases List.mem_append.1 he with hold | hnew
        · exact hother e (List.mem_append_left _ hold)
        · exact hothers e hnew
      · rw [List.append_assoc _ [BinaryLogEvent.rows ev] rest]
        rfl

/-- At every position of the log the loop has a table that shows the SETs logged so far. -/
structure Replays (log : List BinaryLogEvent) (sets : List Packet) : Prop where
  rows : rowsIn log = sets.length
  table : ∀ pre, pre <+: log → ∃ st, binLogLoop pre = .ok st ∧
    ∀ k < tableSize, st.tbl.shown k = shownAfter (setsOn k (sets.take (rowsIn pre)))

theorem replays_of_no_rows {log : List BinaryLogEvent} (h : rowsIn log = 0) :
    Replays log [] := by
  refine ⟨h, ?_⟩
  intro pre hpre
  have hzero : rowsIn pre = 0 := Nat.le_zero.1 (h ▸ hpre.sublist.countP_le)
  rcases binLogLoop_of_no_rows (rowsIn_eq_zero.1 hzero) with ⟨st, hst, htbl⟩
  refine ⟨st, hst, ?_⟩
  intro k hk
  have hempty : ∀ op ∈ ([] : List (LookupTable.Update NmmcItem)), op.key < tableSize := by simp
  rw [htbl, List.take_nil]
  exact LookupTable.shown_run_of_none hempty hk rfl

/-- What the row loop makes of a SET. -/
theorem rowLoop_rowsOf {key : Nat} (hkey : key < tableSize) {val : List UInt8}
    {held : Option (List UInt8)} {ev : RowsEvent} (h : RowsOf key val held ev) (tbl : Val) :
    ∃ op : LookupTable.Update NmmcItem, op.key = key ∧ rowLoop tbl ev = .ok (tbl.apply op) ∧
      (tbl.apply op).shown key =
        if held = none then some (Item.setValid statOn (itemOfBlob val)) else none := by
  cases held with
  | none =>
      rcases h with ⟨tableId, row, rfl, hrow⟩
      exact ⟨.add key (itemOfBlob val), rfl, rowLoop_write tbl hkey hrow,
        LookupTable.shown_apply_add tbl hkey _⟩
  | some old =>
      rcases h with ⟨tableId, row, row', rfl, hrow, hrow'⟩
      exact ⟨.del key, rfl, rowLoop_update tbl hkey hrow hrow',
        LookupTable.shown_apply_del tbl hkey⟩

theorem current_eq_none {k : Nat} {sets : List Packet} :
    current k sets = none ↔ setsOn k sets = [] := by
  simp [current]

theorem current_append_singleton (k : Nat) (sets : List Packet) (pkt : Packet) :
    current k (sets ++ [pkt]) =
      if requestKey pkt = k then some (stored pkt) else current k sets := by
  rw [current, setsOn_append_singleton]
  by_cases h : requestKey pkt = k <;> simp [h, current]

/-- One SET more. -/
theorem Replays.append {log : List BinaryLogEvent} {sets : List Packet} (h : Replays log sets)
    {chunk : List BinaryLogEvent} {ev : RowsEvent} (hchunk : Logged chunk ev) {pkt : Packet}
    (hrows : RowsOf (requestKey pkt) (stored pkt) (current (requestKey pkt) sets) ev) :
    Replays (log ++ chunk) (sets ++ [pkt]) := by
  have hone : rowsIn chunk = 1 := by
    rcases rowsIn_logged hchunk (List.prefix_refl chunk) with hzero | ⟨hone, _⟩
    · rcases hchunk with ⟨before, between, after, _, rfl⟩
      exact absurd rfl (rowsIn_eq_zero.1 hzero (.rows ev) (by simp) ev)
    · exact hone
  refine ⟨?_, ?_⟩
  · rw [rowsIn_append, h.rows, hone, List.length_append]
    rfl
  · intro pre hpre
    rcases prefix_append_cases hpre with hold | ⟨t, ht, rfl⟩
    · rcases h.table pre hold with ⟨st, hst, hshown⟩
      have hle : rowsIn pre ≤ sets.length := h.rows ▸ hold.sublist.countP_le
      refine ⟨st, hst, ?_⟩
      rw [List.take_append_of_le_length hle]
      exact hshown
    · rcases h.table log (List.prefix_refl log) with ⟨st, hst, hshown⟩
      rw [h.rows, List.take_length] at hshown
      rw [rowsIn_append, h.rows]
      rcases rowsIn_logged hchunk ht with hzero | ⟨hrow, hlogged⟩
      · -- The rows event is still to come.
        rcases runM_of_no_rows st hzero with ⟨st', hst', htbl⟩
        refine ⟨st', (runM_append_ok onEvent).2 ⟨st, hst, hst'⟩, ?_⟩
        rw [hzero, htbl, Nat.add_zero, List.take_left]
        exact hshown
      · rcases rowLoop_rowsOf (requestKey_lt pkt) hrows st.tbl with ⟨op, hop, hloop, hnew⟩
        rcases runM_logged st hlogged hloop with ⟨map, hrun⟩
        refine ⟨_, (runM_append_ok onEvent).2 ⟨st, hst, hrun⟩, ?_⟩
        intro k hk
        have hall : (sets ++ [pkt]).take (sets.length + rowsIn t) = sets ++ [pkt] := by
          rw [hrow]
          exact List.take_of_length_le (by simp)
        rw [hall, setsOn_append_singleton]
        by_cases hkey : requestKey pkt = k
        · subst hkey
          rw [if_pos rfl]
          by_cases hheld : setsOn (requestKey pkt) sets = []
          · rw [if_pos (current_eq_none.2 hheld)] at hnew
            rw [hheld]
            exact hnew
          · rw [if_neg fun hnone => hheld (current_eq_none.1 hnone)] at hnew
            rw [shownAfter_append_of_ne_nil hheld]
            exact hnew
        · have hne : k ≠ op.key := fun hk' => hkey (hop ▸ hk'.symm)
          rw [if_neg hkey, ← hshown k hk]
          exact (LookupTable.find_apply_of_ne tableSize_pos hne).2

/-! ## The simulation -/

section Simulation

variable {ι Db : Type} (my : Mysql Db) (heap : ι → Iterator → Nat → UInt8)

/-- The store and the cluster: kvs holds the last SETs, and an instance that has taken a prefix of
the log has seen the SETs of that prefix. -/
structure Explained (c : Cluster ι Db) (s : Replicas ι Packet) : Prop where
  sets : ∀ pkt ∈ s.log, SetRequest pkt
  kvs : ∀ k, my.kvs c.db k = current k s.log
  replays : Replays (my.binlog c.db) s.log
  loops : ∀ i, ∃ pre, pre <+: my.binlog c.db ∧ (c.instances i).consumed = pre.length ∧
    (c.instances i).loop = binLogLoop pre ∧ s.view i = rowsIn pre

theorem explained_start {db : Db} (hkvs : my.kvs db = Kvs.empty)
    (hlog : ∀ e ∈ my.binlog db, ∀ ev, e ≠ .rows ev) :
    Explained my (start db : Cluster ι Db) Replicas.start := by
  refine ⟨nofun, ?_, replays_of_no_rows (rowsIn_eq_zero.2 hlog), ?_⟩
  · intro k
    rw [start, hkvs]
    rfl
  · intro i
    exact ⟨[], List.nil_prefix, rfl, rfl, rfl⟩

variable {my}

/-- A statement that is carried out is one SET more in the store. -/
theorem explained_commit {c : Cluster ι Db} {s : Replicas ι Packet} (h : Explained my c s)
    {pkt : Packet} (hset : SetRequest pkt) {db' : Db}
    (hdone : my.Executed c.db (requestKey pkt) (hexval pkt) db') :
    Explained my { c with db := db' } (s.commit pkt) := by
  rcases hdone.logs with ⟨chunk, ev, hchunk, hrows, hlog⟩
  rw [h.kvs] at hrows
  refine ⟨?_, ?_, ?_, ?_⟩
  · intro p hp
    rcases List.mem_append.1 hp with hold | hnew
    · exact h.sets p hold
    · rw [List.mem_singleton.1 hnew]
      exact hset
  · intro k
    have hcurrent := current_append_singleton k s.log pkt
    by_cases hk : requestKey pkt = k
    · subst hk
      rw [if_pos rfl] at hcurrent
      exact (congrFun hdone.stores _).trans ((Function.update_self _ _ _).trans hcurrent.symm)
    · rw [if_neg hk, ← h.kvs k] at hcurrent
      exact (congrFun hdone.stores _).trans
        ((Function.update_of_ne (Ne.symm hk) _ _).trans hcurrent.symm)
  · have happend := h.replays.append hchunk hrows
    rw [← hlog] at happend
    exact happend
  · intro i
    rcases h.loops i with ⟨pre, hpre, hrest⟩
    exact ⟨pre, hlog ▸ List.prefix_append_of_prefix hpre, hrest⟩

/-- A statement that changes nothing. -/
theorem explained_same {c : Cluster ι Db} {s : Replicas ι Packet} (h : Explained my c s)
    {db' : Db} (hsame : my.Same c.db db') : Explained my { c with db := db' } s := by
  refine ⟨h.sets, ?_, ?_, ?_⟩
  · intro k
    exact (congrFun hsame.1 k).trans (h.kvs k)
  · exact hsame.2 ▸ h.replays
  · intro i
    rcases h.loops i with ⟨pre, hpre, hrest⟩
    exact ⟨pre, hsame.2 ▸ hpre, hrest⟩

/-- A GET reads what the SETs have left in the table. -/
theorem response_get (srv : Server Db) (db : Db) {pkt : Packet} (hget : GetRequest pkt)
    {sets : List Packet} (hsets : ∀ p ∈ sets, SetRequest p)
    (hshown : srv.lookupValue.shown (requestKey pkt) = shownAfter sets) :
    Response.ofPacket (onRecieve srv pkt db).2.1 = some (found (heldAfter sets)) := by
  rw [reply_onRecieve_get srv db hget, reply_onRecieveGet, hshown]
  match sets with
  | [] => exact ofPacket_replyNotfound pkt
  | [p] =>
      have hlen := length_literal_hexval (hsets p (by simp))
      have hdata := datalen_itemOfBlob hlen.2
      have hne : (Item.setValid statOn (itemOfBlob (Hex.literal (hexval p)))).datalen ≠ 0 := by
        intro hzero
        have hnat : (itemOfBlob (Hex.literal (hexval p))).datalen.toNat = 0 :=
          congrArg BitVec.toNat hzero
        omega
      have hcopy : ∀ behind, (itemOfBlob (Hex.literal (hexval p))).copyData behind
          (Hex.literal (hexval p)).length = Hex.literal (hexval p) := by
        intro behind
        rw [copyData_itemOfBlob _ behind (by simp [hlen.2]), List.take_length]
      have hexpire : (itemOfBlob (Hex.literal (hexval p))).expire = 0 := rfl
      have hextras : Mem.le32Bytes (itemOfBlob (Hex.literal (hexval p))).expire = zeros 4 := by
        rw [hexpire]
        decide
      simp only [shownAfter]
      rw [if_neg hne, ofPacket_replyFound]
      have hcopy' := hcopy (srv.behind (srv.lookupValue.find (requestKey pkt) 0))
      rw [← hdata] at hcopy'
      exact congrArg₂ (fun extras v => some (⟨0, extras, v⟩ : Response)) hextras hcopy'
  | _ :: _ :: _ => exact ofPacket_replyNotfound pkt

variable [DecidableEq ι]

section Recieve

variable {c : Cluster ι Db} {s : Replicas ι Packet} (h : Explained my c s) {i : ι} {pkt : Packet}
  (st : EventLoop)
include h

/-- A GET is answered from what the instance has seen. -/
theorem explained_get (hget : GetRequest pkt)
    (hshown : ∀ k < tableSize, st.tbl.shown k = shownAfter (setsOn k (s.seen i))) :
    Step s (.recieve i pkt, Response.ofPacket (onRecieve (server my heap i st) pkt c.db).2.1) s ∧
      Explained my { c with db := (onRecieve (server my heap i st) pkt c.db).2.2 } s := by
  have hseen : ∀ p ∈ setsOn (requestKey pkt) (s.seen i), SetRequest p :=
    fun p hp => h.sets p (List.mem_of_mem_take (List.mem_filter.1 hp).1)
  have hanswer := response_get (server my heap i st) c.db hget hseen (hshown _ (requestKey_lt pkt))
  have haccepted : Accepted pkt := ⟨hget.valid, hget.keylen⟩
  have hcall := onRecieve_of_get (server my heap i st) c.db haccepted hget.opcode
  rw [hanswer, snd_snd_of_eq hcall]
  exact ⟨.get hget, explained_same h ⟨rfl, rfl⟩⟩

/-- A SET changes the database as its statement does. -/
theorem explained_set (hmy : my.Statements) (hset : SetRequest pkt) :
    ∃ s', Step s
        (.recieve i pkt, Response.ofPacket (onRecieve (server my heap i st) pkt c.db).2.1) s' ∧
      Explained my { c with db := (onRecieve (server my heap i st) pkt c.db).2.2 } s' := by
  have hcall := onRecieve_set (server my heap i st) c.db hset
  have hkey := requestKey_lt pkt
  have hdigits := hexval_ne_nil hset
  have hhex := isDigit_hexval pkt
  rw [snd_snd_of_eq hcall]
  by_cases hok : (my.query c.db (setStatement (requestKey pkt) (hexval pkt))).1 = 0
  · rw [(status_onRecieve_set (server my heap i st) c.db hset).2 hok]
    rcases hmy.accepted c.db _ _ hkey hdigits hhex hok with hdone | ⟨hheld, hsame⟩
    · exact ⟨_, .set hset, explained_commit h hset hdone⟩
    · rw [h.kvs] at hheld
      exact ⟨s, .again hset hheld, explained_same h hsame⟩
  · have hno : ((server my heap i st).mysqlQuery c.db
        (setStatement (requestKey pkt) (hexval pkt))).1 ≠ 0 := hok
    have hrefused : Response.ofPacket (onRecieve (server my heap i st) pkt c.db).2.1 =
        some ⟨1, [], []⟩ := by
      rw [fst_snd_of_eq hcall, if_pos hno, ofPacket_replySet]
      rfl
    rw [hrefused]
    -- The client cannot tell the two cases apart.
    rcases hmy.refused c.db _ _ hkey hdigits hhex hok with hsame | hdone
    · exact ⟨s, .refused hset, explained_same h hsame⟩
    · exact ⟨_, .unsure hset, explained_commit h hset hdone⟩

end Recieve

theorem explained_recieve (hmy : my.Statements) {c : Cluster ι Db} {s : Replicas ι Packet}
    (h : Explained my c s) (i : ι) {pkt : Packet} (hfits : (Event.recieve i pkt).Fits) :
    ∃ s', Step s (label my heap c (.recieve i pkt)) s' ∧
      Explained my (step my heap c (.recieve i pkt)) s' := by
  rcases h.loops i with ⟨pre, hpre, _, hloop, hview⟩
  rcases h.replays.table pre hpre with ⟨st, hst, hshown⟩
  rw [hst] at hloop
  rw [← hview] at hshown
  have hstep : step my heap c (.recieve i pkt) =
      { c with db := (onRecieve (server my heap i st) pkt c.db).2.2 } := by
    simp only [step, hloop]
  have hlabel : label my heap c (.recieve i pkt) = (.recieve i pkt,
      if (onRecieve (server my heap i st) pkt c.db).1 &&& needSend ≠ 0 then
        Response.ofPacket (onRecieve (server my heap i st) pkt c.db).2.1 else none) := by
    simp only [label, answer, hloop]
  rw [hstep, hlabel]
  by_cases haccepted : Accepted pkt
  · rw [(onRecieve_of_accepted _ _ haccepted).1, if_pos (by decide)]
    -- The validator lets GETs and SETs through.
    rcases ((validateHeader_iff _ _ _).1 haccepted.1).1.2.2 with ⟨hop, _⟩ | ⟨hop, _⟩
    · exact ⟨s, explained_get heap h st ⟨haccepted.1, haccepted.2, hop⟩ hshown⟩
    · exact explained_set heap h st hmy (hfits haccepted hop)
  · have hdropped : Step s (.recieve i pkt, none) s := .dropped haccepted
    rw [onRecieve_of_not_accepted _ _ _ haccepted]
    refine ⟨s, ?_, h⟩
    simpa only [Nat.zero_and, ne_eq, not_true_eq_false, if_false] using hdropped

/-- The prefix of a log with one event more. -/
theorem prefix_append_getElem {log pre : List BinaryLogEvent} (hpre : pre <+: log)
    {ev : BinaryLogEvent} (hev : log[pre.length]? = some ev) : pre ++ [ev] <+: log := by
  rcases hpre with ⟨rest, rfl⟩
  rw [List.getElem?_append_right (Nat.le_refl _), Nat.sub_self] at hev
  cases rest with
  | nil =>
      cases hev
  | cons e rest =>
      cases hev
      exact ⟨rest, by simp⟩

/-- What changes one instance only. -/
theorem explained_setInstance {c : Cluster ι Db} {s : Replicas ι Packet} (h : Explained my c s)
    (i : ι) {inst : Instance} {pre : List BinaryLogEvent} (hpre : pre <+: my.binlog c.db)
    (hconsumed : inst.consumed = pre.length) (hloop : inst.loop = binLogLoop pre)
    {view : ι → Nat} (hview : view = Function.update s.view i (rowsIn pre)) :
    Explained my (setInstance c i inst) { s with view := view } := by
  refine ⟨h.sets, h.kvs, h.replays, ?_⟩
  intro j
  subst hview
  by_cases hj : j = i
  · subst hj
    simp only [setInstance, Function.update_self]
    exact ⟨pre, hpre, hconsumed, hloop, rfl⟩
  · simp only [setInstance, Function.update_of_ne hj]
    exact h.loops j

theorem explained_binlog {c : Cluster ι Db} {s : Replicas ι Packet} (h : Explained my c s)
    (i : ι) :
    ∃ s', Step s (label my heap c (.binlog i)) s' ∧
      Explained my (step my heap c (.binlog i)) s' := by
  rcases h.loops i with ⟨pre, hpre, hconsumed, hloop, hview⟩
  cases hev : (my.binlog c.db)[(c.instances i).consumed]? with
  | none =>
      refine ⟨s, .skipped, ?_⟩
      simpa only [step, hev] using h
  | some ev =>
      rw [hconsumed] at hev
      have hnext := prefix_append_getElem hpre hev
      have hloop' : ((c.instances i).loop >>= fun st => onEvent st ev) =
          binLogLoop (pre ++ [ev]) := by
        rw [hloop, binLogLoop, binLogLoop, runM_append]
        congr 1
        funext st
        exact (runM_singleton onEvent st ev).symm
      have hstep : step my heap c (.binlog i) = setInstance c i
          { consumed := (c.instances i).consumed + 1
            loop := (c.instances i).loop >>= fun st => onEvent st ev } := by
        simp only [step, hconsumed, hev]
      have hone : rowsIn (pre ++ [ev]) = s.view i + if isRows ev then 1 else 0 := by
        rw [rowsIn_append, hview, rowsIn, rowsIn, List.countP_singleton]
      rw [hstep]
      by_cases hrows : isRows ev = true
      · rw [if_pos hrows] at hone
        have hle : rowsIn (pre ++ [ev]) ≤ s.log.length :=
          h.replays.rows ▸ hnext.sublist.countP_le
        refine ⟨s.advance i, .seen (by omega), ?_⟩
        exact explained_setInstance h i hnext (by simp [hconsumed]) hloop' (by rw [hone])
      · rw [if_neg hrows, Nat.add_zero] at hone
        refine ⟨s, .skipped, ?_⟩
        have hsame : s.view = Function.update s.view i (rowsIn (pre ++ [ev])) := by
          rw [hone, Function.update_eq_self]
        exact explained_setInstance h i hnext (by simp [hconsumed]) hloop' hsame

theorem explained_step (hmy : my.Statements) (c : Cluster ι Db) (s : Replicas ι Packet)
    (e : Event ι) (h : Explained my c s) (hfits : e.Fits) :
    ∃ s', Step s (label my heap c e) s' ∧ Explained my (step my heap c e) s' := by
  cases e with
  | recieve i pkt => exact explained_recieve heap hmy h i hfits
  | binlog i => exact explained_binlog heap h i
  | restart i =>
      refine ⟨s.restart i, .restarted, ?_⟩
      exact explained_setInstance h i List.nil_prefix rfl rfl rfl

variable (my) in
/-- The store answers as the cluster has done.  No loop has come to an exception, and an instance
has seen the SETs of the events it has taken, which are all of them at the end of the log. -/
structure StoreOf (db : Db) (es : List (Event ι)) (s : Replicas ι Packet) : Prop where
  trace : Trace Step Replicas.start (labels (step my heap) (label my heap) (start db) es) s
  loop : ∀ i, ∃ st, ((run (step my heap) (start db) es).instances i).loop = .ok st
  view : ∀ i, s.view i = rowsIn ((my.binlog (run (step my heap) (start db) es).db).take
    ((run (step my heap) (start db) es).instances i).consumed)
  caughtUp : ∀ i, ((run (step my heap) (start db) es).instances i).consumed =
    (my.binlog (run (step my heap) (start db) es).db).length → s.seen i = s.log

/-- Whatever the instances are sent, and in whatever order they read the log and are restarted, a
store that keeps one log of SETs answers alike. -/
theorem answers_explained (hmy : my.Statements) {db : Db} (hkvs : my.kvs db = Kvs.empty)
    (hlog : ∀ e ∈ my.binlog db, ∀ ev, e ≠ .rows ev) {es : List (Event ι)}
    (hes : ∀ e ∈ es, e.Fits) : ∃ s, StoreOf my heap db es s := by
  rcases trace_of_simulation (explained_step heap hmy) (explained_start my hkvs hlog) hes with
    ⟨s, htrace, hend⟩
  have hview : ∀ i, s.view i = rowsIn ((my.binlog (run (step my heap) (start db) es).db).take
      ((run (step my heap) (start db) es).instances i).consumed) := by
    intro i
    rcases hend.loops i with ⟨pre, hpre, hconsumed, _, hview⟩
    rw [hview, hconsumed, ← List.prefix_iff_eq_take.1 hpre]
  refine ⟨s, htrace, ?_, hview, ?_⟩
  · intro i
    rcases hend.loops i with ⟨pre, hpre, _, hloop, _⟩
    rcases hend.replays.table pre hpre with ⟨st, hst, _⟩
    exact ⟨st, hloop.trans hst⟩
  · intro i hall
    refine Replicas.seen_of_caughtUp ?_
    rw [hview, hall, List.take_length]
    exact hend.replays.rows

end Simulation

/-- One instance takes a SET, the other one reads the log and answers a GET. -/
def twoInstances : List (Event Bool) :=
  [.recieve true (packetOf (setBytes 5 [0xaa, 0xbb])), .binlog false, .binlog false,
    .recieve false (packetOf (getBytes 5)), .recieve true (packetOf (getBytes 5))]

theorem answers_explained_twoInstances :
    ∃ s, StoreOf memMysql (fun _ _ _ => 0) {} twoInstances s := by
  have hset := setRequest_setBytes (k := 5) (by decide) [0xaa, 0xbb] (by decide) (by decide)
  have hget := getRequest_getBytes (k := 5) (by decide)
  have hfits : ∀ i, (Event.recieve i (packetOf (getBytes 5)) : Event Bool).Fits := by
    intro i _ hop
    have hother := hget.1.opcode
    rw [hop] at hother
    exact absurd hother (by decide)
  refine answers_explained _ memMysql_statements rfl memMysql_no_rows ?_
  simp only [twoInstances, List.forall_mem_cons]
  exact ⟨fun _ _ => hset.1, trivial, trivial, hfits false, hfits true, nofun⟩

end Cluster

end Server
end NmMemcached
