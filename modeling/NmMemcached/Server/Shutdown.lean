import NmMemcached.Server.Rows

/-!
# Shutdown — `Server::Release` beside the binlog thread

A worker that ends releases its server: it sets `cancel_`, deletes the lookup table, joins the
binlog thread and closes the database handle, in this order.  The binlog thread looks at `cancel_`
between two events only, so the table may be gone when it applies one.

* The two threads take steps in any order; a call of the table is one step.
* What the client library delivers is a stream of events and errors that is fixed beforehand; at
  its end the thread waits for ever.
* An exception that leaves the thread ends the process, and so does a call on a deleted table or
  with an uninitialised key for all that can be said: nothing runs from there on.
* `cancel_` is not set by the constructor, so a run may start with any value.
-/

namespace NmMemcached
namespace Server
namespace Shutdown

open Lib Table

/-! ## States -/

/-- The next step of the worker: `Release`, then the destructor. -/
inductive WorkerPc
  | setCancel
  | deleteTable
  | join
  | closeDb
  | done
  deriving DecidableEq

namespace WorkerPc

def tableDeleted : WorkerPc → Bool
  | .setCancel => false
  | .deleteTable => false
  | .join => true
  | .closeDb => true
  | .done => true

end WorkerPc

/-- The next step of `BinLogLoop`. -/
inductive BinLogPc
  | connect
  | test
  | wait
  | rows (type : RowsEventType) (updateIdx : Nat) (rof : RowOfFields) (rest : List RowOfFields)
  | returned
  deriving DecidableEq

/-- What `get_next_event` and `decode_event` come to. -/
inductive Delivery
  | event (ev : BinaryLogEvent)
  | error
  deriving DecidableEq

/-- What happens to the table and to the database handle.  A stray call has a key that was never
set. -/
inductive Mark
  | tableDeleted
  | call (op : LookupTable.Update NmmcItem)
  | strayCall
  | dbClosed

namespace Mark

/-- An `Add` or a `Del`. -/
def IsCall : Mark → Prop
  | .call _ => True
  | .strayCall => True
  | _ => False

end Mark

structure State where
  worker : WorkerPc
  binlog : BinLogPc
  cancel : Int
  connects : Bool
  tmpevent : Option TableMapEvent
  tbl : Val
  stream : List Delivery
  running : Bool
  trace : List Mark

inductive Thread
  | worker
  | binlog
  deriving DecidableEq

/-! ## Steps of the worker -/

def workerStep (s : State) : State :=
  match s.worker with
  | .setCancel => { s with worker := .deleteTable, cancel := 1 }
  | .deleteTable => { s with worker := .join, trace := s.trace ++ [.tableDeleted] }
  | .join =>
      -- `pthread_join` waits.
      if s.binlog = .returned then { s with worker := .closeDb } else s
  | .closeDb => { s with worker := .done, trace := s.trace ++ [.dbClosed] }
  | .done => s

/-! ## Steps of the binlog thread -/

def halt (s : State) : State := { s with running := false }

/-- Behind a row: the next row, or the end of the event. -/
def nextRow (type : RowsEventType) (updateIdx : Nat) : List RowOfFields → BinLogPc
  | [] => .test
  | rof :: rest => .rows type updateIdx rof rest

def callTable (s : State) (op : LookupTable.Update NmmcItem) (next : BinLogPc) : State :=
  let s : State := { s with trace := s.trace ++ [.call op] }
  if s.worker.tableDeleted then
    halt s
  else
    match afterCall (op.exec s.tbl) with
    | .error _ => halt s
    | .ok tbl => { s with binlog := next, tbl := tbl }

/-- The `switch` over the type of an event. -/
def onDelivered (s : State) : BinaryLogEvent → State
  | .tableMap ev =>
      { s with
        binlog := .test
        tmpevent := if strncaseeq tblKvs.length tblKvs ev.tblnam then some ev else none }
  | .rows ev =>
      match s.tmpevent with
      | none => { s with binlog := .test }
      | some _ => { s with binlog := .rows ev.type 0 ev.first ev.rest }
  | .other => { s with binlog := .test }

def binLogStep (s : State) : State :=
  match s.binlog with
  | .connect => if s.connects then { s with binlog := .test } else halt s
  | .test => if s.cancel ≠ 0 then { s with binlog := .returned } else { s with binlog := .wait }
  | .wait =>
      match s.stream with
      | [] => s
      | .error :: _ => halt s
      | .event ev :: stream => onDelivered { s with stream := stream } ev
  | .rows type updateIdx rof rest =>
      match rowCall type updateIdx rof with
      | .none => { s with binlog := nextRow type (nextIdx type updateIdx) rest }
      | .op op => callTable s op (nextRow type (nextIdx type updateIdx) rest)
      | .stray => halt { s with trace := s.trace ++ [.strayCall] }
  | .returned => s

/-! ## Runs -/

def step (s : State) (t : Thread) : State :=
  if s.running then
    match t with
    | .worker => workerStep s
    | .binlog => binLogStep s
  else
    s

/-- The worker is about to release a server whose binlog thread was just created. -/
def start (cancel : Int) (connects : Bool) (stream : List Delivery) : State :=
  { worker := .setCancel
    binlog := .connect
    cancel := cancel
    connects := connects
    tmpevent := none
    tbl := LookupTable.clear
    stream := stream
    running := true
    trace := [] }

theorem step_of_halted {s : State} (h : s.running = false) (t : Thread) : step s t = s := by
  simp [step, h]

theorem step_worker {s : State} (h : s.running = true) : step s .worker = workerStep s := by
  rw [step, if_pos h]

theorem step_binlog {s : State} (h : s.running = true) : step s .binlog = binLogStep s := by
  rw [step, if_pos h]

/-! ## The binlog thread alone -/

/-- Steps of the binlog thread lead from `s` to `s'`. -/
def Alone (s s' : State) : Prop := ∃ n, run step s (List.replicate n .binlog) = s'

namespace Alone

theorem refl (s : State) : Alone s s := ⟨0, rfl⟩

theorem head {s s' : State} (h : Alone (step s .binlog) s') : Alone s s' := by
  rcases h with ⟨n, hn⟩
  exact ⟨n + 1, hn⟩

theorem trans {s s' s'' : State} (h : Alone s s') (h' : Alone s' s'') : Alone s s'' := by
  rcases h with ⟨n, rfl⟩
  rcases h' with ⟨k, rfl⟩
  exact ⟨n + k, by rw [← List.replicate_append_replicate, run_append]⟩

end Alone

/-- One row, on a table that is there. -/
theorem binLogStep_row {type : RowsEventType} {rest : List RowOfFields} {rof : RowOfFields}
    {updateIdx : Nat} {s : State} (hbinlog : s.binlog = .rows type updateIdx rof rest)
    (htable : s.worker.tableDeleted = false) {st : RowLoop}
    (hrow : onRow type ⟨updateIdx, s.tbl⟩ rof = .ok st) :
    ∃ trace, binLogStep s =
      { s with binlog := nextRow type st.updateIdx rest, tbl := st.tbl, trace := trace } := by
  rcases bind_ok_iff.1 hrow with ⟨tbl, happly, hst⟩
  cases hst
  match hcall : rowCall type updateIdx rof with
  | .none =>
      rw [hcall] at happly
      have htbl : s.tbl = tbl := Except.ok.inj happly
      refine ⟨s.trace, ?_⟩
      simp only [binLogStep, hbinlog, hcall, ← htbl]
  | .op op =>
      rw [hcall] at happly
      have hok : afterCall (op.exec s.tbl) = .ok tbl := happly
      refine ⟨s.trace ++ [.call op], ?_⟩
      simp only [binLogStep, hbinlog, hcall, callTable, htable, hok, Bool.false_eq_true, if_false]
  | .stray =>
      rw [hcall] at happly
      cases happly

/-- The rows of an event. -/
theorem alone_rows {type : RowsEventType} {rest : List RowOfFields} {rof : RowOfFields}
    {updateIdx : Nat} {s : State} (hrunning : s.running = true)
    (hbinlog : s.binlog = .rows type updateIdx rof rest)
    (htable : s.worker.tableDeleted = false) {st : RowLoop}
    (hrun : runM (onRow type) ⟨updateIdx, s.tbl⟩ (rof :: rest) = .ok st) :
    ∃ trace, Alone s { s with binlog := .test, tbl := st.tbl, trace := trace } := by
  induction rest generalizing rof updateIdx s with
  | nil =>
      rw [runM_singleton] at hrun
      rcases binLogStep_row hbinlog htable hrun with ⟨trace, hstep⟩
      refine ⟨trace, Alone.head ?_⟩
      rw [step_binlog hrunning, hstep]
      exact Alone.refl _
  | cons next rest ih =>
      rcases (runM_cons_ok _).1 hrun with ⟨mid, hrow, hmore⟩
      rcases binLogStep_row hbinlog htable hrow with ⟨trace, hstep⟩
      -- The state behind the row is one the induction hypothesis starts from.
      rcases ih (s := { s with
        binlog := .rows type mid.updateIdx next rest, tbl := mid.tbl, trace := trace })
        hrunning rfl htable hmore with ⟨trace', halone⟩
      refine ⟨trace', Alone.head ?_⟩
      rw [step_binlog hrunning, hstep]
      exact halone

/-- What an event sets off, up to the next test. -/
theorem alone_onDelivered {s : State} (hrunning : s.running = true)
    (htable : s.worker.tableDeleted = false) {ev : BinaryLogEvent} {st : EventLoop}
    (hevent : onEvent ⟨s.tmpevent, s.tbl⟩ ev = .ok st) :
    ∃ trace, Alone (onDelivered s ev)
      { s with binlog := .test, tmpevent := st.tmpevent, tbl := st.tbl, trace := trace } := by
  cases ev with
  | tableMap ev =>
      refine ⟨s.trace, ?_⟩
      have hst : st =
          ⟨if strncaseeq tblKvs.length tblKvs ev.tblnam then some ev else none, s.tbl⟩ := by
        rw [onEvent] at hevent
        split at hevent <;> rename_i hname <;> cases hevent <;> simp [hname]
      rw [hst]
      exact Alone.refl _
  | other =>
      cases hevent
      exact ⟨s.trace, Alone.refl _⟩
  | rows ev =>
      cases htmp : s.tmpevent with
      | none =>
          rw [htmp] at hevent
          cases hevent
          refine ⟨s.trace, ?_⟩
          simp only [onDelivered, htmp]
          exact Alone.refl _
      | some map =>
          rw [htmp] at hevent
          rcases bind_ok_iff.1 hevent with ⟨tbl, hloop, hst⟩
          rcases bind_ok_iff.1 hloop with ⟨last, hrun, htbl⟩
          cases hst
          cases htbl
          have halone := alone_rows (s := { s with binlog := .rows ev.type 0 ev.first ev.rest })
            hrunning rfl htable hrun
          simpa only [onDelivered, htmp] using halone

/-- The thread runs and is about to look at a `cancel_` that is not set. -/
structure Looping (s : State) : Prop where
  running : s.running = true
  binlog : s.binlog = .test
  cancel : s.cancel = 0
  table : s.worker.tableDeleted = false

/-- One event, from test to test. -/
theorem alone_event {s : State} (h : Looping s) {ev : BinaryLogEvent} {stream : List Delivery}
    (hstream : s.stream = .event ev :: stream) {st : EventLoop}
    (hevent : onEvent ⟨s.tmpevent, s.tbl⟩ ev = .ok st) :
    ∃ trace, Alone s { s with
      binlog := .test, tmpevent := st.tmpevent, tbl := st.tbl, stream := stream
      trace := trace } := by
  have htest : step s .binlog = { s with binlog := .wait } := by
    simp [step_binlog h.running, binLogStep, h.binlog, h.cancel]
  have hwait : step { s with binlog := .wait } .binlog =
      onDelivered { s with binlog := .wait, stream := stream } ev := by
    rw [step_binlog (s := { s with binlog := .wait }) h.running]
    simp only [binLogStep, hstream]
  rcases alone_onDelivered (s := { s with binlog := .wait, stream := stream }) h.running h.table
    hevent with ⟨trace, halone⟩
  refine ⟨trace, Alone.head ?_⟩
  rw [htest]
  refine Alone.head ?_
  rw [hwait]
  exact halone

/-- The thread alone applies a log as `BinLogLoop` does. -/
theorem alone_log {s : State} (h : Looping s) {log : List BinaryLogEvent} {stream : List Delivery}
    (hstream : s.stream = log.map .event ++ stream) {st : EventLoop}
    (hlog : runM onEvent ⟨s.tmpevent, s.tbl⟩ log = .ok st) :
    ∃ trace, Alone s { s with
      binlog := .test, tmpevent := st.tmpevent, tbl := st.tbl, stream := stream
      trace := trace } := by
  induction log generalizing s with
  | nil =>
      cases hlog
      have hrest : stream = s.stream := hstream.symm
      rw [hrest, ← h.binlog]
      exact ⟨s.trace, Alone.refl s⟩
  | cons ev log ih =>
      rcases (runM_cons_ok _).1 hlog with ⟨mid, hevent, hmore⟩
      rcases alone_event h hstream hevent with ⟨trace, hfirst⟩
      rcases ih (s := { s with
        binlog := .test, tmpevent := mid.tmpevent, tbl := mid.tbl
        stream := log.map .event ++ stream, trace := trace })
        ⟨h.running, rfl, h.cancel, h.table⟩ rfl hmore with ⟨trace', hrest⟩
      exact ⟨trace', hfirst.trans hrest⟩

theorem alone_binLogLoop {log : List BinaryLogEvent} {st : EventLoop}
    (h : binLogLoop log = .ok st) :
    ∃ trace, Alone (start 0 true (log.map .event)) { start 0 true [] with
      binlog := .test, tmpevent := st.tmpevent, tbl := st.tbl, trace := trace } := by
  have hlooping : Looping { start 0 true (log.map .event) with binlog := .test } :=
    ⟨rfl, rfl, rfl, rfl⟩
  have hstream : log.map Delivery.event = log.map Delivery.event ++ [] :=
    (List.append_nil _).symm
  rcases alone_log hlooping hstream h with ⟨trace, halone⟩
  exact ⟨trace, Alone.head halone⟩

/-! ## Calls behind the deletion -/

/-- No call of the table behind its deletion. -/
def NoLateCall (trace : List Mark) : Prop :=
  trace.Pairwise fun a b => a = .tableDeleted → ¬ b.IsCall

/-- One of the rows makes a call. -/
def appliesRow (type : RowsEventType) : Nat → List RowOfFields → Bool
  | _, [] => false
  | updateIdx, rof :: rest =>
      match rowCall type updateIdx rof with
      | .none => appliesRow type (nextIdx type updateIdx) rest
      | _ => true

/-- The binlog thread makes a call before it looks at `cancel_` again. -/
def aboutToCall (s : State) : Bool :=
  s.running &&
    match s.binlog with
    | .wait =>
        match s.stream, s.tmpevent with
        | .event (.rows ev) :: _, some _ => appliesRow ev.type 0 ev.rows
        | _, _ => false
    | .rows type updateIdx rof rest => appliesRow type updateIdx (rof :: rest)
    | _ => false

/-- The table is deleted while the binlog thread is not about to make a call. -/
def QuietDelete (s : State) (t : Thread) : Prop :=
  t = .worker → s.worker = .deleteTable → aboutToCall s = false

theorem noLateCall_append_singleton {trace : List Mark} {mark : Mark} :
    NoLateCall (trace ++ [mark]) ↔
      NoLateCall trace ∧ (.tableDeleted ∈ trace → ¬ mark.IsCall) := by
  rw [NoLateCall, List.pairwise_append]
  constructor
  · rintro ⟨hold, _, hnew⟩
    exact ⟨hold, fun hmem => hnew _ hmem mark (List.mem_singleton.2 rfl) rfl⟩
  · rintro ⟨hold, hnew⟩
    refine ⟨hold, List.pairwise_singleton _ _, ?_⟩
    rintro a ha b hb rfl
    rw [List.mem_singleton.1 hb]
    exact hnew ha

/-! ## What a step changes -/

/-- The binlog thread leaves the other one alone, and `cancel_`. -/
theorem frame_onDelivered (s : State) (ev : BinaryLogEvent) :
    (onDelivered s ev).worker = s.worker ∧ (onDelivered s ev).cancel = s.cancel ∧
      (onDelivered s ev).trace = s.trace := by
  cases ev with
  | tableMap ev =>
      exact ⟨rfl, rfl, rfl⟩
  | other =>
      exact ⟨rfl, rfl, rfl⟩
  | rows ev =>
      cases htmp : s.tmpevent <;> simp [onDelivered, htmp]

theorem frame_callTable (s : State) (op : LookupTable.Update NmmcItem) (next : BinLogPc) :
    (callTable s op next).worker = s.worker ∧ (callTable s op next).cancel = s.cancel ∧
      (callTable s op next).trace = s.trace ++ [.call op] := by
  unfold callTable
  dsimp only
  split
  · exact ⟨rfl, rfl, rfl⟩
  · split
    · exact ⟨rfl, rfl, rfl⟩
    · exact ⟨rfl, rfl, rfl⟩

theorem binLogStep_event {s : State} (hpc : s.binlog = .wait) {ev : BinaryLogEvent}
    {stream : List Delivery} (hstream : s.stream = .event ev :: stream) :
    binLogStep s = onDelivered { s with stream := stream } ev := by
  simp only [binLogStep, hpc, hstream]

theorem frame_binLogStep (s : State) :
    (binLogStep s).worker = s.worker ∧ (binLogStep s).cancel = s.cancel ∧
      ((binLogStep s).trace = s.trace ∨
        ∃ mark : Mark, mark.IsCall ∧ (binLogStep s).trace = s.trace ++ [mark]) := by
  cases hpc : s.binlog with
  | connect =>
      by_cases h : s.connects <;> simp [binLogStep, hpc, h, halt]
  | test =>
      by_cases h : s.cancel = 0 <;> simp [binLogStep, hpc, h]
  | wait =>
      match hstream : s.stream with
      | [] =>
          simp [binLogStep, hpc, hstream]
      | .error :: stream =>
          simp [binLogStep, hpc, hstream, halt]
      | .event ev :: stream =>
          rw [binLogStep_event hpc hstream]
          have hframe := frame_onDelivered { s with stream := stream } ev
          exact ⟨hframe.1, hframe.2.1, Or.inl hframe.2.2⟩
  | rows type updateIdx rof rest =>
      match hcall : rowCall type updateIdx rof with
      | .none =>
          simp [binLogStep, hpc, hcall]
      | .op op =>
          have hframe := frame_callTable s op (nextRow type (nextIdx type updateIdx) rest)
          have hstep : binLogStep s =
              callTable s op (nextRow type (nextIdx type updateIdx) rest) := by
            simp only [binLogStep, hpc, hcall]
          rw [hstep]
          exact ⟨hframe.1, hframe.2.1, Or.inr ⟨.call op, trivial, hframe.2.2⟩⟩
      | .stray =>
          simp only [binLogStep, hpc, hcall]
          exact ⟨rfl, rfl, Or.inr ⟨.strayCall, trivial, rfl⟩⟩
  | returned =>
      simp [binLogStep, hpc]

theorem aboutToCall_nextRow (s : State) (type : RowsEventType) (updateIdx : Nat)
    (rest : List RowOfFields) :
    aboutToCall { s with binlog := nextRow type updateIdx rest } =
      (s.running && appliesRow type updateIdx rest) := by
  cases rest with
  | nil =>
      rfl
  | cons rof rest =>
      rfl

theorem aboutToCall_onDelivered (s : State) (ev : BinaryLogEvent) (stream : List Delivery)
    (hpc : s.binlog = .wait) :
    aboutToCall (onDelivered { s with stream := stream } ev) =
      aboutToCall { s with stream := .event ev :: stream } := by
  cases ev with
  | tableMap ev =>
      simp [aboutToCall, onDelivered, hpc]
  | other =>
      simp [aboutToCall, onDelivered, hpc]
  | rows ev =>
      cases htmp : s.tmpevent <;> simp [aboutToCall, onDelivered, hpc, RowsEvent.rows]

/-- With `cancel_` set, a thread that is not about to make a call makes none any more. -/
theorem quiet_binLogStep {s : State} (hcancel : s.cancel ≠ 0) (hquiet : aboutToCall s = false) :
    aboutToCall (step s .binlog) = false ∧ (step s .binlog).trace = s.trace := by
  cases hrunning : s.running with
  | false =>
      rw [step_of_halted hrunning]
      exact ⟨hquiet, rfl⟩
  | true =>
      rw [step_binlog hrunning]
      cases hpc : s.binlog with
      | connect =>
          by_cases h : s.connects <;> simp [binLogStep, hpc, h, halt, aboutToCall]
      | test =>
          -- The only turn that looks at `cancel_`.
          simp [binLogStep, hpc, hcancel, aboutToCall]
      | wait =>
          match hstream : s.stream with
          | [] =>
              simp [binLogStep, hpc, hstream, hquiet]
          | .error :: stream =>
              simp [binLogStep, hpc, hstream, halt, aboutToCall]
          | .event ev :: stream =>
              rw [binLogStep_event hpc hstream, aboutToCall_onDelivered s ev stream hpc, ← hstream]
              exact ⟨hquiet, (frame_onDelivered _ ev).2.2⟩
      | rows type updateIdx rof rest =>
          match hcall : rowCall type updateIdx rof with
          | .none =>
              simp only [binLogStep, hpc, hcall, aboutToCall_nextRow]
              simpa [aboutToCall, hpc, appliesRow, hcall] using hquiet
          -- A call is what the thread is not about to make.
          | .op op =>
              simp [aboutToCall, hrunning, hpc, appliesRow, hcall] at hquiet
          | .stray =>
              simp [aboutToCall, hrunning, hpc, appliesRow, hcall] at hquiet
      | returned =>
          simp [binLogStep, hpc, hquiet]

section Row

variable {type : RowsEventType} {rest : List RowOfFields} {rof : RowOfFields} {updateIdx : Nat}
  {s : State} (hrunning : s.running = true) (hbinlog : s.binlog = .rows type updateIdx rof rest)
include hrunning hbinlog

theorem alone_op {op : LookupTable.Update NmmcItem}
    (hcall : rowCall type updateIdx rof = .op op) :
    ∃ (mark : Mark) (s' : State), Alone s s' ∧ mark.IsCall ∧ s'.trace = s.trace ++ [mark] := by
  have hstep : step s .binlog = callTable s op (nextRow type (nextIdx type updateIdx) rest) := by
    simp only [step_binlog hrunning, binLogStep, hbinlog, hcall]
  refine ⟨.call op, _, Alone.head (Alone.refl _), trivial, ?_⟩
  rw [hstep]
  exact (frame_callTable s op _).2.2

theorem alone_stray (hcall : rowCall type updateIdx rof = .stray) :
    ∃ (mark : Mark) (s' : State), Alone s s' ∧ mark.IsCall ∧ s'.trace = s.trace ++ [mark] := by
  have hstep : step s .binlog = halt { s with trace := s.trace ++ [.strayCall] } := by
    simp only [step_binlog hrunning, binLogStep, hbinlog, hcall]
  refine ⟨.strayCall, _, Alone.head (Alone.refl _), trivial, ?_⟩
  rw [hstep]
  rfl

end Row

/-- A row loop that is about to make a call makes one when it is let run. -/
theorem alone_rows_call {type : RowsEventType} {rest : List RowOfFields} {rof : RowOfFields}
    {updateIdx : Nat} {s : State} (hrunning : s.running = true)
    (hbinlog : s.binlog = .rows type updateIdx rof rest)
    (happlies : appliesRow type updateIdx (rof :: rest) = true) :
    ∃ (mark : Mark) (s' : State), Alone s s' ∧ mark.IsCall ∧ s'.trace = s.trace ++ [mark] := by
  induction rest generalizing rof updateIdx s with
  | nil =>
      match hcall : rowCall type updateIdx rof with
      | .none =>
          simp [appliesRow, hcall] at happlies
      | .op op =>
          exact alone_op hrunning hbinlog hcall
      | .stray =>
          exact alone_stray hrunning hbinlog hcall
  | cons next rest ih =>
      match hcall : rowCall type updateIdx rof with
      | .none =>
          -- The row is passed over, and the next one is the first.
          have hmore : appliesRow type (nextIdx type updateIdx) (next :: rest) = true := by
            rw [appliesRow, hcall] at happlies
            exact happlies
          have hstep : step s .binlog =
              { s with binlog := .rows type (nextIdx type updateIdx) next rest } := by
            simp only [step_binlog hrunning, binLogStep, hbinlog, hcall, nextRow]
          rcases ih (s := { s with binlog := .rows type (nextIdx type updateIdx) next rest })
            hrunning rfl hmore with ⟨mark, s', halone, hmark, htrace⟩
          refine ⟨mark, s', Alone.head ?_, hmark, htrace⟩
          rw [hstep]
          exact halone
      | .op op =>
          exact alone_op hrunning hbinlog hcall
      | .stray =>
          exact alone_stray hrunning hbinlog hcall

/-- A thread that is about to make a call makes one when it is let run. -/
theorem alone_call {s : State} (h : aboutToCall s = true) :
    ∃ (mark : Mark) (s' : State), Alone s s' ∧ mark.IsCall ∧ s'.trace = s.trace ++ [mark] := by
  rw [aboutToCall, Bool.and_eq_true] at h
  rcases h with ⟨hrunning, happlies⟩
  cases hpc : s.binlog with
  | connect =>
      simp [hpc] at happlies
  | test =>
      simp [hpc] at happlies
  | returned =>
      simp [hpc] at happlies
  | rows type updateIdx rof rest =>
      rw [hpc] at happlies
      exact alone_rows_call hrunning hpc happlies
  | wait =>
      match hstream : s.stream, htmp : s.tmpevent with
      | .event (.rows ev) :: stream, some map =>
          simp only [hpc, hstream, htmp] at happlies
          have hstep : step s .binlog = { s with
              binlog := .rows ev.type 0 ev.first ev.rest, stream := stream } := by
            rw [step_binlog hrunning, binLogStep_event hpc hstream]
            simp only [onDelivered, htmp]
          rcases alone_rows_call (s := { s with
            binlog := .rows ev.type 0 ev.first ev.rest, stream := stream })
            hrunning rfl happlies with ⟨mark, s', halone, hmark, htrace⟩
          refine ⟨mark, s', Alone.head ?_, hmark, htrace⟩
          rw [hstep]
          exact halone
      | .event (.rows ev) :: stream, none =>
          simp [hpc, hstream, htmp] at happlies
      | .event (.tableMap ev) :: stream, tmpevent =>
          simp [hpc, hstream] at happlies
      | .event .other :: stream, tmpevent =>
          simp [hpc, hstream] at happlies
      | .error :: stream, tmpevent =>
          simp [hpc, hstream] at happlies
      | [], tmpevent =>
          simp [hpc, hstream] at happlies

/-! ## All interleavings -/

/-- What holds in every state: behind the first step of the worker `cancel_` is set, and there is
no deletion in the trace before the second. -/
structure Reached (s : State) : Prop where
  cancel : s.worker ≠ .setCancel → s.cancel ≠ 0
  before : s.worker.tableDeleted = false → .tableDeleted ∉ s.trace

theorem reached_start (cancel : Int) (connects : Bool) (stream : List Delivery) :
    Reached (start cancel connects stream) :=
  ⟨fun h => absurd rfl h, fun _ => List.not_mem_nil⟩

theorem reached_workerStep {s : State} (h : Reached s) : Reached (workerStep s) := by
  cases hpc : s.worker with
  | setCancel =>
      have hold : .tableDeleted ∉ s.trace := h.before (by rw [hpc]; rfl)
      rw [workerStep, hpc]
      exact ⟨fun _ => Int.one_ne_zero, fun _ => hold⟩
  | deleteTable =>
      have hset : s.cancel ≠ 0 := h.cancel (by simp [hpc])
      rw [workerStep, hpc]
      exact ⟨fun _ => hset, nofun⟩
  | join =>
      have hset : s.cancel ≠ 0 := h.cancel (by simp [hpc])
      simp only [workerStep, hpc]
      split
      · exact ⟨fun _ => hset, nofun⟩
      · exact h
  | closeDb =>
      have hset : s.cancel ≠ 0 := h.cancel (by simp [hpc])
      rw [workerStep, hpc]
      exact ⟨fun _ => hset, nofun⟩
  | done =>
      rw [workerStep, hpc]
      exact h

theorem reached_binLogStep {s : State} (h : Reached s) : Reached (binLogStep s) := by
  rcases frame_binLogStep s with ⟨hworker, hcancel, htrace⟩
  refine ⟨?_, ?_⟩
  · rw [hworker, hcancel]
    exact h.cancel
  · intro hdeleted hmem
    rw [hworker] at hdeleted
    have hold := h.before hdeleted
    rcases htrace with hsame | ⟨mark, hmark, hcall⟩
    · rw [hsame] at hmem
      exact hold hmem
    · rw [hcall, List.mem_append, List.mem_singleton] at hmem
      rcases hmem with hmem | rfl
      · exact hold hmem
      · exact hmark

theorem reached_step {s : State} (h : Reached s) (t : Thread) : Reached (step s t) := by
  cases hrunning : s.running with
  | false =>
      rwa [step_of_halted hrunning]
  | true =>
      cases t with
      | worker =>
          rw [step_worker hrunning]
          exact reached_workerStep h
      | binlog =>
          rw [step_binlog hrunning]
          exact reached_binLogStep h

/-- The invariant of the runs that delete the table in a quiet moment. -/
structure Orderly (s : State) : Prop extends Reached s where
  noLateCall : NoLateCall s.trace
  quiet : s.worker.tableDeleted = true → aboutToCall s = false

theorem noLateCall_of_not_mem {trace : List Mark} (h : .tableDeleted ∉ trace) :
    NoLateCall trace := by
  refine List.pairwise_of_forall_mem_list ?_
  rintro a ha b _ rfl
  exact absurd ha h

/-- The worker makes no call, and the moment it deletes the table in is quiet. -/
theorem orderly_workerStep {s : State} (h : Orderly s)
    (hquiet : s.worker = .deleteTable → aboutToCall s = false) : Orderly (workerStep s) := by
  refine { reached_workerStep h.toReached with noLateCall := ?_, quiet := ?_ }
  · cases hpc : s.worker <;> simp only [workerStep, hpc]
    case setCancel =>
      exact h.noLateCall
    case deleteTable =>
      exact noLateCall_append_singleton.2 ⟨h.noLateCall, fun _ => id⟩
    case join =>
      split <;> exact h.noLateCall
    case closeDb =>
      exact noLateCall_append_singleton.2 ⟨h.noLateCall, fun _ => id⟩
    case done =>
      exact h.noLateCall
  · -- The steps of the worker leave alone what the thread is about to do.
    cases hpc : s.worker <;> simp only [workerStep, hpc]
    case setCancel =>
      exact nofun
    case deleteTable =>
      exact fun _ => hquiet hpc
    case join =>
      have hold : aboutToCall s = false := h.quiet (by rw [hpc]; rfl)
      split <;> exact fun _ => hold
    case closeDb =>
      exact fun _ => h.quiet (by rw [hpc]; rfl)
    case done =>
      exact fun _ => h.quiet (by rw [hpc]; rfl)

theorem orderly_binLogStep {s : State} (hrunning : s.running = true) (h : Orderly s) :
    Orderly (binLogStep s) := by
  rcases frame_binLogStep s with ⟨hworker, _, htrace⟩
  cases hdeleted : s.worker.tableDeleted with
  | true =>
      -- `cancel_` was set before the table was deleted.
      have hcancel : s.cancel ≠ 0 :=
        h.cancel fun hpc => by simp [hpc, WorkerPc.tableDeleted] at hdeleted
      have hquiet := quiet_binLogStep hcancel (h.quiet hdeleted)
      rw [step_binlog hrunning] at hquiet
      refine { reached_binLogStep h.toReached with noLateCall := ?_, quiet := fun _ => hquiet.1 }
      rw [hquiet.2]
      exact h.noLateCall
  | false =>
      have hreached := reached_binLogStep h.toReached
      have hbefore : .tableDeleted ∉ (binLogStep s).trace := hreached.before (hworker ▸ hdeleted)
      refine { hreached with noLateCall := noLateCall_of_not_mem hbefore, quiet := ?_ }
      rw [hworker, hdeleted]
      exact nofun

theorem orderly_step {s : State} {t : Thread} (h : Orderly s) (hquiet : QuietDelete s t) :
    Orderly (step s t) := by
  cases hrunning : s.running with
  | false =>
      rwa [step_of_halted hrunning]
  | true =>
      cases t with
      | worker =>
          rw [step_worker hrunning]
          exact orderly_workerStep h (hquiet rfl)
      | binlog =>
          rw [step_binlog hrunning]
          exact orderly_binLogStep hrunning h

theorem orderly_start (cancel : Int) (connects : Bool) (stream : List Delivery) :
    Orderly (start cancel connects stream) :=
  { reached_start cancel connects stream with
    noLateCall := List.Pairwise.nil
    quiet := nofun }

theorem tableDeleted_step {s : State} (h : s.worker.tableDeleted = true) (t : Thread) :
    (step s t).worker.tableDeleted = true := by
  cases hrunning : s.running with
  | false =>
      rwa [step_of_halted hrunning]
  | true =>
      cases t with
      | worker =>
          rw [step_worker hrunning]
          cases hpc : s.worker <;> simp only [workerStep, hpc]
          case setCancel =>
            simp [hpc, WorkerPc.tableDeleted] at h
          case deleteTable =>
            rfl
          case join =>
            split
            · rfl
            · exact h
          case closeDb =>
            rfl
          case done =>
            rfl
      | binlog =>
          rw [step_binlog hrunning, (frame_binLogStep s).1]
          exact h

theorem run_of_halted {s : State} (h : s.running = false) (es : List Thread) :
    run step s es = s := by
  induction es with
  | nil =>
      rfl
  | cons t es ih =>
      rw [run_cons, step_of_halted h, ih]

/-- Nothing is left to go wrong once the table is deleted. -/
theorem orderly_run_of_deleted {s : State} (h : Orderly s) (hdeleted : s.worker.tableDeleted = true)
    (es : List Thread) : Orderly (run step s es) := by
  have hall : Orderly (run step s es) ∧ (run step s es).worker.tableDeleted = true := by
    refine run_history step (P := fun _ s => Orderly s ∧ s.worker.tableDeleted = true)
      ⟨h, hdeleted⟩ ?_ es
    rintro es t ⟨hrun, hgone⟩
    refine ⟨orderly_step hrun fun _ hpc => ?_, tableDeleted_step hgone t⟩
    simp [hpc, WorkerPc.tableDeleted] at hgone
  exact hall.1

/-! ## The release of a server -/

theorem reached_run (cancel : Int) (connects : Bool) (stream : List Delivery) (es : List Thread) :
    Reached (run step (start cancel connects stream) es) :=
  run_history step (P := fun _ s => Reached s) (reached_start cancel connects stream)
    (fun _ t h => reached_step h t) es

/-- Deleting the table in front of a call. -/
theorem lateCall_of_aboutToCall {s : State} (hpc : s.worker = .deleteTable)
    (habout : aboutToCall s = true) :
    ∃ fs, ¬ NoLateCall (run step s (.worker :: fs)).trace := by
  have hrunning : s.running = true := by
    rw [aboutToCall, Bool.and_eq_true] at habout
    exact habout.1
  have hstep : step s .worker =
      { s with worker := .join, trace := s.trace ++ [.tableDeleted] } := by
    simp only [step_worker hrunning, workerStep, hpc]
  -- The thread is where it was, and the table is gone.
  rcases alone_call (s := { s with worker := .join, trace := s.trace ++ [.tableDeleted] }) habout
    with ⟨mark, s', ⟨n, rfl⟩, hmark, htrace⟩
  refine ⟨List.replicate n .binlog, ?_⟩
  rw [run_cons, hstep, htrace, noLateCall_append_singleton]
  rintro ⟨_, hlate⟩
  exact hlate (List.mem_append_right _ (List.mem_singleton.2 rfl)) hmark

/-- A run whose table is deleted in a quiet moment has no call behind the deletion, and no other
moment is safe: the thread may be let run next. -/
theorem noLateCall_release (cancel : Int) (connects : Bool) (stream : List Delivery)
    (es : List Thread) :
    (Along step QuietDelete (start cancel connects stream) es →
        NoLateCall (run step (start cancel connects stream) es).trace) ∧
      ((run step (start cancel connects stream) es).worker = .deleteTable →
        ((∀ fs, NoLateCall (run step (start cancel connects stream) (es ++ .worker :: fs)).trace) ↔
          aboutToCall (run step (start cancel connects stream) es) = false)) := by
  constructor
  · intro halong
    have horderly : Orderly (run step (start cancel connects stream) es) :=
      run_history_along (P := fun _ s => Orderly s) (orderly_start cancel connects stream)
        (fun _ _ h hquiet => orderly_step h hquiet) halong
    exact horderly.noLateCall
  · intro hpc
    have hreached := reached_run cancel connects stream es
    have hbefore := hreached.before (by rw [hpc]; rfl)
    constructor
    · intro hall
      by_contra hnot
      rcases lateCall_of_aboutToCall hpc (Bool.not_eq_false _ ▸ hnot) with ⟨fs, hlate⟩
      rw [← run_append] at hlate
      exact hlate (hall fs)
    · intro hquiet fs
      have horderly : Orderly (run step (start cancel connects stream) es) :=
        { hreached with
          noLateCall := noLateCall_of_not_mem hbefore
          quiet := fun _ => hquiet }
      have hdelete := orderly_step (t := .worker) horderly fun _ _ => hquiet
      rw [run_append]
      cases hrunning : (run step (start cancel connects stream) es).running with
      | false =>
          rw [run_of_halted hrunning]
          exact horderly.noLateCall
      | true =>
          have hgone : (step (run step (start cancel connects stream) es)
              .worker).worker.tableDeleted = true := by
            simp only [step_worker hrunning, workerStep, hpc, WorkerPc.tableDeleted]
          exact (orderly_run_of_deleted hdelete hgone fs).noLateCall

/-- A map of kvs, and a row that is written. -/
def oneRow : List Delivery :=
  [.event (.tableMap { tableId := 1, tblnam := "kvs".toList }),
    .event (.rows { type := .write, tableId := 1, first := kvsRow 1 5 [7], rest := [] })]

/-- The row is applied before the worker ends, and the thread returns at its next test. -/
theorem noLateCall_release_oneRow :
    NoLateCall (run step (start 0 true oneRow) [.binlog, .binlog, .binlog, .binlog, .binlog,
      .binlog, .worker, .worker, .binlog, .worker, .worker]).trace :=
  (noLateCall_release 0 true oneRow _).1
    ⟨nofun, nofun, nofun, nofun, nofun, nofun, fun _ => nofun, fun _ _ => rfl, nofun,
      fun _ => nofun, fun _ => nofun, trivial⟩

/-- The thread has read the row when the table goes, and calls `Add` behind it. -/
theorem lateCall_oneRow :
    ¬ NoLateCall (run step (start 0 true oneRow) [.binlog, .binlog, .binlog, .binlog, .binlog,
      .worker, .worker, .binlog]).trace := by
  have htrace : ∃ op, (run step (start 0 true oneRow) [.binlog, .binlog, .binlog, .binlog,
      .binlog, .worker, .worker, .binlog]).trace = [.tableDeleted] ++ [.call op] := ⟨_, rfl⟩
  rcases htrace with ⟨op, htrace⟩
  rw [htrace, noLateCall_append_singleton]
  rintro ⟨_, hlate⟩
  exact hlate (List.mem_singleton.2 rfl) trivial

end Shutdown
end Server
end NmMemcached
