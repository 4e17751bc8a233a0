import NmMemcached.Lib.Ledger
import NmMemcached.Server.BinLog

/-!
# EventObjects — the events that `BinLogLoop` deletes

The client library allocates an object for every event.  The loop deletes it at the end of the
turn, or keeps it in `tmpevent` until the next table map comes.  A turn is a program over the calls
of the library and the accesses to objects.

* Whatever the library delivers, nothing is used or deleted that is not there, and behind every
  turn the loop holds the table map in `tmpevent` and nothing else (`settle_turns`).
* On a heap the turns are those of `binLogLoop`, whatever addresses the allocator picks
  (`turns_heap`).
-/

namespace NmMemcached
namespace Server
namespace EventObjects

open Lib Lib.Ledger Table

/-! ## Turns -/

/-- An object is its address. -/
inductive ObjectCommand : Type → Type
  /-- `false` is an error code. -/
  | getNextEvent : ObjectCommand Bool
  /-- `none` is a null pointer. -/
  | decodeEvent : ObjectCommand (Option Nat)
  | read (object : Nat) : ObjectCommand BinaryLogEvent
  | delete (object : Nat) : ObjectCommand Unit

def ObjectCommand.entries : {r : Type} → ObjectCommand r → r → List (Entry Nat)
  | _, .decodeEvent, some object => [.acquired object]
  | _, .read object, _ => [.used object]
  | _, .delete object, _ => [.released object]
  | _, _, _ => []

/-- The locals that live through the loop. -/
structure ObjectLoop where
  tmpevent : Option Nat
  tbl : Val

/-- `if (p != NULL) delete p`. -/
def deleteIfSet : Option Nat → Program ObjectCommand Unit
  | none => pure ()
  | some object => Program.call (.delete object)

/-- The switch on the event type, and the `delete` behind it. -/
def onObject (st : ObjectLoop) (event : Nat) :
    BinaryLogEvent → Program ObjectCommand (Except String ObjectLoop)
  | .tableMap ev => do
      deleteIfSet st.tmpevent
      -- The name is read behind the `delete`.
      let _ ← Program.call (.read event)
      if strncaseeq tblKvs.length tblKvs ev.tblnam then
        pure (.ok { st with tmpevent := some event })
      else do
        Program.call (.delete event)
        pure (.ok { st with tmpevent := none })
  | .rows ev =>
      match st.tmpevent with
      | none => do
          Program.call (.delete event)
          pure (.ok st)
      | some map => do
          -- `Row_event_set` reads both objects; an exception from its loop deletes neither.
          let _ ← Program.call (.read map)
          match rowLoop st.tbl ev with
          | .error msg => pure (.error msg)
          | .ok tbl => do
              Program.call (.delete event)
              pure (.ok { st with tbl := tbl })
  | .other => do
      Program.call (.delete event)
      pure (.ok st)

/-- One turn of `while (!cancel_)`. -/
def turn (st : ObjectLoop) : Program ObjectCommand (Except String ObjectLoop) := do
  if ← Program.call .getNextEvent then
    match ← Program.call .decodeEvent with
    | none => pure (.error "decode_event.[XradiusServer::BinLogLoop]")
    | some event => do
        let ev ← Program.call (.read event)
        onObject st event ev
  else
    pure (.error "get_next_event.[XradiusServer::BinLogLoop]")

/-- The loop is left behind some turn, when `cancel_` is set there. -/
def turns : Nat → ObjectLoop → Program ObjectCommand (Except String ObjectLoop)
  | 0, st => pure (.ok st)
  | n + 1, st => do
      match ← turn st with
      | .error msg => pure (.error msg)
      | .ok st => turns n st

/-! ## A heap -/

/-- An allocator gives an address that is not in use. -/
structure Allocator where
  alloc : List Nat → Nat
  alloc_not_mem : ∀ used, alloc used ∉ used

/-- The first address behind all in use. -/
def Allocator.behind : Allocator where
  alloc used := used.max?.getD 0 + 1
  alloc_not_mem _ h := absurd (List.le_max?_getD_of_mem h) (Nat.not_succ_le_self _)

/-- The objects that are there, and what is still to be delivered. -/
structure Heap where
  objects : List (Nat × BinaryLogEvent)
  log : List BinaryLogEvent

namespace Heap

def addresses (h : Heap) : List Nat := h.objects.map Prod.fst

end Heap

/-- At the end of the log there is nothing to get. -/
def Allocator.answer (a : Allocator) : {r : Type} → ObjectCommand r → Heap → r × Heap
  | _, .getNextEvent, h => (!h.log.isEmpty, h)
  | _, .decodeEvent, h =>
      match h.log with
      | [] => (none, h)
      | ev :: log =>
          let object := a.alloc h.addresses
          (some object, { objects := (object, ev) :: h.objects, log := log })
  -- A read of what is not there could give anything.
  | _, .read object, h => ((h.objects.lookup object).getD .other, h)
  | _, .delete object, h => ((), { h with objects := h.objects.filter fun o => o.1 ≠ object })

def Allocator.world (a : Allocator) : World ObjectCommand Heap := ⟨a.answer⟩

/-! ## What is held -/

/-- The table map between two turns; an exception leaves it, and at most the event of the turn. -/
def Held (others : List Nat) : Except String ObjectLoop → List Nat → Prop
  | .ok st, held => held = st.tmpevent.toList ++ others
  | .error _, held => ∃ left : List Nat, left.length ≤ 2 ∧ held = left ++ others

section Leaves

variable (Ok : {r : Type} → ObjectCommand r → r → Prop) {held others : List Nat}

theorem leaves_delete (event : Nat) :
    Leaves ObjectCommand.entries Ok (fun _ h => h = held) (Program.call (.delete event))
      (event :: held) := by
  rw [leaves_call]
  intro _ _
  exact ⟨held, by simp [ObjectCommand.entries, settle], rfl⟩

theorem leaves_read {object : Nat} (h : object ∈ held) :
    Leaves ObjectCommand.entries Ok (fun _ h => h = held) (Program.call (.read object)) held := by
  rw [leaves_call]
  intro _ _
  exact ⟨held, by simp [ObjectCommand.entries, settle, h], rfl⟩

/-- The old table map goes, the new event stays. -/
theorem leaves_deleteIfSet (tmpevent : Option Nat) (event : Nat) :
    Leaves ObjectCommand.entries Ok (fun _ h => h = event :: held) (deleteIfSet tmpevent)
      (event :: (tmpevent.toList ++ held)) := by
  cases tmpevent with
  | none =>
      exact rfl
  | some map =>
      have herase : (event :: map :: held).erase map = event :: held := by
        by_cases h : event = map
        · rw [h, List.erase_cons_head]
        · rw [List.erase_cons_tail (by simpa using h), List.erase_cons_head]
      rw [deleteIfSet, leaves_call]
      intro _ _
      exact ⟨event :: held, by simp [ObjectCommand.entries, settle, herase], rfl⟩

/-- The `delete` at the end of a turn. -/
theorem leaves_dropped (st : ObjectLoop) (event : Nat) :
    Leaves ObjectCommand.entries Ok (Held others)
      (Program.call (.delete event) >>= fun _ => pure (.ok st))
      (event :: (st.tmpevent.toList ++ others)) := by
  rw [leaves_bind]
  exact (leaves_delete Ok event).mono _ _ fun _ h hh => hh

theorem leaves_onObject (st : ObjectLoop) (event : Nat) (ev : BinaryLogEvent) :
    Leaves ObjectCommand.entries Ok (Held others) (onObject st event ev)
      (event :: (st.tmpevent.toList ++ others)) := by
  cases ev with
  | tableMap ev =>
      rw [onObject, leaves_bind]
      refine (leaves_deleteIfSet Ok st.tmpevent event).mono _ _ ?_
      rintro _ _ rfl
      rw [leaves_bind]
      refine (leaves_read Ok (List.mem_cons_self ..)).mono _ _ ?_
      rintro _ _ rfl
      split
      · exact rfl
      · exact leaves_dropped Ok { st with tmpevent := none } event
  | rows ev =>
      rcases st with ⟨tmpevent, tbl⟩
      cases tmpevent with
      | none =>
          exact leaves_dropped Ok ⟨none, tbl⟩ event
      | some map =>
          have hmap : map ∈ event :: ((some map).toList ++ others) := by simp
          dsimp only [onObject]
          rw [leaves_bind]
          refine (leaves_read Ok hmap).mono _ _ ?_
          rintro _ _ rfl
          cases rowLoop tbl ev with
          | error msg =>
              exact ⟨[event, map], le_rfl, rfl⟩
          | ok tbl =>
              exact leaves_dropped Ok ⟨some map, tbl⟩ event
  | other =>
      exact leaves_dropped Ok st event

theorem leaves_turn (st : ObjectLoop) :
    Leaves ObjectCommand.entries Ok (Held others) (turn st) (st.tmpevent.toList ++ others) := by
  have hthrown : ∀ msg : String, Held others (.error msg) (st.tmpevent.toList ++ others) := by
    intro msg
    refine ⟨st.tmpevent.toList, ?_, rfl⟩
    cases st.tmpevent with
    | none => exact Nat.zero_le 2
    | some map => exact Nat.le_succ 1
  rw [turn, leaves_bind, leaves_call]
  intro got _
  refine ⟨_, by cases got <;> rfl, ?_⟩
  cases got with
  | false =>
      exact hthrown _
  | true =>
      simp only [if_true]
      rw [leaves_bind, leaves_call]
      intro event _
      cases event with
      | none =>
          exact ⟨_, rfl, hthrown _⟩
      | some event =>
          refine ⟨event :: (st.tmpevent.toList ++ others), rfl, ?_⟩
          dsimp only
          rw [leaves_bind]
          refine (leaves_read Ok (List.mem_cons_self ..)).mono _ _ ?_
          rintro ev _ rfl
          exact leaves_onObject Ok st event ev

theorem leaves_turns (n : Nat) (st : ObjectLoop) :
    Leaves ObjectCommand.entries Ok (Held others) (turns n st)
      (st.tmpevent.toList ++ others) := by
  induction n generalizing st with
  | zero =>
      exact rfl
  | succ n ih =>
      rw [turns, leaves_bind]
      refine (leaves_turn Ok st).mono _ _ ?_
      intro res held hheld
      cases res with
      | error msg =>
          exact hheld
      | ok st =>
          obtain rfl : held = st.tmpevent.toList ++ others := hheld
          exact ih st

end Leaves

/-- A library that may deliver anything. -/
def Any {r : Type} (_ : ObjectCommand r) (_ : r) : Prop := True

/-- Whatever the library delivers, whatever the table holds and whatever else is held: the loop uses
and deletes only objects that are there.  Behind any number of turns the one in `tmpevent` is left,
which a return of the loop does not delete; an exception leaves at most two. -/
theorem settle_turns {ω : Type} (k : World ObjectCommand ω) (s : ω × List (Entry Nat))
    {others : List Nat} (hs : settle [] s.2 = some others) (tbl : Val) (n : Nat) :
    ∃ held, settle [] ((turns n ⟨none, tbl⟩).run (k.exec ObjectCommand.entries) s).2.2 = some held ∧
      Held others ((turns n ⟨none, tbl⟩).run (k.exec ObjectCommand.entries) s).1 held :=
  settle_run ObjectCommand.entries Any k (fun _ _ => trivial) (leaves_turns Any n ⟨none, tbl⟩) hs

theorem settle_turns_behind :
    ∃ held, settle [] ((turns 2 ⟨none, LookupTable.clear⟩).run
        (Allocator.behind.world.exec ObjectCommand.entries)
        (⟨[], [.tableMap ⟨1, tblKvs⟩, .other]⟩, [.acquired 7])).2.2 = some held ∧
      Held [7] ((turns 2 ⟨none, LookupTable.clear⟩).run
        (Allocator.behind.world.exec ObjectCommand.entries)
        (⟨[], [.tableMap ⟨1, tblKvs⟩, .other]⟩, [.acquired 7])).1 held :=
  settle_turns Allocator.behind.world (⟨[], [.tableMap ⟨1, tblKvs⟩, .other]⟩, [.acquired 7]) rfl
    LookupTable.clear 2

/-! ## The loop over events -/

/-- The loop over objects and the loop over events: the same table, the table map of the second is
the one object of the first. -/
inductive Same (log : List BinaryLogEvent) : ObjectLoop → Heap → EventLoop → Prop
  | none (tbl : Val) : Same log ⟨none, tbl⟩ ⟨[], log⟩ ⟨none, tbl⟩
  | some (tbl : Val) (object : Nat) (ev : TableMapEvent) :
      Same log ⟨some object, tbl⟩ ⟨[(object, .tableMap ev)], log⟩ ⟨some ev, tbl⟩

/-- Two results: the same exception, or the same state. -/
inductive Agrees (log : List BinaryLogEvent) :
    Except String ObjectLoop × Heap → Except String EventLoop → Prop
  | ok {st : ObjectLoop} {h : Heap} {st' : EventLoop} (same : Same log st h st') :
      Agrees log (.ok st, h) (.ok st')
  | error (msg : String) (h : Heap) : Agrees log (.error msg, h) (.error msg)

section Turns

variable (a : Allocator) {log : List BinaryLogEvent}

/-- The turn begins with the next event in a new object. -/
theorem run_turn (st : ObjectLoop) (objects : List (Nat × BinaryLogEvent)) (ev : BinaryLogEvent) :
    (turn st).run a.answer ⟨objects, ev :: log⟩ =
      (onObject st (a.alloc (objects.map Prod.fst)) ev).run a.answer
        ⟨(a.alloc (objects.map Prod.fst), ev) :: objects, log⟩ := by
  simp [turn, Allocator.answer, Heap.addresses]

theorem run_dropped (st : ObjectLoop) (ev : BinaryLogEvent) {event : Nat}
    {objects : List (Nat × BinaryLogEvent)} (h : event ∉ objects.map Prod.fst) :
    (Program.call (.delete event) >>= fun _ => pure (.ok st) :
        Program ObjectCommand (Except String ObjectLoop)).run a.answer
      ⟨(event, ev) :: objects, log⟩ = (.ok st, ⟨objects, log⟩) := by
  have hrest : objects.filter (fun o => o.1 ≠ event) = objects := by
    refine List.filter_eq_self.2 ?_
    intro o ho
    have hne : o.1 ≠ event := fun heq => h (List.mem_map.2 ⟨o, ho, heq⟩)
    simpa using hne
  simp only [Program.run_bind, Program.run_call, Allocator.answer, Program.after_mk,
    Program.run_pure, Prod.mk.injEq, Heap.mk.injEq, true_and, and_true]
  rw [List.filter_cons_of_neg (by simp), hrest]

/-- The map before goes. -/
theorem run_deleteIfSet {st : ObjectLoop} {objects : List (Nat × BinaryLogEvent)} {st' : EventLoop}
    (hsame : Same log st ⟨objects, log⟩ st') (ev : BinaryLogEvent) {event : Nat}
    (h : event ∉ objects.map Prod.fst) :
    (deleteIfSet st.tmpevent).run a.answer ⟨(event, ev) :: objects, log⟩ =
      ((), ⟨[(event, ev)], log⟩) := by
  cases hsame with
  | none tbl =>
      rfl
  | some tbl object map =>
      have hne : event ≠ object := by simpa using h
      simp [deleteIfSet, Allocator.answer, hne]

theorem Same.tbl {st : ObjectLoop} {h : Heap} {st' : EventLoop} (hsame : Same log st h st') :
    st.tbl = st'.tbl := by
  cases hsame with
  | none tbl => rfl
  | some tbl object ev => rfl

theorem agrees_onObject {st : ObjectLoop} {objects : List (Nat × BinaryLogEvent)} {st' : EventLoop}
    (hsame : Same log st ⟨objects, log⟩ st') (ev : BinaryLogEvent) {event : Nat}
    (h : event ∉ objects.map Prod.fst) :
    Agrees log ((onObject st event ev).run a.answer ⟨(event, ev) :: objects, log⟩)
      (onEvent st' ev) := by
  cases ev with
  | tableMap ev =>
      rw [onObject, Program.run_bind, run_deleteIfSet a hsame _ h, Program.after_mk,
        Program.run_bind, Program.run_call]
      simp only [Allocator.answer, Program.after_mk, onEvent]
      split
      · refine .ok ?_
        rw [hsame.tbl]
        exact .some _ event ev
      · rw [run_dropped a _ _ (by simp)]
        refine .ok ?_
        rw [hsame.tbl]
        exact .none _
  | rows ev =>
      cases hsame with
      | none tbl =>
          dsimp only [onObject]
          rw [run_dropped a _ _ h]
          exact .ok (.none tbl)
      | some tbl object map =>
          dsimp only [onObject]
          rw [Program.run_bind, Program.run_call]
          simp only [Allocator.answer, Program.after_mk, onEvent]
          cases hrow : rowLoop tbl ev with
          | error msg =>
              exact .error msg _
          | ok tbl =>
              dsimp only
              rw [run_dropped a _ _ h]
              exact .ok (.some tbl object map)
  | other =>
      rw [onObject, run_dropped a _ _ h]
      exact .ok hsame

theorem agrees_turn {ev : BinaryLogEvent} {st : ObjectLoop} {h : Heap} {st' : EventLoop}
    (hsame : Same (ev :: log) st h st') :
    Agrees log ((turn st).run a.answer h) (onEvent st' ev) := by
  rcases h with ⟨objects, log'⟩
  obtain ⟨rfl, hnext⟩ : log' = ev :: log ∧ Same log st ⟨objects, log⟩ st' := by
    cases hsame with
    | none tbl => exact ⟨rfl, .none tbl⟩
    | some tbl object map => exact ⟨rfl, .some tbl object map⟩
  rw [run_turn]
  exact agrees_onObject a hnext ev (a.alloc_not_mem _)

theorem agrees_turns (es : List BinaryLogEvent) {st : ObjectLoop} {h : Heap} {st' : EventLoop}
    (hsame : Same (es ++ log) st h st') :
    Agrees log ((turns es.length st).run a.answer h) (runM onEvent st' es) := by
  induction es generalizing st h st' with
  | nil =>
      exact .ok hsame
  | cons ev es ih =>
      have hturn : Agrees (es ++ log) ((turn st).run a.answer h) (onEvent st' ev) :=
        agrees_turn a hsame
      rw [List.length_cons, turns, Program.run_bind, runM_cons]
      generalize (turn st).run a.answer h = out at hturn ⊢
      generalize onEvent st' ev = out' at hturn ⊢
      cases hturn with
      | ok same =>
          exact ih same
      | error msg h =>
          exact .error msg h

/-- For every allocator and every log, behind any of its events: the loop over objects came to the
table of `binLogLoop`, or threw its exception, and the heap holds the table map that `binLogLoop`
remembers and no other object. -/
theorem turns_heap (es : List BinaryLogEvent) :
    Agrees log ((turns es.length ⟨none, LookupTable.clear⟩).run a.answer ⟨[], es ++ log⟩)
      (binLogLoop es) :=
  agrees_turns a es (.none LookupTable.clear)

end Turns

end EventObjects
end Server
end NmMemcached
