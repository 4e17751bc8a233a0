import Mathlib.Logic.Function.Basic
import NmMemcached.Proc.Setup
import NmMemcached.Server.Finish

/-!
# Lifecycle — from `Process::Start` to the return of `main`

The main thread creates the workers, waits for `s_quit_`, sets `cancel_` of each of them and joins
them.  Beside it run the workers, the binlog threads of their servers and any number of calls of
the signal handler; all of them take steps in any order.

* A worker with its server is a machine of its own (`Worker`); the process is a family of them
  beside the main thread.
* What the system answers (whether a thread is created, a connection made, an interface opened) is
  part of the event.  That `pthread_create` fails is not noticed anywhere: it answers a positive
  number, and the source looks for `-1`.
* An exception that leaves a thread ends the process.  So does, for all that can be said, a join
  of a thread that was never created.
* `Join` joins every thread, and `Stop` calls it once for each.  Whether a `pthread_join` of a
  thread that has been joined comes back is left open (`Site.rejoins`); one that does not ends the
  process too.
-/

namespace NmMemcached
namespace Proc
namespace Lifecycle

open Lib Server

/-! ## A worker -/

/-- The next step of `thread_func`.  `table`, `binlog` and `connect` are the constructor of
`Server`; `lost` is behind the join of a binlog thread that does not exist. -/
inductive ThreadPc
  | idle
  | table
  | binlog
  | connect
  | network
  | test
  | poll
  | close
  | release
  | returned
  | threw
  | lost
  deriving DecidableEq

namespace ThreadPc

/-- The worker is behind the creation of its binlog thread. -/
def created : ThreadPc → Bool
  | .idle => false
  | .table => false
  | .binlog => false
  | _ => true

/-- The worker has let go of its interface. -/
def late : ThreadPc → Bool
  | .release => true
  | .returned => true
  | .lost => true
  | _ => false

end ThreadPc

inductive Mark
  | cancelled
  | polled
  | closed
  deriving DecidableEq

/-- `binlog` says that the server has its binlog thread. -/
structure Worker where
  pc : ThreadPc
  cancel : Int
  binlog : Bool
  server : Shutdown.State
  trace : List Mark

namespace Worker

/-- Nothing it did has ended the process. -/
def running (w : Worker) : Bool :=
  w.server.running && (decide (w.pc ≠ .threw) && decide (w.pc ≠ .lost))

/-- The threads a worker consists of. -/
inductive Own
  | thread (ok : Bool)
  | binlog
  deriving DecidableEq

inductive Event
  | create
  | cancel
  | own (e : Own)
  deriving DecidableEq

def threadStep (w : Worker) (ok : Bool) : Worker :=
  match w.pc with
  | .idle => w
  -- `VAL::Create`.
  | .table => if ok then { w with pc := .binlog } else { w with pc := .threw }
  -- A binlog thread that is not created is not noticed.
  | .binlog => { w with pc := .connect, binlog := ok }
  -- The connection to the database.
  | .connect => if ok then { w with pc := .network } else { w with pc := .threw }
  | .network => if ok then { w with pc := .test } else { w with pc := .threw }
  | .test => if w.cancel = 0 then { w with pc := .poll } else { w with pc := .close }
  | .poll => { w with pc := .test, trace := w.trace ++ [.polled] }
  | .close => { w with pc := .release, trace := w.trace ++ [.closed] }
  | .release =>
      -- The destructor joins `thread_`, written or not.
      if w.server.worker = .join ∧ w.binlog = false then
        { w with pc := .lost }
      else
        let server := Shutdown.step w.server .worker
        { w with pc := if server.worker = .done then .returned else .release, server := server }
  | .returned => w
  | .threw => w
  | .lost => w

def binlogStep (w : Worker) : Worker :=
  if w.binlog then { w with server := Shutdown.step w.server .binlog } else w

def step (w : Worker) : Event → Worker
  | .create => if w.pc = .idle then { w with pc := .table } else w
  | .cancel => { w with cancel := 1, trace := w.trace ++ [.cancelled] }
  | .own (.thread ok) => threadStep w ok
  | .own .binlog => binlogStep w

end Worker

/-! ## The process -/

/-- The next step of `main`, behind `Setup`. -/
inductive MainPc
  | create (n : Nat)
  | run
  | cancel (n : Nat)
  | join (n k : Nat)
  | returned
  | lost (n k : Nat)
  deriving DecidableEq

namespace MainPc

/-- `main` has something to do. -/
def live : MainPc → Bool
  | .returned => false
  | .lost _ _ => false
  | _ => true

end MainPc

/-- `handlers` has the progress of each call of `sigint_handler`, and `joins` the threads that
were joined. -/
structure State where
  main : MainPc
  quit : Int
  handlers : List Nat
  worker : Nat → Worker
  joins : List Nat
  rejoins : Nat → Nat → Bool

inductive Event
  | main (ok : Bool)
  | interrupt
  | handler (i : Nat)
  | worker (n : Nat) (e : Worker.Own)
  deriving DecidableEq

namespace State

def onWorker (s : State) (n : Nat) (e : Worker.Event) : State :=
  { s with worker := Function.update s.worker n ((s.worker n).step e) }

/-- `main` goes on, and nothing has ended the process. -/
def running (s : State) : Bool :=
  s.main.live && (List.range threadCount).all fun n => (s.worker n).running

end State

/-- Behind a `pthread_join`: the next thread, the next call of `Join`, or the end of `Stop`. -/
def nextJoin (n k : Nat) : MainPc :=
  if k + 1 < threadCount then .join n (k + 1)
  else if n + 1 < threadCount then .join (n + 1) 0
  else .returned

def mainStep (s : State) (ok : Bool) : State :=
  match s.main with
  | .create n =>
      -- A thread that is not created is not noticed.
      let s := if ok then s.onWorker n .create else s
      { s with main := if n + 1 < threadCount then .create (n + 1) else .run }
  | .run => if s.quit = 0 then s else { s with main := .cancel 0 }
  | .cancel n =>
      let s := s.onWorker n .cancel
      { s with main := if n + 1 < threadCount then .cancel (n + 1) else .join 0 0 }
  | .join n k =>
      match (s.worker k).pc with
      | .returned =>
          if k ∈ s.joins ∧ s.rejoins n k = false then { s with main := .lost n k }
          else { s with main := nextJoin n k, joins := s.joins ++ [k] }
      | .idle => { s with main := .lost n k }
      | _ => s
  | .returned => s
  | .lost _ _ => s

/-- A call of `sigint_handler` goes on. -/
def handlerStep (s : State) (i : Nat) : State :=
  match s.handlers[i]? with
  | some n =>
      if n < threadCount then
        { s.onWorker n .cancel with handlers := s.handlers.set i (n + 1) }
      else if n = threadCount then
        { s with quit := 1, handlers := s.handlers.set i (n + 1) }
      else
        s
  | none => s

def step (s : State) (e : Event) : State :=
  if s.running then
    match e with
    | .main ok => mainStep s ok
    | .interrupt => { s with handlers := s.handlers ++ [0] }
    | .handler i => handlerStep s i
    | .worker n e => s.onWorker n (.own e)
  else
    s

/-- What is left to the outside: what `new` leaves in `Server::cancel_`, whether the master lets
the binlog threads connect, what it delivers to them, and whether the call of `pthread_join` on
thread `k` in the `n`-th call of `Join` comes back if the thread has been joined before. -/
structure Site where
  cancel : Nat → Int
  connects : Nat → Bool
  stream : Nat → List Shutdown.Delivery
  rejoins : Nat → Nat → Bool

def Worker.init (site : Site) (n : Nat) : Worker :=
  { pc := .idle
    cancel := 0
    binlog := false
    server := Shutdown.start (site.cancel n) (site.connects n) (site.stream n)
    trace := [] }

/-- `main` behind `Setup`. -/
def init (site : Site) : State :=
  { main := .create 0
    quit := 0
    handlers := []
    worker := Worker.init site
    joins := []
    rejoins := site.rejoins }

/-! ## Runs of a worker -/

namespace Worker

/-- A test that found no `cancel_` lets one more `Poll` through. -/
def pending (w : Worker) : Nat := if w.pc = .poll then 1 else 0

/-- The invariant of a worker: how far it goes behind `cancel_`, and in which order it lets go of
the interface and of the server. -/
structure Inv (w : Worker) : Prop where
  polls : Behind .cancelled
    (fun after => w.cancel ≠ 0 ∧ after.count .polled + w.pending ≤ 1) w.trace
  closedLast : Behind .closed
    (fun after => w.pc.late = true ∧ .polled ∉ after ∧ .closed ∉ after) w.trace
  closed : w.pc.late = true → .closed ∈ w.trace
  fresh : w.pc.late = false → w.server.worker = .setCancel
  done : w.pc = .release → w.server.worker ≠ .done
  returned : w.pc = .returned → w.server.worker = .done
  joined : Shutdown.Joined w.server
  notYet : w.pc.created = false → w.binlog = false
  binlog : w.binlog = false → w.server.binlog = .connect

theorem inv_init (site : Site) (n : Nat) : Inv (init site n) where
  polls := behind_nil _ _
  closedLast := behind_nil _ _
  closed h := absurd h (by simp [init, ThreadPc.late])
  fresh _ := rfl
  done := nofun
  returned h := absurd h (by simp [init])
  joined := Shutdown.joined_start _ _ _
  notYet _ := rfl
  binlog _ := rfl

/-- A step that writes nothing down and neither lets go of the interface nor touches the server. -/
theorem inv_goto {w : Worker} (h : Inv w) {pc : ThreadPc} (hold : w.pc.late = false)
    (hnew : pc.late = false) (hpoll : pc = .poll → w.cancel = 0)
    (hcreated : pc.created = false → w.pc.created = false) : Inv { w with pc := pc } where
  polls := by
    refine h.polls.mono ?_
    rintro after ⟨hcancel, hcount⟩
    have hnot : pc ≠ .poll := fun hpc => hcancel (hpoll hpc)
    refine ⟨hcancel, ?_⟩
    simp only [pending, hnot, if_false]
    exact Nat.le_trans (Nat.add_le_add_left (Nat.zero_le _) _) hcount
  closedLast := h.closedLast.mono fun after hafter => absurd hafter.1 (by simp [hold])
  closed hpc := absurd hpc (by simp [hnew])
  fresh _ := h.fresh hold
  done hpc := by
    rw [show pc = .release from hpc] at hnew
    cases hnew
  returned hpc := by
    rw [show pc = .returned from hpc] at hnew
    cases hnew
  joined := h.joined
  notYet hpc := h.notYet (hcreated hpc)
  binlog := h.binlog

theorem inv_thread {w : Worker} (h : Inv w) (hpc : w.pc = .binlog) (ok : Bool) :
    Inv { w with pc := .connect, binlog := ok } :=
  have hgo : Inv { w with pc := .connect } :=
    inv_goto h (by rw [hpc]; rfl) rfl (by simp) (by simp [ThreadPc.created])
  { hgo with
    notYet := by simp [ThreadPc.created]
    -- Up to here there was no thread that could take a step.
    binlog := fun _ => h.binlog (h.notYet (by rw [hpc]; rfl)) }

theorem inv_cancel {w : Worker} (h : Inv w) : Inv (w.step .cancel) where
  polls := by
    have hpending : (w.step .cancel).pending = w.pending := rfl
    refine behind_append_singleton.2 ⟨fun _ => ⟨Int.one_ne_zero, ?_⟩, h.polls.mono ?_⟩
    · -- The worker may have passed its test.
      rw [List.count_nil, hpending, pending]
      split <;> decide
    · rintro after ⟨_, hcount⟩
      refine ⟨Int.one_ne_zero, ?_⟩
      rw [List.count_append, hpending]
      exact hcount
  closedLast := by
    refine behind_append_singleton.2 ⟨nofun, h.closedLast.mono ?_⟩
    rintro after ⟨hpc, hpolled, hclosed⟩
    exact ⟨hpc, by simpa using hpolled, by simpa using hclosed⟩
  closed hpc := List.mem_append_left _ (h.closed hpc)
  fresh := h.fresh
  done := h.done
  returned := h.returned
  joined := h.joined
  notYet := h.notYet
  binlog := h.binlog

theorem inv_poll {w : Worker} (h : Inv w) (hpc : w.pc = .poll) :
    Inv { w with pc := .test, trace := w.trace ++ [.polled] } where
  polls := by
    refine behind_append_singleton.2 ⟨nofun, h.polls.mono ?_⟩
    rintro after ⟨hcancel, hcount⟩
    refine ⟨hcancel, ?_⟩
    -- The `Poll` that was let through is the one that counts.
    simpa [pending, hpc] using hcount
  closedLast := by
    refine behind_append_singleton.2 ⟨nofun, h.closedLast.mono ?_⟩
    rintro after ⟨hlate, _⟩
    simp [hpc, ThreadPc.late] at hlate
  closed hlate := absurd hlate (by simp [ThreadPc.late])
  fresh _ := h.fresh (by rw [hpc]; rfl)
  done := nofun
  returned := nofun
  joined := h.joined
  notYet hnew := absurd hnew (by simp [ThreadPc.created])
  binlog := h.binlog

theorem inv_close {w : Worker} (h : Inv w) (hpc : w.pc = .close) :
    Inv { w with pc := .release, trace := w.trace ++ [.closed] } where
  polls := by
    refine behind_append_singleton.2 ⟨nofun, h.polls.mono ?_⟩
    rintro after ⟨hcancel, hcount⟩
    refine ⟨hcancel, ?_⟩
    simpa [pending, hpc] using hcount
  closedLast := by
    refine behind_append_singleton.2 ⟨fun _ => ⟨rfl, by simp, by simp⟩, h.closedLast.mono ?_⟩
    rintro after ⟨hlate, _⟩
    simp [hpc, ThreadPc.late] at hlate
  closed _ := by simp
  fresh hlate := absurd hlate (by simp [ThreadPc.late])
  done _ := by
    rw [h.fresh (by rw [hpc]; rfl)]
    exact nofun
  returned := nofun
  joined := h.joined
  notYet hnew := absurd hnew (by simp [ThreadPc.created])
  binlog := h.binlog

/-- A step behind the closing of the interface. -/
theorem inv_late {w : Worker} (h : Inv w) (hlate : w.pc.late = true) {pc : ThreadPc}
    (hpc : pc.late = true) (hcreated : pc.created = true) {server : Shutdown.State}
    (hdone : pc = .release → server.worker ≠ .done)
    (hreturned : pc = .returned → server.worker = .done) (hjoined : Shutdown.Joined server)
    (hbinlog : server.binlog = w.server.binlog) : Inv { w with pc := pc, server := server } where
  polls := by
    have hnot : pc ≠ .poll := by
      rintro rfl
      cases hpc
    refine h.polls.mono ?_
    rintro after ⟨hcancel, hcount⟩
    refine ⟨hcancel, ?_⟩
    simp only [pending, hnot, if_false]
    exact Nat.le_trans (Nat.add_le_add_left (Nat.zero_le _) _) hcount
  closedLast := h.closedLast.mono fun _ hafter => ⟨hpc, hafter.2⟩
  closed _ := h.closed hlate
  fresh hnot := absurd hnot (by simp [hpc])
  done := hdone
  returned := hreturned
  joined := hjoined
  notYet hnot := absurd hnot (by simp [hcreated])
  binlog hnone := hbinlog.trans (h.binlog hnone)

/-- A step of the release leaves the binlog thread where it is. -/
theorem binlog_step_worker (s : Shutdown.State) : (Shutdown.step s .worker).binlog = s.binlog := by
  cases hrunning : s.running with
  | false =>
      rw [Shutdown.step_of_halted hrunning]
  | true =>
      rw [Shutdown.step_worker hrunning]
      exact (Shutdown.frame_workerStep s).1.2.1

theorem inv_release {w : Worker} (h : Inv w) (hpc : w.pc = .release) (ok : Bool) :
    Inv (w.threadStep ok) := by
  have hlate : w.pc.late = true := by rw [hpc]; rfl
  simp only [threadStep, hpc]
  by_cases hlost : w.server.worker = .join ∧ w.binlog = false
  · rw [if_pos hlost]
    exact inv_late h hlate rfl rfl (by simp) (by simp) h.joined rfl
  · rw [if_neg hlost]
    have hjoined := Shutdown.joined_step h.joined .worker
    have hbinlog := binlog_step_worker w.server
    -- The worker is through exactly when the handle of the database is closed.
    by_cases hdone : (Shutdown.step w.server .worker).worker = .done
    · simp only [hdone, if_true]
      exact inv_late h hlate rfl rfl (by simp) (fun _ => hdone) hjoined hbinlog
    · simp only [hdone, if_false]
      exact inv_late h hlate rfl rfl (fun _ => hdone) (by simp) hjoined hbinlog

theorem inv_threadStep {w : Worker} (h : Inv w) (ok : Bool) : Inv (w.threadStep ok) := by
  have hgo : ∀ {pc : ThreadPc}, w.pc.late = false → pc.late = false → pc.created = true →
      (pc = .poll → w.cancel = 0) → Inv { w with pc := pc } := by
    intro pc hold hnew hcreated hpoll
    exact inv_goto h hold hnew hpoll (by simp [hcreated])
  cases hpc : w.pc with
  | idle =>
      simpa only [threadStep, hpc] using h
  | table =>
      simp only [threadStep, hpc]
      split
      · exact inv_goto h (by rw [hpc]; rfl) rfl (by simp) (by simp [hpc, ThreadPc.created])
      · exact hgo (by rw [hpc]; rfl) rfl rfl (by simp)
  | binlog =>
      simpa only [threadStep, hpc] using inv_thread h hpc ok
  | connect =>
      simp only [threadStep, hpc]
      split <;> exact hgo (by rw [hpc]; rfl) rfl rfl (by simp)
  | network =>
      simp only [threadStep, hpc]
      split <;> exact hgo (by rw [hpc]; rfl) rfl rfl (by simp)
  | test =>
      simp only [threadStep, hpc]
      split
      · rename_i hcancel
        exact hgo (by rw [hpc]; rfl) rfl rfl fun _ => hcancel
      · exact hgo (by rw [hpc]; rfl) rfl rfl (by simp)
  | poll =>
      simpa only [threadStep, hpc] using inv_poll h hpc
  | close =>
      simpa only [threadStep, hpc] using inv_close h hpc
  | release =>
      exact inv_release h hpc ok
  | returned =>
      simpa only [threadStep, hpc] using h
  | threw =>
      simpa only [threadStep, hpc] using h
  | lost =>
      simpa only [threadStep, hpc] using h

theorem inv_binlogStep {w : Worker} (h : Inv w) : Inv w.binlogStep := by
  unfold binlogStep
  split
  · rename_i hthere
    have hworker : (Shutdown.step w.server .binlog).worker = w.server.worker :=
      (Shutdown.worker_run_binlog w.server 1).1
    exact
      { polls := h.polls
        closedLast := h.closedLast
        closed := h.closed
        fresh := fun hlate => hworker.trans (h.fresh hlate)
        done := fun hpc => by rw [hworker]; exact h.done hpc
        returned := fun hpc => hworker.trans (h.returned hpc)
        joined := Shutdown.joined_step h.joined .binlog
        notYet := h.notYet
        binlog := fun hnone => absurd hnone (by simp [hthere]) }
  · exact h

theorem inv_step {w : Worker} (h : Inv w) (e : Event) : Inv (w.step e) := by
  cases e with
  | create =>
      simp only [step]
      split
      · rename_i hpc
        exact inv_goto h (by rw [hpc]; rfl) rfl (by simp) (by simp [hpc, ThreadPc.created])
      · exact h
  | cancel =>
      exact inv_cancel h
  | own e =>
      cases e with
      | thread ok =>
          exact inv_threadStep h ok
      | binlog =>
          exact inv_binlogStep h

/-- A worker that has given back what it had. -/
structure Ended (w : Worker) : Prop where
  returned : w.pc = .returned
  closed : w.trace.count .closed = 1
  release : w.server.worker = .done
  thread : w.binlog = true
  binlog : w.server.binlog = .returned

theorem ended_of_returned {w : Worker} (h : Inv w) (hpc : w.pc = .returned) : Ended w := by
  have hdone := h.returned hpc
  have hlate : w.pc.late = true := by rw [hpc]; rfl
  have hbinlog := h.joined.returned (Or.inr hdone)
  have hthread : w.binlog = true := by
    by_contra hnone
    have hconnect := h.binlog (by simpa using hnone)
    rw [hbinlog] at hconnect
    cases hconnect
  refine ⟨hpc, ?_, hdone, hthread, hbinlog⟩
  -- The first closing is in front of everything that could follow it.
  rcases List.eq_append_cons_of_mem (h.closed hlate) with ⟨before, after, htrace, hfirst⟩
  rw [htrace, List.count_append, List.count_cons_self, List.count_eq_zero_of_not_mem hfirst,
    List.count_eq_zero_of_not_mem (h.closedLast before after htrace).2.2]

end Worker

/-! ## Runs of the process -/

/-- What the process does to a worker is a run of the worker. -/
theorem worker_onWorker (s : State) (n k : Nat) (e : Worker.Event) :
    ∃ es, (s.onWorker n e).worker k = run Worker.step (s.worker k) es := by
  by_cases hk : k = n
  · subst hk
    exact ⟨[e], by simp [State.onWorker]⟩
  · exact ⟨[], by simp [State.onWorker, hk]⟩

theorem worker_mainStep (s : State) (ok : Bool) (k : Nat) :
    ∃ es, (mainStep s ok).worker k = run Worker.step (s.worker k) es := by
  have hstay : ∃ es, s.worker k = run Worker.step (s.worker k) es := ⟨[], rfl⟩
  cases hmain : s.main with
  | create n =>
      cases ok with
      | true =>
          simpa only [mainStep, hmain, if_true] using worker_onWorker s n k .create
      | false =>
          simpa only [mainStep, hmain, Bool.false_eq_true, if_false] using hstay
  | cancel n =>
      simpa only [mainStep, hmain] using worker_onWorker s n k .cancel
  | run =>
      simp only [mainStep, hmain]
      split <;> exact hstay
  | join n j =>
      simp only [mainStep, hmain]
      split
      · split <;> exact hstay
      · exact hstay
      · exact hstay
  | returned =>
      simpa only [mainStep, hmain] using hstay
  | lost n j =>
      simpa only [mainStep, hmain] using hstay

theorem worker_handlerStep (s : State) (i k : Nat) :
    ∃ es, (handlerStep s i).worker k = run Worker.step (s.worker k) es := by
  have hstay : ∃ es, s.worker k = run Worker.step (s.worker k) es := ⟨[], rfl⟩
  cases hi : s.handlers[i]? with
  | none =>
      simpa only [handlerStep, hi] using hstay
  | some n =>
      simp only [handlerStep, hi]
      split
      · exact worker_onWorker s n k .cancel
      · split <;> exact hstay

theorem worker_step (s : State) (e : Event) (k : Nat) :
    ∃ es, (step s e).worker k = run Worker.step (s.worker k) es := by
  unfold step
  split
  · cases e with
    | main ok =>
        exact worker_mainStep s ok k
    | interrupt =>
        exact ⟨[], rfl⟩
    | handler i =>
        exact worker_handlerStep s i k
    | worker n e =>
        exact worker_onWorker s n k (.own e)
  · exact ⟨[], rfl⟩

/-- Each worker of the process runs as it would alone. -/
theorem worker_run (s : State) (es : List Event) (k : Nat) :
    ∃ fs, (run step s es).worker k = run Worker.step (s.worker k) fs := by
  induction es generalizing s with
  | nil =>
      exact ⟨[], rfl⟩
  | cons e es ih =>
      rcases worker_step s e k with ⟨fs, hfs⟩
      rcases ih (step s e) with ⟨gs, hgs⟩
      refine ⟨fs ++ gs, ?_⟩
      calc
        (run step s (e :: es)).worker k = run Worker.step ((step s e).worker k) gs := hgs
        _ = run Worker.step (run Worker.step (s.worker k) fs) gs := by rw [hfs]
        _ = run Worker.step (s.worker k) (fs ++ gs) := (run_append _ _ _ _).symm

theorem inv_worker_run {s : State} {k : Nat} (h : (s.worker k).Inv) (es : List Event) :
    ((run step s es).worker k).Inv := by
  rcases worker_run s es k with ⟨fs, hfs⟩
  rw [hfs]
  exact run_history Worker.step (P := fun _ w => w.Inv) h (fun _ e hw => Worker.inv_step hw e) fs

/-! ## The main thread -/

/-- `n` calls of `Join`. -/
def rounds (n : Nat) : List Nat := (List.replicate n (List.range threadCount)).flatten

theorem rounds_succ (n : Nat) : rounds (n + 1) = rounds n ++ List.range threadCount := by
  simp [rounds, List.replicate_succ']

/-- One call of `Join` has every thread. -/
theorem mem_rounds {n k : Nat} (hn : n ≠ 0) (hk : k < threadCount) : k ∈ rounds n := by
  simp [rounds, hn, hk]

/-- The joins behind the main thread. -/
def joinsAt : MainPc → List Nat
  | .join n k => rounds n ++ List.range k
  | .lost n k => rounds n ++ List.range k
  | .returned => rounds threadCount
  | _ => []

/-- Where the main thread can be. -/
def InRange : MainPc → Prop
  | .create n => n < threadCount
  | .cancel n => n < threadCount
  | .join n k => n < threadCount ∧ k < threadCount
  | .lost n k => n < threadCount ∧ k < threadCount
  | _ => True

/-- The main thread is past the join of `k` in the `n`-th call. -/
def Past : MainPc → Nat → Nat → Prop
  | .join i j, n, k => n < i ∨ n = i ∧ k < j
  | .lost i j, n, k => n < i ∨ n = i ∧ k < j
  | .returned, n, _ => n < threadCount
  | _, _, _ => False

/-- `Run` is over. -/
def stopping : MainPc → Bool
  | .create _ => false
  | .run => false
  | _ => true

theorem joinsAt_nextJoin {n k : Nat} (hn : n < threadCount) (hk : k < threadCount) :
    joinsAt (nextJoin n k) = rounds n ++ List.range (k + 1) ∧ InRange (nextJoin n k) := by
  unfold nextJoin
  split
  · rename_i hnext
    exact ⟨rfl, hn, hnext⟩
  · -- The call of `Join` has come to the last thread.
    have hlast : k + 1 = threadCount := by omega
    rw [hlast]
    split
    · rename_i hmore
      refine ⟨?_, hmore, by decide⟩
      rw [joinsAt, rounds_succ, List.range_zero, List.append_nil]
    · have hend : n + 1 = threadCount := by omega
      refine ⟨?_, trivial⟩
      rw [joinsAt, ← hend, rounds_succ, hend]

theorem past_nextJoin {n k i j : Nat} (hn : n < threadCount) (hk : k < threadCount)
    (hj : j < threadCount) (h : Past (nextJoin n k) i j) :
    Past (.join n k) i j ∨ i = n ∧ j = k := by
  unfold nextJoin at h
  split at h
  · simp only [Past] at h ⊢
    omega
  · split at h <;> simp only [Past] at h ⊢ <;> omega

structure Inv (s : State) : Prop where
  worker : ∀ n, (s.worker n).Inv
  inRange : InRange s.main
  joins : s.joins = joinsAt s.main
  joined : ∀ k ∈ s.joins, (s.worker k).pc = .returned
  rejoined : ∀ n k, k < threadCount → n ≠ 0 → Past s.main n k → s.rejoins n k = true
  quit : stopping s.main = true → s.quit ≠ 0
  handlers : s.quit ≠ 0 → s.handlers ≠ []

theorem inv_init (site : Site) : Inv (init site) where
  worker := Worker.inv_init site
  inRange := (by decide : 0 < threadCount)
  joins := rfl
  joined := nofun
  rejoined _ _ _ _ := False.elim
  quit := nofun
  handlers h := absurd rfl h

/-- A thread that has returned stays so. -/
theorem returned_step {w : Worker} (h : w.pc = .returned) (e : Worker.Event) :
    (w.step e).pc = .returned := by
  cases e with
  | create =>
      simp [Worker.step, h]
  | cancel =>
      exact h
  | own e =>
      cases e with
      | thread ok =>
          simp [Worker.step, Worker.threadStep, h]
      | binlog =>
          simp only [Worker.step, Worker.binlogStep]
          split <;> exact h

theorem returned_of_run {w : Worker} (h : w.pc = .returned) (es : List Worker.Event) :
    (run Worker.step w es).pc = .returned :=
  run_history Worker.step (P := fun _ w => w.pc = .returned) h
    (fun _ e hw => returned_step hw e) es

/-- What a step of the main thread leaves behind. -/
structure AfterMain (s s' : State) : Prop where
  inRange : InRange s'.main
  joins : s'.joins = joinsAt s'.main
  joined : ∀ k ∈ s'.joins, k ∈ s.joins ∨ (s.worker k).pc = .returned
  rejoined : ∀ n k, k < threadCount → n ≠ 0 → Past s'.main n k → s.rejoins n k = true
  stopping : stopping s'.main = true → s'.quit ≠ 0
  quit : s'.quit = s.quit
  handlers : s'.handlers = s.handlers

theorem afterMain_self {s : State} (h : Inv s) : AfterMain s s :=
  ⟨h.inRange, h.joins, fun _ => Or.inl, h.rejoined, h.quit, rfl, rfl⟩

theorem afterMain_create {s : State} (h : Inv s) (ok : Bool) {n : Nat}
    (hmain : s.main = .create n) : AfterMain s (mainStep s ok) := by
  have hnone : s.joins = [] := by rw [h.joins, hmain]; rfl
  have hnext : ∀ t : State, t.joins = s.joins → t.quit = s.quit → t.handlers = s.handlers →
      AfterMain s { t with main := if n + 1 < threadCount then .create (n + 1) else .run } := by
    intro t hjoins hquit hhandlers
    have hjoined : ∀ k ∈ t.joins, k ∈ s.joins ∨ (s.worker k).pc = .returned := by
      simp [hjoins, hnone]
    by_cases hmore : n + 1 < threadCount
    · simp only [hmore, if_true]
      exact ⟨hmore, hjoins.trans hnone, hjoined, fun _ _ _ _ => False.elim, nofun, hquit,
        hhandlers⟩
    · simp only [hmore, if_false]
      exact ⟨trivial, hjoins.trans hnone, hjoined, fun _ _ _ _ => False.elim, nofun, hquit,
        hhandlers⟩
  cases ok with
  | true =>
      simp only [mainStep, hmain, if_true]
      exact hnext (s.onWorker n .create) rfl rfl rfl
  | false =>
      simp only [mainStep, hmain, Bool.false_eq_true, if_false]
      exact hnext s rfl rfl rfl

theorem afterMain_cancel {s : State} (h : Inv s) (ok : Bool) {n : Nat}
    (hmain : s.main = .cancel n) : AfterMain s (mainStep s ok) := by
  have hnone : s.joins = [] := by rw [h.joins, hmain]; rfl
  have hquit : s.quit ≠ 0 := h.quit (by rw [hmain]; rfl)
  simp only [mainStep, hmain]
  by_cases hmore : n + 1 < threadCount
  · simp only [hmore, if_true]
    exact ⟨hmore, hnone, fun _ => Or.inl, fun _ _ _ _ => False.elim, fun _ => hquit, rfl, rfl⟩
  · simp only [hmore, if_false]
    refine ⟨⟨by decide, by decide⟩, hnone, fun _ => Or.inl, ?_, fun _ => hquit, rfl, rfl⟩
    rintro i j _ _ (hlt | ⟨_, hlt⟩) <;> exact absurd hlt (Nat.not_lt_zero _)

theorem afterMain_join {s : State} (h : Inv s) (ok : Bool) {n k : Nat}
    (hmain : s.main = .join n k) : AfterMain s (mainStep s ok) := by
  have hinRange := h.inRange
  have hjoins := h.joins
  have hpast := h.rejoined
  have hquit : s.quit ≠ 0 := h.quit (by rw [hmain]; rfl)
  rw [hmain] at hinRange hjoins hpast
  rcases joinsAt_nextJoin hinRange.1 hinRange.2 with ⟨hnext, hnextRange⟩
  have hlost : AfterMain s { s with main := .lost n k } :=
    ⟨hinRange, hjoins, fun _ => Or.inl, hpast, fun _ => hquit, rfl, rfl⟩
  simp only [mainStep, hmain]
  split
  · rename_i hreturned
    split
    · exact hlost
    · rename_i hcomes
      refine ⟨hnextRange, ?_, ?_, ?_, fun _ => hquit, rfl, rfl⟩
      · calc
          s.joins ++ [k] = rounds n ++ (List.range k ++ [k]) := by
            rw [hjoins, joinsAt, List.append_assoc]
          _ = joinsAt (nextJoin n k) := by rw [hnext, List.range_succ]
      · intro j hj
        rcases List.mem_append.1 hj with hj | hj
        · exact Or.inl hj
        · rw [List.mem_singleton.1 hj]
          exact Or.inr hreturned
      · intro i j hj hi hbehind
        rcases past_nextJoin hinRange.1 hinRange.2 hj hbehind with hold | ⟨rfl, rfl⟩
        · exact hpast i j hj hi hold
        · -- Behind the first call every thread has been joined.
          have hmem : j ∈ s.joins := by
            rw [hjoins]
            exact List.mem_append_left _ (mem_rounds hi hj)
          simpa [hmem] using hcomes
  · exact hlost
  · exact afterMain_self h

theorem afterMain_mainStep {s : State} (h : Inv s) (ok : Bool) : AfterMain s (mainStep s ok) := by
  cases hmain : s.main with
  | create n =>
      exact afterMain_create h ok hmain
  | cancel n =>
      exact afterMain_cancel h ok hmain
  | join n k =>
      exact afterMain_join h ok hmain
  | run =>
      have hnone : s.joins = [] := by rw [h.joins, hmain]; rfl
      by_cases hset : s.quit = 0
      · have hstay : mainStep s ok = s := by simp [mainStep, hmain, hset]
        rw [hstay]
        exact afterMain_self h
      · have hgo : mainStep s ok = { s with main := .cancel 0 } := by
          simp [mainStep, hmain, hset]
        rw [hgo]
        exact ⟨(by decide : 0 < threadCount), hnone, fun _ => Or.inl, fun _ _ _ _ => False.elim,
          fun _ => hset, rfl, rfl⟩
  | returned =>
      have hstay : mainStep s ok = s := by simp [mainStep, hmain]
      rw [hstay]
      exact afterMain_self h
  | lost n k =>
      have hstay : mainStep s ok = s := by simp [mainStep, hmain]
      rw [hstay]
      exact afterMain_self h

/-- The other events leave the main thread and its joins alone. -/
theorem frame_step {s : State} {e : Event} (h : ∀ ok, e ≠ .main ok) :
    (step s e).main = s.main ∧ (step s e).joins = s.joins ∧
      ((step s e).quit = s.quit ∨ (step s e).handlers ≠ []) ∧
      (s.handlers ≠ [] → (step s e).handlers ≠ []) ∧ (s.quit ≠ 0 → (step s e).quit ≠ 0) := by
  unfold step
  split
  · cases e with
    | main ok =>
        exact absurd rfl (h ok)
    | interrupt =>
        exact ⟨rfl, rfl, Or.inl rfl, fun _ => by simp, id⟩
    | worker n e =>
        exact ⟨rfl, rfl, Or.inl rfl, id, id⟩
    | handler i =>
        cases hi : s.handlers[i]? with
        | none =>
            simp [handlerStep, hi]
        | some n =>
            have hne : s.handlers ≠ [] := by
              rintro hnil
              simp [hnil] at hi
            have hset : s.handlers.set i (n + 1) ≠ [] := by simpa using hne
            simp only [handlerStep, hi]
            split
            · exact ⟨rfl, rfl, Or.inl rfl, fun _ => hset, id⟩
            · split
              · exact ⟨rfl, rfl, Or.inr hset, fun _ => hset, fun _ => Int.one_ne_zero⟩
              · exact ⟨rfl, rfl, Or.inl rfl, id, id⟩
  · exact ⟨rfl, rfl, Or.inl rfl, id, id⟩

theorem rejoins_step (s : State) (e : Event) : (step s e).rejoins = s.rejoins := by
  unfold step
  split
  · cases e with
    | main ok =>
        cases hmain : s.main <;> simp only [mainStep, hmain]
        case create n =>
          cases ok <;> rfl
        case run =>
          split <;> rfl
        case join n k =>
          split
          · split <;> rfl
          · rfl
          · rfl
        all_goals rfl
    | interrupt =>
        rfl
    | handler i =>
        cases hi : s.handlers[i]? with
        | none =>
            simp [handlerStep, hi]
        | some n =>
            simp only [handlerStep, hi]
            split
            · rfl
            · split <;> rfl
    | worker n e =>
        rfl
  · rfl

theorem rejoins_run (s : State) (es : List Event) : (run step s es).rejoins = s.rejoins :=
  run_history step (P := fun _ t => t.rejoins = s.rejoins) rfl
    (fun _ e h => (rejoins_step _ e).trans h) es

theorem inv_step {s : State} (h : Inv s) (e : Event) : Inv (step s e) := by
  have hrejoins := rejoins_step s e
  have hworker : ∀ n, ((step s e).worker n).Inv := fun n => inv_worker_run (h.worker n) [e]
  have hreturned : ∀ k, (s.worker k).pc = .returned → ((step s e).worker k).pc = .returned := by
    intro k hk
    rcases worker_step s e k with ⟨es, hes⟩
    rw [hes]
    exact returned_of_run hk es
  by_cases hmain : ∃ ok, e = .main ok
  · rcases hmain with ⟨ok, rfl⟩
    by_cases hrunning : s.running = true
    · have hstep : step s (.main ok) = mainStep s ok := by rw [step, if_pos hrunning]
      have hafter := afterMain_mainStep h ok
      rw [← hstep] at hafter
      refine ⟨hworker, hafter.inRange, hafter.joins, ?_, ?_, hafter.stopping, ?_⟩
      · intro k hk
        rcases hafter.joined k hk with hold | hnew
        · exact hreturned k (h.joined k hold)
        · exact hreturned k hnew
      · rw [hrejoins]
        exact hafter.rejoined
      · rw [hafter.quit, hafter.handlers]
        exact h.handlers
    · have hstep : step s (.main ok) = s := by rw [step, if_neg hrunning]
      rw [hstep]
      exact h
  · have hother : ∀ ok, e ≠ .main ok := fun ok he => hmain ⟨ok, he⟩
    rcases frame_step (s := s) hother with ⟨hsame, hjoins, hset, hkeep, hquit⟩
    refine ⟨hworker, ?_, ?_, ?_, ?_, ?_, ?_⟩
    · rw [hsame]
      exact h.inRange
    · rw [hsame, hjoins]
      exact h.joins
    · rw [hjoins]
      exact fun k hk => hreturned k (h.joined k hk)
    · rw [hsame, hrejoins]
      exact h.rejoined
    · rw [hsame]
      exact fun hstopping => hquit (h.quit hstopping)
    · rcases hset with hold | hnew
      · rw [hold]
        exact fun hset => hkeep (h.handlers hset)
      · exact fun _ => hnew

theorem inv_run {s : State} (h : Inv s) (es : List Event) : Inv (run step s es) :=
  run_history step (P := fun _ s => Inv s) h (fun _ e hs => inv_step hs e) es

/-- A call of the handler comes from an interrupt. -/
theorem handlers_run (site : Site) (es : List Event) :
    (run step (init site) es).handlers ≠ [] → .interrupt ∈ es := by
  refine run_history step (P := fun es s => s.handlers ≠ [] → Event.interrupt ∈ es)
    (fun h => absurd rfl h) ?_ es
  intro es e hold hne
  by_cases he : e = .interrupt
  · simp [he]
  · refine List.mem_append_left _ (hold fun hnil => hne ?_)
    generalize run step (init site) es = s at hnil
    unfold step
    split
    · cases e with
      | main ok =>
          cases hmain : s.main <;> simp only [mainStep, hmain]
          case create n =>
            cases ok <;> exact hnil
          case run =>
            split <;> exact hnil
          case join n k =>
            split
            · split <;> exact hnil
            · exact hnil
            · exact hnil
          all_goals exact hnil
      | interrupt =>
          exact absurd rfl he
      | handler i =>
          simp [handlerStep, hnil]
      | worker n e =>
          exact hnil
    · exact hnil

/-- A second round of joins begins behind a whole one. -/
theorem mem_joins_of_length {s : State} (h : Inv s) (hlong : threadCount < s.joins.length) {n : Nat}
    (hn : n < threadCount) : n ∈ s.joins := by
  have hjoins := h.joins
  have hinRange := h.inRange
  have hcall : ∀ i k, k < threadCount → threadCount < (rounds i ++ List.range k).length →
      n ∈ rounds i ++ List.range k := by
    intro i k hk hlength
    refine List.mem_append_left _ (mem_rounds ?_ hn)
    rintro rfl
    simp only [rounds, List.replicate_zero, List.flatten_nil, List.nil_append,
      List.length_range] at hlength
    omega
  rw [hjoins] at hlong ⊢
  cases hmain : s.main with
  | join i k =>
      rw [hmain] at hlong hinRange
      exact hcall i k hinRange.2 hlong
  | lost i k =>
      rw [hmain] at hlong hinRange
      exact hcall i k hinRange.2 hlong
  | returned =>
      exact mem_rounds (by decide) hn
  | _ =>
      rw [hmain] at hlong
      exact absurd hlong (by simp [joinsAt])

/-- Every run of the process.  Behind its `cancel_` a worker polls at most once more, and behind
the closing of its interface never; no thread is joined twice before all workers have given back
what they had; and `main` returns only when they have, after an interrupt, with each thread joined
as often as there are threads, and only if every one of these joins but the first comes back. -/
theorem orderly_exit (site : Site) (es : List Event) :
    (∀ n, Behind .cancelled (fun after => after.count .polled ≤ 1)
          ((run step (init site) es).worker n).trace ∧
        Behind .closed (fun after => .polled ∉ after)
          ((run step (init site) es).worker n).trace) ∧
      (threadCount < (run step (init site) es).joins.length →
        ∀ n < threadCount, ((run step (init site) es).worker n).Ended) ∧
      ((run step (init site) es).main = .returned →
        .interrupt ∈ es ∧ (run step (init site) es).joins = rounds threadCount ∧
          (∀ n < threadCount, ((run step (init site) es).worker n).Ended) ∧
          ∀ n < threadCount, ∀ k < threadCount, n ≠ 0 → site.rejoins n k = true) := by
  have hinv := inv_run (inv_init site) es
  have hhandlers := handlers_run site es
  have hrejoins : (run step (init site) es).rejoins = site.rejoins := rejoins_run (init site) es
  generalize run step (init site) es = s at hinv hhandlers hrejoins
  have hended : (∀ n < threadCount, n ∈ s.joins) → ∀ n < threadCount, (s.worker n).Ended :=
    fun hall n hn => Worker.ended_of_returned (hinv.worker n) (hinv.joined n (hall n hn))
  refine ⟨?_, ?_, ?_⟩
  · intro n
    refine ⟨(hinv.worker n).polls.mono ?_, (hinv.worker n).closedLast.mono ?_⟩
    · exact fun after hafter => Nat.le_trans (Nat.le_add_right _ _) hafter.2
    · exact fun after hafter => hafter.2.1
  · exact fun hlong => hended fun n hn => mem_joins_of_length hinv hlong hn
  · intro hmain
    have hjoins : s.joins = rounds threadCount := by rw [hinv.joins, hmain]; rfl
    have hquit : s.quit ≠ 0 := hinv.quit (by rw [hmain]; rfl)
    refine ⟨hhandlers (hinv.handlers hquit), hjoins, hended fun n hn => ?_, ?_⟩
    · rw [hjoins]
      exact mem_rounds (by decide) hn
    · intro n hn k hk hne
      rw [← hrejoins]
      exact hinv.rejoined n k hk hne (by rw [hmain]; exact hn)

/-! ## A run to the end -/

/-- Nothing is logged, and every join comes back. -/
def quietSite : Site :=
  { cancel := fun _ => 0
    connects := fun _ => true
    stream := fun _ => []
    rejoins := fun _ _ => true }

/-- The same steps of every worker. -/
def eachWorker (es : List Worker.Own) : List Event :=
  (List.range threadCount).flatMap fun n => es.map (.worker n)

/-- Creation, one interrupt, and the release of the workers one after the other. -/
def quietRun : List Event :=
  List.replicate threadCount (.main true) ++ eachWorker (List.replicate 4 (.thread true)) ++
    .interrupt :: List.replicate (threadCount + 1) (.handler 0) ++
    eachWorker
      (List.replicate 4 (.thread true) ++ [.binlog, .binlog, .thread true, .thread true]) ++
    List.replicate (1 + threadCount + threadCount * threadCount) (.main true)

example : (run step (init quietSite) quietRun).main = .returned := by decide +kernel

end Lifecycle
end Proc
end NmMemcached
