import NmMemcached.Server.Shutdown

/-!
# Finish — the releases that come to an end

`pthread_join` in the destructor waits for the binlog thread, and the thread leaves its loop at a
test of `cancel_` only.  A release can come to its end exactly when the binlog thread, let run
alone, comes to such a test (`finishes_iff_settles`): neither the worker nor `cancel_` can help a
thread that waits for an event.
-/

namespace NmMemcached
namespace Server
namespace Shutdown

open Lib Table

/-! ## States -/

/-- The binlog thread is in front of a test of `cancel_`, or has left its loop. -/
structure AtTest (s : State) : Prop where
  running : s.running = true
  binlog : s.binlog = .test ∨ s.binlog = .returned

/-- Let run alone, the binlog thread comes to a test. -/
def Settles (s : State) : Prop :=
  ∃ n, AtTest (run step s (List.replicate n .binlog))

/-- Some order of steps brings the worker to the end of the destructor. -/
def Finishes (s : State) : Prop := Reaches step (fun s' => s'.worker = .done) s

theorem settles_of_step {s : State} (h : Settles (step s .binlog)) : Settles s := by
  rcases h with ⟨n, hn⟩
  exact ⟨n + 1, hn⟩

/-- A thread that waits behind the last event waits for ever. -/
theorem not_settles_of_wait {s : State} (hpc : s.binlog = .wait) (hstream : s.stream = []) :
    ¬ Settles s := by
  rintro ⟨n, hn⟩
  have hstep : step s .binlog = s := by
    cases hrunning : s.running with
    | false =>
        exact step_of_halted hrunning _
    | true =>
        simp only [step_binlog hrunning, binLogStep, hpc, hstream]
  have hrun : run step s (List.replicate n .binlog) = s := by
    induction n with
    | zero =>
        rfl
    | succ n ih =>
        rw [List.replicate_succ, run_cons, hstep]
        rw [List.replicate_succ, run_cons, hstep] at hn
        exact ih hn
  rw [hrun] at hn
  rcases hn.binlog with h | h <;> simp [hpc] at h

/-! ## What the worker waits for -/

/-- The worker leaves the state of the other thread alone. -/
theorem frame_workerStep (s : State) :
    ((workerStep s).running = s.running ∧ (workerStep s).binlog = s.binlog ∧
        (workerStep s).connects = s.connects) ∧
      (workerStep s).tmpevent = s.tmpevent ∧ (workerStep s).tbl = s.tbl ∧
        (workerStep s).stream = s.stream := by
  cases hpc : s.worker with
  | join =>
      by_cases hreturned : s.binlog = .returned <;> simp [workerStep, hpc, hreturned]
  | _ =>
      simp [workerStep, hpc]

theorem running_onDelivered (s : State) (ev : BinaryLogEvent) :
    (onDelivered s ev).running = s.running := by
  cases ev with
  | tableMap ev =>
      rfl
  | other =>
      rfl
  | rows ev =>
      cases htmp : s.tmpevent <;> simp [onDelivered, htmp]

/-- An exception leaves the thread where it was. -/
theorem running_binLogStep {s : State} (hrunning : s.running = true) :
    (binLogStep s).running = true ∨
      (binLogStep s).binlog = s.binlog ∧ s.binlog ≠ .returned := by
  cases hpc : s.binlog with
  | connect =>
      by_cases h : s.connects <;> simp [binLogStep, hpc, h, halt, hrunning]
  | test =>
      by_cases h : s.cancel = 0 <;> simp [binLogStep, hpc, h, hrunning]
  | returned =>
      simp [binLogStep, hpc, hrunning]
  | wait =>
      cases hstream : s.stream with
      | nil =>
          simp [binLogStep, hpc, hstream, hrunning]
      | cons d stream =>
          cases d with
          | error =>
              simp [binLogStep, hpc, hstream, halt]
          | event ev =>
              rw [binLogStep_event hpc hstream, running_onDelivered]
              exact Or.inl hrunning
  | rows type updateIdx rof rest =>
      cases hcall : rowCall type updateIdx rof with
      | none =>
          simp [binLogStep, hpc, hcall, hrunning]
      | stray =>
          simp [binLogStep, hpc, hcall, halt]
      | op op =>
          simp only [binLogStep, hpc, hcall, callTable]
          split
          · exact Or.inr ⟨rfl, by simp⟩
          · split
            · exact Or.inr ⟨rfl, by simp⟩
            · exact Or.inl hrunning

/-- Behind the join the binlog thread is gone, and one that is gone has thrown nothing. -/
structure Joined (s : State) : Prop extends Reached s where
  returned : s.worker = .closeDb ∨ s.worker = .done → s.binlog = .returned
  running : s.binlog = .returned → s.running = true

theorem joined_start (cancel : Int) (connects : Bool) (stream : List Delivery) :
    Joined (start cancel connects stream) :=
  { reached_start cancel connects stream with
    returned := by simp [start]
    running := nofun }

theorem joined_workerStep {s : State} (h : Joined s) : Joined (workerStep s) := by
  rcases frame_workerStep s with ⟨⟨hrunning, hbinlog, _⟩, _⟩
  refine { reached_workerStep h.toReached with returned := ?_, running := ?_ }
  · rw [hbinlog]
    cases hpc : s.worker <;> simp only [workerStep, hpc]
    case join =>
      -- `pthread_join` has come back, or waits.
      split
      · rename_i hreturned
        exact fun _ => hreturned
      · simp [hpc]
    case closeDb =>
      exact fun _ => h.returned (Or.inl hpc)
    case done =>
      exact fun _ => h.returned (Or.inr hpc)
    all_goals simp
  · rw [hrunning, hbinlog]
    exact h.running

theorem joined_binLogStep {s : State} (hrunning : s.running = true) (h : Joined s) :
    Joined (binLogStep s) := by
  refine { reached_binLogStep h.toReached with returned := ?_, running := ?_ }
  · rw [(frame_binLogStep s).1]
    intro hpc
    have hreturned := h.returned hpc
    simp only [binLogStep, hreturned]
  · intro hreturned
    rcases running_binLogStep hrunning with hgoes | ⟨hstay, hnot⟩
    · exact hgoes
    · exact absurd (hstay.symm.trans hreturned) hnot

theorem joined_step {s : State} (h : Joined s) (t : Thread) : Joined (step s t) := by
  cases hrunning : s.running with
  | false =>
      rwa [step_of_halted hrunning]
  | true =>
      cases t with
      | worker =>
          rw [step_worker hrunning]
          exact joined_workerStep h
      | binlog =>
          rw [step_binlog hrunning]
          exact joined_binLogStep hrunning h

theorem joined_run {s : State} (h : Joined s) (ts : List Thread) : Joined (run step s ts) :=
  run_history step (P := fun _ s => Joined s) h (fun _ t h => joined_step h t) ts

/-- A process that has ended stays so. -/
theorem running_of_step {s : State} {t : Thread} (h : (step s t).running = true) :
    s.running = true := by
  by_contra hnot
  rw [step_of_halted (Bool.not_eq_true _ ▸ hnot)] at h
  exact hnot h

theorem running_of_run {s : State} {ts : List Thread} (h : (run step s ts).running = true) :
    s.running = true := by
  by_contra hnot
  rw [run_of_halted (Bool.not_eq_true _ ▸ hnot)] at h
  exact hnot h

/-! ## The binlog thread beside the worker -/

/-- `s'` is `s` with the worker further on.  The table that is gone in `s` is gone in `s'`. -/
structure Ahead (s s' : State) : Prop where
  running : s.running = true
  running' : s'.running = true
  binlog : s'.binlog = s.binlog
  connects : s'.connects = s.connects
  tmpevent : s'.tmpevent = s.tmpevent
  tbl : s'.tbl = s.tbl
  stream : s'.stream = s.stream
  deleted : s.worker.tableDeleted = true → s'.worker.tableDeleted = true

theorem Ahead.refl {s : State} (h : s.running = true) : Ahead s s :=
  ⟨h, h, rfl, rfl, rfl, rfl, rfl, id⟩

theorem ahead_workerStep {s s' : State} (h : Ahead s s') : Ahead s (step s' .worker) := by
  rcases frame_workerStep s' with ⟨⟨hrunning, hbinlog, hconnects⟩, htmpevent, htbl, hstream⟩
  have hstep := step_worker h.running'
  exact
    { running := h.running
      running' := by rw [hstep, hrunning, h.running']
      binlog := by rw [hstep, hbinlog, h.binlog]
      connects := by rw [hstep, hconnects, h.connects]
      tmpevent := by rw [hstep, htmpevent, h.tmpevent]
      tbl := by rw [hstep, htbl, h.tbl]
      stream := by rw [hstep, hstream, h.stream]
      deleted := fun hgone => tableDeleted_step (h.deleted hgone) .worker }

/-- A call that goes well beside the worker goes well without it. -/
theorem ahead_callTable {s s' : State} (h : Ahead s s') {op : LookupTable.Update NmmcItem}
    {next : BinLogPc} (hrunning : (callTable s' op next).running = true) :
    Ahead (callTable s op next) (callTable s' op next) := by
  have hthere' : s'.worker.tableDeleted = false := by
    cases hgone : s'.worker.tableDeleted with
    | false =>
        rfl
    | true =>
        simp [callTable, halt, hgone] at hrunning
  have hthere : s.worker.tableDeleted = false := by
    cases hgone : s.worker.tableDeleted with
    | false =>
        rfl
    | true =>
        rw [h.deleted hgone] at hthere'
        cases hthere'
  cases hcall : afterCall (op.exec s.tbl) with
  | error msg =>
      simp [callTable, halt, hthere', h.tbl, hcall] at hrunning
  | ok tbl =>
      have hcallTable : ∀ t : State, t.worker.tableDeleted = false → t.tbl = s.tbl →
          callTable t op next =
            { t with trace := t.trace ++ [.call op], binlog := next, tbl := tbl } := by
        intro t hdeleted htbl
        simp [callTable, hdeleted, htbl, hcall]
      rw [hcallTable s hthere rfl, hcallTable s' hthere' h.tbl]
      exact ⟨h.running, h.running', rfl, h.connects, h.tmpevent, rfl, h.stream, h.deleted⟩

theorem ahead_onDelivered {s s' : State} (h : Ahead s s') (ev : BinaryLogEvent) :
    Ahead (onDelivered s ev) (onDelivered s' ev) := by
  cases ev with
  | tableMap ev =>
      exact ⟨h.running, h.running', rfl, h.connects, rfl, h.tbl, h.stream, h.deleted⟩
  | other =>
      exact ⟨h.running, h.running', rfl, h.connects, h.tmpevent, h.tbl, h.stream, h.deleted⟩
  | rows ev =>
      have htmpevent := h.tmpevent
      cases htmp : s.tmpevent with
      | none =>
          rw [htmp] at htmpevent
          simp only [onDelivered, htmp, htmpevent]
          exact ⟨h.running, h.running', rfl, h.connects, rfl, h.tbl, h.stream, h.deleted⟩
      | some map =>
          rw [htmp] at htmpevent
          simp only [onDelivered, htmp, htmpevent]
          exact ⟨h.running, h.running', rfl, h.connects, rfl, h.tbl, h.stream, h.deleted⟩

/-- Away from a test the two binlog threads take the same step. -/
theorem ahead_binLogStep {s s' : State} (h : Ahead s s')
    (haway : ¬ (s.binlog = .test ∨ s.binlog = .returned))
    (hrunning : (step s' .binlog).running = true) :
    Ahead (step s .binlog) (step s' .binlog) := by
  rw [step_binlog h.running'] at hrunning
  rw [step_binlog h.running, step_binlog h.running']
  have hbinlog := h.binlog
  cases hpc : s.binlog with
  | test =>
      exact absurd (Or.inl hpc) haway
  | returned =>
      exact absurd (Or.inr hpc) haway
  | connect =>
      rw [hpc] at hbinlog
      cases hconnects : s'.connects with
      | false =>
          simp [binLogStep, hbinlog, hconnects, halt] at hrunning
      | true =>
          simp only [binLogStep, hpc, hbinlog, ← h.connects, hconnects, if_true]
          exact ⟨h.running, h.running', rfl, rfl, h.tmpevent, h.tbl, h.stream, h.deleted⟩
  | wait =>
      rw [hpc] at hbinlog
      have hstream := h.stream
      cases hdelivered : s.stream with
      | nil =>
          rw [hdelivered] at hstream
          simp only [binLogStep, hpc, hbinlog, hdelivered, hstream]
          exact h
      | cons d stream =>
          rw [hdelivered] at hstream
          cases d with
          | error =>
              simp [binLogStep, hbinlog, hstream, halt] at hrunning
          | event ev =>
              rw [binLogStep_event hpc hdelivered, binLogStep_event hbinlog hstream]
              have hbehind : Ahead { s with stream := stream } { s' with stream := stream } :=
                ⟨h.running, h.running', h.binlog, h.connects, h.tmpevent, h.tbl, rfl, h.deleted⟩
              exact ahead_onDelivered hbehind ev
  | rows type updateIdx rof rest =>
      rw [hpc] at hbinlog
      simp only [binLogStep, hbinlog] at hrunning
      simp only [binLogStep, hpc, hbinlog]
      cases hcall : rowCall type updateIdx rof with
      | none =>
          exact ⟨h.running, h.running', rfl, h.connects, h.tmpevent, h.tbl, h.stream, h.deleted⟩
      | op op =>
          rw [hcall] at hrunning
          exact ahead_callTable h hrunning
      | stray =>
          rw [hcall] at hrunning
          simp [halt] at hrunning

/-- What the thread comes to beside the worker it comes to alone, up to its next test. -/
theorem settles_of_ahead {s s' : State} (h : Ahead s s') {ts : List Thread}
    (hrunning : (run step s' ts).running = true)
    (hreturned : (run step s' ts).binlog = .returned) : Settles s := by
  induction ts generalizing s s' with
  | nil =>
      exact ⟨0, h.running, Or.inr (h.binlog.symm.trans hreturned)⟩
  | cons t ts ih =>
      cases t with
      | worker =>
          exact ih (ahead_workerStep h) hrunning hreturned
      | binlog =>
          by_cases htest : s.binlog = .test ∨ s.binlog = .returned
          · exact ⟨0, h.running, htest⟩
          · have hnext := ahead_binLogStep h htest (running_of_run hrunning)
            exact settles_of_step (ih hnext hrunning hreturned)

/-! ## The end of a release -/

theorem worker_run_binlog (s : State) (n : Nat) :
    (run step s (List.replicate n .binlog)).worker = s.worker ∧
      (run step s (List.replicate n .binlog)).cancel = s.cancel := by
  induction n generalizing s with
  | zero =>
      exact ⟨rfl, rfl⟩
  | succ n ih =>
      have hstep : (step s .binlog).worker = s.worker ∧ (step s .binlog).cancel = s.cancel := by
        cases hrunning : s.running with
        | false =>
            rw [step_of_halted hrunning]
            exact ⟨rfl, rfl⟩
        | true =>
            rw [step_binlog hrunning]
            exact ⟨(frame_binLogStep s).1, (frame_binLogStep s).2.1⟩
      rw [List.replicate_succ, run_cons]
      exact ⟨(ih _).1.trans hstep.1, (ih _).2.trans hstep.2⟩

/-- From a test on, five steps end the release. -/
theorem finishes_of_atTest {s : State} (hjoined : Joined s) (h : AtTest s) : Finishes s := by
  refine ⟨[.worker, .worker, .binlog, .worker, .worker], ?_⟩
  have hrunning := h.running
  have hcancel := hjoined.cancel
  have hreturned := hjoined.returned
  cases hpc : s.worker <;> rcases h.binlog with htest | htest <;>
    simp_all [step, workerStep, binLogStep]

/-- A release can come to its end exactly when the binlog thread can come to a test. -/
theorem finishes_iff_settles {s : State} (hjoined : Joined s) : Finishes s ↔ Settles s := by
  constructor
  · rintro ⟨ts, hdone⟩
    have hend := joined_run hjoined ts
    have hreturned := hend.returned (Or.inr hdone)
    have hrunning := hend.running hreturned
    exact settles_of_ahead (Ahead.refl (running_of_run hrunning)) hrunning hreturned
  · rintro ⟨n, htest⟩
    have hthere : Reaches step (fun s' => Joined s' ∧ AtTest s') s :=
      ⟨List.replicate n .binlog, joined_run hjoined _, htest⟩
    exact hthere.bind fun s' hs' => finishes_of_atTest hs'.1 hs'.2

end Shutdown
end Server
end NmMemcached
