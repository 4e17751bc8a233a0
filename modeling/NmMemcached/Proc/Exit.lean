import NmMemcached.Proc.Lifecycle

/-!
# Exit — the processes that can come to their end

What can keep a process from ending on `^C` are its threads and the system's `pthread_join`.  A
worker whose thread was not created is joined all the same, and so is a binlog thread that was not;
a binlog thread that waits behind the last event is waited for; and every worker is joined eight
times.  From every other state of a process some order of steps leads to the return of `main`
(`canReturn_iff`).
-/

namespace NmMemcached
namespace Proc
namespace Lifecycle

open Lib Server

/-! ## A worker comes to its end -/

namespace Worker

theorem running_iff {w : Worker} :
    w.running = true ↔ w.server.running = true ∧ w.pc ≠ .threw ∧ w.pc ≠ .lost := by
  simp [running]

/-- What has ended stays so. -/
theorem running_of_step {w : Worker} {e : Event} (h : (w.step e).running = true) :
    w.running = true := by
  rw [running_iff] at h ⊢
  cases e with
  | create =>
      by_cases hpc : w.pc = .idle
      · simp [step, hpc] at h
        exact ⟨h, by simp [hpc]⟩
      · simpa [step, hpc] using h
  | cancel =>
      exact h
  | own e =>
      cases e with
      | binlog =>
          simp only [step, binlogStep] at h
          split at h
          · exact ⟨Shutdown.running_of_step h.1, h.2⟩
          · exact h
      | thread ok =>
          cases hpc : w.pc with
          | release =>
              simp only [step, threadStep, hpc] at h
              split at h
              · exact ⟨h.1, by simp⟩
              · exact ⟨Shutdown.running_of_step h.1, by simp⟩
          | threw =>
              simp [step, threadStep, hpc] at h
          | lost =>
              simp [step, threadStep, hpc] at h
          | test =>
              by_cases hcancel : w.cancel = 0 <;> simp [step, threadStep, hpc, hcancel] at h <;>
                exact ⟨h, by simp⟩
          | _ =>
              cases ok <;> simp [step, threadStep, hpc] at h <;> exact ⟨h, by simp⟩

theorem running_of_run {w : Worker} {es : List Event} (h : (run step w es).running = true) :
    w.running = true := by
  by_contra hnot
  exact run_history step (P := fun _ w => w.running ≠ true) hnot
    (fun _ _ hw hlater => hw (running_of_step hlater)) es h

theorem cancel_step {w : Worker} (h : w.cancel ≠ 0) (e : Event) : (w.step e).cancel ≠ 0 := by
  cases e with
  | create =>
      simp only [step]
      split <;> exact h
  | cancel =>
      exact Int.one_ne_zero
  | own e =>
      cases e with
      | binlog =>
          simp only [step, binlogStep]
          split <;> exact h
      | thread ok =>
          cases hpc : w.pc with
          | release =>
              simp only [step, threadStep, hpc]
              split <;> exact h
          | _ =>
              cases ok <;> simp [step, threadStep, hpc, h]

/-- The worker has its binlog thread, or is in front of the creation. -/
def Threaded (w : Worker) : Prop := w.pc.created = true → w.binlog = true

/-- With `cancel_` set, the worker comes to the release of its server. -/
theorem comesToRelease {w : Worker} (hcancel : w.cancel ≠ 0) (hidle : w.pc ≠ .idle)
    (hrunning : w.running = true) (hthreaded : w.Threaded) :
    ∃ k, let w' := run step w (List.replicate k (.own (.thread true)))
      (w'.pc = .release ∨ w'.pc = .returned) ∧ w'.server = w.server ∧ w'.binlog = true := by
  cases hpc : w.pc with
  | idle =>
      exact absurd hpc hidle
  | threw =>
      exact absurd hpc (running_iff.1 hrunning).2.1
  | lost =>
      exact absurd hpc (running_iff.1 hrunning).2.2
  | table =>
      exact ⟨6, by simp [List.replicate, step, threadStep, hpc, hcancel]⟩
  | binlog =>
      exact ⟨5, by simp [List.replicate, step, threadStep, hpc, hcancel]⟩
  | connect =>
      have hthread := hthreaded (by rw [hpc]; rfl)
      exact ⟨4, by simp [List.replicate, step, threadStep, hpc, hcancel, hthread]⟩
  | network =>
      have hthread := hthreaded (by rw [hpc]; rfl)
      exact ⟨3, by simp [List.replicate, step, threadStep, hpc, hcancel, hthread]⟩
  | test =>
      have hthread := hthreaded (by rw [hpc]; rfl)
      exact ⟨2, by simp [List.replicate, step, threadStep, hpc, hcancel, hthread]⟩
  | poll =>
      have hthread := hthreaded (by rw [hpc]; rfl)
      exact ⟨3, by simp [List.replicate, step, threadStep, hpc, hcancel, hthread]⟩
  | close =>
      have hthread := hthreaded (by rw [hpc]; rfl)
      exact ⟨1, by simp [List.replicate, step, threadStep, hpc, hthread]⟩
  | release =>
      exact ⟨0, by simp [hpc, hthreaded (by rw [hpc]; rfl)]⟩
  | returned =>
      exact ⟨0, by simp [hpc, hthreaded (by rw [hpc]; rfl)]⟩

/-- The step of a worker that a step of its server is. -/
def ownOf : Shutdown.Thread → Own
  | .worker => .thread true
  | .binlog => .binlog

/-- From there on the worker takes the steps of its server. -/
theorem run_release {w : Worker} (hpc : w.pc = .release ∨ w.pc = .returned)
    (hthread : w.binlog = true) (hdone : w.pc = .returned ↔ w.server.worker = .done)
    (ts : List Shutdown.Thread) :
    let w' := run step w (ts.map fun t => .own (ownOf t))
    w'.server = run Shutdown.step w.server ts ∧ (w'.pc = .release ∨ w'.pc = .returned) ∧
      (w'.pc = .returned ↔ w'.server.worker = .done) := by
  induction ts generalizing w with
  | nil =>
      exact ⟨rfl, hpc, hdone⟩
  | cons t ts ih =>
      have hone : (w.step (.own (ownOf t))).server = Shutdown.step w.server t ∧
          (w.step (.own (ownOf t))).binlog = true ∧
          ((w.step (.own (ownOf t))).pc = .release ∨ (w.step (.own (ownOf t))).pc = .returned) ∧
            ((w.step (.own (ownOf t))).pc = .returned ↔
              (w.step (.own (ownOf t))).server.worker = .done) := by
        cases t with
        | binlog =>
            have hstep : w.step (.own .binlog) =
                { w with server := Shutdown.step w.server .binlog } := by
              simp [step, binlogStep, hthread]
            have hworker := (Shutdown.worker_run_binlog w.server 1).1
            rw [ownOf, hstep]
            refine ⟨rfl, hthread, hpc, hdone.trans ?_⟩
            exact Eq.congr_left hworker.symm
        | worker =>
            rcases hpc with h | h
            · have hstep : w.step (.own (.thread true)) =
                  { w with
                    pc := if (Shutdown.step w.server .worker).worker = .done
                      then .returned else .release
                    server := Shutdown.step w.server .worker } := by
                simp [step, threadStep, h, hthread]
              rw [ownOf, hstep]
              by_cases hend : (Shutdown.step w.server .worker).worker = .done <;>
                simp [hend, hthread]
            · -- A worker that is through takes no step, and neither does the release.
              have hstep : w.step (.own (.thread true)) = w := by
                simp [step, threadStep, h]
              have hstay : Shutdown.step w.server .worker = w.server := by
                cases hrunning : w.server.running with
                | false =>
                    exact Shutdown.step_of_halted hrunning _
                | true =>
                    rw [Shutdown.step_worker hrunning, Shutdown.workerStep, hdone.1 h]
              rw [ownOf, hstep, hstay]
              exact ⟨rfl, hthread, Or.inr h, hdone⟩
      rcases ih hone.2.2.1 hone.2.1 hone.2.2.2 with ⟨hserver, hend⟩
      exact ⟨hserver.trans (by rw [hone.1]; rfl), hend⟩

/-- A worker whose binlog thread comes to a test comes to its end behind `cancel_`. -/
theorem comesToEnd {w : Worker} (h : Inv w) (hrunning : w.running = true) (hcancel : w.cancel ≠ 0)
    (hidle : w.pc ≠ .idle) (hthreaded : w.Threaded) (hsettles : Shutdown.Settles w.server) :
    ∃ es : List Own, (run step w (es.map .own)).running = true ∧
      (run step w (es.map .own)).pc = .returned := by
  rcases comesToRelease hcancel hidle hrunning hthreaded with ⟨k, hrelease, hserver, hthread⟩
  have hinv : Inv (run step w (List.replicate k (.own (.thread true)))) :=
    run_history step (P := fun _ w => Inv w) h (fun _ e hw => inv_step hw e) _
  rw [← hserver, ← Shutdown.finishes_iff_settles hinv.joined] at hsettles
  rcases hsettles with ⟨ts, hdone⟩
  have hiff : (run step w (List.replicate k (.own (.thread true)))).pc = .returned ↔
      (run step w (List.replicate k (.own (.thread true)))).server.worker = .done := by
    refine ⟨hinv.returned, fun hend => ?_⟩
    rcases hrelease with hpc | hpc
    · exact absurd hend (hinv.done hpc)
    · exact hpc
  rcases run_release hrelease hthread hiff ts with ⟨hend, _, hreturned⟩
  refine ⟨List.replicate k (.thread true) ++ ts.map ownOf, ?_⟩
  rw [List.map_append, run_append, List.map_replicate, List.map_map, Function.comp_def]
  have hjoined := Shutdown.joined_run hinv.joined ts
  have hgoes := hjoined.running (hjoined.returned (Or.inr hdone))
  rw [← hend] at hgoes hdone
  have hpc := hreturned.2 hdone
  exact ⟨running_iff.2 ⟨hgoes, by simp [hpc]⟩, hpc⟩

end Worker

/-! ## Steps that keep the hope -/

/-- The main thread has yet to create the worker. -/
def creates : MainPc → Nat → Prop
  | .create m, n => m ≤ n
  | _, _ => False

/-- What a process needs to come to its end. -/
structure Hopeful (s : State) : Prop where
  inv : Inv s
  running : s.running = true
  created : ∀ n < threadCount, (s.worker n).pc = .idle → creates s.main n
  threaded : ∀ n < threadCount, (s.worker n).Threaded
  settles : ∀ n < threadCount, Shutdown.Settles (s.worker n).server
  rejoins : ∀ n < threadCount, ∀ k < threadCount, n ≠ 0 → s.rejoins n k = true

theorem running_iff {s : State} :
    s.running = true ↔ s.main.live = true ∧ ∀ n < threadCount, (s.worker n).running = true := by
  simp only [State.running, Bool.and_eq_true, List.all_eq_true, List.mem_range]

theorem step_of_ended {s : State} (h : s.running = false) (e : Event) : step s e = s := by
  simp [step, h]

theorem run_of_ended {s : State} (h : s.running = false) (es : List Event) :
    run step s es = s :=
  run_history step (P := fun _ t => t = s) rfl (fun _ e ht => by rw [ht, step_of_ended h]) es

/-- A worker alone, as part of the process. -/
theorem run_own {s : State} (hrunning : s.running = true) {n : Nat} {es : List Worker.Own}
    (hgoes : (run Worker.step (s.worker n) (es.map .own)).running = true) :
    run step s (es.map (.worker n)) =
      { s with
        worker := Function.update s.worker n (run Worker.step (s.worker n) (es.map .own)) } := by
  induction es generalizing s with
  | nil =>
      simp
  | cons e es ih =>
      have hstep : step s (.worker n e) = s.onWorker n (.own e) := by
        simp [step, hrunning]
      have hself : (s.onWorker n (.own e)).worker n = (s.worker n).step (.own e) := by
        simp [State.onWorker]
      rw [List.map_cons, run_cons] at hgoes
      have hnow := Worker.running_of_run hgoes
      have hrunning' : (s.onWorker n (.own e)).running = true := by
        rw [running_iff] at hrunning ⊢
        refine ⟨hrunning.1, fun k hk => ?_⟩
        by_cases hkn : k = n
        · rw [hkn, hself]
          exact hnow
        · simpa [State.onWorker, hkn] using hrunning.2 k hk
      rw [List.map_cons, run_cons, hstep, ih hrunning' (by rwa [hself]), hself]
      simp [State.onWorker, Function.update_idem]

theorem hopeful_step {s : State} (h : Hopeful s) {e : Event}
    (hlive : (step s e).main.live = true)
    (hrunning : ∀ n < threadCount, ((step s e).worker n).running = (s.worker n).running)
    (hcreated : ∀ n < threadCount, ((step s e).worker n).pc = .idle → creates (step s e).main n)
    (hthreaded : ∀ n < threadCount, (s.worker n).Threaded → ((step s e).worker n).Threaded)
    (hserver : ∀ n < threadCount, ((step s e).worker n).server = (s.worker n).server) :
    Hopeful (step s e) where
  inv := inv_step h.inv e
  running := running_iff.2
    ⟨hlive, fun n hn => (hrunning n hn).trans ((running_iff.1 h.running).2 n hn)⟩
  created := hcreated
  threaded n hn := hthreaded n hn (h.threaded n hn)
  settles n hn := by
    rw [hserver n hn]
    exact h.settles n hn
  rejoins := by
    rw [rejoins_step]
    exact h.rejoins

/-! ## The threads are created -/

theorem create_worker (w : Worker) :
    (w.step .create).running = w.running ∧ (w.step .create).server = w.server ∧
      (w.step .create).pc ≠ .idle ∧ (w.Threaded → (w.step .create).Threaded) := by
  by_cases hpc : w.pc = .idle
  · simp [Worker.step, Worker.running, Worker.Threaded, ThreadPc.created, hpc]
  · simp [Worker.step, hpc]

theorem hopeful_create {s : State} (h : Hopeful s) {n : Nat} (hmain : s.main = .create n) :
    Hopeful (step s (.main true)) ∧
      (step s (.main true)).main = if n + 1 < threadCount then .create (n + 1) else .run := by
  have hstep : step s (.main true) = { s.onWorker n .create with
      main := if n + 1 < threadCount then .create (n + 1) else .run } := by
    simp [step, h.running, mainStep, hmain]
  have hself : (step s (.main true)).worker n = (s.worker n).step .create := by
    simp [hstep, State.onWorker]
  have hother : ∀ k, k ≠ n → (step s (.main true)).worker k = s.worker k := by
    intro k hk
    simp [hstep, State.onWorker, hk]
  have hnext : (step s (.main true)).main =
      if n + 1 < threadCount then .create (n + 1) else .run := by
    rw [hstep]
  refine ⟨hopeful_step h ?_ ?_ ?_ ?_ ?_, hnext⟩
  · rw [hnext]
    split <;> rfl
  · intro k _
    by_cases hk : k = n
    · rw [hk, hself, (create_worker _).1]
    · rw [hother k hk]
  · intro k hlt hpc
    by_cases hk : k = n
    · rw [hk, hself] at hpc
      exact absurd hpc (create_worker _).2.2.1
    · rw [hother k hk] at hpc
      have hold := h.created k hlt hpc
      rw [hmain] at hold
      have hle : n + 1 ≤ k := Nat.lt_of_le_of_ne hold (Ne.symm hk)
      rw [hnext, if_pos (Nat.lt_of_le_of_lt hle hlt)]
      exact hle
  · intro k _ hold
    by_cases hk : k = n
    · rw [hk, hself]
      rw [hk] at hold
      exact (create_worker _).2.2.2 hold
    · rwa [hother k hk]
  · intro k _
    by_cases hk : k = n
    · rw [hk, hself, (create_worker _).2.1]
    · rw [hother k hk]

theorem reaches_created {s : State} (h : Hopeful s) :
    Reaches step (fun s' => Hopeful s' ∧ ∀ n, ¬ creates s'.main n) s := by
  have hall : ∀ j n (s : State), Hopeful s → s.main = .create n → threadCount - n = j →
      Reaches step (fun s' => Hopeful s' ∧ ∀ n, ¬ creates s'.main n) s := by
    intro j
    induction j with
    | zero =>
        intro n s h hmain hj
        have hlt := h.inv.inRange
        rw [hmain] at hlt
        exact absurd hlt (by simp only [InRange]; omega)
    | succ j ih =>
        intro n s h hmain hj
        rcases hopeful_create h hmain with ⟨hnext, hgoes⟩
        refine reaches_step (.main true) ?_
        by_cases hmore : n + 1 < threadCount
        · rw [if_pos hmore] at hgoes
          exact ih (n + 1) _ hnext hgoes (by omega)
        · rw [if_neg hmore] at hgoes
          refine reaches_now ⟨hnext, ?_⟩
          rw [hgoes]
          exact fun _ => id
  cases hmain : s.main with
  | create n =>
      exact hall _ n s h hmain rfl
  | _ =>
      refine reaches_now ⟨h, ?_⟩
      rw [hmain]
      exact fun _ => id

/-! ## An interrupt -/

structure Cancelled (s : State) : Prop where
  quit : s.quit ≠ 0
  cancel : ∀ n < threadCount, (s.worker n).cancel ≠ 0

theorem cancel_onWorker (s : State) (n k : Nat) :
    ((s.onWorker n .cancel).worker k).running = (s.worker k).running ∧
      ((s.onWorker n .cancel).worker k).server = (s.worker k).server ∧
      ((s.onWorker n .cancel).worker k).pc = (s.worker k).pc ∧
      ((s.worker k).Threaded → ((s.onWorker n .cancel).worker k).Threaded) ∧
      ((s.worker k).cancel ≠ 0 ∨ k = n → ((s.onWorker n .cancel).worker k).cancel ≠ 0) := by
  by_cases hk : k = n
  · subst hk
    simp [State.onWorker, Worker.step, Worker.running, Worker.Threaded]
  · simp [State.onWorker, hk]

/-- A call of the handler runs to its end. -/
theorem reaches_handler {s : State} (h : Hopeful s) {i n : Nat} (hi : s.handlers[i]? = some n)
    (hn : n ≤ threadCount) (hold : ∀ k < n, (s.worker k).cancel ≠ 0) :
    Reaches step (fun s' => (Hopeful s' ∧ Cancelled s') ∧ s'.main = s.main) s := by
  have hlen : i < s.handlers.length := (List.getElem?_eq_some_iff.1 hi).1
  generalize hj : threadCount - n = j
  induction j generalizing s n with
  | zero =>
      -- Behind the last worker: `s_quit_`.
      have hlast : n = threadCount := by omega
      subst hlast
      have hstep : step s (.handler i) =
          { s with quit := 1, handlers := s.handlers.set i (threadCount + 1) } := by
        simp [step, h.running, handlerStep, hi]
      have hmain : (step s (.handler i)).main = s.main := by rw [hstep]
      have hworker : (step s (.handler i)).worker = s.worker := by rw [hstep]
      refine reaches_step (.handler i) (reaches_now ⟨⟨hopeful_step h ?_ ?_ ?_ ?_ ?_, ?_⟩, hmain⟩)
      · rw [hmain]
        exact (running_iff.1 h.running).1
      · intro k _
        rw [hworker]
      · rw [hmain, hworker]
        exact h.created
      · intro k _
        rw [hworker]
        exact id
      · intro k _
        rw [hworker]
      · refine ⟨?_, ?_⟩
        · rw [hstep]
          exact Int.one_ne_zero
        · rw [hworker]
          exact hold
  | succ j ih =>
      have hlt : n < threadCount := by omega
      have hstep : step s (.handler i) =
          { s.onWorker n .cancel with handlers := s.handlers.set i (n + 1) } := by
        simp [step, h.running, handlerStep, hi, hlt]
      have hmain : (step s (.handler i)).main = s.main := by rw [hstep]; rfl
      have hworker : (step s (.handler i)).worker = (s.onWorker n .cancel).worker := by rw [hstep]
      have hnext : Hopeful (step s (.handler i)) := by
        refine hopeful_step h ?_ ?_ ?_ ?_ ?_
        · rw [hmain]
          exact (running_iff.1 h.running).1
        · intro k _
          rw [hworker, (cancel_onWorker s n k).1]
        · intro k hk
          rw [hmain, hworker, (cancel_onWorker s n k).2.2.1]
          exact h.created k hk
        · intro k _
          rw [hworker]
          exact (cancel_onWorker s n k).2.2.2.1
        · intro k _
          rw [hworker, (cancel_onWorker s n k).2.1]
      have hhandlers : (step s (.handler i)).handlers[i]? = some (n + 1) := by
        rw [hstep]
        simp [hlen]
      have hset : ∀ k < n + 1, ((step s (.handler i)).worker k).cancel ≠ 0 := by
        intro k hk
        rw [hworker]
        refine (cancel_onWorker s n k).2.2.2.2 ?_
        rcases Nat.lt_succ_iff_lt_or_eq.1 hk with hk | hk
        · exact Or.inl (hold k hk)
        · exact Or.inr hk
      have hrest := ih hnext hhandlers hlt hset
        (by rw [hstep]; simpa using hlen) (by omega)
      rw [hmain] at hrest
      exact reaches_step (.handler i) hrest

theorem reaches_cancelled {s : State} (h : Hopeful s) :
    Reaches step (fun s' => (Hopeful s' ∧ Cancelled s') ∧ s'.main = s.main) s := by
  have hstep : step s .interrupt = { s with handlers := s.handlers ++ [0] } := by
    simp [step, h.running]
  have hmain : (step s .interrupt).main = s.main := by rw [hstep]
  have hworker : (step s .interrupt).worker = s.worker := by rw [hstep]
  have hnext : Hopeful (step s .interrupt) := by
    refine hopeful_step h ?_ ?_ ?_ ?_ ?_
    · rw [hmain]
      exact (running_iff.1 h.running).1
    · intro k _
      rw [hworker]
    · rw [hmain, hworker]
      exact h.created
    · intro k _
      rw [hworker]
      exact id
    · intro k _
      rw [hworker]
  have hhandlers : (step s .interrupt).handlers[s.handlers.length]? = some 0 := by
    rw [hstep]
    simp
  have hrest := reaches_handler hnext hhandlers (Nat.zero_le _) (by simp)
  rw [hmain] at hrest
  exact reaches_step .interrupt hrest

/-! ## The workers return -/

/-- The workers below `m` have returned; the others can. -/
structure ReturnedBelow (m : Nat) (s : State) : Prop where
  hopeful : Hopeful s
  cancelled : Cancelled s
  created : ∀ n, ¬ creates s.main n
  returned : ∀ n < m, (s.worker n).pc = .returned

theorem reaches_returned {s : State} (h : ReturnedBelow 0 s) {m : Nat} (hm : m ≤ threadCount) :
    Reaches step (ReturnedBelow m) s := by
  induction m with
  | zero =>
      exact reaches_now h
  | succ m ih =>
      refine (ih (by omega)).bind fun s' h' => ?_
      have hlt : m < threadCount := hm
      have hidle : (s'.worker m).pc ≠ .idle :=
        fun hpc => h'.created m (h'.hopeful.created m hlt hpc)
      have hgoing := (running_iff.1 h'.hopeful.running).2
      rcases Worker.comesToEnd (h'.hopeful.inv.worker m) (hgoing m hlt) (h'.cancelled.cancel m hlt)
        hidle (h'.hopeful.threaded m hlt) (h'.hopeful.settles m hlt) with ⟨es, hgoes, hpc⟩
      have hrun := run_own h'.hopeful.running hgoes
      have hinv := inv_run h'.hopeful.inv (es.map (.worker m))
      have hcancel : (run Worker.step (s'.worker m) (es.map .own)).cancel ≠ 0 := by
        refine run_history Worker.step (P := fun _ w => w.cancel ≠ 0) (h'.cancelled.cancel m hlt)
          ?_ _
        intro _ e hold
        exact Worker.cancel_step hold e
      refine ⟨es.map (.worker m), ?_⟩
      rw [hrun] at hinv ⊢
      generalize run Worker.step (s'.worker m) (es.map .own) = w at hinv hgoes hpc hcancel
      have hwinv : w.Inv := by simpa using hinv.worker m
      have hended := Worker.ended_of_returned hwinv hpc
      have hsettles : Shutdown.Settles w.server :=
        ⟨0, (Worker.running_iff.1 hgoes).1, Or.inr hended.binlog⟩
      -- Worker `m` is `w` now, and the others are as they were.
      have hall : ∀ {p : Nat → Worker → Prop}, p m w → (∀ k ≠ m, p k (s'.worker k)) →
          ∀ k, p k (Function.update s'.worker m w k) :=
        fun hself hother => (Function.forall_update_iff _ _).2 ⟨hself, hother⟩
      refine ⟨⟨hinv, running_iff.2 ⟨(running_iff.1 h'.hopeful.running).1, ?_⟩, ?_, ?_, ?_,
        h'.hopeful.rejoins⟩, ⟨h'.cancelled.quit, ?_⟩, h'.created, ?_⟩
      · exact hall (p := fun k w => k < threadCount → w.running = true) (fun _ => hgoes)
          fun k _ => hgoing k
      · exact hall (p := fun k w => k < threadCount → w.pc = .idle → creates s'.main k)
          (fun _ hnew => by rw [hpc] at hnew; cases hnew) fun k _ => h'.hopeful.created k
      · exact hall (p := fun k w => k < threadCount → w.Threaded)
          (fun _ _ => hended.thread) fun k _ => h'.hopeful.threaded k
      · exact hall (p := fun k w => k < threadCount → Shutdown.Settles w.server)
          (fun _ => hsettles) fun k _ => h'.hopeful.settles k
      · exact hall (p := fun k w => k < threadCount → w.cancel ≠ 0) (fun _ => hcancel)
          fun k _ => h'.cancelled.cancel k
      · exact hall (p := fun k w => k < m + 1 → w.pc = .returned) (fun _ => hpc)
          fun k hne hk => h'.returned k (by omega)

/-! ## `main` returns -/

/-- The steps in front of the main thread. -/
def left : MainPc → Nat
  | .run => 1 + threadCount + threadCount * threadCount
  | .cancel n => threadCount - n + threadCount * threadCount
  | .join n k => threadCount * threadCount - (threadCount * n + k)
  | _ => 0

theorem not_creates_nextJoin (n k i : Nat) : ¬ creates (nextJoin n k) i := by
  unfold nextJoin
  split
  · exact id
  · split <;> exact id

theorem left_nextJoin {n k : Nat} (hn : n < threadCount) (hk : k < threadCount)
    (h : nextJoin n k ≠ .returned) :
    left (nextJoin n k) < left (.join n k) ∧ (nextJoin n k).live = true := by
  unfold nextJoin at h ⊢
  unfold threadCount at *
  split
  · refine ⟨?_, rfl⟩
    simp only [left, threadCount]
    omega
  · rename_i hlast
    rw [if_neg hlast] at h
    split
    · refine ⟨?_, rfl⟩
      simp only [left, threadCount]
      omega
    · rename_i hdone
      rw [if_neg hdone] at h
      exact absurd rfl h

theorem reaches_mainReturned {s : State} (h : Inv s) (hrunning : s.running = true)
    (hquit : s.quit ≠ 0) (hcreated : ∀ n, ¬ creates s.main n)
    (hreturned : ∀ n < threadCount, (s.worker n).pc = .returned)
    (hrejoins : ∀ n < threadCount, ∀ k < threadCount, n ≠ 0 → s.rejoins n k = true) :
    Reaches step (fun s' => s'.main = .returned) s := by
  generalize hj : left s.main = j
  induction j using Nat.strongRecOn generalizing s with
  | ind j ih =>
      have hstep : step s (.main true) = mainStep s true := by simp [step, hrunning]
      have hinv := inv_step h (.main true)
      have hlive := (running_iff.1 hrunning).1
      have hgoing := (running_iff.1 hrunning).2
      have hinRange := h.inRange
      have hlater : ∀ n < threadCount, ((step s (.main true)).worker n).pc = .returned := by
        intro n hn
        rcases worker_step s (.main true) n with ⟨es, hes⟩
        rw [hes]
        exact returned_of_run (hreturned n hn) es
      -- What is left is shown for the state behind the step.
      have hmore : (step s (.main true)).main.live = true →
          (∀ n < threadCount, ((step s (.main true)).worker n).running = true) →
          (step s (.main true)).quit ≠ 0 → (∀ n, ¬ creates (step s (.main true)).main n) →
          left (step s (.main true)).main < j →
          Reaches step (fun s' => s'.main = .returned) s := by
        intro hlive' hgoing' hquit' hcreated' hless
        exact reaches_step (.main true)
          (ih _ hless hinv (running_iff.2 ⟨hlive', hgoing'⟩) hquit' hcreated' hlater
            (by rw [rejoins_step]; exact hrejoins) rfl)
      cases hmain : s.main with
      | create n =>
          rw [hmain] at hcreated
          exact absurd (Nat.le_refl n) (hcreated n)
      | returned =>
          exact reaches_now hmain
      | lost n k =>
          rw [hmain] at hlive
          cases hlive
      | run =>
          have hgo : mainStep s true = { s with main := .cancel 0 } := by
            simp [mainStep, hmain, hquit]
          rw [hstep, hgo] at hmore
          refine hmore rfl hgoing hquit (fun _ => id) ?_
          rw [← hj, hmain]
          exact (by decide : left (.cancel 0) < left .run)
      | cancel n =>
          have hgo : mainStep s true = { s.onWorker n .cancel with
              main := if n + 1 < threadCount then .cancel (n + 1) else .join 0 0 } := by
            simp [mainStep, hmain]
          rw [hmain] at hinRange hj
          have hlt : n < threadCount := hinRange
          rw [hstep, hgo] at hmore
          refine hmore ?_ ?_ hquit ?_ ?_
          · split <;> rfl
          · intro k hk
            exact (cancel_onWorker s n k).1.trans (hgoing k hk)
          · split <;> exact fun _ => id
          · rw [← hj]
            split <;> simp only [left] <;> omega
      | join n k =>
          have hjoins := h.joins
          rw [hmain] at hinRange hj hjoins
          have hcomes : ¬ (k ∈ s.joins ∧ s.rejoins n k = false) := by
            rintro ⟨hmem, hnot⟩
            have hne : n ≠ 0 := by
              rintro rfl
              rw [hjoins] at hmem
              simp [joinsAt, rounds] at hmem
            rw [hrejoins n hinRange.1 k hinRange.2 hne] at hnot
            cases hnot
          have hgo : mainStep s true =
              { s with main := nextJoin n k, joins := s.joins ++ [k] } := by
            simp only [mainStep, hmain, hreturned k hinRange.2, if_neg hcomes]
          rw [hstep, hgo] at hmore
          have hn : n < threadCount := hinRange.1
          have hk : k < threadCount := hinRange.2
          by_cases hend : nextJoin n k = .returned
          · refine reaches_step (.main true) (reaches_now ?_)
            rw [hstep, hgo]
            exact hend
          · have hless := left_nextJoin hn hk hend
            exact hmore hless.2 hgoing hquit (not_creates_nextJoin n k) (hj ▸ hless.1)

theorem reaches_exit {s : State} (h : Hopeful s) :
    Reaches step (fun s' => s'.main = .returned) s := by
  refine (reaches_created h).bind fun s₁ h₁ => ?_
  refine (reaches_cancelled h₁.1).bind fun s₂ h₂ => ?_
  have hcreated : ∀ n, ¬ creates s₂.main n := by
    rw [h₂.2]
    exact h₁.2
  have hnone : ReturnedBelow 0 s₂ := ⟨h₂.1.1, h₂.1.2, hcreated, nofun⟩
  refine (reaches_returned hnone (Nat.le_refl threadCount)).bind fun s₃ h₃ => ?_
  exact reaches_mainReturned h₃.hopeful.inv h₃.hopeful.running h₃.cancelled.quit h₃.created
    h₃.returned h₃.hopeful.rejoins

/-! ## Which processes end -/

theorem idle_onWorker {s : State} {n k : Nat} {e : Worker.Event}
    (hidle : (s.worker n).pc = .idle) (he : e = .create → k ≠ n) :
    ((s.onWorker k e).worker n).pc = .idle := by
  by_cases hk : n = k
  · subst hk
    have hself : (s.onWorker n e).worker n = (s.worker n).step e := by simp [State.onWorker]
    rw [hself]
    cases e with
    | create =>
        exact absurd rfl (he rfl)
    | cancel =>
        exact hidle
    | own e =>
        cases e with
        | thread ok =>
            simp [Worker.step, Worker.threadStep, hidle]
        | binlog =>
            simp only [Worker.step, Worker.binlogStep]
            split <;> exact hidle
  · simpa [State.onWorker, hk] using hidle

/-- The main thread creates no thread that it is past. -/
theorem idle_mainStep {s : State} {n : Nat} (hidle : (s.worker n).pc = .idle)
    (hnever : ¬ creates s.main n) (ok : Bool) :
    ((mainStep s ok).worker n).pc = .idle ∧ ¬ creates (mainStep s ok).main n := by
  cases hmain : s.main with
  | create k =>
      rw [hmain] at hnever
      have hlt : n < k := Nat.not_le.1 hnever
      have hnext : ¬ creates (if k + 1 < threadCount then MainPc.create (k + 1) else .run) n := by
        split
        · exact Nat.not_le.2 (Nat.lt_succ_of_lt hlt)
        · exact id
      cases ok with
      | true =>
          simp only [mainStep, hmain, if_true]
          exact ⟨idle_onWorker hidle fun _ => Nat.ne_of_gt hlt, hnext⟩
      | false =>
          simp only [mainStep, hmain, Bool.false_eq_true, if_false]
          exact ⟨hidle, hnext⟩
  | cancel k =>
      simp only [mainStep, hmain]
      refine ⟨idle_onWorker hidle (by simp), ?_⟩
      split <;> exact id
  | run =>
      simp only [mainStep, hmain]
      split
      · exact ⟨hidle, hnever⟩
      · exact ⟨hidle, id⟩
  | join i k =>
      simp only [mainStep, hmain]
      split
      · split
        · exact ⟨hidle, id⟩
        · exact ⟨hidle, not_creates_nextJoin i k n⟩
      · exact ⟨hidle, id⟩
      · exact ⟨hidle, hnever⟩
  | returned =>
      simp only [mainStep, hmain]
      exact ⟨hidle, id⟩
  | lost i k =>
      simp only [mainStep, hmain]
      exact ⟨hidle, id⟩

/-- A thread that was not created is never created. -/
theorem idle_step {s : State} {n : Nat} (h : (s.worker n).pc = .idle ∧ ¬ creates s.main n)
    (e : Event) :
    ((step s e).worker n).pc = .idle ∧ ¬ creates (step s e).main n := by
  rcases h with ⟨hidle, hnever⟩
  unfold step
  split
  · cases e with
    | interrupt =>
        exact ⟨hidle, hnever⟩
    | worker k e =>
        exact ⟨idle_onWorker hidle (by simp), hnever⟩
    | handler i =>
        cases hi : s.handlers[i]? with
        | none =>
            simpa [handlerStep, hi] using ⟨hidle, hnever⟩
        | some k =>
            simp only [handlerStep, hi]
            split
            · exact ⟨idle_onWorker hidle (by simp), hnever⟩
            · split <;> exact ⟨hidle, hnever⟩
    | main ok =>
        exact idle_mainStep hidle hnever ok
  · exact ⟨hidle, hnever⟩

/-- A binlog thread that was not created is never created. -/
theorem unthreaded_step {w : Worker} (h : w.pc.created = true ∧ w.binlog = false)
    (e : Worker.Event) : (w.step e).pc.created = true ∧ (w.step e).binlog = false := by
  rcases h with ⟨hpc, hnone⟩
  cases e with
  | create =>
      simp only [Worker.step]
      split
      · rename_i hidle
        rw [hidle] at hpc
        cases hpc
      · exact ⟨hpc, hnone⟩
  | cancel =>
      exact ⟨hpc, hnone⟩
  | own e =>
      cases e with
      | binlog =>
          simpa [Worker.step, Worker.binlogStep, hnone] using hpc
      | thread ok =>
          cases hat : w.pc with
          | release =>
              simp only [Worker.step, Worker.threadStep, hat]
              split
              · exact ⟨rfl, hnone⟩
              · split <;> exact ⟨rfl, hnone⟩
          | test =>
              simp only [Worker.step, Worker.threadStep, hat]
              split <;> exact ⟨rfl, hnone⟩
          | _ =>
              rw [hat] at hpc
              cases ok <;> simp_all [Worker.step, Worker.threadStep, ThreadPc.created]

/-- What a worker does to its server is a run of the server. -/
theorem server_run (w : Worker) (es : List Worker.Event) :
    ∃ ts, (run Worker.step w es).server = run Shutdown.step w.server ts := by
  refine run_history Worker.step
    (P := fun _ w' => ∃ ts, w'.server = run Shutdown.step w.server ts) ⟨[], rfl⟩ ?_ es
  rintro es e ⟨ts, hts⟩
  generalize run Worker.step w es = w' at hts
  have hmore : ∀ t, ∃ fs, Shutdown.step w'.server t = run Shutdown.step w.server fs :=
    fun t => ⟨ts ++ [t], by rw [run_append, ← hts]; rfl⟩
  cases e with
  | create =>
      simp only [Worker.step]
      split <;> exact ⟨ts, hts⟩
  | cancel =>
      exact ⟨ts, hts⟩
  | own e =>
      cases e with
      | binlog =>
          simp only [Worker.step, Worker.binlogStep]
          split
          · exact hmore .binlog
          · exact ⟨ts, hts⟩
      | thread ok =>
          cases hpc : w'.pc with
          | release =>
              simp only [Worker.step, Worker.threadStep, hpc]
              split
              · exact ⟨ts, hts⟩
              · exact hmore .worker
          | test =>
              simp only [Worker.step, Worker.threadStep, hpc]
              split <;> exact ⟨ts, hts⟩
          | _ =>
              cases ok <;> simpa [Worker.step, Worker.threadStep, hpc] using ⟨ts, hts⟩

/-- In a run that ends, every worker has a binlog thread that came to a test. -/
theorem settles_of_returned {s : State} (h : Inv s) {es : List Event}
    (hend : (run step s es).main = .returned) {n : Nat} (hn : n < threadCount) :
    ((run step s es).worker n).pc = .returned ∧ (s.worker n).Threaded ∧
      Shutdown.Settles (s.worker n).server := by
  have hinv := inv_run h es
  have hreturned : ((run step s es).worker n).pc = .returned := by
    refine hinv.joined n ?_
    rw [hinv.joins, hend]
    exact mem_rounds (by decide) hn
  have hended := Worker.ended_of_returned (hinv.worker n) hreturned
  rcases worker_run s es n with ⟨fs, hfs⟩
  refine ⟨hreturned, ?_, ?_⟩
  · intro hcreated
    by_contra hnone
    have hstill := run_history Worker.step
      (P := fun _ w => w.pc.created = true ∧ w.binlog = false) ⟨hcreated, by simpa using hnone⟩
      (fun _ e h => unthreaded_step h e) fs
    rw [← hfs, hended.thread] at hstill
    cases hstill.2
  · rcases server_run (s.worker n) fs with ⟨ts, hts⟩
    refine (Shutdown.finishes_iff_settles (h.worker n).joined).1 ⟨ts, ?_⟩
    rw [← hts, ← hfs]
    exact hended.release

/-- From any state of any run: the process can still come to its end exactly when it has done so
or is there, has created the threads it is past, every worker has the binlog thread it is past,
every binlog thread would come to a test of `cancel_` by itself, and the system lets the threads
be joined again and again.  One that waits behind the last event keeps the process for ever. -/
theorem canReturn_iff (site : Site) (es : List Event) :
    (Reaches step (fun s => s.main = .returned) (run step (init site) es) ↔
      (run step (init site) es).main = .returned ∨
        ((run step (init site) es).running = true ∧
          (∀ n < threadCount, ((run step (init site) es).worker n).pc = .idle →
            creates (run step (init site) es).main n) ∧
          (∀ n < threadCount, ((run step (init site) es).worker n).Threaded) ∧
          (∀ n < threadCount,
            Shutdown.Settles ((run step (init site) es).worker n).server) ∧
          ∀ n < threadCount, ∀ k < threadCount, n ≠ 0 → site.rejoins n k = true)) ∧
      ∀ n < threadCount, ((run step (init site) es).worker n).server.binlog = .wait →
        ((run step (init site) es).worker n).server.stream = [] →
        ¬ Reaches step (fun s => s.main = .returned) (run step (init site) es) := by
  have hinv := inv_run (inv_init site) es
  have hrejoins : (run step (init site) es).rejoins = site.rejoins := rejoins_run (init site) es
  generalize run step (init site) es = s at hinv hrejoins
  rw [← hrejoins]
  refine ⟨⟨?_, ?_⟩, ?_⟩
  · rintro ⟨fs, hfs⟩
    by_cases hmain : s.main = .returned
    · exact Or.inl hmain
    · refine Or.inr ⟨?_, ?_, fun n hn => (settles_of_returned hinv hfs hn).2.1,
        fun n hn => (settles_of_returned hinv hfs hn).2.2, ?_⟩
      · by_contra hnot
        rw [run_of_ended (Bool.not_eq_true _ ▸ hnot)] at hfs
        exact hmain hfs
      · intro n hn hidle
        by_contra hnever
        have hstill := run_history step
          (P := fun _ s => (s.worker n).pc = .idle ∧ ¬ creates s.main n) ⟨hidle, hnever⟩
          (fun _ e h => idle_step h e) fs
        have hreturned := (settles_of_returned hinv hfs hn).1
        rw [hstill.1] at hreturned
        cases hreturned
      · -- At the end all joins are behind the main thread.
        intro n hn k hk hne
        rw [← rejoins_run s fs]
        exact (inv_run hinv fs).rejoined n k hk hne (by rw [hfs]; exact hn)
  · rintro (hmain | ⟨hrunning, hcreated, hthreaded, hsettles, hcomes⟩)
    · exact reaches_now hmain
    · exact reaches_exit ⟨hinv, hrunning, hcreated, hthreaded, hsettles, hcomes⟩
  · rintro n hn hwait hstream ⟨fs, hfs⟩
    exact Shutdown.not_settles_of_wait hwait hstream (settles_of_returned hinv hfs hn).2.2

end Lifecycle
end Proc
end NmMemcached
