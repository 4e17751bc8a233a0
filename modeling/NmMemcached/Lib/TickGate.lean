import NmMemcached.Lib.Runs

/-!
# TickGate — at most one admission per tick

A gate with two counters: `now` counts ticks, `last` is the value of `now` at the last admission.
An attempt is admitted exactly when `now` has moved past `last`.  We prove, for runs of any
length from the fresh gate:

* `last ≤ now` always (`last_le_now`);
* an attempt is admitted iff a tick happened since the last admission
  (`admits_iff_tickedSince`);
* between two ticks at most one attempt is admitted (`admitted_le_one`).
-/

namespace NmMemcached
namespace Lib

structure TickGate where
  now : Nat
  last : Nat

namespace TickGate

/-- What a gate can be asked: a tick, an attempt to pass, or nothing. -/
inductive Event
  | tick
  | attempt
  | idle
  deriving DecidableEq, Repr

def fresh : TickGate := { now := 0, last := 0 }

def Admits (g : TickGate) : Prop := g.last < g.now

instance (g : TickGate) : Decidable g.Admits := by
  unfold Admits
  infer_instance

def step (g : TickGate) : Event → TickGate
  | .tick => { g with now := g.now + 1 }
  | .attempt => if g.Admits then { g with last := g.now } else g
  | .idle => g

/-- How many attempts of the run are admitted. -/
def admitted (g : TickGate) : List Event → Nat
  | [] => 0
  | e :: es => (if e = .attempt ∧ g.Admits then 1 else 0) + admitted (g.step e) es

theorem admitted_append (g : TickGate) (es fs : List Event) :
    g.admitted (es ++ fs) = g.admitted es + (run step g es).admitted fs := by
  induction es generalizing g with
  | nil =>
      simp [admitted]
  | cons e es ih =>
      simp [admitted, ih, Nat.add_assoc]

/-! ## The counters -/

theorem step_last_le_now {g : TickGate} (h : g.last ≤ g.now) (e : Event) :
    (g.step e).last ≤ (g.step e).now := by
  cases e with
  | tick =>
      exact Nat.le_succ_of_le h
  | attempt =>
      by_cases ha : g.Admits
      · simp [step, ha]
      · simpa [step, ha] using h
  | idle =>
      exact h

theorem last_le_now (es : List Event) : (run step fresh es).last ≤ (run step fresh es).now :=
  run_history (P := fun _ g => g.last ≤ g.now) step (Nat.le_refl 0)
    (fun _ e h => step_last_le_now h e) es

/-- `now` counts the ticks. -/
theorem now_step (g : TickGate) (e : Event) :
    (g.step e).now = g.now + if e = .tick then 1 else 0 := by
  cases e with
  | tick =>
      rfl
  | attempt =>
      by_cases ha : g.Admits <;> simp [step, ha]
  | idle =>
      rfl

theorem now_run (g : TickGate) (es : List Event) :
    (run step g es).now = g.now + es.countP (fun e => e = .tick) := by
  induction es generalizing g with
  | nil =>
      rfl
  | cons e es ih =>
      rw [run_cons, ih, now_step, List.countP_cons]
      by_cases he : e = .tick <;> simp [he, Nat.add_assoc, Nat.add_comm]

theorem admits_step_tick {g : TickGate} (h : g.last ≤ g.now) : (g.step .tick).Admits :=
  Nat.lt_succ_of_le h

/-! ## Between two ticks -/

theorem admitted_eq_zero_of_not_admits {g : TickGate} {es : List Event} (hg : ¬ g.Admits)
    (hes : Event.tick ∉ es) : g.admitted es = 0 := by
  induction es generalizing g with
  | nil =>
      rfl
  | cons e es ih =>
      have hstep : g.step e = g := by
        cases e with
        | tick =>
            simp at hes
        | attempt =>
            simp [step, hg]
        | idle =>
            rfl
      have htail : Event.tick ∉ es := fun h => hes (List.mem_cons_of_mem _ h)
      simp [admitted, hg, hstep, ih hg htail]

/-- Right after an attempt the gate is closed: either it was, or the admission closed it. -/
theorem not_admits_step_attempt (g : TickGate) : ¬ (g.step .attempt).Admits := by
  by_cases h : g.Admits
  · have hstep : g.step .attempt = { g with last := g.now } := if_pos h
    simp [hstep, Admits]
  · have hstep : g.step .attempt = g := if_neg h
    rwa [hstep]

theorem admitted_le_one {g : TickGate} {es : List Event} (hes : Event.tick ∉ es) :
    g.admitted es ≤ 1 := by
  induction es generalizing g with
  | nil =>
      simp [admitted]
  | cons e es ih =>
      have htail : Event.tick ∉ es := fun h => hes (List.mem_cons_of_mem _ h)
      -- The first admitted attempt closes the gate for the rest of the run.
      by_cases he : e = .attempt ∧ g.Admits
      · rcases he with ⟨rfl, ha⟩
        have hrest : (g.step .attempt).admitted es = 0 :=
          admitted_eq_zero_of_not_admits (not_admits_step_attempt g) htail
        simp [admitted, ha, hrest]
      · simpa [admitted, he] using ih (g := g.step e) htail

/-! ## When an attempt is admitted -/

/-- The history has a tick after which nothing was admitted. -/
def TickedSince (es : List Event) : Prop :=
  ∃ as bs, es = as ++ .tick :: bs ∧ (run step fresh (as ++ [.tick])).admitted bs = 0

theorem tickedSince_append_tick (es : List Event) : TickedSince (es ++ [.tick]) :=
  ⟨es, [], rfl, rfl⟩

/-- A later event keeps the witness tick unless it is an admitted attempt. -/
theorem tickedSince_append_of_ne_tick {es : List Event} {e : Event} (he : e ≠ .tick) :
    TickedSince (es ++ [e]) ↔
      TickedSince es ∧ ¬ (e = .attempt ∧ (run step fresh es).Admits) := by
  have hone : ∀ g : TickGate, g.admitted [e] = 0 ↔ ¬ (e = .attempt ∧ g.Admits) := by
    intro g
    simp [admitted]
  constructor
  · rintro ⟨as, bs, hes, hzero⟩
    -- The new event is no tick, so it is the last of those behind the witness tick.
    rcases List.eq_nil_or_concat bs with rfl | ⟨cs, c, rfl⟩
    · exact absurd (List.singleton_inj.1 (List.append_inj' hes rfl).2) he
    · have hcat : es ++ [e] = (as ++ .tick :: cs) ++ [c] := by
        simpa using hes
      rcases List.append_inj' hcat rfl with ⟨rfl, hec⟩
      rcases List.singleton_inj.1 hec with rfl
      rw [List.concat_eq_append, admitted_append, Nat.add_eq_zero_iff, ← run_append, hone] at hzero
      exact ⟨⟨as, cs, rfl, hzero.1⟩, by simpa using hzero.2⟩
  · rintro ⟨⟨as, bs, rfl, hzero⟩, hno⟩
    refine ⟨as, bs ++ [e], by simp, ?_⟩
    rw [admitted_append, hzero, Nat.zero_add, ← run_append, hone]
    simpa using hno

/-- An attempt after the run `es` is admitted iff `es` has a tick after which nothing was
admitted. -/
theorem admits_iff_tickedSince (es : List Event) :
    (run step fresh es).Admits ↔ TickedSince es := by
  induction es using List.reverseRecOn with
  | nil =>
      simp [Admits, fresh, TickedSince]
  | append_singleton es e ih =>
      rw [run_append, run_cons, run_nil]
      cases e with
      | tick =>
          exact iff_of_true (admits_step_tick (last_le_now es)) (tickedSince_append_tick es)
      | attempt =>
          -- Admitted or not, the attempt leaves the gate closed.
          rw [tickedSince_append_of_ne_tick (by simp), ← ih]
          refine iff_of_false (not_admits_step_attempt _) ?_
          rintro ⟨ha, hno⟩
          exact hno ⟨rfl, ha⟩
      | idle =>
          rw [tickedSince_append_of_ne_tick (by simp), ← ih]
          simp [step]

end TickGate

end Lib
end NmMemcached
