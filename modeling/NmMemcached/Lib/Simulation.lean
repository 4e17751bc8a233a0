import Mathlib.Data.List.TakeDrop
import Mathlib.Logic.Function.Basic
import NmMemcached.Lib.Runs

/-!
# Simulation — what a run shows, and what explains it

A system takes steps on events and shows a label at each.  `labels` is the list of labels of a run.

* A labelled relation explains a run when it has a run of its own with the same labels
  (`trace_of_simulation`).
* Two systems that show the same at related states show the same along every run
  (`labels_eq_of_bisimulation`).
* Events that no label of the others depends on can be left out of a run (`labelsAt_eq_filter`).

The state of one such relation is a log that replicas follow (`Replicas`): commands are committed in
one order, and each replica has seen a prefix of them.  It sees one more command at a time, and
begins again from nothing when it is restarted.
-/

namespace NmMemcached
namespace Lib

universe u v w x

variable {σ : Type u} {ε : Type v} {lbl : Type w} {α : Type x}

/-- The labels of a run, oldest first. -/
def labels (step : σ → ε → σ) (obs : σ → ε → lbl) : σ → List ε → List lbl
  | _, [] => []
  | s, e :: es => obs s e :: labels step obs (step s e) es

/-! ## Labelled relations -/

/-- A run of a labelled relation. -/
inductive Trace (Step : α → lbl → α → Prop) : α → List lbl → α → Prop
  | nil (a : α) : Trace Step a [] a
  | cons {a a' b : α} {l : lbl} {ls : List lbl} :
      Step a l a' → Trace Step a' ls b → Trace Step a (l :: ls) b

/-- A simulation turns every run into a run of the relation that shows the same. -/
theorem trace_of_simulation {step : σ → ε → σ} {obs : σ → ε → lbl} {Step : α → lbl → α → Prop}
    {R : σ → α → Prop} {Fits : ε → Prop}
    (hstep : ∀ s a e, R s a → Fits e → ∃ a', Step a (obs s e) a' ∧ R (step s e) a')
    {s : σ} {a : α} (h : R s a) {es : List ε} (hes : ∀ e ∈ es, Fits e) :
    ∃ b, Trace Step a (labels step obs s es) b ∧ R (run step s es) b := by
  induction es generalizing s a with
  | nil =>
      exact ⟨a, .nil a, h⟩
  | cons e es ih =>
      rcases List.forall_mem_cons.1 hes with ⟨he, hrest⟩
      rcases hstep s a e h he with ⟨a', hone, hR⟩
      rcases ih hR hrest with ⟨b, htrace, hend⟩
      exact ⟨b, .cons hone htrace, hend⟩

/-! ## Two systems -/

/-- Related states that show the same and stay related, at every step the run takes, show the same
along it. -/
theorem labels_eq_of_bisimulation {step : σ → ε → σ} {obs : σ → ε → lbl} {step' : α → ε → α}
    {obs' : α → ε → lbl} {R : σ → α → Prop} {G : σ → ε → Prop}
    (hstep : ∀ s a e, R s a → G s e → obs s e = obs' a e ∧ R (step s e) (step' a e))
    {s : σ} {a : α} (h : R s a) {es : List ε} (hes : Along step G s es) :
    labels step obs s es = labels step' obs' a es ∧ R (run step s es) (run step' a es) := by
  induction es generalizing s a with
  | nil =>
      exact ⟨rfl, h⟩
  | cons e es ih =>
      rcases hstep s a e h hes.1 with ⟨hobs, hnext⟩
      rcases ih hnext hes.2 with ⟨hrest, hend⟩
      refine ⟨?_, hend⟩
      rw [labels, labels, hobs, hrest]

/-! ## Leaving events out -/

/-- The labels at the events that `p` selects. -/
def labelsAt (step : σ → ε → σ) (obs : σ → ε → lbl) (p : ε → Bool) (s : σ) (es : List ε) :
    List lbl :=
  ((es.zip (labels step obs s es)).filter fun x => p x.1).map Prod.snd

theorem labelsAt_cons (step : σ → ε → σ) (obs : σ → ε → lbl) (p : ε → Bool) (s : σ) (e : ε)
    (es : List ε) :
    labelsAt step obs p s (e :: es) =
      if p e then obs s e :: labelsAt step obs p (step s e) es
      else labelsAt step obs p (step s e) es := by
  simp only [labelsAt, labels, List.zip_cons_cons, List.filter_cons]
  split <;> rfl

/-- `R` says that two states look alike to the selected events.  When an event that is not selected
leaves its state alike, the run may do without all of them. -/
theorem labelsAt_eq_filter {step : σ → ε → σ} {obs : σ → ε → lbl} {p : ε → Bool}
    {R : σ → σ → Prop} {Fits : ε → Prop}
    (hseen : ∀ s t e, R s t → Fits e → p e = true → obs s e = obs t e ∧ R (step s e) (step t e))
    (hunseen : ∀ s t e, R s t → Fits e → p e = false → R (step s e) t) {s t : σ} (h : R s t)
    {es : List ε} (hes : ∀ e ∈ es, Fits e) :
    labelsAt step obs p s es = labels step obs t (es.filter p) := by
  induction es generalizing s t with
  | nil =>
      rfl
  | cons e es ih =>
      rcases List.forall_mem_cons.1 hes with ⟨he, hrest⟩
      rw [labelsAt_cons, List.filter_cons]
      cases hp : p e with
      | true =>
          rcases hseen s t e h he hp with ⟨hobs, hnext⟩
          rw [if_pos rfl, if_pos rfl, labels, hobs, ih hnext hrest]
      | false =>
          rw [if_neg Bool.false_ne_true, if_neg Bool.false_ne_true]
          exact ih (hunseen s t e h he hp) hrest

/-! ## A log that replicas follow -/

/-- `view i` is how many commands replica `i` has seen. -/
structure Replicas (ι : Type u) (γ : Type v) where
  log : List γ
  view : ι → Nat

namespace Replicas

variable {ι : Type u} {γ : Type v}

def start : Replicas ι γ :=
  { log := []
    view := fun _ => 0 }

/-- What a replica has seen. -/
def seen (s : Replicas ι γ) (i : ι) : List γ := s.log.take (s.view i)

def commit (s : Replicas ι γ) (c : γ) : Replicas ι γ :=
  { s with log := s.log ++ [c] }

variable [DecidableEq ι]

def advance (s : Replicas ι γ) (i : ι) : Replicas ι γ :=
  { s with view := Function.update s.view i (s.view i + 1) }

def restart (s : Replicas ι γ) (i : ι) : Replicas ι γ :=
  { s with view := Function.update s.view i 0 }

omit [DecidableEq ι] in
theorem seen_of_caughtUp {s : Replicas ι γ} {i : ι} (h : s.view i = s.log.length) :
    s.seen i = s.log := by
  rw [seen, h, List.take_length]

end Replicas

end Lib
end NmMemcached
