import Mathlib.Data.List.Induction

/-!
# Runs — folding a step function over a list of events

Two kinds of run are used by the development: `run` folds a total step function, `runM` folds a
step function that may stop with an error.  For each we keep

* the equations for `[]`, `::` and `++`,
* a *history rule*: a property of (events so far, state) that the empty history has and one step
  extends holds of every run,
* for total runs, the rules for runs **along** which every step meets a side condition
  (`run_history_along`, and `forall_prefix_iff_along` when the condition is exact).

`loop` repeats a step until there is none to take; a measure that every step makes smaller gives a
turn after which it stops (`loop_history`).

`lastOn p es` is the last event of a history that satisfies `p`; it is how a history determines
the value of a store.
-/

namespace NmMemcached
namespace Lib

universe u v w

/-! ## Total runs -/

section Total

variable {σ : Type u} {ε : Type v} (step : σ → ε → σ)

/-- The state reached from `s` by the events `es`, oldest first. -/
def run (s : σ) (es : List ε) : σ :=
  es.foldl step s

@[simp] theorem run_nil (s : σ) : run step s [] = s := rfl

@[simp] theorem run_cons (s : σ) (e : ε) (es : List ε) :
    run step s (e :: es) = run step (step s e) es := rfl

@[simp] theorem run_append (s : σ) (es fs : List ε) :
    run step s (es ++ fs) = run step (run step s es) fs := by
  simp [run, List.foldl_append]

/-- History rule: what the empty history has and one step extends holds of every run. -/
theorem run_history {P : List ε → σ → Prop} {s₀ : σ} (h₀ : P [] s₀)
    (hstep : ∀ es e, P es (run step s₀ es) → P (es ++ [e]) (step (run step s₀ es) e))
    (es : List ε) : P es (run step s₀ es) := by
  induction es using List.reverseRecOn with
  | nil =>
      exact h₀
  | append_singleton es e ih =>
      simpa using hstep es e ih

/-- Every event of the run meets `G` in the state it is taken from. -/
def Along (G : σ → ε → Prop) : σ → List ε → Prop
  | _, [] => True
  | s, e :: es => G s e ∧ Along G (step s e) es

variable {step} {G : σ → ε → Prop}

theorem along_append {s : σ} {es fs : List ε} :
    Along step G s (es ++ fs) ↔ Along step G s es ∧ Along step G (run step s es) fs := by
  induction es generalizing s with
  | nil =>
      simp [Along]
  | cons e es ih =>
      simp [Along, ih, and_assoc]

/-- History rule for runs along `G`. -/
theorem run_history_along {P : List ε → σ → Prop} {s₀ : σ} (h₀ : P [] s₀)
    (hstep : ∀ es e, P es (run step s₀ es) → G (run step s₀ es) e →
      P (es ++ [e]) (step (run step s₀ es) e))
    {es : List ε} (hG : Along step G s₀ es) : P es (run step s₀ es) := by
  induction es using List.reverseRecOn with
  | nil =>
      exact h₀
  | append_singleton es e ih =>
      -- The run without its last step is along `G` too.
      rcases along_append.1 hG with ⟨hold, hlast⟩
      simpa using hstep es e (ih hold) hlast.1

/-- What holds in every state of a run, when one step keeps it exactly under `G`.  `I` is an
invariant of the steps that `Fits` allows. -/
theorem forall_prefix_iff_along {I P : σ → Prop} {Fits : ε → Prop}
    (hI : ∀ s e, I s → Fits e → I (step s e))
    (hP : ∀ s e, I s → P s → Fits e → (P (step s e) ↔ G s e)) {s : σ} (hIs : I s) (hPs : P s)
    {es : List ε} (hes : ∀ e ∈ es, Fits e) :
    (∀ fs, fs <+: es → P (run step s fs)) ↔ Along step G s es := by
  induction es generalizing s with
  | nil =>
      refine iff_of_true ?_ trivial
      intro fs hfs
      rw [List.prefix_nil.1 hfs]
      exact hPs
  | cons e es ih =>
      rcases List.forall_mem_cons.1 hes with ⟨he, hrest⟩
      have hone := hP s e hIs hPs he
      constructor
      · intro hall
        -- The run of the first event alone is a prefix, and so is every run behind it.
        have hnext : P (step s e) := hall [e] (List.prefix_append [e] es)
        refine ⟨hone.1 hnext, (ih (hI s e hIs he) hnext hrest).1 ?_⟩
        intro fs hfs
        exact hall (e :: fs) ((List.prefix_cons_inj e).2 hfs)
      · rintro ⟨hG, halong⟩ fs hfs
        have hnext : P (step s e) := hone.2 hG
        rcases List.prefix_cons_iff.1 hfs with rfl | ⟨gs, rfl, hgs⟩
        · exact hPs
        · exact (ih (hI s e hIs he) hnext hrest).2 halong gs hgs

/-- Some run from `s` comes to a state with `P`. -/
def Reaches (step : σ → ε → σ) (P : σ → Prop) (s : σ) : Prop :=
  ∃ es, P (run step s es)

theorem reaches_now {P : σ → Prop} {s : σ} (h : P s) : Reaches step P s := ⟨[], h⟩

theorem reaches_step {P : σ → Prop} {s : σ} (e : ε) (h : Reaches step P (step s e)) :
    Reaches step P s := by
  rcases h with ⟨es, hes⟩
  exact ⟨e :: es, hes⟩

theorem Reaches.bind {P Q : σ → Prop} {s : σ} (h : Reaches step P s)
    (hPQ : ∀ s', P s' → Reaches step Q s') : Reaches step Q s := by
  rcases h with ⟨es, hes⟩
  rcases hPQ _ hes with ⟨fs, hfs⟩
  exact ⟨es ++ fs, by rwa [run_append]⟩

end Total

/-! ## Runs that may stop with an error -/

section Fallible

variable {σ : Type u} {χ : Type u} {ε : Type v} (step : σ → ε → Except χ σ)

/-- The state reached from `s` by the events `es`, or the first error. -/
def runM (s : σ) (es : List ε) : Except χ σ :=
  es.foldlM step s

@[simp] theorem runM_nil (s : σ) : runM step s [] = .ok s := rfl

theorem runM_cons (s : σ) (e : ε) (es : List ε) :
    runM step s (e :: es) = (step s e >>= fun s' => runM step s' es) := rfl

theorem runM_append (s : σ) (es fs : List ε) :
    runM step s (es ++ fs) = (runM step s es >>= fun s' => runM step s' fs) := by
  simp [runM, List.foldlM_append]

theorem bind_ok_iff {α β : Type u} {x : Except χ α} {f : α → Except χ β} {b : β} :
    (x >>= f) = .ok b ↔ ∃ a, x = .ok a ∧ f a = .ok b := by
  cases x with
  | error c =>
      simp [bind, Except.bind]
  | ok a =>
      simp [bind, Except.bind]

theorem runM_cons_ok {s s' : σ} {e : ε} {es : List ε} :
    runM step s (e :: es) = .ok s' ↔ ∃ m, step s e = .ok m ∧ runM step m es = .ok s' := by
  rw [runM_cons, bind_ok_iff]

theorem runM_append_ok {s s' : σ} {es fs : List ε} :
    runM step s (es ++ fs) = .ok s' ↔
      ∃ m, runM step s es = .ok m ∧ runM step m fs = .ok s' := by
  rw [runM_append, bind_ok_iff]

theorem runM_singleton (s : σ) (e : ε) : runM step s [e] = step s e := by
  rw [runM_cons]
  cases step s e <;> rfl

variable {step}

/-- When a step succeeds exactly on the events that fit, a run is the total run of events that
all fit. -/
theorem runM_ok_iff_run {next : σ → ε → σ} {Fits : ε → Prop}
    (hstep : ∀ s e s', step s e = .ok s' ↔ Fits e ∧ s' = next s e) {s s' : σ} {es : List ε} :
    runM step s es = .ok s' ↔ (∀ e ∈ es, Fits e) ∧ s' = run next s es := by
  induction es generalizing s with
  | nil =>
      simp [eq_comm]
  | cons e es ih =>
      rw [runM_cons_ok]
      constructor
      · rintro ⟨m, hm, hrest⟩
        rcases (hstep s e m).1 hm with ⟨hfits, rfl⟩
        rcases ih.1 hrest with ⟨hall, hs'⟩
        exact ⟨List.forall_mem_cons.2 ⟨hfits, hall⟩, hs'⟩
      · rintro ⟨hall, hs'⟩
        rcases List.forall_mem_cons.1 hall with ⟨hfits, hrest⟩
        exact ⟨next s e, (hstep s e _).2 ⟨hfits, rfl⟩, ih.2 ⟨hrest, hs'⟩⟩

/-- History rule for fallible runs. -/
theorem runM_history {P : List ε → σ → Prop} {s₀ : σ} (h₀ : P [] s₀)
    (hstep : ∀ es s e s', runM step s₀ es = .ok s → P es s → step s e = .ok s' →
      P (es ++ [e]) s')
    {es : List ε} {s : σ} (hrun : runM step s₀ es = .ok s) : P es s := by
  induction es using List.reverseRecOn generalizing s with
  | nil =>
      cases hrun
      exact h₀
  | append_singleton es e ih =>
      rcases (runM_append_ok step).1 hrun with ⟨m, hm, he⟩
      rw [runM_singleton] at he
      exact hstep es m e s hm (ih hm) he

end Fallible

/-! ## Loops -/

section Loops

variable {σ : Type u} (step : σ → Option σ)

/-- `while (step)`, for at most `n` turns; `none` says that they were not enough. -/
def loop : Nat → σ → Option σ
  | 0, _ => none
  | n + 1, s =>
      match step s with
      | none => some s
      | some s' => loop n s'

/-- The states in which the turns of the loop start. -/
def loopStates : Nat → σ → List σ
  | 0, _ => []
  | n + 1, s =>
      match step s with
      | none => []
      | some s' => s :: loopStates n s'

variable {step}

/-- A loop whose turns make a measure smaller stops, and what the empty history has and one turn
extends holds when it does. -/
theorem loop_history {P : List σ → σ → Prop} {μ : σ → Nat} {s₀ : σ} (h₀ : P [] s₀)
    (hstep : ∀ ss s s', P ss s → step s = some s' → P (ss ++ [s]) s' ∧ μ s' < μ s) :
    ∃ n s, loop step n s₀ = some s ∧ step s = none ∧ P (loopStates step n s₀) s := by
  have hall : ∀ (m : Nat) (ss : List σ) (s : σ), μ s = m → P ss s →
      ∃ n s', loop step n s = some s' ∧ step s' = none ∧ P (ss ++ loopStates step n s) s' := by
    intro m
    induction m using Nat.strongRecOn with
    | ind m ih =>
        intro ss s hm hs
        cases hnext : step s with
        | none =>
            exact ⟨1, s, by simp [loop, hnext], hnext, by simpa [loopStates, hnext] using hs⟩
        | some s₁ =>
            rcases hstep ss s s₁ hs hnext with ⟨hs₁, hlt⟩
            rcases ih _ (hm ▸ hlt) (ss ++ [s]) s₁ rfl hs₁ with ⟨n, s', hloop, hend, hP⟩
            refine ⟨n + 1, s', ?_, hend, ?_⟩
            · simpa [loop, hnext] using hloop
            · simpa [loopStates, hnext] using hP
  exact hall (μ s₀) [] s₀ rfl h₀

/-- The measure bounds the turns. -/
theorem loop_of_measure_lt {P : σ → Prop} {μ : σ → Nat}
    (hstep : ∀ s s', P s → step s = some s' → P s' ∧ μ s' < μ s) {n : Nat} {s : σ} (hs : P s)
    (hn : μ s < n) : ∃ s', loop step n s = some s' ∧ step s' = none ∧ P s' := by
  induction n generalizing s with
  | zero =>
      exact absurd hn (Nat.not_lt_zero _)
  | succ n ih =>
      cases hnext : step s with
      | none =>
          exact ⟨s, by simp [loop, hnext], hnext, hs⟩
      | some s₁ =>
          rcases hstep s s₁ hs hnext with ⟨hs₁, hlt⟩
          rcases ih hs₁ (by omega) with ⟨s', hloop, hend, hs'⟩
          exact ⟨s', by simpa [loop, hnext] using hloop, hend, hs'⟩

end Loops

/-! ## The last event of a kind -/

section History

variable {ε : Type v}

/-- The last event of the history that satisfies `p`. -/
def lastOn (p : ε → Bool) (es : List ε) : Option ε :=
  es.reverse.find? p

@[simp] theorem lastOn_nil (p : ε → Bool) : lastOn p [] = none := rfl

@[simp] theorem lastOn_append_singleton (p : ε → Bool) (es : List ε) (e : ε) :
    lastOn p (es ++ [e]) = if p e then some e else lastOn p es := by
  by_cases h : p e <;> simp [lastOn, h]

theorem lastOn_eq_getLast?_filter (p : ε → Bool) (es : List ε) :
    lastOn p es = (es.filter p).getLast? := by
  rw [lastOn, ← List.head?_filter, List.filter_reverse, List.head?_reverse]

theorem lastOn_eq_none {p : ε → Bool} {es : List ε} :
    lastOn p es = none ↔ ∀ e ∈ es, p e = false := by
  simp [lastOn]

/-- Where an event of an extended history lies: it is the new one, or it is in the old history. -/
theorem split_append_singleton {es before after : List ε} {e f : ε}
    (h : es ++ [e] = before ++ f :: after) :
    (after = [] ∧ before = es ∧ f = e) ∨
      ∃ middle, after = middle ++ [e] ∧ es = before ++ f :: middle := by
  -- Both sides end with the same event: `f` itself, or the last of `after`.
  rcases List.eq_nil_or_concat after with rfl | ⟨middle, last, rfl⟩
  · rcases List.append_inj' h rfl with ⟨hes, he⟩
    exact Or.inl ⟨rfl, hes.symm, (List.head_eq_of_cons_eq he).symm⟩
  · have hassoc : es ++ [e] = (before ++ f :: middle) ++ [last] := by
      simpa using h
    rcases List.append_inj' hassoc rfl with ⟨hes, he⟩
    exact Or.inr ⟨middle, by rw [List.head_eq_of_cons_eq he, List.concat_eq_append], hes⟩

/-- What lies behind each `f` of the history satisfies `P`. -/
def Behind (f : ε) (P : List ε → Prop) (es : List ε) : Prop :=
  ∀ before after, es = before ++ f :: after → P after

theorem behind_nil (f : ε) (P : List ε → Prop) : Behind f P [] := by
  intro before after h
  simp at h

theorem Behind.mono {f : ε} {P Q : List ε → Prop} {es : List ε} (h : Behind f P es)
    (hPQ : ∀ after, P after → Q after) : Behind f Q es :=
  fun before after hsplit => hPQ after (h before after hsplit)

theorem behind_append_singleton {f e : ε} {P : List ε → Prop} {es : List ε} :
    Behind f P (es ++ [e]) ↔ (e = f → P []) ∧ Behind f (fun after => P (after ++ [e])) es := by
  constructor
  · intro h
    refine ⟨?_, ?_⟩
    · rintro rfl
      exact h es [] rfl
    · rintro before after rfl
      exact h before (after ++ [e]) (by simp)
  · rintro ⟨hlast, hold⟩ before after hsplit
    rcases split_append_singleton hsplit with ⟨rfl, rfl, rfl⟩ | ⟨middle, rfl, hes⟩
    · exact hlast rfl
    · exact hold before middle hes

theorem lastOn_filterMap {δ : Type w} (f : ε → Option δ) (p : δ → Bool) (es : List ε) :
    lastOn p (es.filterMap f) = (lastOn (fun e => (f e).any p) es).bind f := by
  induction es using List.reverseRecOn with
  | nil =>
      rfl
  | append_singleton es e ih =>
      cases hf : f e with
      | none =>
          simp [hf, ih]
      | some d =>
          by_cases hp : p d = true <;> simp [hf, hp, ih]

/-- Narrowing the kind keeps the last event when that event is of the narrower kind. -/
theorem lastOn_and_of_true {p q : ε → Bool} {es : List ε} {e : ε} (h : lastOn p es = some e)
    (hq : q e = true) : lastOn (fun x => p x && q x) es = some e := by
  induction es using List.reverseRecOn with
  | nil =>
      simp at h
  | append_singleton es f ih =>
      -- From the back, the first event that satisfies `p` is `e`.
      by_cases hf : p f = true
      · have hfe : f = e := by
          simpa [hf] using h
        subst hfe
        simp [hf, hq]
      · have hlast : lastOn p es = some e := by
          simpa [hf] using h
        simp [hf, ih hlast]

theorem lastOn_and_of_none {p q : ε → Bool} {es : List ε} (h : lastOn p es = none) :
    lastOn (fun x => p x && q x) es = none := by
  have hp := lastOn_eq_none.1 h
  refine lastOn_eq_none.2 ?_
  intro e he
  simp [hp e he]

theorem mem_of_lastOn {p : ε → Bool} {es : List ε} {e : ε} (h : lastOn p es = some e) :
    e ∈ es ∧ p e = true := by
  have hmem : e ∈ es.reverse := List.mem_of_find?_eq_some h
  exact ⟨List.mem_reverse.1 hmem, List.find?_some h⟩

end History

end Lib
end NmMemcached
