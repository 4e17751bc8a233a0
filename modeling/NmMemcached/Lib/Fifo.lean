import NmMemcached.Lib.Runs

/-!
# Fifo — a server between two bounded queues

Requests wait in one queue, answers in another.  When the server is woken it takes requests in the
order of their arrival and appends what it answers, until no request waits or no answer has room;
not every request has an answer.  Answers leave in order.

* `serve` is what a wake-up does; `served` lists its turns.
* Along a run nothing is lost, repeated or put out of order: the accepted requests are those that
  were served and those that wait (`accepted_run`), and the answers of the turns are those that
  left and those that are queued (`answers_run`).
* A wake-up with room for an answer makes progress, so enough rounds empty both queues
  (`rounds_drain`).

What answers a request is given with the wake-up, and it reads and writes a memory.
-/

namespace NmMemcached
namespace Lib
namespace Fifo

universe u v w

variable {α : Type u} {β : Type v} {σ : Type w}

/-- How a request is answered. -/
abbrev Handler (α : Type u) (β : Type v) (σ : Type w) := α → σ → Option β × σ

@[ext]
structure State (α : Type u) (β : Type v) (σ : Type w) where
  waiting : List α
  queued : List β
  left : List β
  memory : σ

inductive Event (α : Type u) (β : Type v) (σ : Type w)
  | arrive (a : α)
  | wake (f : Handler α β σ)
  | leave
  | outside (m : σ)

/-- The two queues hold at most this much. -/
structure Bounds where
  waiting : Nat
  queued : Nat

/-! ## A wake-up -/

section Serve

variable (cap : Nat) (f : Handler α β σ)

/-- Requests are taken as long as an answer has room. -/
def serve : List α → List β → σ → List α × List β × σ
  | [], queued, m => ([], queued, m)
  | a :: waiting, queued, m =>
      if queued.length < cap then
        serve waiting (queued ++ (f a m).1.toList) (f a m).2
      else
        (a :: waiting, queued, m)

/-- A request, what answers it and the memory this starts from. -/
structure Turn (α : Type u) (β : Type v) (σ : Type w) where
  request : α
  handler : Handler α β σ
  memory : σ

def Turn.answer (t : Turn α β σ) : Option β := (t.handler t.request t.memory).1

/-- The turns of a wake-up. -/
def served : List α → List β → σ → List (Turn α β σ)
  | [], _, _ => []
  | a :: waiting, queued, m =>
      if queued.length < cap then
        ⟨a, f, m⟩ :: served waiting (queued ++ (f a m).1.toList) (f a m).2
      else
        []

variable {cap f}

theorem serve_of_full {waiting : List α} {queued : List β} (h : ¬ queued.length < cap) (m : σ) :
    serve cap f waiting queued m = (waiting, queued, m) := by
  cases waiting with
  | nil =>
      rfl
  | cons a waiting =>
      exact if_neg h

theorem serve_cons {queued : List β} (h : queued.length < cap) (a : α) (waiting : List α) (m : σ) :
    serve cap f (a :: waiting) queued m =
      serve cap f waiting (queued ++ (f a m).1.toList) (f a m).2 :=
  if_pos h

theorem served_cons {queued : List β} (h : queued.length < cap) (a : α) (waiting : List α)
    (m : σ) :
    served cap f (a :: waiting) queued m =
      ⟨a, f, m⟩ :: served cap f waiting (queued ++ (f a m).1.toList) (f a m).2 :=
  if_pos h

variable (cap f) in
/-- The requests in front are those of the turns. -/
theorem requests_serve (waiting : List α) (queued : List β) (m : σ) :
    (served cap f waiting queued m).map Turn.request ++ (serve cap f waiting queued m).1 =
      waiting := by
  induction waiting generalizing queued m with
  | nil =>
      rfl
  | cons a waiting ih =>
      by_cases h : queued.length < cap
      · rw [serve_cons h, served_cons h, List.map_cons, List.cons_append, ih]
      · simp [serve, served, h]

/-- The answers of the turns are queued behind the others. -/
theorem answers_serve (waiting : List α) (queued : List β) (m : σ) :
    (serve cap f waiting queued m).2.1 =
      queued ++ (served cap f waiting queued m).filterMap Turn.answer := by
  induction waiting generalizing queued m with
  | nil =>
      exact (List.append_nil queued).symm
  | cons a waiting ih =>
      by_cases h : queued.length < cap
      · have hcons : (⟨a, f, m⟩ :: served cap f waiting (queued ++ (f a m).1.toList)
            (f a m).2).filterMap Turn.answer = (f a m).1.toList ++
              (served cap f waiting (queued ++ (f a m).1.toList) (f a m).2).filterMap
                Turn.answer := by
          cases hanswer : (f a m).1 with
          | none =>
              simp [Turn.answer, hanswer]
          | some b =>
              simp [Turn.answer, hanswer]
        rw [serve_cons h, served_cons h, hcons, ih, List.append_assoc]
      · simp [serve, served, h]

theorem length_queued_serve {waiting : List α} {queued : List β} (h : queued.length ≤ cap)
    (m : σ) : (serve cap f waiting queued m).2.1.length ≤ cap := by
  induction waiting generalizing queued m with
  | nil =>
      exact h
  | cons a waiting ih =>
      by_cases hlt : queued.length < cap
      · rw [serve_cons hlt]
        refine ih ?_ _
        have hone : (f a m).1.toList.length ≤ 1 := by
          cases (f a m).1 <;> simp
        rw [List.length_append]
        omega
      · rw [serve_of_full hlt]
        exact h

/-- With room for an answer at least one request is taken. -/
theorem length_waiting_serve {waiting : List α} {queued : List β} (h : queued.length < cap)
    (m : σ) : (serve cap f waiting queued m).1.length ≤ waiting.length - 1 := by
  cases waiting with
  | nil =>
      exact Nat.le_refl 0
  | cons a waiting =>
      have hsplit := congrArg List.length
        (requests_serve cap f waiting (queued ++ (f a m).1.toList) (f a m).2)
      rw [List.length_append] at hsplit
      rw [serve_cons h, List.length_cons]
      omega

end Serve

/-! ## Runs -/

section Runs

variable (b : Bounds)

def step (s : State α β σ) : Event α β σ → State α β σ
  | .arrive a =>
      -- A request that finds no room is lost.
      if s.waiting.length < b.waiting then { s with waiting := s.waiting ++ [a] } else s
  | .wake f =>
      let res := serve b.queued f s.waiting s.queued s.memory
      { s with waiting := res.1, queued := res.2.1, memory := res.2.2 }
  | .leave =>
      match s.queued with
      | [] => s
      | x :: queued => { s with queued := queued, left := s.left ++ [x] }
  | .outside m => { s with memory := m }

/-- The request an event brings in. -/
def accepts (s : State α β σ) : Event α β σ → List α
  | .arrive a => if s.waiting.length < b.waiting then [a] else []
  | _ => []

/-- The turns an event sets off. -/
def turns (s : State α β σ) : Event α β σ → List (Turn α β σ)
  | .wake f => served b.queued f s.waiting s.queued s.memory
  | _ => []

/-- What the events of a run bring about, one after the other. -/
def along {γ : Type*} (g : State α β σ → Event α β σ → List γ) (s : State α β σ) :
    List (Event α β σ) → List γ
  | [] => []
  | e :: es => g s e ++ along g (step b s e) es

/-- The requests of a run that found room. -/
def accepted (s : State α β σ) (es : List (Event α β σ)) : List α := along b (accepts b) s es

def allTurns (s : State α β σ) (es : List (Event α β σ)) : List (Turn α β σ) :=
  along b (turns b) s es

/-- The turns of a wake-up that has any. -/
def batch (s : State α β σ) (e : Event α β σ) : List (List (Turn α β σ)) :=
  if turns b s e = [] then [] else [turns b s e]

def batches (s : State α β σ) (es : List (Event α β σ)) : List (List (Turn α β σ)) :=
  along b (batch b) s es

variable {b}

theorem along_append {γ : Type*} (g : State α β σ → Event α β σ → List γ) (s : State α β σ)
    (es fs : List (Event α β σ)) :
    along b g s (es ++ fs) = along b g s es ++ along b g (run (step b) s es) fs := by
  induction es generalizing s with
  | nil =>
      rfl
  | cons e es ih =>
      rw [List.cons_append, along, along, ih, List.append_assoc, run_cons]

theorem flatten_batches (s : State α β σ) (es : List (Event α β σ)) :
    (batches b s es).flatten = allTurns b s es := by
  induction es generalizing s with
  | nil =>
      rfl
  | cons e es ih =>
      have hone : (batch b s e).flatten = turns b s e := by
        unfold batch
        split
        · rename_i hnil
          rw [hnil]
          rfl
        · exact List.append_nil _
      have hrest := ih (step b s e)
      unfold batches allTurns at hrest ⊢
      rw [along, along, List.flatten_append, hone, hrest]

theorem accepted_step (s : State α β σ) (e : Event α β σ) :
    s.waiting ++ accepts b s e = (turns b s e).map Turn.request ++ (step b s e).waiting := by
  cases e with
  | arrive a =>
      by_cases h : s.waiting.length < b.waiting
      · simp [accepts, turns, step, h]
      · simp [accepts, turns, step, h]
  | wake f =>
      simp only [accepts, turns, step, List.append_nil]
      exact (requests_serve b.queued f s.waiting s.queued s.memory).symm
  | leave =>
      cases hq : s.queued <;> simp [accepts, turns, step, hq]
  | outside m =>
      simp [accepts, turns, step]

theorem answers_step (s : State α β σ) (e : Event α β σ) :
    s.left ++ s.queued ++ (turns b s e).filterMap Turn.answer =
      (step b s e).left ++ (step b s e).queued := by
  cases e with
  | arrive a =>
      by_cases h : s.waiting.length < b.waiting <;> simp [turns, step, h]
  | wake f =>
      simp only [turns, step, answers_serve, List.append_assoc]
  | leave =>
      cases hq : s.queued <;> simp [turns, step, hq]
  | outside m =>
      simp [turns, step]

/-- The accepted requests are the served ones, in order, and then those that wait. -/
theorem accepted_run (s : State α β σ) (es : List (Event α β σ)) :
    s.waiting ++ accepted b s es =
      (allTurns b s es).map Turn.request ++ (run (step b) s es).waiting := by
  induction es generalizing s with
  | nil =>
      simp [accepted, allTurns, along]
  | cons e es ih =>
      have hrest := ih (step b s e)
      unfold accepted allTurns at hrest ⊢
      simp only [along, run_cons, List.map_append]
      calc
        s.waiting ++ (accepts b s e ++ along b (accepts b) (step b s e) es)
            = (turns b s e).map Turn.request ++
                ((step b s e).waiting ++ along b (accepts b) (step b s e) es) := by
              rw [← List.append_assoc, accepted_step, List.append_assoc]
        _ = _ := by rw [hrest, List.append_assoc]

/-- The answers of the turns are those that left, in order, and then those that are queued. -/
theorem answers_run (s : State α β σ) (es : List (Event α β σ)) :
    s.left ++ s.queued ++ (allTurns b s es).filterMap Turn.answer =
      (run (step b) s es).left ++ (run (step b) s es).queued := by
  induction es generalizing s with
  | nil =>
      simp [allTurns, along]
  | cons e es ih =>
      have hrest := ih (step b s e)
      unfold allTurns at hrest ⊢
      simp only [along, run_cons, List.filterMap_append]
      rw [← List.append_assoc, answers_step, hrest]

theorem handler_of_mem_served {cap : Nat} {f : Handler α β σ} {waiting : List α} {queued : List β}
    {m : σ} {t : Turn α β σ} (h : t ∈ served cap f waiting queued m) : t.handler = f := by
  induction waiting generalizing queued m with
  | nil =>
      simp [served] at h
  | cons a waiting ih =>
      by_cases hlt : queued.length < cap
      · rw [served_cons hlt, List.mem_cons] at h
        rcases h with rfl | hmem
        · rfl
        · exact ih hmem
      · simp [served, hlt] at h

/-- Every batch of a run belongs to one of its wake-ups. -/
theorem wake_of_mem_batches {s : State α β σ} {es : List (Event α β σ)}
    {ts : List (Turn α β σ)} (h : ts ∈ batches b s es) :
    ts ≠ [] ∧ ∃ f, Event.wake f ∈ es ∧ ∀ t ∈ ts, t.handler = f := by
  induction es generalizing s with
  | nil =>
      simp [batches, along] at h
  | cons e es ih =>
      rcases List.mem_append.1 h with hone | hrest
      · unfold batch at hone
        split at hone
        · simp at hone
        · rename_i hne
          rw [List.mem_singleton] at hone
          refine ⟨hone ▸ hne, ?_⟩
          cases e with
          | wake f =>
              refine ⟨f, List.mem_cons_self, ?_⟩
              intro t ht
              rw [hone] at ht
              exact handler_of_mem_served ht
          | arrive a => exact absurd rfl hne
          | leave => exact absurd rfl hne
          | outside m => exact absurd rfl hne
      · rcases ih hrest with ⟨hne, f, hmem, hhandler⟩
        exact ⟨hne, f, List.mem_cons_of_mem _ hmem, hhandler⟩

/-! ## Bounds and progress -/

structure Within (b : Bounds) (s : State α β σ) : Prop where
  waiting : s.waiting.length ≤ b.waiting
  queued : s.queued.length ≤ b.queued

theorem within_step {s : State α β σ} (h : Within b s) (e : Event α β σ) :
    Within b (step b s e) := by
  cases e with
  | arrive a =>
      by_cases hlt : s.waiting.length < b.waiting
      · refine ⟨?_, ?_⟩
        · simp only [step, hlt, if_true, List.length_append, List.length_singleton]
          omega
        · simpa [step, hlt] using h.queued
      · simpa [step, hlt] using h
  | wake f =>
      refine ⟨?_, length_queued_serve h.queued _⟩
      have hsplit := congrArg List.length
        (requests_serve b.queued f s.waiting s.queued s.memory)
      have hle := h.waiting
      rw [List.length_append] at hsplit
      simp only [step]
      omega
  | leave =>
      cases hq : s.queued with
      | nil =>
          simpa [step, hq] using h
      | cons x queued =>
          have hle := h.queued
          rw [hq, List.length_cons] at hle
          refine ⟨by simpa [step, hq] using h.waiting, ?_⟩
          simp only [step, hq]
          omega
  | outside m =>
      exact ⟨h.waiting, h.queued⟩

/-- All answers leave, then the server wakes. -/
def round (b : Bounds) (f : Handler α β σ) : List (Event α β σ) :=
  List.replicate b.queued .leave ++ [.wake f]

theorem run_leaves (n : Nat) (s : State α β σ) :
    (run (step b) s (List.replicate n .leave)).waiting = s.waiting ∧
      (run (step b) s (List.replicate n .leave)).queued = s.queued.drop n := by
  induction n generalizing s with
  | zero =>
      exact ⟨rfl, rfl⟩
  | succ n ih =>
      rw [List.replicate_succ, run_cons]
      rcases ih (step b s .leave) with ⟨hwaiting, hqueued⟩
      rw [hwaiting, hqueued]
      cases hq : s.queued <;> simp [step, hq]

/-- A round takes at least one request. -/
theorem waiting_round (hcap : 0 < b.queued) {s : State α β σ} (h : Within b s)
    (f : Handler α β σ) :
    (run (step b) s (round b f)).waiting.length ≤ s.waiting.length - 1 := by
  rcases run_leaves (b := b) b.queued s with ⟨hwaiting, hqueued⟩
  have hnil : s.queued.drop b.queued = [] := List.drop_eq_nil_of_le h.queued
  rw [round, run_append, run_cons, run_nil]
  simp only [step]
  rw [hwaiting, hqueued, hnil]
  exact length_waiting_serve hcap _

theorem within_run {s : State α β σ} (h : Within b s) (es : List (Event α β σ)) :
    Within b (run (step b) s es) :=
  run_history (P := fun _ s => Within b s) (step b) h (fun _ e hs => within_step hs e) es

/-- As many rounds as requests wait, and the last answers leave: both queues are empty. -/
theorem rounds_drain (hcap : 0 < b.queued) {s : State α β σ} (h : Within b s)
    {fs : List (Handler α β σ)} (hfs : s.waiting.length ≤ fs.length) :
    (run (step b) s (fs.flatMap (round b) ++ List.replicate b.queued .leave)).waiting = [] ∧
      (run (step b) s (fs.flatMap (round b) ++ List.replicate b.queued .leave)).queued = [] := by
  have hwaiting : (run (step b) s (fs.flatMap (round b))).waiting = [] := by
    induction fs generalizing s with
    | nil =>
        exact List.eq_nil_of_length_eq_zero (Nat.le_zero.1 hfs)
    | cons f fs ih =>
        have hround := waiting_round hcap h f
        rw [List.length_cons] at hfs
        rw [List.flatMap_cons, run_append]
        exact ih (within_run h _) (by omega)
  have hwithin := within_run h (fs.flatMap (round b))
  rcases run_leaves (b := b) b.queued (run (step b) s (fs.flatMap (round b))) with
    ⟨hkeep, hqueued⟩
  rw [run_append]
  exact ⟨hkeep.trans hwaiting, hqueued.trans (List.drop_eq_nil_of_le hwithin.queued)⟩

end Runs

end Fifo
end Lib
end NmMemcached
