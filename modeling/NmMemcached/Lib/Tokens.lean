import Mathlib.Algebra.BigOperators.Group.List.Basic
import Mathlib.Algebra.Order.Ring.Nat
import NmMemcached.Lib.Runs

/-!
# Tokens — what is set off in a network by what is put into it

A network holds tokens in flight.  A delivery takes one of them out, in any order, and the party
it gets to may send another one in its place; a token may also be lost.  When what is sent has a
smaller rank than what it was sent for, the ranks of the tokens that were put in bound how many
are ever sent (`sent_le`).
-/

namespace NmMemcached
namespace Lib
namespace Tokens

universe u v

variable {τ : Type u} {κ : Type v}

/-! ## Networks -/

structure Net (τ : Type u) where
  inFlight : List τ
  sent : List τ

def Net.empty : Net τ := { inFlight := [], sent := [] }

/-- `c` says which party a token is delivered to, and in which state it finds it. -/
inductive Event (κ : Type v) (τ : Type u)
  | inject (t : τ)
  | deliver (k : Nat) (c : κ)
  | lose (k : Nat)

def step (react : κ → τ → Option τ) (s : Net τ) : Event κ τ → Net τ
  | .inject t => { s with inFlight := s.inFlight ++ [t] }
  | .lose k => { s with inFlight := s.inFlight.eraseIdx k }
  | .deliver k c =>
      match s.inFlight[k]? with
      | none => s
      | some t =>
          match react c t with
          | none => { s with inFlight := s.inFlight.eraseIdx k }
          | some u => { inFlight := s.inFlight.eraseIdx k ++ [u], sent := s.sent ++ [u] }

/-- What was put into the network. -/
def injected : List (Event κ τ) → List τ
  | [] => []
  | .inject t :: es => t :: injected es
  | _ :: es => injected es

theorem injected_append (es fs : List (Event κ τ)) :
    injected (es ++ fs) = injected es ++ injected fs := by
  induction es with
  | nil =>
      rfl
  | cons e es ih =>
      cases e <;> simp [injected, ih]

/-! ## Ranks -/

section Ranks

variable (rank : τ → Nat)

/-- The ranks of all tokens together. -/
def total (ts : List τ) : Nat := (ts.map rank).sum

theorem total_append (ts us : List τ) : total rank (ts ++ us) = total rank ts + total rank us := by
  simp [total]

theorem total_eraseIdx {ts : List τ} {k : Nat} {t : τ} (h : ts[k]? = some t) :
    rank t + total rank (ts.eraseIdx k) = total rank ts := by
  rcases List.getElem?_eq_some_iff.1 h with ⟨hk, rfl⟩
  have hperm := (List.getElem_cons_eraseIdx_perm hk).map rank
  have hsum := hperm.sum_eq
  simpa [total] using hsum

theorem total_eraseIdx_le (ts : List τ) (k : Nat) :
    total rank (ts.eraseIdx k) ≤ total rank ts := by
  cases h : ts[k]? with
  | none =>
      exact Nat.le_of_eq (by rw [List.eraseIdx_of_length_le (List.getElem?_eq_none_iff.1 h)])
  | some t =>
      rw [← total_eraseIdx rank h]
      exact Nat.le_add_left _ _

variable {rank}

theorem total_le {ts : List τ} {n : Nat} (h : ∀ t ∈ ts, rank t ≤ n) :
    total rank ts ≤ n * ts.length := by
  induction ts with
  | nil =>
      exact Nat.zero_le _
  | cons t ts ih =>
      rcases List.forall_mem_cons.1 h with ⟨hfirst, hrest⟩
      have hsum : total rank (t :: ts) = rank t + total rank ts := by simp [total]
      rw [hsum, List.length_cons, Nat.mul_succ, Nat.add_comm]
      exact Nat.add_le_add (ih hrest) hfirst

variable {react : κ → τ → Option τ} {Fits : τ → Prop}

/-- The ranks in flight, with one for each token sent, are no more than the ranks put in. -/
structure Bounded (rank : τ → Nat) (Fits : τ → Prop) (ts : List τ) (s : Net τ) : Prop where
  fits : ∀ t ∈ s.inFlight, Fits t
  total : total rank s.inFlight + s.sent.length ≤ total rank ts

theorem bounded_empty (rank : τ → Nat) (Fits : τ → Prop) : Bounded rank Fits [] .empty :=
  ⟨fun _ ht => absurd ht List.not_mem_nil, Nat.le_refl _⟩

theorem bounded_step
    (hreact : ∀ c t u, Fits t → react c t = some u → Fits u ∧ rank u < rank t) {ts : List τ}
    {s : Net τ} (h : Bounded rank Fits ts s) {e : Event κ τ}
    (he : ∀ t, e = .inject t → Fits t) :
    Bounded rank Fits (ts ++ injected [e]) (step react s e) := by
  have hbound := h.total
  cases e with
  | inject t =>
      refine ⟨?_, ?_⟩
      · intro u hu
        rcases List.mem_append.1 hu with hu | hu
        · exact h.fits u hu
        · rw [List.mem_singleton.1 hu]
          exact he t rfl
      · simp only [step, injected, total_append]
        omega
  | lose k =>
      have hless := total_eraseIdx_le rank s.inFlight k
      refine ⟨fun u hu => h.fits u (List.mem_of_mem_eraseIdx hu), ?_⟩
      simp only [step, injected, List.append_nil]
      omega
  | deliver k c =>
      cases hk : s.inFlight[k]? with
      | none =>
          simp only [step, hk, injected, List.append_nil]
          exact h
      | some t =>
          have hfits : Fits t := h.fits t (List.mem_of_getElem? hk)
          have htotal := total_eraseIdx rank hk
          have hrest : ∀ u ∈ s.inFlight.eraseIdx k, Fits u :=
            fun u hu => h.fits u (List.mem_of_mem_eraseIdx hu)
          cases hsent : react c t with
          | none =>
              simp only [step, hk, hsent, injected, List.append_nil]
              exact ⟨hrest, by dsimp only; omega⟩
          | some u =>
              -- The new token pays for itself with the rank the old one had more.
              rcases hreact c t u hfits hsent with ⟨hnew, hless⟩
              simp only [step, hk, hsent, injected, List.append_nil]
              refine ⟨?_, ?_⟩
              · intro v hv
                rcases List.mem_append.1 hv with hv | hv
                · exact hrest v hv
                · rw [List.mem_singleton.1 hv]
                  exact hnew
              · have hone : total rank [u] = rank u := by simp [total]
                rw [total_append, hone, List.length_append, List.length_singleton]
                omega

/-- No more tokens are sent than the ranks of the tokens that were put in. -/
theorem sent_le (hreact : ∀ c t u, Fits t → react c t = some u → Fits u ∧ rank u < rank t)
    {es : List (Event κ τ)} (hes : ∀ t, .inject t ∈ es → Fits t) :
    (run (step react) .empty es).sent.length ≤ total rank (injected es) := by
  have hrun : (∀ t, .inject t ∈ es → Fits t) →
      Bounded rank Fits (injected es) (run (step react) .empty es) := by
    refine run_history (step react)
      (P := fun es s => (∀ t, .inject t ∈ es → Fits t) → Bounded rank Fits (injected es) s)
      (fun _ => bounded_empty rank Fits) ?_ es
    intro es e hold hall
    rw [injected_append]
    refine bounded_step hreact (hold fun t ht => hall t (List.mem_append_left _ ht)) ?_
    rintro t rfl
    exact hall t (List.mem_append_right _ (List.mem_singleton.2 rfl))
  exact Nat.le_trans (Nat.le_add_left _ _) (hrun hes).total

end Ranks

end Tokens
end Lib
end NmMemcached
