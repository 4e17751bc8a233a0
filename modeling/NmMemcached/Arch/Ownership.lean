import NmMemcached.Arch.Batch
import NmMemcached.Lib.Runs

/-!
# Ownership — every buffer stays in exactly one slot

Answers are sent without a copy: the rx slot and the tx slot exchange their buffers.  Hence the
buffers of the two rings together are always the same, over any number of calls of `ProcessRing`
and whatever the kernel does to lengths, contents and tails in between; and within a sequence of
calls a slot with another buffer says so, and the slots that no call has taken are as they were.
-/

namespace NmMemcached
namespace Arch

open Lib Base Net

section Ownership

universe u

variable {σ : Type u} (nm : Netmap σ)

/-! ## One call -/

variable {p : RingPair σ}

theorem bufIdxs_processRing (hrx : p.rx.Wf) (htx : p.tx.Wf) :
    (bufIdxs (processRing nm p).2.rx (processRing nm p).2.tx).Perm (bufIdxs p.rx p.tx) := by
  rcases rings_startLoop p with ⟨rxFlags, txFlags, hr, ht⟩
  have hperm := bufIdxs_ringLoop nm (batchLimit p) (onRings_startLoop hrx htx)
  rw [hr, ht] at hperm
  rw [processRing_eq]
  exact hperm

theorem allMarked_processRing {rx tx : Nat → NetmapSlot} (h : AllMarked rx tx p.rx p.tx) :
    AllMarked rx tx (processRing nm p).2.rx (processRing nm p).2.tx := by
  rcases rings_startLoop p with ⟨rxFlags, txFlags, hr, ht⟩
  have hstart : AllMarked rx tx (startLoop p).rx (startLoop p).tx := by
    rw [hr, ht]
    exact h
  have hmarked := allMarked_ringLoop nm (batchLimit p) hstart
  rw [processRing_eq]
  exact hmarked

/-- The slots from the cursor of a ring to a later one. -/
def consumed (r r' : NetmapRing) : List Nat :=
  Cyclic.arc r.numSlots r.cur (Cyclic.gap r.numSlots r.cur r'.cur)

theorem consumed_of_moved {r r' : NetmapRing} {k : Nat} (hr : r.Wf) (hk : k < r.numSlots)
    (h : Moved r r' k) : consumed r r' = Cyclic.arc r.numSlots r.cur k := by
  rw [consumed, h.cur, Cyclic.gap_advance_self hr.cur_lt hk]

theorem slots_of_not_consumed (hrx : p.rx.Wf) (htx : p.tx.Wf) (i : Nat) :
    (i ∉ consumed p.rx (processRing nm p).2.rx →
      (processRing nm p).2.rx.slot i = p.rx.slot i) ∧
    (i ∉ consumed p.tx (processRing nm p).2.tx →
      (processRing nm p).2.tx.slot i = p.tx.slot i) := by
  have hlt := batchLimit_lt hrx htx
  have hanswers : (answers nm p).length ≤ batchLimit p := length_answeredTurns_le nm _ _
  have hslots := slots_processRing nm hrx htx i
  have hcount : (processRing nm p).1 < p.rx.numSlots := by
    rw [count_processRing]
    exact hlt.1
  rw [consumed_of_moved hrx hcount (moved_rx nm hrx htx),
    consumed_of_moved htx (Nat.lt_of_le_of_lt hanswers hlt.2) (moved_tx nm hrx htx)]
  exact hslots

/-! ## Calls and the kernel -/

/-- What the kernel writes between two calls. -/
structure KernelSync (σ : Type u) where
  rxTail : Nat
  txTail : Nat
  rxFlags : Nat
  txFlags : Nat
  /-- The new length and the new flags of each slot. -/
  rxInfo : Nat → Nat × BitVec 16
  txInfo : Nat → Nat × BitVec 16
  buf : Nat → Mem
  db : σ

inductive RingEvent (σ : Type u)
  | call
  | sync (k : KernelSync σ)

/-- The kernel leaves the buffer of a slot alone. -/
def NetmapRing.synced (r : NetmapRing) (tail flags : Nat) (info : Nat → Nat × BitVec 16) :
    NetmapRing :=
  { r with
    tail := tail
    flags := flags
    slot := fun i => { bufIdx := (r.slot i).bufIdx, len := (info i).1, flags := (info i).2 } }

def ringStep (p : RingPair σ) : RingEvent σ → RingPair σ
  | .call => (processRing nm p).2
  | .sync k =>
      { rx := p.rx.synced k.rxTail k.rxFlags k.rxInfo
        tx := p.tx.synced k.txTail k.txFlags k.txInfo
        buf := k.buf
        db := k.db }

/-- The kernel keeps the tails inside the rings. -/
def TailsInside (p : RingPair σ) : RingEvent σ → Prop
  | .call => True
  | .sync k => k.rxTail < p.rx.numSlots ∧ k.txTail < p.tx.numSlots

/-- A step keeps the rings well formed and the buffers together. -/
theorem ringStep_keeps (hrx : p.rx.Wf) (htx : p.tx.Wf) {e : RingEvent σ} (h : TailsInside p e) :
    (ringStep nm p e).rx.Wf ∧ (ringStep nm p e).tx.Wf ∧
      (bufIdxs (ringStep nm p e).rx (ringStep nm p e).tx).Perm (bufIdxs p.rx p.tx) := by
  cases e with
  | call =>
      exact ⟨(moved_rx nm hrx htx).wf hrx, (moved_tx nm hrx htx).wf htx,
        bufIdxs_processRing nm hrx htx⟩
  | sync k =>
      exact ⟨⟨hrx.cur_lt, h.1, hrx.numSlots_lt⟩, ⟨htx.cur_lt, h.2, htx.numSlots_lt⟩,
        List.Perm.refl _⟩

theorem bufIdxs_run (hrx : p.rx.Wf) (htx : p.tx.Wf) {es : List (RingEvent σ)}
    (h : Along (ringStep nm) TailsInside p es) :
    (run (ringStep nm) p es).rx.Wf ∧ (run (ringStep nm) p es).tx.Wf ∧
      (bufIdxs (run (ringStep nm) p es).rx (run (ringStep nm) p es).tx).Perm
        (bufIdxs p.rx p.tx) := by
  refine run_history_along (P := fun _ p' => p'.rx.Wf ∧ p'.tx.Wf ∧
    (bufIdxs p'.rx p'.tx).Perm (bufIdxs p.rx p.tx)) ⟨hrx, htx, List.Perm.refl _⟩ ?_ h
  rintro _ e ⟨hrx', htx', hperm⟩ hinside
  rcases ringStep_keeps nm hrx' htx' hinside with ⟨hrx'', htx'', hstep⟩
  exact ⟨hrx'', htx'', hstep.trans hperm⟩

/-! ## A sequence of calls -/

/-- The rings after `n` calls. -/
def calls : Nat → RingPair σ → RingPair σ
  | 0, p => p
  | n + 1, p => calls n (processRing nm p).2

/-- The rx slots and the tx slots that `n` calls take. -/
def callsConsumed : Nat → RingPair σ → List Nat × List Nat
  | 0, _ => ([], [])
  | n + 1, p =>
      let p' := (processRing nm p).2
      (consumed p.rx p'.rx ++ (callsConsumed n p').1, consumed p.tx p'.tx ++ (callsConsumed n p').2)

theorem slots_calls (n : Nat) (hrx : p.rx.Wf) (htx : p.tx.Wf) (i : Nat) :
    (i ∉ (callsConsumed nm n p).1 → (calls nm n p).rx.slot i = p.rx.slot i) ∧
    (i ∉ (callsConsumed nm n p).2 → (calls nm n p).tx.slot i = p.tx.slot i) := by
  induction n generalizing p with
  | zero =>
      exact ⟨fun _ => rfl, fun _ => rfl⟩
  | succ n ih =>
      have hone := slots_of_not_consumed nm hrx htx i
      have hrest := ih ((moved_rx nm hrx htx).wf hrx) ((moved_tx nm hrx htx).wf htx)
      refine ⟨?_, ?_⟩
      · intro hi
        rw [callsConsumed, List.mem_append, not_or] at hi
        exact (hrest.1 hi.2).trans (hone.1 hi.1)
      · intro hi
        rw [callsConsumed, List.mem_append, not_or] at hi
        exact (hrest.2 hi.2).trans (hone.2 hi.1)

theorem allMarked_calls (n : Nat) {rx tx : Nat → NetmapSlot} (h : AllMarked rx tx p.rx p.tx) :
    AllMarked rx tx (calls nm n p).rx (calls nm n p).tx := by
  induction n generalizing p with
  | zero =>
      exact h
  | succ n ih =>
      exact ih (allMarked_processRing nm h)

theorem allMarked_self (rx tx : NetmapRing) : AllMarked rx.slot tx.slot rx tx :=
  fun _ => ⟨fun h => absurd rfl h, fun h => absurd rfl h⟩

/-- Two rings whose slots have different buffers: over any run of calls and kernel syncs the
buffers of all slots stay the same up to order, so they stay different; after any sequence of
calls every slot with another buffer is marked, and the slots outside what the calls have taken
are as they were. -/
theorem zeroCopy (hrx : p.rx.Wf) (htx : p.tx.Wf) (hdistinct : (bufIdxs p.rx p.tx).Nodup) :
    (∀ es, Along (ringStep nm) TailsInside p es →
      (bufIdxs (run (ringStep nm) p es).rx (run (ringStep nm) p es).tx).Perm
          (bufIdxs p.rx p.tx) ∧
        (bufIdxs (run (ringStep nm) p es).rx (run (ringStep nm) p es).tx).Nodup) ∧
    ∀ n, AllMarked p.rx.slot p.tx.slot (calls nm n p).rx (calls nm n p).tx ∧
      (∀ i, i ∉ (callsConsumed nm n p).1 → (calls nm n p).rx.slot i = p.rx.slot i) ∧
      ∀ i, i ∉ (callsConsumed nm n p).2 → (calls nm n p).tx.slot i = p.tx.slot i := by
  refine ⟨?_, ?_⟩
  · intro es hes
    have hperm := (bufIdxs_run nm hrx htx hes).2.2
    exact ⟨hperm, hperm.nodup_iff.2 hdistinct⟩
  · intro n
    refine ⟨allMarked_calls nm n (allMarked_self p.rx p.tx), ?_, ?_⟩
    · intro i hi
      exact (slots_calls nm n hrx htx i).1 hi
    · intro i hi
      exact (slots_calls nm n hrx htx i).2 hi

end Ownership

/-- The batch of the example takes three frames and answers the ARP request among them: its buffer
and the one of the first tx slot change places, and both slots say so. -/
theorem zeroCopy_demoRings :
    ((bufIdxs (run (ringStep demoNetmap) demoRings [.call, .call]).rx
          (run (ringStep demoNetmap) demoRings [.call, .call]).tx).Perm
        (bufIdxs demoRings.rx demoRings.tx) ∧
      (bufIdxs (run (ringStep demoNetmap) demoRings [.call, .call]).rx
        (run (ringStep demoNetmap) demoRings [.call, .call]).tx).Nodup) ∧
    AllMarked demoRings.rx.slot demoRings.tx.slot (calls demoNetmap 1 demoRings).rx
      (calls demoNetmap 1 demoRings).tx ∧
    (∀ i, i ∉ [2, 3, 0] → (calls demoNetmap 1 demoRings).rx.slot i = demoRings.rx.slot i) ∧
    (∀ i, i ∉ [0] → (calls demoNetmap 1 demoRings).tx.slot i = demoRings.tx.slot i) ∧
    (calls demoNetmap 1 demoRings).rx.slot 3 = ⟨20, 60, nsBufChanged⟩ ∧
    (calls demoNetmap 1 demoRings).tx.slot 0 = ⟨13, 60, nsBufChanged⟩ := by
  have h := zeroCopy demoNetmap wf_demoRings.1 wf_demoRings.2 (by decide)
  have htaken : callsConsumed demoNetmap 1 demoRings = ([2, 3, 0], [0]) := by decide
  have hone := h.2 1
  rw [htaken] at hone
  exact ⟨h.1 [.call, .call] ⟨trivial, trivial, trivial⟩, hone.1, hone.2.1, hone.2.2, by decide,
    by decide⟩

end Arch
end NmMemcached
