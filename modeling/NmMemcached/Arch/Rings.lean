import NmMemcached.Arch.Netmap
import NmMemcached.Lib.Cyclic

/-!
# Rings — what a batch does to its two rings

`ProcessRing` takes frames from an rx ring in ring order and puts answers into a tx ring in ring
order; the two cursors move independently, one with every frame and one with every answer.  The
facts about one turn are collected first, then those about a number of turns, by induction on that
number:

* where the cursors are (`rxCur_ringLoop`, `txCur_ringLoop`);
* which slots are touched (`rx_slot_ringLoop`, `tx_slot_ringLoop`);
* what the filled tx slots hold (`filled_ringLoop`).
-/

namespace NmMemcached
namespace Arch

open Lib Base Net

/-! ## Well-formed rings -/

/-- `cur` and `tail` are positions of the ring, and `num_slots` is a `uint32_t`. -/
structure NetmapRing.Wf (r : NetmapRing) : Prop where
  cur_lt : r.cur < r.numSlots
  tail_lt : r.tail < r.numSlots
  numSlots_lt : r.numSlots < 4294967296

/-- `nm_ring_space` without its machine types: the difference is taken modulo 2^32 and is negative
from 2^31 on. -/
theorem nmRingSpace_eq {r : NetmapRing} (h : r.Wf) :
    nmRingSpace r =
      if 2147483648 ≤ (r.tail + 4294967296 - r.cur) % 4294967296 then
        ((r.tail + 4294967296 - r.cur) % 4294967296 + r.numSlots) % 4294967296
      else (r.tail + 4294967296 - r.cur) % 4294967296 := by
  have hcur := h.cur_lt
  have htail := h.tail_lt
  have hnum := h.numSlots_lt
  have hdiff : (BitVec.ofNat 32 r.tail - BitVec.ofNat 32 r.cur).toNat =
      (r.tail + 4294967296 - r.cur) % 4294967296 := by
    rw [BitVec.toNat_sub, BitVec.toNat_ofNat, BitVec.toNat_ofNat]
    omega
  have hneg : (BitVec.ofNat 32 r.tail - BitVec.ofNat 32 r.cur).toInt < 0 ↔
      2147483648 ≤ (r.tail + 4294967296 - r.cur) % 4294967296 := by
    rw [BitVec.toInt_neg_iff, hdiff]
    omega
  have hslots : (BitVec.ofNat 32 r.numSlots).toNat = r.numSlots := by
    rw [BitVec.toNat_ofNat]
    exact Nat.mod_eq_of_lt hnum
  unfold nmRingSpace
  dsimp only
  by_cases hlt : (BitVec.ofNat 32 r.tail - BitVec.ofNat 32 r.cur).toInt < 0
  · rw [if_pos hlt, if_pos (hneg.1 hlt), BitVec.toNat_add, hdiff, hslots]
  · rw [if_neg hlt, if_neg fun hle => hlt (hneg.2 hle), hdiff]

theorem nmRingSpace_lt {r : NetmapRing} (h : r.Wf) : nmRingSpace r < r.numSlots := by
  have hcur := h.cur_lt
  have htail := h.tail_lt
  have hnum := h.numSlots_lt
  rw [nmRingSpace_eq h]
  split <;> omega

/-- Up to 2^31 slots the space is the way from `cur` to `tail`. -/
theorem nmRingSpace_eq_gap {r : NetmapRing} (h : r.Wf) (hsize : r.numSlots ≤ 2147483648) :
    nmRingSpace r = Cyclic.gap r.numSlots r.cur r.tail := by
  have hcur := h.cur_lt
  have htail := h.tail_lt
  rw [nmRingSpace_eq h]
  by_cases hle : r.cur ≤ r.tail
  · rw [Cyclic.gap_of_le hle htail]
    split <;> omega
  · rw [Cyclic.gap_of_lt (Nat.lt_of_not_le hle) hcur]
    split <;> omega

section Loop

universe u

variable {σ : Type u} (nm : Netmap σ)

/-! ## One turn -/

/-- The frame of the turn is answered with `NEED_SEND`. -/
def Sends (st : RingLoop σ) : Prop := (onPacket nm st.frame st.db).1 &&& needSend ≠ 0

instance (st : RingLoop σ) : Decidable (Sends nm st) := inferInstanceAs (Decidable (_ ≠ _))

/-- The packet as the handler of the turn leaves it. -/
def answer (st : RingLoop σ) : Packet := (onPacket nm st.frame st.db).2.1

/-- The slots of a turn after `Send`. -/
def sentSlots (st : RingLoop σ) : NetmapSlot × NetmapSlot :=
  send (checkLen (st.rx.slot st.rxCur)) (st.tx.slot st.txCur) (answer nm st)

variable (st : RingLoop σ)

/-- The buffers after a turn: the handler has rewritten the frame in place. -/
def turnBuf : Nat → Mem :=
  Function.update st.buf (checkLen (st.rx.slot st.rxCur)).bufIdx (answer nm st).data

variable {nm st} in
theorem ringTurn_of_sends (h : Sends nm st) :
    ringTurn nm st =
      { rx := st.rx.setSlot st.rxCur (sentSlots nm st).1
        tx := st.tx.setSlot st.txCur (sentSlots nm st).2
        buf := turnBuf nm st
        db := (onPacket nm st.frame st.db).2.2
        rxCur := Cyclic.next st.rx.numSlots st.rxCur
        txCur := Cyclic.next st.tx.numSlots st.txCur
        processCount := st.processCount + 1 } :=
  if_pos h

variable {nm st} in
theorem ringTurn_of_not_sends (h : ¬ Sends nm st) :
    ringTurn nm st =
      { rx := st.rx.setSlot st.rxCur (checkLen (st.rx.slot st.rxCur))
        tx := st.tx
        buf := turnBuf nm st
        db := (onPacket nm st.frame st.db).2.2
        rxCur := Cyclic.next st.rx.numSlots st.rxCur
        txCur := st.txCur
        processCount := st.processCount + 1 } :=
  if_neg h

theorem rx_ringTurn :
    (ringTurn nm st).rx = st.rx.setSlot st.rxCur
      (if Sends nm st then (sentSlots nm st).1 else checkLen (st.rx.slot st.rxCur)) := by
  by_cases h : Sends nm st
  · rw [ringTurn_of_sends h, if_pos h]
  · rw [ringTurn_of_not_sends h, if_neg h]

theorem tx_ringTurn :
    (ringTurn nm st).tx =
      if Sends nm st then st.tx.setSlot st.txCur (sentSlots nm st).2 else st.tx := by
  by_cases h : Sends nm st
  · rw [ringTurn_of_sends h, if_pos h]
  · rw [ringTurn_of_not_sends h, if_neg h]

theorem rxCur_ringTurn : (ringTurn nm st).rxCur = Cyclic.next st.rx.numSlots st.rxCur := by
  by_cases h : Sends nm st
  · rw [ringTurn_of_sends h]
  · rw [ringTurn_of_not_sends h]

theorem txCur_ringTurn :
    (ringTurn nm st).txCur =
      if Sends nm st then Cyclic.next st.tx.numSlots st.txCur else st.txCur := by
  by_cases h : Sends nm st
  · rw [ringTurn_of_sends h, if_pos h]
  · rw [ringTurn_of_not_sends h, if_neg h]

theorem processCount_ringTurn : (ringTurn nm st).processCount = st.processCount + 1 := by
  by_cases h : Sends nm st
  · rw [ringTurn_of_sends h]
  · rw [ringTurn_of_not_sends h]

/-- The two rings have the same sizes and marks, whatever their slots are. -/
def SameShape (st st' : RingLoop σ) : Prop :=
  (∃ s, st'.rx = { st.rx with slot := s }) ∧ ∃ s, st'.tx = { st.tx with slot := s }

theorem sameShape_ringTurn : SameShape st (ringTurn nm st) := by
  refine ⟨⟨_, rx_ringTurn nm st⟩, ?_⟩
  rw [tx_ringTurn]
  split
  · exact ⟨_, rfl⟩
  · exact ⟨_, rfl⟩

theorem SameShape.trans {st st' st'' : RingLoop σ} (h : SameShape st st')
    (h' : SameShape st' st'') : SameShape st st'' := by
  rcases h with ⟨⟨_, hrx⟩, _, htx⟩
  rcases h' with ⟨⟨s, hrx'⟩, t, htx'⟩
  exact ⟨⟨s, by rw [hrx', hrx]⟩, t, by rw [htx', htx]⟩

theorem SameShape.numSlots {st st' : RingLoop σ} (h : SameShape st st') :
    st'.rx.numSlots = st.rx.numSlots ∧ st'.tx.numSlots = st.tx.numSlots := by
  rcases h with ⟨⟨_, hrx⟩, _, htx⟩
  rw [hrx, htx]
  exact ⟨rfl, rfl⟩

/-- The cursors of the loop are positions of their rings. -/
structure OnRings (st : RingLoop σ) : Prop where
  rx : st.rxCur < st.rx.numSlots
  tx : st.txCur < st.tx.numSlots

variable {st}

theorem onRings_ringTurn (h : OnRings st) : OnRings (ringTurn nm st) := by
  have hshape := (sameShape_ringTurn nm st).numSlots
  refine ⟨?_, ?_⟩
  · rw [rxCur_ringTurn, hshape.1]
    exact Cyclic.next_lt h.rx
  · rw [txCur_ringTurn, hshape.2]
    split
    · exact Cyclic.next_lt h.tx
    · exact h.tx

/-! ## The turns of a batch -/

/-- The states in which the turns start. -/
def turnStates : Nat → RingLoop σ → List (RingLoop σ)
  | 0, _ => []
  | n + 1, st => st :: turnStates n (ringTurn nm st)

/-- The turns whose frame is answered. -/
def answeredTurns (n : Nat) (st : RingLoop σ) : List (RingLoop σ) :=
  (turnStates nm n st).filter fun st => decide (Sends nm st)

theorem answeredTurns_succ_of_sends (n : Nat) (h : Sends nm st) :
    answeredTurns nm (n + 1) st = st :: answeredTurns nm n (ringTurn nm st) := by
  simp [answeredTurns, turnStates, h]

theorem answeredTurns_succ_of_not_sends (n : Nat) (h : ¬ Sends nm st) :
    answeredTurns nm (n + 1) st = answeredTurns nm n (ringTurn nm st) := by
  simp [answeredTurns, turnStates, h]

theorem length_turnStates (n : Nat) (st : RingLoop σ) : (turnStates nm n st).length = n := by
  induction n generalizing st with
  | zero =>
      rfl
  | succ n ih =>
      rw [turnStates, List.length_cons, ih]

theorem length_answeredTurns_le (n : Nat) (st : RingLoop σ) :
    (answeredTurns nm n st).length ≤ n := by
  have hle := List.length_filter_le (fun st => decide (Sends nm st)) (turnStates nm n st)
  rwa [length_turnStates] at hle

/-! ## Cursors -/

theorem sameShape_ringLoop (n : Nat) (st : RingLoop σ) : SameShape st (ringLoop nm n st) := by
  induction n generalizing st with
  | zero =>
      exact ⟨⟨_, rfl⟩, _, rfl⟩
  | succ n ih =>
      exact (sameShape_ringTurn nm st).trans (ih _)

theorem processCount_ringLoop (n : Nat) (st : RingLoop σ) :
    (ringLoop nm n st).processCount = st.processCount + n := by
  induction n generalizing st with
  | zero =>
      rfl
  | succ n ih =>
      rw [ringLoop, ih, processCount_ringTurn]
      omega

/-- The rx slots are taken in ring order. -/
theorem visited_turnStates (n : Nat) (h : OnRings st) :
    (turnStates nm n st).map RingLoop.rxCur = Cyclic.arc st.rx.numSlots st.rxCur n := by
  induction n generalizing st with
  | zero =>
      rfl
  | succ n ih =>
      rw [turnStates, List.map_cons, ih (onRings_ringTurn nm h), rxCur_ringTurn,
        (sameShape_ringTurn nm st).numSlots.1, Cyclic.arc_succ h.rx]

theorem rxCur_ringLoop (n : Nat) (h : OnRings st) :
    (ringLoop nm n st).rxCur = Cyclic.advance st.rx.numSlots st.rxCur n := by
  induction n generalizing st with
  | zero =>
      exact (Cyclic.advance_zero h.rx).symm
  | succ n ih =>
      rw [ringLoop, ih (onRings_ringTurn nm h), rxCur_ringTurn,
        (sameShape_ringTurn nm st).numSlots.1, Cyclic.advance_next h.rx]

theorem txCur_ringLoop (n : Nat) (h : OnRings st) :
    (ringLoop nm n st).txCur =
      Cyclic.advance st.tx.numSlots st.txCur (answeredTurns nm n st).length := by
  induction n generalizing st with
  | zero =>
      exact (Cyclic.advance_zero h.tx).symm
  | succ n ih =>
      rw [ringLoop, ih (onRings_ringTurn nm h), txCur_ringTurn,
        (sameShape_ringTurn nm st).numSlots.2]
      by_cases hsends : Sends nm st
      · rw [if_pos hsends, Cyclic.advance_next h.tx, answeredTurns_succ_of_sends nm n hsends,
          List.length_cons]
      · rw [if_neg hsends, answeredTurns_succ_of_not_sends nm n hsends]

/-! ## Slots -/

theorem slot_setSlot_self (r : NetmapRing) (i : Nat) (s : NetmapSlot) :
    (r.setSlot i s).slot i = s := Function.update_self _ _ _

theorem slot_setSlot_of_ne {r : NetmapRing} {i j : Nat} (h : j ≠ i) (s : NetmapSlot) :
    (r.setSlot i s).slot j = r.slot j := Function.update_of_ne h _ _

theorem rx_slot_ringTurn {i : Nat} (h : i ≠ st.rxCur) :
    (ringTurn nm st).rx.slot i = st.rx.slot i := by
  rw [rx_ringTurn, slot_setSlot_of_ne h]

theorem tx_slot_ringTurn {i : Nat} (h : Sends nm st → i ≠ st.txCur) :
    (ringTurn nm st).tx.slot i = st.tx.slot i := by
  rw [tx_ringTurn]
  split
  · rename_i hsends
    exact slot_setSlot_of_ne (h hsends) _
  · rfl

/-- Outside the arc of the batch the rx slots stay. -/
theorem rx_slot_ringLoop (n : Nat) (h : OnRings st) {i : Nat}
    (hi : i ∉ Cyclic.arc st.rx.numSlots st.rxCur n) :
    (ringLoop nm n st).rx.slot i = st.rx.slot i := by
  induction n generalizing st with
  | zero =>
      rfl
  | succ n ih =>
      rw [Cyclic.arc_succ h.rx, List.mem_cons, not_or] at hi
      have hrest := hi.2
      rw [← rxCur_ringTurn nm st, ← (sameShape_ringTurn nm st).numSlots.1] at hrest
      rw [ringLoop, ih (onRings_ringTurn nm h) hrest, rx_slot_ringTurn nm hi.1]

/-- Outside the arc of its answers the tx slots stay. -/
theorem tx_slot_ringLoop (n : Nat) (h : OnRings st) {i : Nat}
    (hi : i ∉ Cyclic.arc st.tx.numSlots st.txCur (answeredTurns nm n st).length) :
    (ringLoop nm n st).tx.slot i = st.tx.slot i := by
  induction n generalizing st with
  | zero =>
      rfl
  | succ n ih =>
      have hcur := txCur_ringTurn nm st
      have hnum := (sameShape_ringTurn nm st).numSlots.2
      by_cases hsends : Sends nm st
      · rw [answeredTurns_succ_of_sends nm n hsends, List.length_cons, Cyclic.arc_succ h.tx,
          List.mem_cons, not_or] at hi
        rw [if_pos hsends] at hcur
        have hrest := hi.2
        rw [← hcur, ← hnum] at hrest
        rw [ringLoop, ih (onRings_ringTurn nm h) hrest, tx_slot_ringTurn nm fun _ => hi.1]
      · rw [answeredTurns_succ_of_not_sends nm n hsends] at hi
        rw [if_neg hsends] at hcur
        rw [← hcur, ← hnum] at hi
        rw [ringLoop, ih (onRings_ringTurn nm h) hi,
          tx_slot_ringTurn nm fun hyes => absurd hyes hsends]

/-- What an answer puts into its tx slot: the buffer of the frame and the length of the packet. -/
def answerOf (st : RingLoop σ) : Nat × Nat :=
  ((st.rx.slot st.rxCur).bufIdx, (answer nm st).len % 65536)

def NetmapSlot.content (s : NetmapSlot) : Nat × Nat := (s.bufIdx, s.len)

theorem bufIdx_checkLen (s : NetmapSlot) : (checkLen s).bufIdx = s.bufIdx := by
  unfold checkLen
  split <;> rfl

theorem flags_checkLen (s : NetmapSlot) : (checkLen s).flags = s.flags := by
  unfold checkLen
  split <;> rfl

theorem content_sentSlots (st : RingLoop σ) : (sentSlots nm st).2.content = answerOf nm st :=
  congrArg (fun b => (b, (answer nm st).len % 65536)) (bufIdx_checkLen _)

/-- The tx slots from the cursor on hold the answers in the order of their frames. -/
theorem filled_ringLoop (n : Nat) (h : OnRings st) (hn : n ≤ st.tx.numSlots) :
    (Cyclic.arc st.tx.numSlots st.txCur (answeredTurns nm n st).length).map
        (fun i => ((ringLoop nm n st).tx.slot i).content) =
      (answeredTurns nm n st).map (answerOf nm) := by
  induction n generalizing st with
  | zero =>
      rfl
  | succ n ih =>
      have hcur := txCur_ringTurn nm st
      have hnum := (sameShape_ringTurn nm st).numSlots.2
      have hnext := onRings_ringTurn nm h
      have hrest := ih hnext (by omega)
      by_cases hsends : Sends nm st
      · rw [if_pos hsends] at hcur
        rw [hcur, hnum] at hrest
        rw [answeredTurns_succ_of_sends nm n hsends, List.length_cons, Cyclic.arc_succ h.tx,
          List.map_cons, List.map_cons]
        refine congr (congrArg List.cons ?_) hrest
        -- The later answers do not come back to the first slot.
        have hle := length_answeredTurns_le nm n (ringTurn nm st)
        have hnot := Cyclic.not_mem_arc_next h.tx (Nat.lt_of_lt_of_le (Nat.lt_succ_of_le hle) hn)
        rw [← hcur, ← hnum] at hnot
        rw [ringLoop, tx_slot_ringLoop nm n hnext hnot, tx_ringTurn, if_pos hsends,
          slot_setSlot_self, content_sentSlots]
      · rw [if_neg hsends] at hcur
        rw [hcur, hnum] at hrest
        rw [answeredTurns_succ_of_not_sends nm n hsends]
        exact hrest

/-! ## Buffers -/

/-- The buffer indexes of the rx ring, then those of the tx ring. -/
def bufIdxs (rx tx : NetmapRing) : List Nat :=
  Lib.entries rx.numSlots (fun i => (rx.slot i).bufIdx) ++
    Lib.entries tx.numSlots fun i => (tx.slot i).bufIdx

theorem bufIdx_setSlot (r : NetmapRing) (i : Nat) (s : NetmapSlot) :
    (fun j => ((r.setSlot i s).slot j).bufIdx) =
      Function.update (fun j => (r.slot j).bufIdx) i s.bufIdx := by
  funext j
  by_cases h : j = i
  · subst h
    rw [slot_setSlot_self, Function.update_self]
  · rw [slot_setSlot_of_ne h, Function.update_of_ne h]

/-- An answer exchanges two buffers, and any other turn moves none. -/
theorem bufIdxs_ringTurn (h : OnRings st) :
    (bufIdxs (ringTurn nm st).rx (ringTurn nm st).tx).Perm (bufIdxs st.rx st.tx) := by
  by_cases hsends : Sends nm st
  · have hrx : (sentSlots nm st).1.bufIdx = (st.tx.slot st.txCur).bufIdx := rfl
    have htx : (sentSlots nm st).2.bufIdx = (st.rx.slot st.rxCur).bufIdx := bufIdx_checkLen _
    rw [ringTurn_of_sends hsends, bufIdxs, bufIdx_setSlot, bufIdx_setSlot, hrx, htx]
    exact perm_exchange h.rx h.tx (fun i => (st.rx.slot i).bufIdx) fun i => (st.tx.slot i).bufIdx
  · rw [ringTurn_of_not_sends hsends, bufIdxs, bufIdx_setSlot, bufIdx_checkLen,
      Function.update_eq_self]
    exact List.Perm.refl _

theorem bufIdxs_ringLoop (n : Nat) (h : OnRings st) :
    (bufIdxs (ringLoop nm n st).rx (ringLoop nm n st).tx).Perm (bufIdxs st.rx st.tx) := by
  induction n generalizing st with
  | zero =>
      exact List.Perm.refl _
  | succ n ih =>
      exact (ih (onRings_ringTurn nm h)).trans (bufIdxs_ringTurn nm h)

/-- Compared with `s`, the slot has the same buffer or says that it has another one. -/
def Marked (s s' : NetmapSlot) : Prop := s'.bufIdx ≠ s.bufIdx → s'.flags &&& nsBufChanged ≠ 0

theorem marked_of_or {s s' : NetmapSlot} {flags : BitVec 16}
    (h : s'.flags = flags ||| nsBufChanged) : Marked s s' := by
  have hand : (flags ||| nsBufChanged) &&& nsBufChanged = nsBufChanged := by
    ext i hi
    rw [BitVec.getElem_and, BitVec.getElem_or]
    cases flags[i] <;> simp
  intro _
  rw [h, hand]
  decide

/-- Every slot of both rings is marked against the slots `rx` and `tx`. -/
def AllMarked (rx tx : Nat → NetmapSlot) (rx' tx' : NetmapRing) : Prop :=
  ∀ i, Marked (rx i) (rx'.slot i) ∧ Marked (tx i) (tx'.slot i)

theorem allMarked_ringTurn {rx tx : Nat → NetmapSlot} (h : AllMarked rx tx st.rx st.tx) :
    AllMarked rx tx (ringTurn nm st).rx (ringTurn nm st).tx := by
  intro i
  rw [rx_ringTurn, tx_ringTurn]
  refine ⟨?_, ?_⟩
  · by_cases hi : i = st.rxCur
    · subst hi
      rw [slot_setSlot_self]
      split
      · exact marked_of_or rfl
      · have hold := (h st.rxCur).1
        unfold Marked at hold ⊢
        rwa [bufIdx_checkLen, flags_checkLen]
    · rw [slot_setSlot_of_ne hi]
      exact (h i).1
  · split
    · by_cases hi : i = st.txCur
      · subst hi
        rw [slot_setSlot_self]
        exact marked_of_or rfl
      · rw [slot_setSlot_of_ne hi]
        exact (h i).2
    · exact (h i).2

theorem allMarked_ringLoop {rx tx : Nat → NetmapSlot} (n : Nat)
    (h : AllMarked rx tx st.rx st.tx) :
    AllMarked rx tx (ringLoop nm n st).rx (ringLoop nm n st).tx := by
  induction n generalizing st with
  | zero =>
      exact h
  | succ n ih =>
      exact ih (allMarked_ringTurn nm h)

end Loop

end Arch
end NmMemcached
