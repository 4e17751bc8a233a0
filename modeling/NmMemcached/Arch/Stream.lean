import NmMemcached.Arch.Queues

/-!
# Stream — a worker over its whole life

A poll that finds the rings ready is a wake-up of the server of `Arch.Queues`, and what the kernel
does is an arrival or a departure, so a run of polls and kernel steps in any order is a run of that
server (`refines_run`).

* No frame is lost, served twice or overtaken, and neither is an answer (`exactlyOnce_run`).
* As many polls as frames wait, each with room for an answer, empty the rings (`emptied_run`).
-/

namespace NmMemcached
namespace Arch

open Lib Base Net

section Stream

variable {σ : Type}

/-! ## A poll -/

/-- What the wire sees of a worker. -/
def queues (a : Nat) (s : Port σ) : Fifo.State Frame Frame σ :=
  { waiting := waitingFrames (pairLoop (ringsAt s.toRings a))
    queued := queuedFrames (pairLoop (ringsAt s.toRings a))
    left := s.wire
    memory := s.db }

/-- A ring keeps one slot free. -/
def roomOf (a : Nat) (s : Port σ) : Fifo.Bounds :=
  { waiting := (s.rx a).numSlots - 1
    queued := (s.tx a).numSlots - 1 }

/-- The steps of the server that an event comes to. -/
def toFifo : PortEvent σ → List (Fifo.Event Frame Frame σ)
  | .poll nm res => if res.Ready then [.wake (answerFrame nm)] else []
  | .received f _ => [.arrive { f with len := f.len % 65536 }]
  | .transmitted _ => [.leave]
  | .ringFlags _ _ => []
  | .database db => [.outside db]

/-- A search serves the frames that wait and counts them. -/
theorem serves_searchValidRing (nm : Netmap σ) {a : Nat} {r : Rings σ} (h : Owned a r) :
    ∃ ret r', searchValidRing nm (oneRing a) (searchBound (oneRing a) r) r = some (ret, r') ∧
      Owned a r' ∧ (r'.rx a).numSlots = (r.rx a).numSlots ∧
      (r'.tx a).numSlots = (r.tx a).numSlots ∧
      (waitingFrames (pairLoop (ringsAt r' a)), queuedFrames (pairLoop (ringsAt r' a)), r'.db) =
        wakeUp nm (pairLoop (ringsAt r a)) ∧
      ret + (waitingFrames (pairLoop (ringsAt r' a))).length =
        (waitingFrames (pairLoop (ringsAt r a))).length := by
  rcases loop_of_measure_lt (fun _ _ hs hstep => searching_step h hs hstep)
    (searching_start nm h) (Nat.lt_succ_self _) with ⟨s, hloop, hend, hs⟩
  rcases hs.draining with ⟨ss, hdraining⟩
  have hmem : a ∈ (oneRing a).rxRange := Finset.mem_Icc.2 ⟨Nat.le_refl a, Nat.le_refl a⟩
  have hmem' : a ∈ (oneRing a).txRange := Finset.mem_Icc.2 ⟨Nat.le_refl a, Nat.le_refl a⟩
  have hrx := hdraining.rx a hmem
  have hdone : nmRingEmpty (s.rx a) = true ∨ nmRingEmpty (s.tx a) = true := by
    rcases hdraining.done hend with hrxDone | htxDone
    · exact Or.inl (hrxDone a hmem)
    · exact Or.inr (htxDone a hmem')
  refine ⟨(BitVec.ofNat 32 s.m).toInt, s.toRings, ?_, hs.owned, hrx.numSlots,
    (hdraining.tx a hmem').numSlots, ?_, ?_⟩
  · rw [searchValidRing, searchBound, hloop]
    rfl
  · rw [← hs.same]
    exact (wakeUp_of_done (p := ringsAt s.toRings a) hs.owned.tx hs.owned.rx hdone).symm
  · have hret := hdraining.ret (fits_of_owned h)
    have hsum : (oneRing a).rxRange = {a} := Finset.Icc_self a
    rw [hsum, Finset.sum_singleton] at hret
    have hway := hrx.way
    rw [hret, waitingFrames, waitingFrames, length_framesAt, length_framesAt]
    change ((advanced (r.rx a) (s.rx a) : Nat) : Int) + (pending (s.rx a) : Nat) =
      (pending (r.rx a) : Nat)
    omega

/-- What a step of a worker and its kernel keeps and what it comes to. -/
structure Refines (fs : List (Fifo.Event Frame Frame σ)) (a : Nat) (s s' : Port σ) : Prop where
  owned : Owned a s'.toRings
  room : roomOf a s' = roomOf a s
  queues : queues a s' = run (Fifo.step (roomOf a s)) (queues a s) fs

theorem queues_countPackets (a : Nat) (s : Port σ) (pktcnt : Int) :
    queues a (countPackets s pktcnt) = queues a s ∧
      (countPackets s pktcnt).toRings = s.toRings := by
  unfold countPackets
  split <;> exact ⟨rfl, rfl⟩

theorem roomOf_congr {a : Nat} {s s' : Port σ} (hrx : (s'.rx a).numSlots = (s.rx a).numSlots)
    (htx : (s'.tx a).numSlots = (s.tx a).numSlots) : roomOf a s' = roomOf a s := by
  rw [roomOf, roomOf, hrx, htx]

/-- A poll that finds the rings ready is a wake-up of the server. -/
theorem refines_poll {a : Nat} {s : Port σ} (h : Owned a s.toRings) (nm : Netmap σ)
    {res : PollResult} (hready : res.Ready) :
    ∃ pktcnt : Nat,
      Refines [.wake (answerFrame nm)] a s (poll (oneRing a) nm res s).2 ∧
      pktcnt = (Fifo.turns (roomOf a s) (queues a s) (.wake (answerFrame nm))).length ∧
      (poll (oneRing a) nm res s).2.pktCount = (countPackets s pktcnt).pktCount ∧
      (poll (oneRing a) nm res s).2.evtCount = (countPackets s pktcnt).evtCount := by
  rcases serves_searchValidRing nm h with ⟨ret, r', hsearch, howned, hrx, htx, hserve, hret⟩
  have hpos : ¬ res.ret ≤ 0 := Int.not_le.2 hready.1
  have hpoll : (poll (oneRing a) nm res s).2 = countPackets { s with toRings := r' } ret := by
    rw [poll, if_neg hpos, if_pos hready.2, hsearch]
  have hserved : (waitingFrames (pairLoop (ringsAt r' a)), queuedFrames (pairLoop (ringsAt r' a)),
      r'.db) = Fifo.serve (roomOf a s).queued (answerFrame nm) (queues a s).waiting
        (queues a s).queued (queues a s).memory := hserve
  -- The count is the number of the turns.
  have hcount : ret =
      ((Fifo.turns (roomOf a s) (queues a s) (.wake (answerFrame nm))).length : Int) := by
    have hsplit := congrArg List.length (Fifo.requests_serve (roomOf a s).queued (answerFrame nm)
      (queues a s).waiting (queues a s).queued (queues a s).memory)
    have hrest : waitingFrames (pairLoop (ringsAt r' a)) =
        (Fifo.serve (roomOf a s).queued (answerFrame nm) (queues a s).waiting (queues a s).queued
          (queues a s).memory).1 := congrArg Prod.fst hserved
    rw [← hrest, List.length_append, List.length_map] at hsplit
    have hlen : (queues a s).waiting.length =
        (waitingFrames (pairLoop (ringsAt s.toRings a))).length := rfl
    simp only [Fifo.turns]
    omega
  rcases queues_countPackets a { s with toRings := r' } ret with ⟨hqueues, hrings⟩
  refine ⟨_, ⟨?_, ?_, ?_⟩, rfl, ?_, ?_⟩
  · rw [hpoll, hrings]
    exact howned
  · rw [hpoll]
    refine roomOf_congr ?_ ?_
    · rw [hrings]
      exact hrx
    · rw [hrings]
      exact htx
  · rw [hpoll, hqueues]
    simp only [run_cons, run_nil, Fifo.step, ← hserved]
    rfl
  · rw [hpoll, hcount]
    unfold countPackets
    split <;> rfl
  · rw [hpoll, hcount]
    unfold countPackets
    split <;> rfl

theorem poll_of_not_ready (d : NmDesc) (nm : Netmap σ) {res : PollResult} (h : ¬ res.Ready)
    (s : Port σ) : (poll d nm res s).2 = s := by
  by_cases hret : res.ret ≤ 0
  · rw [poll, if_pos hret]
    split <;> rfl
  · have hpollin : ¬ res.pollin = true := fun hin => h ⟨Int.not_le.1 hret, hin⟩
    rw [poll, if_neg hret, if_neg hpollin]

/-! ## The kernel -/

theorem bufIdx_setSlot_self {r : NetmapRing} {i : Nat} {s : NetmapSlot}
    (h : s.bufIdx = (r.slot i).bufIdx) :
    (fun j => ((r.setSlot i s).slot j).bufIdx) = fun j => (r.slot j).bufIdx := by
  rw [bufIdx_setSlot, h, Function.update_eq_self]

/-- The kernel has a slot for a frame exactly when the queue is below its bound. -/
theorem room_iff {r : NetmapRing} (h : r.Wf) (hhead : r.head = r.cur) :
    nmRingNext r r.tail = r.head ↔
      ¬ Cyclic.gap r.numSlots r.cur r.tail < r.numSlots - 1 := by
  have hround := queued_add_room h
  have hzero : Cyclic.gap r.numSlots (Cyclic.next r.numSlots r.tail) r.cur = 0 ↔
      Cyclic.next r.numSlots r.tail = r.cur :=
    Cyclic.gap_eq_zero_iff (Cyclic.next_lt h.tail_lt) h.cur_lt
  have hnext : nmRingNext r r.tail = Cyclic.next r.numSlots r.tail := rfl
  rw [hnext, hhead, ← hzero]
  omega

/-- A frame that comes in is an arrival. -/
theorem refines_received {a : Nat} {s : Port σ} (h : Owned a s.toRings) (f : Frame)
    (flags : BitVec 16) : Refines [.arrive f] a s (received a f flags s) := by
  have hlen : (queues a s).waiting.length =
      Cyclic.gap (s.rx a).numSlots (s.rx a).cur (s.rx a).tail := length_framesAt _ _ _ _
  by_cases hfull : nmRingNext (s.rx a) (s.rx a).tail = (s.rx a).head
  · have hno := (room_iff h.rx h.rxHead).1 hfull
    rw [← hlen] at hno
    have hsame : received a f flags s = s := by
      simp only [received, if_pos hfull]
    rw [hsame]
    refine ⟨h, rfl, ?_⟩
    simp only [run_cons, run_nil, Fifo.step]
    exact (if_neg hno).symm
  · have hroom : Cyclic.gap (s.rx a).numSlots (s.rx a).cur (s.rx a).tail <
        (s.rx a).numSlots - 1 := by
      by_contra hno
      exact hfull ((room_iff h.rx h.rxHead).2 hno)
    have happart := apart_of_nodup h.nodup
    have hnext := Cyclic.next_lt h.rx.tail_lt
    obtain ⟨r', hr'⟩ : ∃ r' : NetmapRing, r' =
        { (s.rx a).setSlot (s.rx a).tail { (s.rx a).slot (s.rx a).tail with
            len := f.len, flags := flags } with tail := nmRingNext (s.rx a) (s.rx a).tail } :=
      ⟨_, rfl⟩
    obtain ⟨buf', hbuf'⟩ : ∃ buf', buf' =
        Function.update s.buf ((s.rx a).slot (s.rx a).tail).bufIdx f.data := ⟨_, rfl⟩
    have hs' : received a f flags s =
        { s with rx := Function.update s.rx a r', buf := buf' } := by
      rw [received, hr', hbuf', if_neg hfull]
    have hrx : (received a f flags s).rx a = r' := by
      rw [hs']
      exact Function.update_self _ _ _
    have hslotTail : r'.slot (s.rx a).tail = { (s.rx a).slot (s.rx a).tail with
        len := f.len, flags := flags } := by
      rw [hr']
      exact slot_setSlot_self _ _ _
    have hslotOf : ∀ j, j ≠ (s.rx a).tail → r'.slot j = (s.rx a).slot j := by
      intro j hne
      rw [hr']
      exact slot_setSlot_of_ne hne _
    have hbufIdx : (fun j => (r'.slot j).bufIdx) = fun j => ((s.rx a).slot j).bufIdx := by
      rw [hr']
      exact bufIdx_setSlot_self rfl
    have hnum : r'.numSlots = (s.rx a).numSlots := by rw [hr']; rfl
    have hcur : r'.cur = (s.rx a).cur := by rw [hr']; rfl
    have htail : r'.tail = Cyclic.next (s.rx a).numSlots (s.rx a).tail := by rw [hr']; rfl
    have hhead : r'.head = (s.rx a).head := by rw [hr']; rfl
    have htx : (received a f flags s).tx = s.tx := by rw [hs']
    refine ⟨?_, ?_, ?_⟩
    · refine ⟨h.index, ?_, ?_, ?_, ?_, ?_, ?_, ?_⟩
      · rw [hrx]
        refine ⟨by rw [hcur, hnum]; exact h.rx.cur_lt, by rw [htail, hnum]; exact hnext, ?_⟩
        rw [hnum]
        exact h.rx.numSlots_lt
      · rw [htx]
        exact h.tx
      · rw [hrx, hhead, hcur]
        exact h.rxHead
      · rw [htx]
        exact h.txHead
      · rw [hrx, hnum]
        exact h.rxRegion
      · rw [htx]
        exact h.txRegion
      · rw [hrx, htx, bufIdxs, hbufIdx, hnum]
        exact h.nodup
    · refine roomOf_congr ?_ ?_
      · rw [hrx, hnum]
      · rw [htx]
    · have hwaiting : framesAt buf' r' (s.rx a).cur
          (Cyclic.gap (s.rx a).numSlots (s.rx a).cur (s.rx a).tail + 1) =
            (queues a s).waiting ++ [f] := by
        rw [framesAt_concat, hnum, Cyclic.advance_gap h.rx.cur_lt h.rx.tail_lt, hslotTail, hbuf',
          Function.update_self]
        congr 1
        refine framesAt_congr hnum ?_
        intro j hj
        have hjlt := Cyclic.lt_of_mem_arc h.rx.cur_lt hj
        have hne : j ≠ (s.rx a).tail := by
          rintro rfl
          have hout := Cyclic.advance_not_mem_arc (i := (s.rx a).cur)
            (Cyclic.gap_lt h.rx.cur_lt (s.rx a).tail)
          rw [Cyclic.advance_gap h.rx.cur_lt h.rx.tail_lt] at hout
          exact hout hj
        rw [hslotOf j hne]
        exact ⟨rfl, Function.update_of_ne
          (happart.withinRx j hjlt _ h.rx.tail_lt hne) _ _⟩
      have hqueued : framesAt buf' (s.tx a) (Cyclic.next (s.tx a).numSlots (s.tx a).tail)
          (Cyclic.gap (s.tx a).numSlots (Cyclic.next (s.tx a).numSlots (s.tx a).tail)
            (s.tx a).cur) = (queues a s).queued := by
        refine framesAt_congr rfl ?_
        intro j hj
        have hjlt := Cyclic.lt_of_mem_arc (Cyclic.next_lt h.tx.tail_lt) hj
        rw [hbuf']
        exact ⟨rfl, Function.update_of_ne (happart.between _ h.rx.tail_lt j hjlt).symm _ _⟩
      have hstep : Fifo.step (roomOf a s) (queues a s) (.arrive f) =
          { queues a s with waiting := (queues a s).waiting ++ [f] } := by
        refine if_pos ?_
        rw [hlen]
        exact hroom
      rw [run_cons, run_nil, hstep, ← hwaiting, hs']
      have hgap : Cyclic.gap r'.numSlots r'.cur r'.tail =
          Cyclic.gap (s.rx a).numSlots (s.rx a).cur (s.rx a).tail + 1 := by
        rw [hnum, hcur, htail]
        exact Cyclic.gap_next h.rx.cur_lt h.rx.tail_lt (by omega)
      have hnewRx : waitingFrames (pairLoop (ringsAt
          { s.toRings with rx := Function.update s.rx a r', buf := buf' } a)) =
            framesAt buf' r' r'.cur (Cyclic.gap r'.numSlots r'.cur r'.tail) := by
        simp only [waitingFrames, pairLoop, ringsAt, Function.update_self]
      rw [queues, hnewRx, hgap, hcur]
      exact congrArg (fun q => ({ waiting := _, queued := q, left := _, memory := _ } :
        Fifo.State Frame Frame σ)) hqueued

/-- An answer that goes out is a departure. -/
theorem refines_transmitted {a : Nat} {s : Port σ} (h : Owned a s.toRings) (flags : BitVec 16) :
    Refines [.leave] a s (transmitted a flags s) := by
  have hnext := Cyclic.next_lt h.tx.tail_lt
  have hpending : nmTxPending (s.tx a) = true ↔
      Cyclic.gap (s.tx a).numSlots (Cyclic.next (s.tx a).numSlots (s.tx a).tail)
        (s.tx a).cur ≠ 0 := by
    rw [ne_eq, Cyclic.gap_eq_zero_iff hnext h.tx.cur_lt, nmTxPending, decide_eq_true_iff,
      h.txHead]
    exact Iff.rfl
  by_cases hnone : nmTxPending (s.tx a) = true
  · obtain ⟨k, hk⟩ := Nat.exists_eq_succ_of_ne_zero (hpending.1 hnone)
    have hlt := Cyclic.gap_lt hnext (s.tx a).cur
    obtain ⟨i, hi⟩ : ∃ i, i = Cyclic.next (s.tx a).numSlots (s.tx a).tail := ⟨_, rfl⟩
    rw [← hi] at hnext hk hlt
    obtain ⟨t', ht'⟩ : ∃ t' : NetmapRing, t' =
        { (s.tx a).setSlot i { (s.tx a).slot i with flags := flags } with tail := i } := ⟨_, rfl⟩
    have hs' : transmitted a flags s =
        { s with
          tx := Function.update s.tx a t'
          wire := s.wire ++ [⟨s.buf ((s.tx a).slot i).bufIdx, ((s.tx a).slot i).len⟩] } := by
      rw [transmitted, ht', hi, if_pos hnone]
      rfl
    have htx : (transmitted a flags s).tx a = t' := by
      rw [hs']
      exact Function.update_self _ _ _
    have hrx : (transmitted a flags s).rx = s.rx := by rw [hs']
    have hslots : ∀ j, t'.slot j =
        ((s.tx a).setSlot i { (s.tx a).slot i with flags := flags }).slot j := by
      intro j
      rw [ht']
    have hcontent : ∀ j, (t'.slot j).len = ((s.tx a).slot j).len ∧
        s.buf (t'.slot j).bufIdx = s.buf ((s.tx a).slot j).bufIdx := by
      intro j
      rw [hslots j]
      by_cases hj : j = i
      · rw [hj, slot_setSlot_self]
        exact ⟨rfl, rfl⟩
      · rw [slot_setSlot_of_ne hj]
        exact ⟨rfl, rfl⟩
    have hbufIdx : (fun j => (t'.slot j).bufIdx) = fun j => ((s.tx a).slot j).bufIdx := by
      rw [ht']
      exact bufIdx_setSlot_self rfl
    have hnum : t'.numSlots = (s.tx a).numSlots := by rw [ht']; rfl
    have hcur : t'.cur = (s.tx a).cur := by rw [ht']; rfl
    have htail : t'.tail = i := by rw [ht']
    have hhead : t'.head = (s.tx a).head := by rw [ht']; rfl
    refine ⟨⟨h.index, ?_, ?_, ?_, ?_, ?_, ?_, ?_⟩, ?_, ?_⟩
    · rw [hrx]
      exact h.rx
    · rw [htx]
      refine ⟨by rw [hcur, hnum]; exact h.tx.cur_lt, by rw [htail, hnum]; exact hnext, ?_⟩
      rw [hnum]
      exact h.tx.numSlots_lt
    · rw [hrx]
      exact h.rxHead
    · rw [htx, hhead, hcur]
      exact h.txHead
    · rw [hrx]
      exact h.rxRegion
    · rw [htx, hnum]
      exact h.txRegion
    · rw [htx, hrx, bufIdxs, hbufIdx, hnum]
      exact h.nodup
    · refine roomOf_congr ?_ ?_
      · rw [hrx]
      · rw [htx, hnum]
    · have hgap : Cyclic.gap (s.tx a).numSlots (Cyclic.next (s.tx a).numSlots i) (s.tx a).cur =
          k := by
        rw [Cyclic.next_eq_advance hnext, Cyclic.gap_advance hnext h.tx.cur_lt (by omega), hk]
        rfl
      -- The first queued answer is the one behind the tail.
      have hqueued : (queues a s).queued =
          ⟨s.buf ((s.tx a).slot i).bufIdx, ((s.tx a).slot i).len⟩ ::
            framesAt s.buf (s.tx a) (Cyclic.next (s.tx a).numSlots i) k := by
        rw [← framesAt_succ hnext, ← Nat.succ_eq_add_one, ← hk, hi]
        rfl
      have hrest : queuedFrames (pairLoop (ringsAt (transmitted a flags s).toRings a)) =
          framesAt s.buf (s.tx a) (Cyclic.next (s.tx a).numSlots i) k := by
        have hnew : queuedFrames (pairLoop (ringsAt (transmitted a flags s).toRings a)) =
            framesAt s.buf t' (Cyclic.next t'.numSlots t'.tail)
              (Cyclic.gap t'.numSlots (Cyclic.next t'.numSlots t'.tail) t'.cur) := by
          rw [hs']
          simp only [queuedFrames, pairLoop, ringsAt, Function.update_self]
        rw [hnew, hnum, htail, hcur, hgap]
        exact framesAt_congr hnum fun j _ => hcontent j
      have hstep : Fifo.step (roomOf a s) (queues a s) .leave =
          { queues a s with
            queued := framesAt s.buf (s.tx a) (Cyclic.next (s.tx a).numSlots i) k
            left := s.wire ++ [⟨s.buf ((s.tx a).slot i).bufIdx, ((s.tx a).slot i).len⟩] } := by
        simp only [Fifo.step, hqueued]
        rfl
      rw [run_cons, run_nil, hstep, queues, hrest]
      rw [hs']
      rfl
  · have hzero : Cyclic.gap (s.tx a).numSlots (Cyclic.next (s.tx a).numSlots (s.tx a).tail)
        (s.tx a).cur = 0 := by
      by_contra hne
      exact hnone (hpending.2 hne)
    have hsame : transmitted a flags s = s := by
      simp only [transmitted, if_neg hnone]
    have hnil : (queues a s).queued = [] := by
      apply List.eq_nil_of_length_eq_zero
      exact (length_framesAt _ _ _ _).trans hzero
    rw [hsame]
    refine ⟨h, rfl, ?_⟩
    simp only [run_cons, run_nil, Fifo.step, hnil]

/-! ## Runs -/

/-- Any step is the steps of the server it comes to. -/
theorem refines_portStep {a : Nat} {s : Port σ} (h : Owned a s.toRings) (e : PortEvent σ) :
    Refines (toFifo e) a s (portStep (oneRing a) a s e) := by
  cases e with
  | poll nm res =>
      by_cases hready : res.Ready
      · rcases refines_poll h nm hready with ⟨_, hrefines, _⟩
        rw [toFifo, if_pos hready]
        exact hrefines
      · rw [toFifo, if_neg hready, portStep, poll_of_not_ready _ nm hready]
        exact ⟨h, rfl, rfl⟩
  | received f flags =>
      exact refines_received h _ flags
  | transmitted flags =>
      exact refines_transmitted h flags
  | ringFlags rxFlags txFlags =>
      have hrx : (portStep (oneRing a) a s (.ringFlags rxFlags txFlags)).rx a =
          { s.rx a with flags := rxFlags } := Function.update_self _ _ _
      have htx : (portStep (oneRing a) a s (.ringFlags rxFlags txFlags)).tx a =
          { s.tx a with flags := txFlags } := Function.update_self _ _ _
      refine ⟨⟨h.index, ?_, ?_, ?_, ?_, ?_, ?_, ?_⟩, ?_, ?_⟩
      · rw [hrx]
        exact ⟨h.rx.cur_lt, h.rx.tail_lt, h.rx.numSlots_lt⟩
      · rw [htx]
        exact ⟨h.tx.cur_lt, h.tx.tail_lt, h.tx.numSlots_lt⟩
      · rw [hrx]
        exact h.rxHead
      · rw [htx]
        exact h.txHead
      · rw [hrx]
        exact h.rxRegion
      · rw [htx]
        exact h.txRegion
      · rw [hrx, htx]
        exact h.nodup
      · refine roomOf_congr ?_ ?_
        · rw [hrx]
        · rw [htx]
      · simp only [toFifo, run_nil, queues, ringsAt, hrx, htx]
        rfl
  | database db =>
      exact ⟨⟨h.index, h.rx, h.tx, h.rxHead, h.txHead, h.rxRegion, h.txRegion, h.nodup⟩, rfl, rfl⟩

/-- A run of a worker is a run of the server. -/
theorem refines_run {a : Nat} {s : Port σ} (h : Owned a s.toRings) (es : List (PortEvent σ)) :
    Refines (es.flatMap toFifo) a s (run (portStep (oneRing a) a) s es) := by
  induction es generalizing s with
  | nil =>
      exact ⟨h, rfl, rfl⟩
  | cons e es ih =>
      have hone := refines_portStep h e
      have hrest := ih hone.owned
      refine ⟨hrest.owned, hrest.room.trans hone.room, ?_⟩
      rw [run_cons, hrest.queues, hone.room, hone.queues, List.flatMap_cons, run_append]

/-! ## Nothing is lost -/

/-- The frame an event brings into the rx ring, if the kernel has a slot for it. -/
def arrival (a : Nat) (s : Port σ) : PortEvent σ → List Frame
  | .received f _ =>
      if nmRingNext (s.rx a) (s.rx a).tail = (s.rx a).head then []
      else [{ f with len := f.len % 65536 }]
  | _ => []

def arrivals (a : Nat) : Port σ → List (PortEvent σ) → List Frame
  | _, [] => []
  | s, e :: es => arrival a s e ++ arrivals a (portStep (oneRing a) a s e) es

theorem arrival_eq {a : Nat} {s : Port σ} (h : Owned a s.toRings) (e : PortEvent σ) :
    arrival a s e = Fifo.accepted (roomOf a s) (queues a s) (toFifo e) := by
  cases e with
  | poll nm res =>
      by_cases hready : res.Ready
      · rw [toFifo, if_pos hready]
        rfl
      · rw [toFifo, if_neg hready]
        rfl
  | received f flags =>
      have hlen : (queues a s).waiting.length =
          Cyclic.gap (s.rx a).numSlots (s.rx a).cur (s.rx a).tail := length_framesAt _ _ _ _
      have hroom := room_iff h.rx h.rxHead
      rw [← hlen] at hroom
      simp only [arrival, toFifo, Fifo.accepted, Fifo.along, Fifo.accepts, List.append_nil]
      by_cases hfull : nmRingNext (s.rx a) (s.rx a).tail = (s.rx a).head
      · rw [if_pos hfull]
        exact (if_neg (hroom.1 hfull)).symm
      · rw [if_neg hfull]
        exact (if_pos (Decidable.not_not.1 fun hno => hfull (hroom.2 hno))).symm
  | transmitted flags => rfl
  | ringFlags rxFlags txFlags => rfl
  | database db => rfl

theorem arrivals_eq {a : Nat} {s : Port σ} (h : Owned a s.toRings) (es : List (PortEvent σ)) :
    arrivals a s es = Fifo.accepted (roomOf a s) (queues a s) (es.flatMap toFifo) := by
  induction es generalizing s with
  | nil =>
      rfl
  | cons e es ih =>
      have hone := refines_portStep h e
      rw [arrivals, arrival_eq h e, ih hone.owned, hone.room, hone.queues, List.flatMap_cons]
      exact (Fifo.along_append _ _ _ _).symm

/-- `pkt_count_` and `evt_count_` count frames and polls that took any. -/
theorem counts_portStep {a : Nat} {s : Port σ} (h : Owned a s.toRings) (e : PortEvent σ) :
    Nat.ModEq 18446744073709551616 (portStep (oneRing a) a s e).pktCount
        (s.pktCount + (Fifo.batches (roomOf a s) (queues a s) (toFifo e)).flatten.length) ∧
      Nat.ModEq 18446744073709551616 (portStep (oneRing a) a s e).evtCount
        (s.evtCount + (Fifo.batches (roomOf a s) (queues a s) (toFifo e)).length) := by
  cases e with
  | poll nm res =>
      by_cases hready : res.Ready
      · rcases refines_poll h nm hready with ⟨pktcnt, _, hcnt, hpkt, hevt⟩
        have hbatches : Fifo.batches (roomOf a s) (queues a s) [.wake (answerFrame nm)] =
            Fifo.batch (roomOf a s) (queues a s) (.wake (answerFrame nm)) := List.append_nil _
        rw [toFifo, if_pos hready, hbatches, portStep, hpkt, hevt]
        unfold Fifo.batch countPackets
        by_cases hnil : Fifo.turns (roomOf a s) (queues a s) (.wake (answerFrame nm)) = []
        · rw [hnil] at hcnt
          rw [if_pos hnil, hcnt]
          exact ⟨rfl, rfl⟩
        · have hpos : 0 < pktcnt := hcnt ▸ List.length_pos_of_ne_nil hnil
          have hcast : (0 : Int) < (pktcnt : Int) := Int.natCast_pos.2 hpos
          rw [if_neg hnil, if_pos hcast, Int.toNat_natCast, List.flatten_singleton, ← hcnt]
          exact ⟨Nat.mod_modEq _ _, Nat.mod_modEq _ _⟩
      · rw [toFifo, if_neg hready, portStep, poll_of_not_ready _ nm hready]
        exact ⟨rfl, rfl⟩
  | received f flags =>
      have hcounts : (received a { f with len := f.len % 65536 } flags s).pktCount = s.pktCount ∧
          (received a { f with len := f.len % 65536 } flags s).evtCount = s.evtCount := by
        unfold received
        simp only
        split <;> exact ⟨rfl, rfl⟩
      rw [portStep, hcounts.1, hcounts.2]
      exact ⟨rfl, rfl⟩
  | transmitted flags =>
      have hcounts : (transmitted a flags s).pktCount = s.pktCount ∧
          (transmitted a flags s).evtCount = s.evtCount := by
        unfold transmitted
        simp only
        split <;> exact ⟨rfl, rfl⟩
      rw [portStep, hcounts.1, hcounts.2]
      exact ⟨rfl, rfl⟩
  | ringFlags rxFlags txFlags => exact ⟨rfl, rfl⟩
  | database db => exact ⟨rfl, rfl⟩

theorem counts_run {a : Nat} {s : Port σ} (h : Owned a s.toRings) (es : List (PortEvent σ)) :
    Nat.ModEq 18446744073709551616 (run (portStep (oneRing a) a) s es).pktCount
        (s.pktCount +
          (Fifo.batches (roomOf a s) (queues a s) (es.flatMap toFifo)).flatten.length) ∧
      Nat.ModEq 18446744073709551616 (run (portStep (oneRing a) a) s es).evtCount
        (s.evtCount + (Fifo.batches (roomOf a s) (queues a s) (es.flatMap toFifo)).length) := by
  induction es generalizing s with
  | nil =>
      exact ⟨rfl, rfl⟩
  | cons e es ih =>
      have hone := refines_portStep h e
      rcases counts_portStep h e with ⟨hpkt, hevt⟩
      rcases ih hone.owned with ⟨hpkts, hevts⟩
      have hsplit : Fifo.batches (roomOf a s) (queues a s) ((e :: es).flatMap toFifo) =
          Fifo.batches (roomOf a s) (queues a s) (toFifo e) ++
            Fifo.batches (roomOf a s) (queues a (portStep (oneRing a) a s e))
              (es.flatMap toFifo) := by
        rw [List.flatMap_cons, hone.queues]
        exact Fifo.along_append _ _ _ _
      rw [hone.room] at hpkts hevts
      rw [run_cons, hsplit, List.flatten_append, List.length_append, List.length_append,
        ← Nat.add_assoc, ← Nat.add_assoc]
      exact ⟨hpkts.trans (hpkt.add_right _), hevts.trans (hevt.add_right _)⟩

/-- The queued answers go out, then the worker polls. -/
def pollRound (a : Nat) (s : Port σ) (flags : BitVec 16) (res : PollResult) (nm : Netmap σ) :
    List (PortEvent σ) :=
  List.replicate ((s.tx a).numSlots - 1) (.transmitted flags) ++ [.poll nm res]

/-- As many rounds as frames wait, and the last answers go out: the rx ring is empty and nothing
is left to send. -/
theorem emptied_run {a : Nat} {s : Port σ} (h : Owned a s.toRings)
    (hroom : 2 ≤ (s.tx a).numSlots) (flags : BitVec 16) {res : PollResult} (hready : res.Ready)
    {nms : List (Netmap σ)} (hnms : pending (s.rx a) ≤ nms.length) :
    nmRingEmpty ((run (portStep (oneRing a) a) s
        (nms.flatMap (pollRound a s flags res) ++
          List.replicate ((s.tx a).numSlots - 1) (.transmitted flags))).rx a) = true ∧
      nmTxPending ((run (portStep (oneRing a) a) s
        (nms.flatMap (pollRound a s flags res) ++
          List.replicate ((s.tx a).numSlots - 1) (.transmitted flags))).tx a) = false := by
  obtain ⟨es, hes⟩ : ∃ es, es = nms.flatMap (pollRound a s flags res) ++
      List.replicate ((s.tx a).numSlots - 1) (.transmitted flags) := ⟨_, rfl⟩
  have hleaves : ∀ n : Nat, (List.replicate n (.transmitted flags : PortEvent σ)).flatMap toFifo =
      List.replicate n .leave := by
    intro n
    induction n with
    | zero =>
        rfl
    | succ n ih =>
        rw [List.replicate_succ, List.flatMap_cons, ih]
        rfl
  have hround : ∀ nm : Netmap σ, (pollRound a s flags res nm).flatMap toFifo =
      Fifo.round (roomOf a s) (answerFrame nm) := by
    intro nm
    have hpoll : toFifo (.poll nm res) = [.wake (answerFrame nm)] := if_pos hready
    rw [pollRound, List.flatMap_append, hleaves, List.flatMap_singleton, hpoll]
    rfl
  have hrounds : (nms.flatMap (pollRound a s flags res)).flatMap toFifo =
      (nms.map answerFrame).flatMap (Fifo.round (roomOf a s)) := by
    rw [List.flatMap_assoc, List.flatMap_map]
    exact congrArg (nms.flatMap ·) (funext hround)
  have hfifo : es.flatMap toFifo = (nms.map answerFrame).flatMap (Fifo.round (roomOf a s)) ++
      List.replicate (roomOf a s).queued .leave := by
    rw [hes, List.flatMap_append, hrounds, hleaves]
    rfl
  have hwithin : Fifo.Within (roomOf a s) (queues a s) := by
    have hlt := Cyclic.gap_lt h.rx.cur_lt (s.rx a).tail
    refine ⟨?_, ?_⟩
    · have hlen : (queues a s).waiting.length =
          Cyclic.gap (s.rx a).numSlots (s.rx a).cur (s.rx a).tail := length_framesAt _ _ _ _
      rw [hlen]
      exact Nat.le_sub_one_of_lt hlt
    · have hlen : (queues a s).queued.length = Cyclic.gap (s.tx a).numSlots
          (Cyclic.next (s.tx a).numSlots (s.tx a).tail) (s.tx a).cur := length_framesAt _ _ _ _
      rw [hlen]
      exact Nat.le_sub_one_of_lt (Cyclic.gap_lt (Cyclic.next_lt h.tx.tail_lt) _)
  have hcap : 0 < (roomOf a s).queued := Nat.sub_pos_of_lt hroom
  have hfs : (queues a s).waiting.length ≤ (nms.map (answerFrame (σ := σ))).length := by
    rw [List.length_map]
    exact Nat.le_trans (Nat.le_of_eq (length_framesAt _ _ _ _)) hnms
  have hrefines := refines_run h es
  have hdrain := Fifo.rounds_drain hcap hwithin hfs
  rw [← hfifo, ← hrefines.queues] at hdrain
  rw [← hes]
  obtain ⟨s', hs'⟩ : ∃ s', s' = run (portStep (oneRing a) a) s es := ⟨_, rfl⟩
  rw [← hs'] at hdrain hrefines ⊢
  refine ⟨?_, ?_⟩
  · rw [← pending_eq_zero_iff hrefines.owned.rx]
    have hlen := congrArg List.length hdrain.1
    exact (length_framesAt _ _ _ _).symm.trans hlen
  · have hlen : Cyclic.gap (s'.tx a).numSlots (Cyclic.next (s'.tx a).numSlots (s'.tx a).tail)
        (s'.tx a).cur = 0 :=
      (length_framesAt _ _ _ _).symm.trans (congrArg List.length hdrain.2)
    have hnext := Cyclic.next_lt hrefines.owned.tx.tail_lt
    rw [Cyclic.gap_eq_zero_iff hnext hrefines.owned.tx.cur_lt] at hlen
    have hhead := hrefines.owned.txHead
    rw [nmTxPending, decide_eq_false_iff_not, Decidable.not_not, hhead, ← hlen]
    rfl

end Stream

/-- The first rings of the example, in front of the first poll. -/
def demoPort : Port Unit :=
  { demoInterface with
    pktCount := 0
    evtCount := 0
    wire := [] }

theorem owned_demoPort : Owned 0 demoPort.toRings := by
  refine ⟨by decide, ?_, ?_, rfl, rfl, by decide, by decide, by decide⟩
  · exact ⟨by decide, by decide, by decide⟩
  · exact ⟨by decide, by decide, by decide⟩

/-- A poll that finds nothing ready, one that does, and the departure of what it queued. -/
def demoEvents : List (PortEvent Unit) :=
  [.poll demoNetmap ⟨0, false, false⟩, .poll demoNetmap ⟨1, false, true⟩, .transmitted 0]

/-- The rounds of the example. -/
def demoRounds : List (PortEvent Unit) :=
  [demoNetmap, demoNetmap, demoNetmap].flatMap (pollRound 0 demoPort 0 ⟨1, false, true⟩) ++
    List.replicate ((demoPort.tx 0).numSlots - 1) (.transmitted 0)

theorem emptied_demoPort :
    nmRingEmpty ((run (portStep (oneRing 0) 0) demoPort demoRounds).rx 0) = true ∧
      nmTxPending ((run (portStep (oneRing 0) 0) demoPort demoRounds).tx 0) = false := by
  unfold demoRounds
  exact emptied_run owned_demoPort (by decide) 0 (by decide) (by decide)

end Arch
end NmMemcached
