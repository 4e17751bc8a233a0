import NmMemcached.Arch.Ownership
import NmMemcached.Arch.Poll
import NmMemcached.Lib.Fifo

/-!
# Queues — the rings of a worker as two queues

Seen from the wire, a worker is a server between two bounded queues (`Lib.Fifo`): the frames that
wait in its rx ring and the answers that are queued in its tx ring.  The rings, the exchange of
buffers and the cursors are how the queues are kept.

A turn of `ProcessRing` takes the first waiting frame and queues its answer
(`waitingFrames_ringTurn`, `queuedFrames_ringTurn`), so it is the first step of a wake-up of the
server and leaves the rest of it (`wakeUp_ringTurn`); so do a call and a search, and where a search
stops there is nothing left (`wakeUp_of_done`).

The descriptor has one ring pair: `Netmap::Open` binds no more.
-/

namespace NmMemcached
namespace Arch

open Lib Base Net

/-! ## Frames in a ring -/

/-- The frames in the `k` slots from `i` on. -/
def framesAt (buf : Nat → Mem) (r : NetmapRing) (i k : Nat) : List Frame :=
  (Cyclic.arc r.numSlots i k).map fun j => ⟨buf (r.slot j).bufIdx, (r.slot j).len⟩

theorem length_framesAt (buf : Nat → Mem) (r : NetmapRing) (i k : Nat) :
    (framesAt buf r i k).length = k := by
  simp [framesAt, Cyclic.arc]

theorem framesAt_congr {buf buf' : Nat → Mem} {r r' : NetmapRing} {i k : Nat}
    (hnum : r'.numSlots = r.numSlots)
    (h : ∀ j ∈ Cyclic.arc r.numSlots i k,
      (r'.slot j).len = (r.slot j).len ∧ buf' (r'.slot j).bufIdx = buf (r.slot j).bufIdx) :
    framesAt buf' r' i k = framesAt buf r i k := by
  unfold framesAt
  rw [hnum]
  apply List.map_congr_left
  intro j hj
  rw [(h j hj).1, (h j hj).2]

theorem framesAt_succ {r : NetmapRing} {i : Nat} (hi : i < r.numSlots) (buf : Nat → Mem)
    (k : Nat) :
    framesAt buf r i (k + 1) =
      ⟨buf (r.slot i).bufIdx, (r.slot i).len⟩ :: framesAt buf r (Cyclic.next r.numSlots i) k := by
  rw [framesAt, Cyclic.arc_succ hi]
  rfl

theorem framesAt_concat (buf : Nat → Mem) (r : NetmapRing) (i k : Nat) :
    framesAt buf r i (k + 1) =
      framesAt buf r i k ++ [⟨buf (r.slot (Cyclic.advance r.numSlots i k)).bufIdx,
        (r.slot (Cyclic.advance r.numSlots i k)).len⟩] := by
  rw [framesAt, Cyclic.arc_concat, List.map_append]
  rfl

/-- All slots of the two rings have different buffers. -/
structure Apart (rx tx : NetmapRing) : Prop where
  withinRx : ∀ i < rx.numSlots, ∀ j < rx.numSlots, i ≠ j →
    (rx.slot i).bufIdx ≠ (rx.slot j).bufIdx
  withinTx : ∀ i < tx.numSlots, ∀ j < tx.numSlots, i ≠ j →
    (tx.slot i).bufIdx ≠ (tx.slot j).bufIdx
  between : ∀ i < rx.numSlots, ∀ j < tx.numSlots, (rx.slot i).bufIdx ≠ (tx.slot j).bufIdx

theorem apart_of_nodup {rx tx : NetmapRing} (h : (bufIdxs rx tx).Nodup) : Apart rx tx := by
  rcases List.nodup_append.1 h with ⟨hrx, htx, hcross⟩
  have hinj : ∀ (n : Nat) (f : Nat → Nat), (Lib.entries n f).Nodup →
      ∀ i < n, ∀ j < n, i ≠ j → f i ≠ f j := by
    intro n f hnodup i hi j hj hne heq
    exact hne (List.inj_on_of_nodup_map hnodup (List.mem_range.2 hi) (List.mem_range.2 hj) heq)
  refine ⟨hinj _ _ hrx, hinj _ _ htx, ?_⟩
  intro i hi j hj
  exact hcross _ (List.mem_map.2 ⟨i, List.mem_range.2 hi, rfl⟩) _
    (List.mem_map.2 ⟨j, List.mem_range.2 hj, rfl⟩)

section Queues

variable {σ : Type} (nm : Netmap σ)

/-- The handlers of an instance, as a handler of frames. -/
def answerFrame : Fifo.Handler Frame Frame σ := fun f db =>
  (sent nm f db, (onPacket nm (Packet.ofFrame f.data (checkedLen f.len)) db).2.2)

/-! ## One turn -/

/-- The frames the loop has not taken. -/
def waitingFrames (st : RingLoop σ) : List Frame :=
  framesAt st.buf st.rx st.rxCur (Cyclic.gap st.rx.numSlots st.rxCur st.rx.tail)

/-- The answers the card has not sent. -/
def queuedFrames (st : RingLoop σ) : List Frame :=
  framesAt st.buf st.tx (Cyclic.next st.tx.numSlots st.tx.tail)
    (Cyclic.gap st.tx.numSlots (Cyclic.next st.tx.numSlots st.tx.tail) st.txCur)

/-- The positions of the loop lie in their rings and the buffers are apart. -/
structure Sound (st : RingLoop σ) : Prop extends OnRings st where
  rxTail : st.rx.tail < st.rx.numSlots
  txTail : st.tx.tail < st.tx.numSlots
  nodup : (bufIdxs st.rx st.tx).Nodup

variable {nm} {st : RingLoop σ}

variable (nm) in
theorem sound_ringTurn (h : Sound st) : Sound (ringTurn nm st) := by
  rcases sameShape_ringTurn nm st with ⟨⟨s, hrx⟩, t, htx⟩
  refine ⟨onRings_ringTurn nm h.toOnRings, ?_, ?_, ?_⟩
  · rw [hrx]
    exact h.rxTail
  · rw [htx]
    exact h.txTail
  · exact (bufIdxs_ringTurn nm h.toOnRings).nodup_iff.2 h.nodup

theorem sent_rxFrame (st : RingLoop σ) :
    sent nm (rxFrame st) st.db =
      if Sends nm st then some ⟨(answer nm st).data, (answer nm st).len % 65536⟩ else none := by
  have hframe : Packet.ofFrame (rxFrame st).data (checkedLen (rxFrame st).len) = st.frame :=
    (frame_eq st).symm
  simp only [sent, hframe]
  rfl

/-- Another buffer than that of the frame in turn is not touched. -/
theorem turnBuf_of_ne {b : Nat} (h : b ≠ (st.rx.slot st.rxCur).bufIdx) :
    (ringTurn nm st).buf b = st.buf b := by
  have hbuf : (ringTurn nm st).buf = turnBuf nm st := by
    by_cases hsends : Sends nm st
    · rw [ringTurn_of_sends hsends]
    · rw [ringTurn_of_not_sends hsends]
  rw [hbuf, turnBuf, bufIdx_checkLen]
  exact Function.update_of_ne h _ _

theorem db_ringTurn (st : RingLoop σ) :
    (ringTurn nm st).db = (answerFrame nm (rxFrame st) st.db).2 := by
  have hframe : Packet.ofFrame (rxFrame st).data (checkedLen (rxFrame st).len) = st.frame :=
    (frame_eq st).symm
  by_cases hsends : Sends nm st
  · simp only [ringTurn_of_sends hsends, answerFrame, hframe]
  · simp only [ringTurn_of_not_sends hsends, answerFrame, hframe]

variable (nm) in
/-- The frame in turn is the first one that waits. -/
theorem waitingFrames_ringTurn (h : Sound st)
    (hpos : 0 < Cyclic.gap st.rx.numSlots st.rxCur st.rx.tail) :
    waitingFrames st = rxFrame st :: waitingFrames (ringTurn nm st) := by
  rcases sameShape_ringTurn nm st with ⟨⟨s, hrx⟩, _⟩
  have hnum := (sameShape_ringTurn nm st).numSlots.1
  have htail : (ringTurn nm st).rx.tail = st.rx.tail := by rw [hrx]
  have hlt := Cyclic.gap_lt h.rx st.rx.tail
  obtain ⟨k, hk⟩ : ∃ k, Cyclic.gap st.rx.numSlots st.rxCur st.rx.tail = k + 1 :=
    ⟨_, (Nat.succ_pred_eq_of_pos hpos).symm⟩
  have hgap : Cyclic.gap st.rx.numSlots (Cyclic.next st.rx.numSlots st.rxCur) st.rx.tail = k := by
    rw [Cyclic.next_eq_advance h.rx, Cyclic.gap_advance h.rx h.rxTail (by omega), hk]
    rfl
  have hnot : st.rxCur ∉
      Cyclic.arc st.rx.numSlots (Cyclic.next st.rx.numSlots st.rxCur) k :=
    Cyclic.not_mem_arc_next h.rx (by omega)
  have hrest : waitingFrames (ringTurn nm st) =
      framesAt st.buf st.rx (Cyclic.next st.rx.numSlots st.rxCur) k := by
    rw [waitingFrames, rxCur_ringTurn, hnum, htail, hgap]
    refine framesAt_congr hnum ?_
    -- The slots behind the cursor keep their buffers, and these are other ones.
    intro j hj
    have hne : j ≠ st.rxCur := fun heq => hnot (heq ▸ hj)
    have hjlt := Cyclic.lt_of_mem_arc (Cyclic.next_lt h.rx) hj
    rw [rx_slot_ringTurn nm hne]
    exact ⟨rfl, turnBuf_of_ne ((apart_of_nodup h.nodup).withinRx j hjlt _ h.rx hne)⟩
  rw [hrest, waitingFrames, hk, framesAt_succ h.rx]
  rfl

variable (nm) in
/-- The answer of a turn, if there is one, is queued behind the others. -/
theorem queuedFrames_ringTurn (h : Sound st)
    (hroom : Cyclic.gap st.tx.numSlots (Cyclic.next st.tx.numSlots st.tx.tail) st.txCur + 1 <
      st.tx.numSlots) :
    queuedFrames (ringTurn nm st) =
      queuedFrames st ++ (sent nm (rxFrame st) st.db).toList := by
  rcases sameShape_ringTurn nm st with ⟨_, t, htx⟩
  have hnum := (sameShape_ringTurn nm st).numSlots.2
  have htail : (ringTurn nm st).tx.tail = st.tx.tail := by rw [htx]
  have happart := apart_of_nodup h.nodup
  have hstart := Cyclic.next_lt h.txTail
  -- The answers in front of the cursor stay.
  have hold : framesAt (ringTurn nm st).buf (ringTurn nm st).tx
      (Cyclic.next st.tx.numSlots st.tx.tail)
      (Cyclic.gap st.tx.numSlots (Cyclic.next st.tx.numSlots st.tx.tail) st.txCur) =
        queuedFrames st := by
    refine framesAt_congr hnum ?_
    intro j hj
    have hjlt := Cyclic.lt_of_mem_arc hstart hj
    have hne : j ≠ st.txCur := by
      rintro rfl
      have hout := Cyclic.advance_not_mem_arc (i := Cyclic.next st.tx.numSlots st.tx.tail)
        (Nat.lt_of_succ_lt hroom)
      rw [Cyclic.advance_gap hstart h.tx] at hout
      exact hout hj
    rw [tx_slot_ringTurn nm fun _ => hne]
    exact ⟨rfl, turnBuf_of_ne (happart.between _ h.rx j hjlt).symm⟩
  by_cases hsends : Sends nm st
  · have hslot : (ringTurn nm st).tx.slot st.txCur = (sentSlots nm st).2 := by
      rw [tx_ringTurn, if_pos hsends, slot_setSlot_self]
    have hbuf : (ringTurn nm st).buf (sentSlots nm st).2.bufIdx = (answer nm st).data := by
      rw [ringTurn_of_sends hsends]
      exact Function.update_self _ _ _
    rw [queuedFrames, htail, hnum, txCur_ringTurn, if_pos hsends,
      Cyclic.gap_next hstart h.tx hroom, framesAt_concat, hold, sent_rxFrame, if_pos hsends, hnum,
      Cyclic.advance_gap hstart h.tx, hslot, hbuf]
    rfl
  · rw [queuedFrames, htail, hnum, txCur_ringTurn, if_neg hsends, hold, sent_rxFrame,
      if_neg hsends]
    exact (List.append_nil _).symm

/-! ## A batch -/

/-- What a wake-up comes to from here. -/
def wakeUp (nm : Netmap σ) (st : RingLoop σ) : List Frame × List Frame × σ :=
  Fifo.serve (st.tx.numSlots - 1) (answerFrame nm) (waitingFrames st) (queuedFrames st) st.db

/-- A turn is the first step of a wake-up. -/
theorem wakeUp_ringTurn (h : Sound st)
    (hpos : 0 < Cyclic.gap st.rx.numSlots st.rxCur st.rx.tail)
    (hroom : Cyclic.gap st.tx.numSlots (Cyclic.next st.tx.numSlots st.tx.tail) st.txCur + 1 <
      st.tx.numSlots) :
    wakeUp nm (ringTurn nm st) = wakeUp nm st := by
  have hnum := (sameShape_ringTurn nm st).numSlots.2
  have hlt : (queuedFrames st).length < st.tx.numSlots - 1 := by
    rw [queuedFrames, length_framesAt]
    omega
  rw [wakeUp, wakeUp, hnum, waitingFrames_ringTurn nm h hpos, Fifo.serve_cons hlt,
    queuedFrames_ringTurn nm h hroom, db_ringTurn]
  rfl

theorem wakeUp_ringLoop (n : Nat) (h : Sound st)
    (hpos : n ≤ Cyclic.gap st.rx.numSlots st.rxCur st.rx.tail)
    (hroom : Cyclic.gap st.tx.numSlots (Cyclic.next st.tx.numSlots st.tx.tail) st.txCur + n <
      st.tx.numSlots) :
    Sound (ringLoop nm n st) ∧ wakeUp nm (ringLoop nm n st) = wakeUp nm st := by
  induction n generalizing st with
  | zero =>
      exact ⟨h, rfl⟩
  | succ n ih =>
      have hwaiting := congrArg List.length (waitingFrames_ringTurn nm h (by omega))
      have hqueued := congrArg List.length (queuedFrames_ringTurn nm h (by omega))
      have hone : (sent nm (rxFrame st) st.db).toList.length ≤ 1 := by
        cases sent nm (rxFrame st) st.db <;> simp
      have hnum := (sameShape_ringTurn nm st).numSlots.2
      -- The ways of the two cursors, as lengths of the queues.
      simp only [waitingFrames, queuedFrames, length_framesAt, List.length_cons,
        List.length_append] at hwaiting hqueued
      rcases ih (sound_ringTurn nm h) (by omega) (by omega) with ⟨hsound, hsame⟩
      exact ⟨hsound, hsame.trans (wakeUp_ringTurn h (by omega) (by omega))⟩

/-- The loop of `ProcessRing` in front of its first turn. -/
def pairLoop (p : RingPair σ) : RingLoop σ :=
  { p with
    rxCur := p.rx.cur
    txCur := p.tx.cur
    processCount := 0 }

theorem wakeUp_startLoop (p : RingPair σ) : wakeUp nm (startLoop p) = wakeUp nm (pairLoop p) := by
  unfold startLoop clearRingFlags
  split <;> rfl

theorem wakeUp_endLoop (p : RingPair σ) :
    wakeUp nm (pairLoop (processRing nm p).2) = wakeUp nm (endLoop nm p) := by
  rw [processRing_eq]
  rfl

theorem sound_startLoop {p : RingPair σ} (hrx : p.rx.Wf) (htx : p.tx.Wf)
    (hnodup : (bufIdxs p.rx p.tx).Nodup) : Sound (startLoop p) := by
  have honRings := onRings_startLoop hrx htx
  rcases rings_startLoop p with ⟨rxFlags, txFlags, hr, ht⟩
  refine ⟨honRings, ?_, ?_, ?_⟩
  · rw [hr]
    exact hrx.tail_lt
  · rw [ht]
    exact htx.tail_lt
  · rw [hr, ht]
    exact hnodup

/-- The answers in a tx ring and its room make one round but for a slot. -/
theorem queued_add_room {r : NetmapRing} (h : r.Wf) :
    Cyclic.gap r.numSlots (Cyclic.next r.numSlots r.tail) r.cur +
      Cyclic.gap r.numSlots r.cur r.tail + 1 = r.numSlots := by
  have hround := Cyclic.gap_add_gap_next h.cur_lt h.tail_lt
  omega

/-- A call leaves the rest of a wake-up. -/
theorem wakeUp_processRing {p : RingPair σ} (hrx : p.rx.Wf) (htx : p.tx.Wf)
    (hrxSize : p.rx.numSlots ≤ 2147483648) (htxSize : p.tx.numSlots ≤ 2147483648)
    (hnodup : (bufIdxs p.rx p.tx).Nodup) :
    wakeUp nm (pairLoop (processRing nm p).2) = wakeUp nm (pairLoop p) := by
  have hround := queued_add_room htx
  have hrxSpace := nmRingSpace_eq_gap hrx hrxSize
  have htxSpace := nmRingSpace_eq_gap htx htxSize
  have hstart := sound_startLoop hrx htx hnodup
  rcases rings_startLoop p with ⟨rxFlags, txFlags, hr, ht⟩
  have hrxLe : batchLimit p ≤ Cyclic.gap (startLoop p).rx.numSlots (startLoop p).rxCur
      (startLoop p).rx.tail := by
    rw [hr, batchLimit, hrxSpace]
    exact Nat.le_trans (Nat.min_le_left _ _) (Nat.min_le_right _ _)
  have htxLt : Cyclic.gap (startLoop p).tx.numSlots
      (Cyclic.next (startLoop p).tx.numSlots (startLoop p).tx.tail) (startLoop p).txCur +
        batchLimit p < (startLoop p).tx.numSlots := by
    have hle : batchLimit p ≤ nmRingSpace p.tx := Nat.min_le_right _ _
    rw [ht]
    change Cyclic.gap p.tx.numSlots (Cyclic.next p.tx.numSlots p.tx.tail) p.tx.cur +
      batchLimit p < p.tx.numSlots
    omega
  calc
    wakeUp nm (pairLoop (processRing nm p).2)
        = wakeUp nm (ringLoop nm (batchLimit p) (startLoop p)) := wakeUp_endLoop p
    _ = wakeUp nm (startLoop p) := (wakeUp_ringLoop _ hstart hrxLe htxLt).2
    _ = wakeUp nm (pairLoop p) := wakeUp_startLoop p

/-! ## A search -/

/-- The rings with index `a`. -/
def ringsAt (r : Rings σ) (a : Nat) : RingPair σ :=
  { rx := r.rx a
    tx := r.tx a
    buf := r.buf
    db := r.db }

/-- A descriptor of one ring pair. -/
def oneRing (a : Nat) : NmDesc :=
  { firstRxRing := a
    lastRxRing := a
    firstTxRing := a
    lastTxRing := a }

/-- The ring pair of a worker between two polls. -/
structure Owned (a : Nat) (r : Rings σ) : Prop where
  index : a < 65535
  rx : (r.rx a).Wf
  tx : (r.tx a).Wf
  rxHead : (r.rx a).head = (r.rx a).cur
  txHead : (r.tx a).head = (r.tx a).cur
  rxRegion : 16 * (r.rx a).numSlots < 4294967296
  txRegion : 16 * (r.tx a).numSlots < 4294967296
  nodup : (bufIdxs (r.rx a) (r.tx a)).Nodup

theorem fits_of_owned {a : Nat} {r : Rings σ} (h : Owned a r) : (oneRing a).Fits r := by
  have hrx : (oneRing a).rxRange = {a} := Finset.Icc_self a
  have htx : (oneRing a).txRange = {a} := Finset.Icc_self a
  refine ⟨h.index, h.index, ?_, ?_, ?_, ?_⟩
  · intro i hi
    rw [hrx, Finset.mem_singleton] at hi
    exact hi ▸ h.rx
  · intro j hj
    rw [htx, Finset.mem_singleton] at hj
    exact hj ▸ h.tx
  · rw [hrx, Finset.sum_singleton]
    exact h.rxRegion
  · rw [htx, Finset.sum_singleton]
    exact h.txRegion

/-- What a search keeps while it runs. -/
structure Searching (nm : Netmap σ) (a : Nat) (r : Rings σ) (s : SearchLoop σ) : Prop where
  draining : ∃ ss, Draining nm (oneRing a) r ss s
  owned : Owned a s.toRings
  same : wakeUp nm (pairLoop (ringsAt s.toRings a)) = wakeUp nm (pairLoop (ringsAt r a))

variable (nm) in
theorem searching_start {a : Nat} {r : Rings σ} (h : Owned a r) :
    Searching nm a r (startSearch (oneRing a) r) :=
  ⟨⟨[], draining_start nm (oneRing a) (fits_of_owned h)⟩, h, rfl⟩

/-- The ring pair behind a call. -/
theorem owned_processRing {a : Nat} {s : SearchLoop σ} (h : Owned a s.toRings)
    (hrxIdx : s.rxringidx = a) (htxIdx : s.txringidx = a) :
    Owned a (searchBatch nm s).toRings := by
  have hpair : s.pair = ringsAt s.toRings a := by
    rw [SearchLoop.pair, hrxIdx, htxIdx]
    rfl
  have hrx := moved_rx nm (p := ringsAt s.toRings a) h.rx h.tx
  have htx := moved_tx nm (p := ringsAt s.toRings a) h.rx h.tx
  have hnewRx : (searchBatch nm s).rx a = (processRing nm (ringsAt s.toRings a)).2.rx := by
    rw [← hpair, ← rx_searchBatch_self, hrxIdx]
  have hnewTx : (searchBatch nm s).tx a = (processRing nm (ringsAt s.toRings a)).2.tx := by
    rw [← hpair, ← tx_searchBatch_self, htxIdx]
  refine ⟨h.index, ?_, ?_, ?_, ?_, ?_, ?_, ?_⟩
  · rw [hnewRx]
    exact hrx.wf h.rx
  · rw [hnewTx]
    exact htx.wf h.tx
  · rw [hnewRx]
    exact hrx.head
  · rw [hnewTx]
    exact htx.head
  · rw [hnewRx, hrx.numSlots]
    exact h.rxRegion
  · rw [hnewTx, htx.numSlots]
    exact h.txRegion
  · rw [hnewRx, hnewTx]
    exact (bufIdxs_processRing nm (p := ringsAt s.toRings a) h.rx h.tx).nodup_iff.2 h.nodup

theorem searching_step {a : Nat} {r : Rings σ} (hr : Owned a r) {s s' : SearchLoop σ}
    (h : Searching nm a r s) (hstep : searchStep nm (oneRing a) s = some s') :
    Searching nm a r s' ∧ remaining (oneRing a) s' < remaining (oneRing a) s := by
  rcases h.draining with ⟨ss, hdraining⟩
  rcases draining_step (fits_of_owned hr) hdraining hstep with ⟨hdraining', hlt⟩
  refine ⟨?_, hlt⟩
  unfold searchStep at hstep
  by_cases hin : s.rxringidx ≤ (oneRing a).lastRxRing ∧ s.txringidx ≤ (oneRing a).lastTxRing
  · rw [if_pos hin] at hstep
    by_cases hrx : nmRingEmpty s.pair.rx = true
    · rw [if_pos hrx] at hstep
      rw [← Option.some.inj hstep] at hdraining' ⊢
      exact ⟨⟨_, hdraining'⟩, h.owned, h.same⟩
    · rw [if_neg hrx] at hstep
      by_cases htx : nmRingEmpty s.pair.tx = true
      · rw [if_pos htx] at hstep
        rw [← Option.some.inj hstep] at hdraining' ⊢
        exact ⟨⟨_, hdraining'⟩, h.owned, h.same⟩
      · rw [if_neg htx] at hstep
        -- Both indexes are that of the one pair.
        have hrxIdx : s.rxringidx = a := Nat.le_antisymm hin.1 hdraining.firstRx
        have htxIdx : s.txringidx = a := Nat.le_antisymm hin.2 hdraining.firstTx
        have hpair : s.pair = ringsAt s.toRings a := by
          rw [SearchLoop.pair, hrxIdx, htxIdx]
          rfl
        have hnew : ringsAt (searchBatch nm s).toRings a =
            (processRing nm (ringsAt s.toRings a)).2 := by
          rw [ringsAt, ← hpair]
          simp only [searchBatch, hrxIdx, htxIdx, Function.update_self]
        have hwake : wakeUp nm (pairLoop (processRing nm (ringsAt s.toRings a)).2) =
            wakeUp nm (pairLoop (ringsAt s.toRings a)) := by
          have hrxRegion : 16 * (ringsAt s.toRings a).rx.numSlots < 4294967296 := h.owned.rxRegion
          have htxRegion : 16 * (ringsAt s.toRings a).tx.numSlots < 4294967296 := h.owned.txRegion
          exact wakeUp_processRing h.owned.rx h.owned.tx (by omega) (by omega) h.owned.nodup
        rw [← Option.some.inj hstep] at hdraining' ⊢
        refine ⟨⟨_, hdraining'⟩, owned_processRing h.owned hrxIdx htxIdx, ?_⟩
        change wakeUp nm (pairLoop (ringsAt (searchBatch nm s).toRings a)) = _
        rw [hnew, hwake, h.same]
  · rw [if_neg hin] at hstep
    exact absurd hstep (by simp)

/-- Where a search stops there is nothing left of the wake-up. -/
theorem wakeUp_of_done {p : RingPair σ} (htx : p.tx.Wf) (hrx : p.rx.Wf)
    (h : nmRingEmpty p.rx = true ∨ nmRingEmpty p.tx = true) :
    wakeUp nm (pairLoop p) =
      (waitingFrames (pairLoop p), queuedFrames (pairLoop p), p.db) := by
  rcases h with hempty | hfull
  · have hgap : Cyclic.gap p.rx.numSlots p.rx.cur p.rx.tail = 0 :=
      (pending_eq_zero_iff hrx).2 hempty
    have hnil : waitingFrames (pairLoop p) = [] := by
      apply List.eq_nil_of_length_eq_zero
      rw [waitingFrames, length_framesAt]
      exact hgap
    rw [wakeUp, hnil]
    rfl
  · have hgap : Cyclic.gap p.tx.numSlots p.tx.cur p.tx.tail = 0 :=
      (pending_eq_zero_iff htx).2 hfull
    have hround := queued_add_room htx
    have hlen : ¬ (queuedFrames (pairLoop p)).length < (pairLoop p).tx.numSlots - 1 := by
      rw [queuedFrames, length_framesAt]
      change ¬ Cyclic.gap p.tx.numSlots (Cyclic.next p.tx.numSlots p.tx.tail) p.tx.cur <
        p.tx.numSlots - 1
      omega
    exact Fifo.serve_of_full hlen _

end Queues

end Arch
end NmMemcached
