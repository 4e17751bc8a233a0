import NmMemcached.Arch.Stream

/-!
# Workers — several workers on one interface

The workers of a process share an interface, its buffers and the database; each has a ring pair of
its own.  A step of one keeps to its ring pair and the buffers in it (`keepsTo_portStep`), so the
others see of it what it does to the database and nothing else (`seen_cardStep`).

Hence every worker is an exactly-once server of its ring, whatever the others and the kernel do in
between (`exactlyOnce_card`).
-/

namespace NmMemcached
namespace Arch

open Lib Base Net

section Workers

variable {σ : Type}

/-! ## One step -/

/-- From `r` to `r'` nothing outside of ring pair `a` and the buffers in it has changed. -/
structure KeepsTo (a : Nat) (r r' : Rings σ) : Prop where
  rx : ∀ i, i ≠ a → r'.rx i = r.rx i
  tx : ∀ i, i ≠ a → r'.tx i = r.tx i
  own : (bufIdxs (r'.rx a) (r'.tx a)).Perm (bufIdxs (r.rx a) (r.tx a))
  buf : ∀ b, b ∉ bufIdxs (r.rx a) (r.tx a) → r'.buf b = r.buf b

namespace KeepsTo

variable {a : Nat} {r r' r'' : Rings σ}

theorem refl (a : Nat) (r : Rings σ) : KeepsTo a r r :=
  ⟨fun _ _ => rfl, fun _ _ => rfl, List.Perm.refl _, fun _ _ => rfl⟩

theorem trans (h : KeepsTo a r r') (h' : KeepsTo a r' r'') : KeepsTo a r r'' := by
  refine ⟨?_, ?_, h'.own.trans h.own, ?_⟩
  · intro i hi
    exact (h'.rx i hi).trans (h.rx i hi)
  · intro i hi
    exact (h'.tx i hi).trans (h.tx i hi)
  · intro b hb
    -- The exchanges keep the buffers of the pair, so `b` is outside on both ways.
    have hb' : b ∉ bufIdxs (r'.rx a) (r'.tx a) := fun hmem => hb (h.own.mem_iff.1 hmem)
    exact (h'.buf b hb').trans (h.buf b hb)

end KeepsTo

theorem mem_bufIdxs_rx {rx tx : NetmapRing} {i : Nat} (h : i < rx.numSlots) :
    (rx.slot i).bufIdx ∈ bufIdxs rx tx :=
  List.mem_append_left _ (List.mem_map.2 ⟨i, List.mem_range.2 h, rfl⟩)

theorem mem_bufIdxs_tx {rx tx : NetmapRing} {i : Nat} (h : i < tx.numSlots) :
    (tx.slot i).bufIdx ∈ bufIdxs rx tx :=
  List.mem_append_right _ (List.mem_map.2 ⟨i, List.mem_range.2 h, rfl⟩)

/-- A batch writes into the buffers of its rings only. -/
theorem buf_ringLoop (nm : Netmap σ) (n : Nat) {st : RingLoop σ} (h : OnRings st) {b : Nat}
    (hb : b ∉ bufIdxs st.rx st.tx) : (ringLoop nm n st).buf b = st.buf b := by
  induction n generalizing st with
  | zero =>
      rfl
  | succ n ih =>
      have hne : b ≠ (st.rx.slot st.rxCur).bufIdx := by
        rintro rfl
        exact hb (mem_bufIdxs_rx h.rx)
      have hb' : b ∉ bufIdxs (ringTurn nm st).rx (ringTurn nm st).tx := fun hmem =>
        hb ((bufIdxs_ringTurn nm h).mem_iff.1 hmem)
      exact (ih (onRings_ringTurn nm h) hb').trans (turnBuf_of_ne hne)

theorem buf_processRing (nm : Netmap σ) {p : RingPair σ} (hrx : p.rx.Wf) (htx : p.tx.Wf) {b : Nat}
    (hb : b ∉ bufIdxs p.rx p.tx) : (processRing nm p).2.buf b = p.buf b := by
  rcases rings_startLoop p with ⟨rxFlags, txFlags, hr, ht⟩
  have hb' : b ∉ bufIdxs (startLoop p).rx (startLoop p).tx := by
    rw [hr, ht]
    exact hb
  have hloop := buf_ringLoop nm (batchLimit p) (onRings_startLoop hrx htx) hb'
  have hstart : (startLoop p).buf = p.buf := by
    unfold startLoop clearRingFlags
    split <;> rfl
  rw [processRing_eq]
  exact hloop.trans (congrFun hstart b)

theorem keepsTo_searchBatch (nm : Netmap σ) {a : Nat} {s : SearchLoop σ} (h : Owned a s.toRings)
    (hrxIdx : s.rxringidx = a) (htxIdx : s.txringidx = a) :
    KeepsTo a s.toRings (searchBatch nm s).toRings := by
  have hpair : s.pair = ringsAt s.toRings a := by
    rw [SearchLoop.pair, hrxIdx, htxIdx]
    rfl
  have hnewRx : (searchBatch nm s).rx a = (processRing nm (ringsAt s.toRings a)).2.rx := by
    rw [← hpair, ← rx_searchBatch_self, hrxIdx]
  have hnewTx : (searchBatch nm s).tx a = (processRing nm (ringsAt s.toRings a)).2.tx := by
    rw [← hpair, ← tx_searchBatch_self, htxIdx]
  refine ⟨?_, ?_, ?_, ?_⟩
  · intro i hi
    exact rx_searchBatch_of_ne nm (hrxIdx ▸ hi)
  · intro j hj
    exact tx_searchBatch_of_ne nm (htxIdx ▸ hj)
  · rw [hnewRx, hnewTx]
    exact bufIdxs_processRing nm (p := ringsAt s.toRings a) h.rx h.tx
  · intro b hb
    have hbuf : (searchBatch nm s).buf = (processRing nm (ringsAt s.toRings a)).2.buf := by
      rw [← hpair]
      rfl
    rw [hbuf]
    exact buf_processRing nm (p := ringsAt s.toRings a) h.rx h.tx hb

/-- A turn of a search keeps to the ring pair. -/
theorem keepsTo_searchStep (nm : Netmap σ) {a : Nat} {r : Rings σ} {s s' : SearchLoop σ}
    (h : Searching nm a r s) (hstep : searchStep nm (oneRing a) s = some s') :
    KeepsTo a s.toRings s'.toRings := by
  rcases h.draining with ⟨ss, hdraining⟩
  unfold searchStep at hstep
  by_cases hin : s.rxringidx ≤ (oneRing a).lastRxRing ∧ s.txringidx ≤ (oneRing a).lastTxRing
  · rw [if_pos hin] at hstep
    by_cases hrx : nmRingEmpty s.pair.rx = true
    · rw [if_pos hrx] at hstep
      cases hstep
      exact KeepsTo.refl a s.toRings
    · rw [if_neg hrx] at hstep
      by_cases htx : nmRingEmpty s.pair.tx = true
      · rw [if_pos htx] at hstep
        cases hstep
        exact KeepsTo.refl a s.toRings
      · rw [if_neg htx] at hstep
        cases hstep
        exact keepsTo_searchBatch nm h.owned (Nat.le_antisymm hin.1 hdraining.firstRx)
          (Nat.le_antisymm hin.2 hdraining.firstTx)
  · rw [if_neg hin] at hstep
    cases hstep

theorem keepsTo_searchValidRing (nm : Netmap σ) {a : Nat} {r : Rings σ} (h : Owned a r) :
    ∃ ret r', searchValidRing nm (oneRing a) (searchBound (oneRing a) r) r = some (ret, r') ∧
      KeepsTo a r r' := by
  have hstart : Searching nm a r (startSearch (oneRing a) r) ∧
      KeepsTo a r (startSearch (oneRing a) r).toRings := ⟨searching_start nm h, KeepsTo.refl a r⟩
  have hstep : ∀ s s', Searching nm a r s ∧ KeepsTo a r s.toRings →
      searchStep nm (oneRing a) s = some s' →
      (Searching nm a r s' ∧ KeepsTo a r s'.toRings) ∧
        remaining (oneRing a) s' < remaining (oneRing a) s := by
    rintro s s' ⟨hs, hkeeps⟩ hs'
    rcases searching_step h hs hs' with ⟨hsearching, hlt⟩
    exact ⟨⟨hsearching, hkeeps.trans (keepsTo_searchStep nm hs hs')⟩, hlt⟩
  rcases loop_of_measure_lt hstep hstart (Nat.lt_succ_self _) with ⟨s, hloop, _, _, hkeeps⟩
  refine ⟨(BitVec.ofNat 32 s.m).toInt, s.toRings, ?_, hkeeps⟩
  rw [searchValidRing, searchBound, hloop]
  rfl

theorem keepsTo_poll {a : Nat} {s : Port σ} (h : Owned a s.toRings) (nm : Netmap σ)
    (res : PollResult) : KeepsTo a s.toRings (poll (oneRing a) nm res s).2.toRings := by
  by_cases hready : res.Ready
  · rcases keepsTo_searchValidRing nm h with ⟨ret, r', hsearch, hkeeps⟩
    have hpoll : (poll (oneRing a) nm res s).2 = countPackets { s with toRings := r' } ret := by
      rw [poll, if_neg (Int.not_le.2 hready.1), if_pos hready.2, hsearch]
    rw [hpoll, (queues_countPackets a { s with toRings := r' } ret).2]
    exact hkeeps
  · rw [poll_of_not_ready _ nm hready]
    exact KeepsTo.refl a s.toRings

theorem bufIdxs_congr {rx rx' tx tx' : NetmapRing} (hrxNum : rx'.numSlots = rx.numSlots)
    (htxNum : tx'.numSlots = tx.numSlots)
    (hrx : (fun j => (rx'.slot j).bufIdx) = fun j => (rx.slot j).bufIdx)
    (htx : (fun j => (tx'.slot j).bufIdx) = fun j => (tx.slot j).bufIdx) :
    bufIdxs rx' tx' = bufIdxs rx tx := by
  rw [bufIdxs, bufIdxs, hrxNum, htxNum, hrx, htx]

/-- What the kernel does to a ring pair: no buffer changes its slot, and what is written lies in a
buffer of the pair. -/
theorem keepsTo_of_rings {a : Nat} {r r' : Rings σ} {rx' tx' : NetmapRing}
    (hrx : r'.rx = Function.update r.rx a rx') (htx : r'.tx = Function.update r.tx a tx')
    (hbufs : bufIdxs rx' tx' = bufIdxs (r.rx a) (r.tx a))
    (hbuf : ∀ b, b ∉ bufIdxs (r.rx a) (r.tx a) → r'.buf b = r.buf b) : KeepsTo a r r' := by
  refine ⟨?_, ?_, ?_, hbuf⟩
  · intro i hi
    rw [hrx]
    exact Function.update_of_ne hi _ _
  · intro i hi
    rw [htx]
    exact Function.update_of_ne hi _ _
  · rw [hrx, htx, Function.update_self, Function.update_self, hbufs]

theorem keepsTo_received {a : Nat} {s : Port σ} (h : Owned a s.toRings) (f : Frame)
    (flags : BitVec 16) : KeepsTo a s.toRings (received a f flags s).toRings := by
  by_cases hfull : nmRingNext (s.rx a) (s.rx a).tail = (s.rx a).head
  · have hsame : received a f flags s = s := by
      simp only [received, if_pos hfull]
    rw [hsame]
    exact KeepsTo.refl a s.toRings
  · simp only [received, if_neg hfull]
    refine keepsTo_of_rings rfl (Function.update_eq_self a s.tx).symm
      (bufIdxs_congr rfl rfl (bufIdx_setSlot_self rfl) rfl) ?_
    intro b hb
    have hne : b ≠ ((s.rx a).slot (s.rx a).tail).bufIdx := by
      rintro rfl
      exact hb (mem_bufIdxs_rx h.rx.tail_lt)
    exact Function.update_of_ne hne _ _

theorem keepsTo_transmitted (a : Nat) (s : Port σ) (flags : BitVec 16) :
    KeepsTo a s.toRings (transmitted a flags s).toRings := by
  by_cases hpending : nmTxPending (s.tx a) = true
  · simp only [transmitted, if_pos hpending]
    exact keepsTo_of_rings (Function.update_eq_self a s.rx).symm rfl
      (bufIdxs_congr rfl rfl rfl (bufIdx_setSlot_self rfl)) fun _ _ => rfl
  · have hsame : transmitted a flags s = s := by
      simp only [transmitted, if_neg hpending]
    rw [hsame]
    exact KeepsTo.refl a s.toRings

/-- Every step of a worker and its kernel keeps to the ring pair of the worker. -/
theorem keepsTo_portStep {a : Nat} {s : Port σ} (h : Owned a s.toRings) (e : PortEvent σ) :
    KeepsTo a s.toRings (portStep (oneRing a) a s e).toRings := by
  cases e with
  | poll nm res =>
      exact keepsTo_poll h nm res
  | received f flags =>
      exact keepsTo_received h _ flags
  | transmitted flags =>
      exact keepsTo_transmitted a s flags
  | ringFlags rxFlags txFlags =>
      exact keepsTo_of_rings rfl rfl (bufIdxs_congr rfl rfl rfl rfl) fun _ _ => rfl
  | database db =>
      exact ⟨fun _ _ => rfl, fun _ _ => rfl, List.Perm.refl _, fun _ _ => rfl⟩

/-! ## What another worker sees -/

/-- Two ring pairs without a common buffer. -/
def RingsApart (a b : Nat) (r : Rings σ) : Prop :=
  a ≠ b ∧ List.Disjoint (bufIdxs (r.rx a) (r.tx a)) (bufIdxs (r.rx b) (r.tx b))

section Other

variable {a b : Nat} {r r' : Rings σ} (h : KeepsTo a r r') (hapart : RingsApart a b r)

include h hapart

theorem owned_of_keepsTo (hb : Owned b r) : Owned b r' := by
  have hrx : r'.rx b = r.rx b := h.rx b hapart.1.symm
  have htx : r'.tx b = r.tx b := h.tx b hapart.1.symm
  refine ⟨hb.index, ?_, ?_, ?_, ?_, ?_, ?_, ?_⟩
  · exact hrx ▸ hb.rx
  · exact htx ▸ hb.tx
  · exact hrx ▸ hb.rxHead
  · exact htx ▸ hb.txHead
  · exact hrx ▸ hb.rxRegion
  · exact htx ▸ hb.txRegion
  · rw [hrx, htx]
    exact hb.nodup

/-- The frames of another ring pair are as they were. -/
theorem frames_of_keepsTo (hb : Owned b r) :
    waitingFrames (pairLoop (ringsAt r' b)) = waitingFrames (pairLoop (ringsAt r b)) ∧
      queuedFrames (pairLoop (ringsAt r' b)) = queuedFrames (pairLoop (ringsAt r b)) := by
  have hrx : r'.rx b = r.rx b := h.rx b hapart.1.symm
  have htx : r'.tx b = r.tx b := h.tx b hapart.1.symm
  -- A buffer in a slot of ring pair `b` is none of ring pair `a`.
  have hout : ∀ i, i ∈ bufIdxs (r.rx b) (r.tx b) → r'.buf i = r.buf i := fun i hi =>
    h.buf i fun hmem => hapart.2 hmem hi
  constructor
  · simp only [waitingFrames, pairLoop, ringsAt, hrx]
    refine framesAt_congr rfl fun j hj => ⟨rfl, ?_⟩
    exact hout _ (mem_bufIdxs_rx (Cyclic.lt_of_mem_arc hb.rx.cur_lt hj))
  · simp only [queuedFrames, pairLoop, ringsAt, htx]
    refine framesAt_congr rfl fun j hj => ⟨rfl, ?_⟩
    exact hout _ (mem_bufIdxs_tx (Cyclic.lt_of_mem_arc (Cyclic.next_lt hb.tx.tail_lt) hj))

end Other

/-! ## The card -/

/-- An interface with the counters of its workers and what went out of their rings. -/
structure Card (σ : Type) extends Rings σ where
  pktCount : Nat → Nat
  evtCount : Nat → Nat
  wire : Nat → List Frame

/-- The card as worker `n` has it. -/
def Card.port (c : Card σ) (n : Nat) : Port σ :=
  { c.toRings with
    pktCount := c.pktCount n
    evtCount := c.evtCount n
    wire := c.wire n }

/-- The card behind a step of worker `n`. -/
def Card.put (c : Card σ) (n : Nat) (s : Port σ) : Card σ :=
  { s.toRings with
    pktCount := Function.update c.pktCount n s.pktCount
    evtCount := Function.update c.evtCount n s.evtCount
    wire := Function.update c.wire n s.wire }

theorem port_put_self (c : Card σ) (n : Nat) (s : Port σ) : (c.put n s).port n = s := by
  simp [Card.port, Card.put]

/-- Worker `n` has ring pair `ring n`. -/
def cardStep (ring : Nat → Nat) (c : Card σ) (e : Nat × PortEvent σ) : Card σ :=
  c.put e.1 (portStep (oneRing (ring e.1)) (ring e.1) (c.port e.1) e.2)

/-- The workers below `count` have ring pairs of their own. -/
structure Shared (ring : Nat → Nat) (count : Nat) (r : Rings σ) : Prop where
  owned : ∀ n < count, Owned (ring n) r
  apart : ∀ n < count, ∀ m < count, n ≠ m → RingsApart (ring n) (ring m) r

variable {ring : Nat → Nat} {count : Nat}

theorem keepsTo_cardStep {c : Card σ} (h : Shared ring count c.toRings)
    {e : Nat × PortEvent σ} (he : e.1 < count) :
    KeepsTo (ring e.1) c.toRings (cardStep ring c e).toRings := by
  have howned : Owned (ring e.1) (c.port e.1).toRings := h.owned e.1 he
  exact keepsTo_portStep howned e.2

/-- The buffers of every pair stay in it. -/
theorem bufIdxs_cardStep {c : Card σ} (h : Shared ring count c.toRings) {e : Nat × PortEvent σ}
    (he : e.1 < count) {n : Nat} (hn : n < count) :
    (bufIdxs ((cardStep ring c e).rx (ring n)) ((cardStep ring c e).tx (ring n))).Perm
      (bufIdxs (c.rx (ring n)) (c.tx (ring n))) := by
  have hkeeps := keepsTo_cardStep h he
  by_cases hne : n = e.1
  · rw [hne]
    exact hkeeps.own
  · have hring := (h.apart n hn e.1 he hne).1
    rw [hkeeps.rx _ hring, hkeeps.tx _ hring]

/-- So the pairs stay apart. -/
theorem shared_cardStep {c : Card σ} (h : Shared ring count c.toRings)
    {e : Nat × PortEvent σ} (he : e.1 < count) : Shared ring count (cardStep ring c e).toRings := by
  have hkeeps := keepsTo_cardStep h he
  refine ⟨?_, ?_⟩
  · intro n hn
    by_cases hne : n = e.1
    · have howned : Owned (ring e.1) (c.port e.1).toRings := h.owned e.1 he
      rw [hne]
      exact (refines_portStep howned e.2).owned
    · exact owned_of_keepsTo hkeeps (h.apart e.1 he n hn (Ne.symm hne)) (h.owned n hn)
  · intro n hn m hm hne
    refine ⟨(h.apart n hn m hm hne).1, ?_⟩
    intro i hi hi'
    exact (h.apart n hn m hm hne).2 ((bufIdxs_cardStep h he hn).mem_iff.1 hi)
      ((bufIdxs_cardStep h he hm).mem_iff.1 hi')

/-- Over a run no buffer moves to another pair. -/
theorem bufIdxs_cardRun {c : Card σ} (h : Shared ring count c.toRings)
    {es : List (Nat × PortEvent σ)} (hes : ∀ e ∈ es, e.1 < count) {n : Nat} (hn : n < count) :
    (bufIdxs ((run (cardStep ring) c es).rx (ring n))
        ((run (cardStep ring) c es).tx (ring n))).Perm
      (bufIdxs (c.rx (ring n)) (c.tx (ring n))) := by
  induction es generalizing c with
  | nil =>
      exact List.Perm.refl _
  | cons e es ih =>
      rcases List.forall_mem_cons.1 hes with ⟨he, hrest⟩
      exact (ih (shared_cardStep h he) hrest).trans (bufIdxs_cardStep h he hn)

/-- The steps of the server of worker `n` that an event comes to: those of its own, and what the
others do to the database. -/
def seen (ring : Nat → Nat) (n : Nat) (c : Card σ) (e : Nat × PortEvent σ) :
    List (Fifo.Event Frame Frame σ) :=
  if e.1 = n then toFifo e.2 else [.outside (cardStep ring c e).db]

def seenAll (ring : Nat → Nat) (n : Nat) : Card σ → List (Nat × PortEvent σ) →
    List (Fifo.Event Frame Frame σ)
  | _, [] => []
  | c, e :: es => seen ring n c e ++ seenAll ring n (cardStep ring c e) es

/-- What worker `n` sees of some steps. -/
structure Seen (ring : Nat → Nat) (n : Nat) (fs : List (Fifo.Event Frame Frame σ))
    (c c' : Card σ) : Prop where
  pktCount : Nat.ModEq 18446744073709551616 (c'.pktCount n) (c.pktCount n +
    (Fifo.batches (roomOf (ring n) (c.port n)) (queues (ring n) (c.port n)) fs).flatten.length)
  evtCount : Nat.ModEq 18446744073709551616 (c'.evtCount n) (c.evtCount n +
    (Fifo.batches (roomOf (ring n) (c.port n)) (queues (ring n) (c.port n)) fs).length)
  room : roomOf (ring n) (c'.port n) = roomOf (ring n) (c.port n)
  queues : queues (ring n) (c'.port n) =
    run (Fifo.step (roomOf (ring n) (c.port n))) (queues (ring n) (c.port n)) fs

theorem seen_cardStep {c : Card σ} (h : Shared ring count c.toRings) {n : Nat} (hn : n < count)
    {e : Nat × PortEvent σ} (he : e.1 < count) :
    Seen ring n (seen ring n c e) c (cardStep ring c e) := by
  by_cases heq : e.1 = n
  · rcases e with ⟨m, e⟩
    obtain rfl : m = n := heq
    have howned : Owned (ring m) (c.port m).toRings := h.owned m hn
    have hport : (cardStep ring c (m, e)).port m =
        portStep (oneRing (ring m)) (ring m) (c.port m) e := port_put_self c m _
    have hrefines := refines_portStep howned e
    rcases counts_portStep howned e with ⟨hpkt, hevt⟩
    rw [seen, if_pos rfl]
    rw [← hport] at hrefines hpkt hevt
    exact ⟨hpkt, hevt, hrefines.room, hrefines.queues⟩
  · have hkeeps := keepsTo_cardStep h he
    have hapart := h.apart e.1 he n hn heq
    have hrx : (cardStep ring c e).rx (ring n) = c.rx (ring n) := hkeeps.rx _ hapart.1.symm
    have htx : (cardStep ring c e).tx (ring n) = c.tx (ring n) := hkeeps.tx _ hapart.1.symm
    rcases frames_of_keepsTo hkeeps hapart (h.owned n hn) with ⟨hwaiting, hqueued⟩
    have hwire : (cardStep ring c e).wire n = c.wire n := Function.update_of_ne (Ne.symm heq) _ _
    rw [seen, if_neg heq]
    refine ⟨?_, ?_, ?_, ?_⟩
    · have hcount : (cardStep ring c e).pktCount n = c.pktCount n :=
        Function.update_of_ne (Ne.symm heq) _ _
      rw [hcount]
      rfl
    · have hcount : (cardStep ring c e).evtCount n = c.evtCount n :=
        Function.update_of_ne (Ne.symm heq) _ _
      rw [hcount]
      rfl
    · refine roomOf_congr ?_ ?_
      · exact congrArg NetmapRing.numSlots hrx
      · exact congrArg NetmapRing.numSlots htx
    · exact Fifo.State.ext hwaiting hqueued hwire rfl

/-- A run of the card is, for each worker, a run of its server. -/
theorem seen_run {c : Card σ} (h : Shared ring count c.toRings) {n : Nat} (hn : n < count)
    {es : List (Nat × PortEvent σ)} (hes : ∀ e ∈ es, e.1 < count) :
    Seen ring n (seenAll ring n c es) c (run (cardStep ring) c es) := by
  induction es generalizing c with
  | nil =>
      exact ⟨rfl, rfl, rfl, rfl⟩
  | cons e es ih =>
      rcases List.forall_mem_cons.1 hes with ⟨he, hrest⟩
      have hone := seen_cardStep h hn he
      have hmore := ih (shared_cardStep h he) hrest
      obtain ⟨c', hc'⟩ : ∃ c', c' = cardStep ring c e := ⟨_, rfl⟩
      rw [← hc'] at hone hmore
      have hsplit : Fifo.batches (roomOf (ring n) (c.port n)) (queues (ring n) (c.port n))
          (seenAll ring n c (e :: es)) =
          Fifo.batches (roomOf (ring n) (c.port n)) (queues (ring n) (c.port n))
            (seen ring n c e) ++
          Fifo.batches (roomOf (ring n) (c'.port n)) (queues (ring n) (c'.port n))
            (seenAll ring n c' es) := by
        rw [seenAll, hone.room, hone.queues, hc']
        exact Fifo.along_append _ _ _ _
      rw [run_cons, ← hc']
      refine ⟨?_, ?_, hmore.room.trans hone.room, ?_⟩
      · rw [hsplit, List.flatten_append, List.length_append, ← Nat.add_assoc]
        exact hmore.pktCount.trans (hone.pktCount.add_right _)
      · rw [hsplit, List.length_append, ← Nat.add_assoc]
        exact hmore.evtCount.trans (hone.evtCount.add_right _)
      · rw [hmore.queues, hone.room, hone.queues, seenAll, run_append, hc']

/-! ## Every worker is exactly-once -/

/-- The frames that events bring into the rx ring of worker `n`. -/
def cardArrivals (ring : Nat → Nat) (n : Nat) : Card σ → List (Nat × PortEvent σ) → List Frame
  | _, [] => []
  | c, e :: es =>
      (if e.1 = n then arrival (ring n) (c.port n) e.2 else []) ++
        cardArrivals ring n (cardStep ring c e) es

theorem cardArrivals_eq {c : Card σ} (h : Shared ring count c.toRings) {n : Nat} (hn : n < count)
    {es : List (Nat × PortEvent σ)} (hes : ∀ e ∈ es, e.1 < count) :
    cardArrivals ring n c es =
      Fifo.accepted (roomOf (ring n) (c.port n)) (queues (ring n) (c.port n))
        (seenAll ring n c es) := by
  induction es generalizing c with
  | nil =>
      rfl
  | cons e es ih =>
      rcases List.forall_mem_cons.1 hes with ⟨he, hrest⟩
      have hone := seen_cardStep h hn he
      have hfirst : (if e.1 = n then arrival (ring n) (c.port n) e.2 else []) =
          Fifo.accepted (roomOf (ring n) (c.port n)) (queues (ring n) (c.port n))
            (seen ring n c e) := by
        have howned : Owned (ring n) (c.port n).toRings := h.owned n hn
        by_cases heq : e.1 = n
        · rw [if_pos heq, seen, if_pos heq]
          exact arrival_eq howned e.2
        · rw [if_neg heq, seen, if_neg heq]
          rfl
      rw [cardArrivals, hfirst, ih (shared_cardStep h he) hrest, hone.room, hone.queues]
      exact (Fifo.along_append _ _ _ _).symm

/-- Only a poll of its own wakes the server of a worker. -/
theorem wake_of_mem_seenAll {n : Nat} {c : Card σ} {es : List (Nat × PortEvent σ)}
    {f : Fifo.Handler Frame Frame σ} (h : .wake f ∈ seenAll ring n c es) :
    ∃ nm res, (n, .poll nm res) ∈ es ∧ res.Ready ∧ f = answerFrame nm := by
  induction es generalizing c with
  | nil =>
      exact absurd h List.not_mem_nil
  | cons e es ih =>
      rw [seenAll, List.mem_append] at h
      rcases h with hfirst | hrest
      · rcases e with ⟨m, e⟩
        unfold seen at hfirst
        split at hfirst
        · next heq =>
            obtain rfl : m = n := heq
            cases e with
            | poll nm res =>
                by_cases hready : res.Ready
                · rw [toFifo, if_pos hready, List.mem_singleton] at hfirst
                  cases hfirst
                  exact ⟨nm, res, List.mem_cons_self, hready, rfl⟩
                · rw [toFifo, if_neg hready] at hfirst
                  exact absurd hfirst List.not_mem_nil
            | received f flags => simp [toFifo] at hfirst
            | transmitted flags => simp [toFifo] at hfirst
            | ringFlags rxFlags txFlags => simp [toFifo] at hfirst
            | database db => simp [toFifo] at hfirst
        · simp at hfirst
      · rcases ih hrest with ⟨nm, res, hmem, hready, hf⟩
        exact ⟨nm, res, List.mem_cons_of_mem _ hmem, hready, hf⟩

end Workers

/-- An interface with two workers, whose rings have frames.  The ring of the second has an ARP
request in its second waiting slot. -/
def demoCard : Card Unit :=
  { rx := fun i => demoRing 4 2 1 (10 * i)
    tx := fun i => demoRing 8 0 7 (10 * i + 20)
    buf := demoBuf
    db := ()
    pktCount := fun _ => 0
    evtCount := fun _ => 0
    wire := fun _ => [] }

theorem shared_demoCard : Shared id 2 demoCard.toRings := by
  refine ⟨?_, ?_⟩
  · intro n hn
    have hcases : n = 0 ∨ n = 1 := by omega
    rcases hcases with rfl | rfl
    · refine ⟨by decide, ?_, ?_, rfl, rfl, by decide, by decide, by decide⟩
      · exact ⟨by decide, by decide, by decide⟩
      · exact ⟨by decide, by decide, by decide⟩
    · refine ⟨by decide, ?_, ?_, rfl, rfl, by decide, by decide, by decide⟩
      · exact ⟨by decide, by decide, by decide⟩
      · exact ⟨by decide, by decide, by decide⟩
  · intro n hn m hm hne
    have hcases : n = 0 ∧ m = 1 ∨ n = 1 ∧ m = 0 := by omega
    have hbufs : ∀ i ∈ bufIdxs (demoCard.rx 0) (demoCard.tx 0),
        i ∉ bufIdxs (demoCard.rx 1) (demoCard.tx 1) := by decide
    rcases hcases with ⟨rfl, rfl⟩ | ⟨rfl, rfl⟩
    · exact ⟨by decide, fun i hi hi' => hbufs i hi hi'⟩
    · exact ⟨by decide, fun i hi hi' => hbufs i hi' hi⟩

/-- The second worker polls in front of and behind a poll of the first, and its answer goes out. -/
def demoCardEvents : List (Nat × PortEvent Unit) :=
  [(1, .poll demoNetmap ⟨0, false, false⟩), (0, .poll demoNetmap ⟨1, false, true⟩),
    (1, .poll demoNetmap ⟨1, false, true⟩), (1, .transmitted 0)]

end Arch
end NmMemcached
