import NmMemcached.Arch.Answer
import NmMemcached.Arch.Rings

/-!
# Batch — the accounting of one call of `ProcessRing`

The loop of `ProcessRing` is bounded by the slots of the rx ring, the frames that wait in it and
the room in the tx ring, so a batch takes what it says it took and stays behind the tails
(`accounted_processRing`).

`nm_ring_space` counts in an `int`.  The slots of a ring lie in the shared region of netmap, and
`nr_memsize` gives its size in a `uint32_t`; at sixteen bytes a slot no ring has more than 2^28
of them, and up to 2^31 the count is right.
-/

namespace NmMemcached
namespace Arch

open Lib Base Net

section Batch

universe u

variable {σ : Type u} (nm : Netmap σ) (p : RingPair σ)

/-- The number of turns of one call. -/
def batchLimit : Nat := min (min p.rx.numSlots (nmRingSpace p.rx)) (nmRingSpace p.tx)

/-- The state in which the loop of the call starts. -/
def startLoop : RingLoop σ :=
  { clearRingFlags p with
    rxCur := p.rx.cur
    txCur := p.tx.cur
    processCount := 0 }

/-- The state in which it ends. -/
def endLoop : RingLoop σ := ringLoop nm (batchLimit p) (startLoop p)

/-- The answered turns of the call. -/
def answers : List (RingLoop σ) := answeredTurns nm (batchLimit p) (startLoop p)

/-- The loop starts from the rings as they are, apart from their flags. -/
theorem rings_startLoop :
    ∃ rxFlags txFlags, (startLoop p).rx = { p.rx with flags := rxFlags } ∧
      (startLoop p).tx = { p.tx with flags := txFlags } := by
  by_cases h : p.rx.flags ≠ 0 ∨ p.tx.flags ≠ 0
  · refine ⟨0, 0, ?_, ?_⟩
    · simp only [startLoop, clearRingFlags, if_pos h]
      rfl
    · simp only [startLoop, clearRingFlags, if_pos h]
      rfl
  · refine ⟨p.rx.flags, p.tx.flags, ?_, ?_⟩
    · simp only [startLoop, clearRingFlags, if_neg h]
    · simp only [startLoop, clearRingFlags, if_neg h]

theorem processRing_eq :
    processRing nm p =
      ((endLoop nm p).processCount,
        { rx := (endLoop nm p).rx.moveTo (endLoop nm p).rxCur
          tx := (endLoop nm p).tx.moveTo (endLoop nm p).txCur
          buf := (endLoop nm p).buf
          db := (endLoop nm p).db }) := by
  unfold processRing endLoop batchLimit startLoop clearRingFlags
  split
  · rfl
  · rfl

theorem count_processRing : (processRing nm p).1 = batchLimit p := by
  rw [processRing_eq]
  exact (processCount_ringLoop nm _ _).trans (Nat.zero_add _)

variable {p}

theorem batchLimit_lt (hrx : p.rx.Wf) (htx : p.tx.Wf) :
    batchLimit p < p.rx.numSlots ∧ batchLimit p < p.tx.numSlots := by
  have hr := nmRingSpace_lt hrx
  have ht := nmRingSpace_lt htx
  unfold batchLimit
  omega

theorem onRings_startLoop (hrx : p.rx.Wf) (htx : p.tx.Wf) : OnRings (startLoop p) := by
  rcases rings_startLoop p with ⟨rxFlags, txFlags, hr, ht⟩
  refine ⟨?_, ?_⟩
  · rw [hr]
    exact hrx.cur_lt
  · rw [ht]
    exact htx.cur_lt

/-- A ring whose head and cursor went `k` slots ahead. -/
structure Moved (r r' : NetmapRing) (k : Nat) : Prop where
  numSlots : r'.numSlots = r.numSlots
  tail : r'.tail = r.tail
  cur : r'.cur = Cyclic.advance r.numSlots r.cur k
  head : r'.head = r'.cur
  below : r'.cur < r'.numSlots

theorem Moved.wf {r r' : NetmapRing} {k : Nat} (h : Moved r r' k) (hr : r.Wf) : r'.Wf := by
  refine ⟨h.below, ?_, ?_⟩
  · rw [h.numSlots, h.tail]
    exact hr.tail_lt
  · rw [h.numSlots]
    exact hr.numSlots_lt

variable (p) in
/-- The slots of the end of the loop are those of its start as far as the shape goes. -/
theorem rings_endLoop :
    (∃ flags slots, (endLoop nm p).rx = { p.rx with flags := flags, slot := slots }) ∧
      ∃ flags slots, (endLoop nm p).tx = { p.tx with flags := flags, slot := slots } := by
  rcases rings_startLoop p with ⟨rxFlags, txFlags, hr, ht⟩
  rcases sameShape_ringLoop nm (batchLimit p) (startLoop p) with ⟨⟨s, hrx⟩, t, htx⟩
  rw [hr] at hrx
  rw [ht] at htx
  exact ⟨⟨rxFlags, s, hrx⟩, txFlags, t, htx⟩

theorem moved_rx (hrx : p.rx.Wf) (htx : p.tx.Wf) :
    Moved p.rx (processRing nm p).2.rx (processRing nm p).1 := by
  rcases rings_startLoop p with ⟨rxFlags, txFlags, hr, ht⟩
  rcases (rings_endLoop nm p).1 with ⟨flags, slots, hend⟩
  have hcur : (endLoop nm p).rxCur = Cyclic.advance p.rx.numSlots p.rx.cur (batchLimit p) := by
    rw [endLoop, rxCur_ringLoop nm _ (onRings_startLoop hrx htx), hr]
    rfl
  rw [count_processRing, processRing_eq, hend, hcur]
  exact ⟨rfl, rfl, rfl, rfl, Cyclic.advance_lt hrx.cur_lt _⟩

theorem moved_tx (hrx : p.rx.Wf) (htx : p.tx.Wf) :
    Moved p.tx (processRing nm p).2.tx (answers nm p).length := by
  rcases rings_startLoop p with ⟨rxFlags, txFlags, hr, ht⟩
  rcases (rings_endLoop nm p).2 with ⟨flags, slots, hend⟩
  have hcur : (endLoop nm p).txCur =
      Cyclic.advance p.tx.numSlots p.tx.cur (answers nm p).length := by
    rw [endLoop, txCur_ringLoop nm _ (onRings_startLoop hrx htx), ht]
    rfl
  rw [processRing_eq, hend, hcur]
  exact ⟨rfl, rfl, rfl, rfl, Cyclic.advance_lt htx.cur_lt _⟩

/-- Only the rx slots that are taken and the tx slots that are filled change. -/
theorem slots_processRing (hrx : p.rx.Wf) (htx : p.tx.Wf) (i : Nat) :
    (i ∉ Cyclic.arc p.rx.numSlots p.rx.cur (processRing nm p).1 →
      (processRing nm p).2.rx.slot i = p.rx.slot i) ∧
    (i ∉ Cyclic.arc p.tx.numSlots p.tx.cur (answers nm p).length →
      (processRing nm p).2.tx.slot i = p.tx.slot i) := by
  rcases rings_startLoop p with ⟨rxFlags, txFlags, hr, ht⟩
  have hon := onRings_startLoop hrx htx
  rw [count_processRing, processRing_eq]
  refine ⟨?_, ?_⟩
  · intro hi
    have hslot := rx_slot_ringLoop nm (batchLimit p) hon (i := i)
    rw [hr] at hslot
    exact hslot hi
  · intro hi
    have hslot := tx_slot_ringLoop nm (batchLimit p) hon (i := i)
    rw [ht] at hslot
    exact hslot hi

variable (p) in
/-- The rx slots are taken in ring order from `cur` on. -/
theorem taken_processRing (hrx : p.rx.Wf) (htx : p.tx.Wf) :
    (turnStates nm (processRing nm p).1 (startLoop p)).map RingLoop.rxCur =
      Cyclic.arc p.rx.numSlots p.rx.cur (processRing nm p).1 := by
  rcases rings_startLoop p with ⟨rxFlags, txFlags, hr, ht⟩
  rw [visited_turnStates nm _ (onRings_startLoop hrx htx), hr]
  rfl

/-- The number of frames is bounded by what waits in the rx ring. -/
theorem count_le_gap (hrx : p.rx.Wf) (hsize : p.rx.numSlots ≤ 2147483648) :
    (processRing nm p).1 ≤ Cyclic.gap p.rx.numSlots p.rx.cur p.rx.tail := by
  rw [count_processRing, ← nmRingSpace_eq_gap hrx hsize]
  exact Nat.le_trans (Nat.min_le_left _ _) (Nat.min_le_right _ _)

/-- The number of answers is bounded by the room in the tx ring. -/
theorem length_answers_le_gap (htx : p.tx.Wf) (hsize : p.tx.numSlots ≤ 2147483648) :
    (answers nm p).length ≤ Cyclic.gap p.tx.numSlots p.tx.cur p.tx.tail := by
  have hanswers : (answers nm p).length ≤ batchLimit p := length_answeredTurns_le nm _ _
  rw [← nmRingSpace_eq_gap htx hsize]
  exact Nat.le_trans hanswers (Nat.min_le_right _ _)

/-! ## The accounting -/

/-- What one call takes and fills. -/
structure Accounted (p : RingPair σ) : Prop where
  count : (processRing nm p).1 =
    min (min p.rx.numSlots (nmRingSpace p.rx)) (nmRingSpace p.tx)
  /-- The rx slots are taken in ring order from `cur` on. -/
  taken : (turnStates nm (processRing nm p).1 (startLoop p)).map RingLoop.rxCur =
    Cyclic.arc p.rx.numSlots p.rx.cur (processRing nm p).1
  once : (Cyclic.arc p.rx.numSlots p.rx.cur (processRing nm p).1).Nodup
  /-- The tx slots from `cur` on hold the answers in the order of their frames. -/
  filled : (Cyclic.arc p.tx.numSlots p.tx.cur (answers nm p).length).map
      (fun i => ((processRing nm p).2.tx.slot i).content) = (answers nm p).map (answerOf nm)
  untouched : ∀ i, i ∉ Cyclic.arc p.tx.numSlots p.tx.cur (answers nm p).length →
    (processRing nm p).2.tx.slot i = p.tx.slot i
  rx : Moved p.rx (processRing nm p).2.rx (processRing nm p).1
  tx : Moved p.tx (processRing nm p).2.tx (answers nm p).length
  rx_tail : p.rx.numSlots ≤ 2147483648 →
    (processRing nm p).1 ≤ Cyclic.gap p.rx.numSlots p.rx.cur p.rx.tail
  tx_tail : p.tx.numSlots ≤ 2147483648 →
    (answers nm p).length ≤ Cyclic.gap p.tx.numSlots p.tx.cur p.tx.tail

/-- A batch takes exactly as many frames as wait, as there are slots and as there is room, answers
them in order, and leaves both cursors behind their tails. -/
theorem accounted_processRing (p : RingPair σ) (hrx : p.rx.Wf) (htx : p.tx.Wf) :
    Accounted nm p := by
  rcases rings_startLoop p with ⟨rxFlags, txFlags, hr, ht⟩
  have hlt := batchLimit_lt hrx htx
  refine ⟨count_processRing nm p, taken_processRing nm p hrx htx, ?_, ?_, ?_, moved_rx nm hrx htx,
    moved_tx nm hrx htx, count_le_gap nm hrx, length_answers_le_gap nm htx⟩
  · rw [count_processRing]
    exact Cyclic.nodup_arc (Nat.le_of_lt hlt.1)
  · have hfilled := filled_ringLoop nm (batchLimit p) (onRings_startLoop hrx htx)
    rw [ht] at hfilled
    rw [processRing_eq]
    exact hfilled (Nat.le_of_lt hlt.2)
  · intro i hi
    exact (slots_processRing nm hrx htx i).2 hi

end Batch

/-- A ring of `n` slots whose buffers are numbered from `first` on. -/
def demoRing (n cur tail first : Nat) : NetmapRing :=
  { numSlots := n
    head := cur
    cur := cur
    tail := tail
    flags := 0
    slot := fun i => { bufIdx := first + i, len := 60, flags := 0 } }

/-- All buffers are zero but one, with the ARP request. -/
def demoBuf (bufIdx : Nat) : Mem := if bufIdx = 13 then arpFrame else fun _ => 0

/-- An rx ring whose waiting frames go round its end, and a tx ring of another size. -/
def demoRings : RingPair Unit :=
  { rx := demoRing 4 2 1 10
    tx := demoRing 8 0 7 20
    buf := demoBuf
    db := () }

theorem wf_demoRings : demoRings.rx.Wf ∧ demoRings.tx.Wf :=
  ⟨⟨by decide, by decide, by decide⟩, by decide, by decide, by decide⟩

theorem accounted_demoRings : Accounted demoNetmap demoRings :=
  accounted_processRing demoNetmap demoRings wf_demoRings.1 wf_demoRings.2

end Arch
end NmMemcached
