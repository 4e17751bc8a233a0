import Mathlib.Algebra.BigOperators.Ring.Finset
import Mathlib.Algebra.Order.BigOperators.Group.Finset
import Mathlib.Order.Interval.Finset.Nat
import NmMemcached.Arch.Batch
import NmMemcached.Lib.Runs

/-!
# Search — the batches of one wake-up

`SearchValidRing` pairs the rx rings and the tx rings of the descriptor: it passes over an rx ring
that is empty and a tx ring that is full, and has `ProcessRing` work on the pair in front of it
otherwise.  A turn finishes a ring or takes frames, so the loop stops, and it stops when one side
is used up (`drained_searchValidRing`).

All rings lie in the shared region, whose size is the `uint32_t` `nr_memsize`, and a slot has
sixteen bytes (`NmDesc.Fits`).  Hence the sum of all frames is no problem for the `u_int` that
counts them.
-/

namespace NmMemcached
namespace Arch

open Lib Base Net

universe u

/-! ## The loop -/

/-- The ring indexes of `struct nm_desc`, `uint16_t` each. -/
structure NmDesc where
  firstRxRing : Nat
  lastRxRing : Nat
  firstTxRing : Nat
  lastTxRing : Nat

/-- The rings of an interface and what they share. -/
structure Rings (σ : Type u) where
  rx : Nat → NetmapRing
  tx : Nat → NetmapRing
  buf : Nat → Mem
  db : σ

structure SearchLoop (σ : Type u) extends Rings σ where
  rxringidx : Nat
  txringidx : Nat
  m : Nat

def nmRingEmpty (r : NetmapRing) : Bool := decide (r.cur = r.tail)

section Search

variable {σ : Type u} (nm : Netmap σ) (d : NmDesc)

/-- The pair of rings the loop looks at. -/
def SearchLoop.pair (s : SearchLoop σ) : RingPair σ :=
  { rx := s.rx s.rxringidx
    tx := s.tx s.txringidx
    buf := s.buf
    db := s.db }

/-- One turn of the `while`. -/
def searchStep (s : SearchLoop σ) : Option (SearchLoop σ) :=
  if s.rxringidx ≤ d.lastRxRing ∧ s.txringidx ≤ d.lastTxRing then
    if nmRingEmpty s.pair.rx then
      some { s with rxringidx := (s.rxringidx + 1) % 65536 }
    else if nmRingEmpty s.pair.tx then
      some { s with txringidx := (s.txringidx + 1) % 65536 }
    else
      let res := processRing nm s.pair
      some
        { rx := Function.update s.rx s.rxringidx res.2.rx
          tx := Function.update s.tx s.txringidx res.2.tx
          buf := res.2.buf
          db := res.2.db
          rxringidx := s.rxringidx
          txringidx := s.txringidx
          m := (s.m + res.1) % 4294967296 }
  else
    none

def startSearch (r : Rings σ) : SearchLoop σ :=
  { r with
    rxringidx := d.firstRxRing
    txringidx := d.firstTxRing
    m := 0 }

/-- `SearchValidRing`, with a bound on the turns; `m` is returned as an `int`. -/
def searchValidRing (n : Nat) (r : Rings σ) : Option (Int × Rings σ) :=
  (loop (searchStep nm d) n (startSearch d r)).map fun s =>
    ((BitVec.ofNat 32 s.m).toInt, s.toRings)

/-! ## Progress of one ring -/

/-- How far the cursor of a ring went. -/
def advanced (r r' : NetmapRing) : Nat := Cyclic.gap r.numSlots r.cur r'.cur

/-- How many slots are left in front of the tail. -/
def pending (r : NetmapRing) : Nat := Cyclic.gap r.numSlots r.cur r.tail

/-- The cursor went some way towards the tail, and nothing else moved. -/
structure Progress (r r' : NetmapRing) : Prop where
  numSlots : r'.numSlots = r.numSlots
  tail : r'.tail = r.tail
  wf : r'.Wf
  way : advanced r r' + pending r' = pending r

variable {r r' r'' : NetmapRing} {k : Nat}

theorem advanced_self (h : r.Wf) : advanced r r = 0 :=
  (Cyclic.gap_eq_zero_iff h.cur_lt h.cur_lt).2 rfl

theorem Progress.refl (h : r.Wf) : Progress r r :=
  ⟨rfl, rfl, h, by rw [advanced_self h, Nat.zero_add]⟩

theorem pending_eq_zero_iff (h : r.Wf) : pending r = 0 ↔ nmRingEmpty r = true := by
  rw [pending, Cyclic.gap_eq_zero_iff h.cur_lt h.tail_lt, nmRingEmpty, decide_eq_true_iff]

theorem Progress.cur_eq (hr : r.Wf) (h : Progress r r') :
    r'.cur = Cyclic.advance r.numSlots r.cur (advanced r r') := by
  have hcur : r'.cur < r.numSlots := h.numSlots ▸ h.wf.cur_lt
  exact (Cyclic.advance_gap hr.cur_lt hcur).symm

/-- A move towards the tail is added to the way. -/
theorem Progress.step (hr : r.Wf) (h : Progress r r') (hmove : Moved r' r'' k)
    (hk : k ≤ pending r') :
    Progress r r'' ∧ advanced r r'' = advanced r r' + k ∧ pending r'' + k = pending r' := by
  have hwf' := h.wf
  have hwf'' := hmove.wf hwf'
  have hn' := h.numSlots
  have hn'' : r''.numSlots = r.numSlots := hmove.numSlots.trans hn'
  have hcur' : r'.cur < r.numSlots := hn' ▸ hwf'.cur_lt
  have htail' : r'.tail < r.numSlots := hn' ▸ hwf'.tail_lt
  have hway := h.way
  have hlt : pending r < r.numSlots := Cyclic.gap_lt hr.cur_lt _
  -- From the first cursor it is the way so far and `k` steps more.
  have hcur : r''.cur = Cyclic.advance r.numSlots r.cur (advanced r r' + k) := by
    rw [hmove.cur, hn', ← Cyclic.advance_advance, ← h.cur_eq hr]
  have hadv : advanced r r'' = advanced r r' + k := by
    rw [advanced, hcur]
    exact Cyclic.gap_advance_self hr.cur_lt (by omega)
  have hpend : pending r'' = pending r' - k := by
    have hk' : k ≤ Cyclic.gap r.numSlots r'.cur r'.tail := by
      rw [← hn']
      exact hk
    rw [pending, hn'', hmove.tail, hmove.cur, hn', Cyclic.gap_advance hcur' htail' hk', pending,
      hn']
  exact ⟨⟨hn'', hmove.tail.trans h.tail, hwf'', by omega⟩, hadv, by omega⟩

/-! ## Progress of all rings -/

def NmDesc.rxRange : Finset Nat := Finset.Icc d.firstRxRing d.lastRxRing

def NmDesc.txRange : Finset Nat := Finset.Icc d.firstTxRing d.lastTxRing

/-- Well-formed rings of one region, with indexes that do not wrap. -/
structure NmDesc.Fits (r : Rings σ) : Prop where
  lastRx : d.lastRxRing < 65535
  lastTx : d.lastTxRing < 65535
  rx : ∀ i ∈ d.rxRange, (r.rx i).Wf
  tx : ∀ j ∈ d.txRange, (r.tx j).Wf
  rxRegion : 16 * ∑ i ∈ d.rxRange, (r.rx i).numSlots < 4294967296
  txRegion : 16 * ∑ j ∈ d.txRange, (r.tx j).numSlots < 4294967296

/-- The rx slots whose frames a turn of the search processes. -/
def taken (s : SearchLoop σ) : List Nat :=
  if nmRingEmpty s.pair.rx ∨ nmRingEmpty s.pair.tx then []
  else (turnStates nm (processRing nm s.pair).1 (startLoop s.pair)).map RingLoop.rxCur

/-- Those of the rx ring `i` over a number of turns. -/
def takenFrom (ss : List (SearchLoop σ)) (i : Nat) : List Nat :=
  ss.flatMap fun s => if s.rxringidx = i then taken nm s else []

/-- What holds after the turns that started in `ss`, compared with the rings `r`. -/
structure Draining (r : Rings σ) (ss : List (SearchLoop σ)) (s : SearchLoop σ) : Prop where
  firstRx : d.firstRxRing ≤ s.rxringidx
  firstTx : d.firstTxRing ≤ s.txringidx
  rx : ∀ i ∈ d.rxRange, Progress (r.rx i) (s.rx i)
  tx : ∀ j ∈ d.txRange, Progress (r.tx j) (s.tx j)
  rxDone : ∀ i ∈ d.rxRange, i < s.rxringidx → nmRingEmpty (s.rx i) = true
  txDone : ∀ j ∈ d.txRange, j < s.txringidx → nmRingEmpty (s.tx j) = true
  count : s.m = (∑ i ∈ d.rxRange, advanced (r.rx i) (s.rx i)) % 4294967296
  frames : ∀ i ∈ d.rxRange, takenFrom nm ss i =
    Cyclic.arc (r.rx i).numSlots (r.rx i).cur (advanced (r.rx i) (s.rx i))

/-- Rings that are still to be looked at, and frames that wait. -/
def remaining (s : SearchLoop σ) : Nat :=
  d.lastRxRing + 1 - s.rxringidx + (d.lastTxRing + 1 - s.txringidx) +
    ∑ i ∈ d.rxRange, pending (s.rx i)

/-- A sum in which one term grows. -/
theorem sum_add_of_eq {s : Finset Nat} {f g : Nat → Nat} {i k : Nat} (hi : i ∈ s)
    (hadd : g i = f i + k) (hsame : ∀ x ∈ s, x ≠ i → g x = f x) :
    ∑ x ∈ s, g x = ∑ x ∈ s, f x + k := by
  have hrest : ∑ x ∈ s.erase i, g x = ∑ x ∈ s.erase i, f x := by
    refine Finset.sum_congr rfl ?_
    intro x hx
    exact hsame x (Finset.mem_of_mem_erase hx) (Finset.ne_of_mem_erase hx)
  rw [← Finset.add_sum_erase s g hi, ← Finset.add_sum_erase s f hi, hrest, hadd]
  omega

theorem numSlots_le_of_region {s : Finset Nat} {f : Nat → NetmapRing}
    (h : 16 * ∑ i ∈ s, (f i).numSlots < 4294967296) {i : Nat} (hi : i ∈ s) :
    (f i).numSlots ≤ 2147483648 := by
  have hle : (f i).numSlots ≤ ∑ i ∈ s, (f i).numSlots :=
    Finset.single_le_sum (f := fun i => (f i).numSlots) (fun _ _ => Nat.zero_le _) hi
  omega

theorem draining_start {r : Rings σ} (h : d.Fits r) : Draining nm d r [] (startSearch d r) := by
  have hzero : ∀ i ∈ d.rxRange, advanced (r.rx i) ((startSearch d r).rx i) = 0 :=
    fun i hi => advanced_self (h.rx i hi)
  refine ⟨Nat.le_refl _, Nat.le_refl _, fun i hi => .refl (h.rx i hi),
    fun j hj => .refl (h.tx j hj), ?_, ?_, ?_, ?_⟩
  · intro i hi hlt
    exact absurd (Finset.mem_Icc.1 hi).1 (Nat.not_le.2 hlt)
  · intro j hj hlt
    exact absurd (Finset.mem_Icc.1 hj).1 (Nat.not_le.2 hlt)
  · rw [Finset.sum_eq_zero hzero]
    rfl
  · intro i hi
    rw [hzero i hi]
    rfl

theorem takenFrom_append (ss : List (SearchLoop σ)) (s : SearchLoop σ) (i : Nat) :
    takenFrom nm (ss ++ [s]) i =
      takenFrom nm ss i ++ if s.rxringidx = i then taken nm s else [] := by
  simp [takenFrom]

/-! ## One turn -/

section Turn

variable {nm d} {r : Rings σ} {ss : List (SearchLoop σ)} {s : SearchLoop σ}

theorem takenFrom_of_empty (h : nmRingEmpty s.pair.rx = true ∨ nmRingEmpty s.pair.tx = true)
    (i : Nat) : takenFrom nm (ss ++ [s]) i = takenFrom nm ss i := by
  have hnone : taken nm s = [] := if_pos h
  rw [takenFrom_append, hnone, ite_self, List.append_nil]

/-- An empty rx ring is passed over. -/
theorem draining_nextRx (hd : d.Fits r) (h : Draining nm d r ss s)
    (hle : s.rxringidx ≤ d.lastRxRing) (hempty : nmRingEmpty s.pair.rx = true) :
    Draining nm d r (ss ++ [s]) { s with rxringidx := (s.rxringidx + 1) % 65536 } ∧
      remaining d { s with rxringidx := (s.rxringidx + 1) % 65536 } < remaining d s := by
  have hlast := hd.lastRx
  have hidx : (s.rxringidx + 1) % 65536 = s.rxringidx + 1 := Nat.mod_eq_of_lt (by omega)
  rw [hidx]
  refine ⟨⟨Nat.le_succ_of_le h.firstRx, h.firstTx, h.rx, h.tx, ?_, h.txDone, h.count, ?_⟩, ?_⟩
  · intro i hi hlt
    rcases Nat.lt_or_eq_of_le (Nat.le_of_lt_succ hlt) with hold | rfl
    · exact h.rxDone i hi hold
    · exact hempty
  · intro i hi
    rw [takenFrom_of_empty (Or.inl hempty)]
    exact h.frames i hi
  · simp only [remaining]
    omega

/-- A full tx ring is passed over. -/
theorem draining_nextTx (hd : d.Fits r) (h : Draining nm d r ss s)
    (hle : s.txringidx ≤ d.lastTxRing) (hempty : nmRingEmpty s.pair.tx = true) :
    Draining nm d r (ss ++ [s]) { s with txringidx := (s.txringidx + 1) % 65536 } ∧
      remaining d { s with txringidx := (s.txringidx + 1) % 65536 } < remaining d s := by
  have hlast := hd.lastTx
  have hidx : (s.txringidx + 1) % 65536 = s.txringidx + 1 := Nat.mod_eq_of_lt (by omega)
  rw [hidx]
  refine ⟨⟨h.firstRx, Nat.le_succ_of_le h.firstTx, h.rx, h.tx, h.rxDone, ?_, h.count, ?_⟩, ?_⟩
  · intro j hj hlt
    rcases Nat.lt_or_eq_of_le (Nat.le_of_lt_succ hlt) with hold | rfl
    · exact h.txDone j hj hold
    · exact hempty
  · intro i hi
    rw [takenFrom_of_empty (Or.inr hempty)]
    exact h.frames i hi
  · simp only [remaining]
    omega

/-- The state behind a batch. -/
def searchBatch (nm : Netmap σ) (s : SearchLoop σ) : SearchLoop σ :=
  { rx := Function.update s.rx s.rxringidx (processRing nm s.pair).2.rx
    tx := Function.update s.tx s.txringidx (processRing nm s.pair).2.tx
    buf := (processRing nm s.pair).2.buf
    db := (processRing nm s.pair).2.db
    rxringidx := s.rxringidx
    txringidx := s.txringidx
    m := (s.m + (processRing nm s.pair).1) % 4294967296 }

theorem rx_searchBatch_self (nm : Netmap σ) (s : SearchLoop σ) :
    (searchBatch nm s).rx s.rxringidx = (processRing nm s.pair).2.rx :=
  Function.update_self _ _ _

theorem rx_searchBatch_of_ne (nm : Netmap σ) {i : Nat} (h : i ≠ s.rxringidx) :
    (searchBatch nm s).rx i = s.rx i :=
  Function.update_of_ne h _ _

theorem tx_searchBatch_self (nm : Netmap σ) (s : SearchLoop σ) :
    (searchBatch nm s).tx s.txringidx = (processRing nm s.pair).2.tx :=
  Function.update_self _ _ _

theorem tx_searchBatch_of_ne (nm : Netmap σ) {j : Nat} (h : j ≠ s.txringidx) :
    (searchBatch nm s).tx j = s.tx j :=
  Function.update_of_ne h _ _

/-- A batch on a ring with frames and a ring with room takes at least one frame. -/
theorem one_le_count_processRing (nm : Netmap σ) {p : RingPair σ} (hrx : p.rx.Wf) (htx : p.tx.Wf)
    (hrxSize : p.rx.numSlots ≤ 2147483648) (htxSize : p.tx.numSlots ≤ 2147483648)
    (hrxne : ¬ nmRingEmpty p.rx = true) (htxne : ¬ nmRingEmpty p.tx = true) :
    1 ≤ (processRing nm p).1 := by
  have hr : pending p.rx ≠ 0 := fun hz => hrxne ((pending_eq_zero_iff hrx).1 hz)
  have ht : pending p.tx ≠ 0 := fun hz => htxne ((pending_eq_zero_iff htx).1 hz)
  have hslots : 0 < p.rx.numSlots := Nat.zero_lt_of_lt hrx.cur_lt
  rw [count_processRing, batchLimit, nmRingSpace_eq_gap hrx hrxSize,
    nmRingSpace_eq_gap htx htxSize]
  unfold pending at hr ht
  omega

/-- The slots of a batch go on where the cursor of its ring stands. -/
theorem takenFrom_batch (hd : d.Fits r) (h : Draining nm d r ss s)
    (hi : s.rxringidx ∈ d.rxRange) (htx : s.pair.tx.Wf)
    (hrxne : ¬ nmRingEmpty s.pair.rx = true) (htxne : ¬ nmRingEmpty s.pair.tx = true)
    (hadv : advanced (r.rx s.rxringidx) (processRing nm s.pair).2.rx =
      advanced (r.rx s.rxringidx) s.pair.rx + (processRing nm s.pair).1) :
    takenFrom nm (ss ++ [s]) s.rxringidx =
      Cyclic.arc (r.rx s.rxringidx).numSlots (r.rx s.rxringidx).cur
        (advanced (r.rx s.rxringidx) ((searchBatch nm s).rx s.rxringidx)) := by
  have hrx := h.rx _ hi
  have hwf : s.pair.rx.Wf := hrx.wf
  have htaken : taken nm s = Cyclic.arc s.pair.rx.numSlots s.pair.rx.cur
      (processRing nm s.pair).1 := by
    rw [taken, if_neg (not_or.2 ⟨hrxne, htxne⟩), taken_processRing nm s.pair hwf htx]
  have hnum : s.pair.rx.numSlots = (r.rx s.rxringidx).numSlots := hrx.numSlots
  have hcur : s.pair.rx.cur = _ := hrx.cur_eq (hd.rx _ hi)
  rw [takenFrom_append, h.frames _ hi, if_pos rfl, htaken, rx_searchBatch_self, hadv,
    Cyclic.arc_add, hnum, hcur]
  rfl

section Batch

variable (hd : d.Fits r) (h : Draining nm d r ss s) (hrxle : s.rxringidx ≤ d.lastRxRing)
  (htxle : s.txringidx ≤ d.lastTxRing)
include hd h hrxle htxle

theorem pair_fits : s.pair.rx.Wf ∧ s.pair.tx.Wf ∧ s.pair.rx.numSlots ≤ 2147483648 ∧
    s.pair.tx.numSlots ≤ 2147483648 := by
  have hi : s.rxringidx ∈ d.rxRange := Finset.mem_Icc.2 ⟨h.firstRx, hrxle⟩
  have hj : s.txringidx ∈ d.txRange := Finset.mem_Icc.2 ⟨h.firstTx, htxle⟩
  have hrx := h.rx _ hi
  have htx := h.tx _ hj
  exact ⟨hrx.wf, htx.wf, hrx.numSlots ▸ numSlots_le_of_region hd.rxRegion hi,
    htx.numSlots ▸ numSlots_le_of_region hd.txRegion hj⟩

/-- The rx ring of a batch moves on by the frames it counts. -/
theorem progress_rx :
    Progress (r.rx s.rxringidx) (processRing nm s.pair).2.rx ∧
      advanced (r.rx s.rxringidx) (processRing nm s.pair).2.rx =
        advanced (r.rx s.rxringidx) s.pair.rx + (processRing nm s.pair).1 ∧
      pending (processRing nm s.pair).2.rx + (processRing nm s.pair).1 = pending s.pair.rx := by
  have hi : s.rxringidx ∈ d.rxRange := Finset.mem_Icc.2 ⟨h.firstRx, hrxle⟩
  rcases pair_fits hd h hrxle htxle with ⟨hrxWf, htxWf, hrxSize, _⟩
  exact Progress.step (hd.rx _ hi) (h.rx _ hi) (moved_rx nm hrxWf htxWf)
    (count_le_gap nm hrxWf hrxSize)

theorem progress_tx : Progress (r.tx s.txringidx) (processRing nm s.pair).2.tx := by
  have hj : s.txringidx ∈ d.txRange := Finset.mem_Icc.2 ⟨h.firstTx, htxle⟩
  rcases pair_fits hd h hrxle htxle with ⟨hrxWf, htxWf, _, htxSize⟩
  exact (Progress.step (hd.tx _ hj) (h.tx _ hj) (moved_tx nm hrxWf htxWf)
    (length_answers_le_gap nm htxWf htxSize)).1

variable (hrxne : ¬ nmRingEmpty s.pair.rx = true) (htxne : ¬ nmRingEmpty s.pair.tx = true)
include hrxne htxne

/-- At least one of the waiting frames is taken. -/
theorem remaining_batch : remaining d (searchBatch nm s) < remaining d s := by
  have hi : s.rxringidx ∈ d.rxRange := Finset.mem_Icc.2 ⟨h.firstRx, hrxle⟩
  rcases pair_fits hd h hrxle htxle with ⟨hrxWf, htxWf, hrxSize, htxSize⟩
  have hpos := one_le_count_processRing nm hrxWf htxWf hrxSize htxSize hrxne htxne
  have hsum : ∑ i ∈ d.rxRange, pending (s.rx i) =
      ∑ i ∈ d.rxRange, pending ((searchBatch nm s).rx i) + (processRing nm s.pair).1 := by
    refine sum_add_of_eq hi ?_ ?_
    · rw [rx_searchBatch_self]
      exact (progress_rx hd h hrxle htxle).2.2.symm
    · intro i _ hne
      rw [rx_searchBatch_of_ne nm hne]
  change d.lastRxRing + 1 - s.rxringidx + (d.lastTxRing + 1 - s.txringidx) +
    ∑ i ∈ d.rxRange, pending ((searchBatch nm s).rx i) < remaining d s
  rw [remaining, hsum]
  omega

theorem draining_batch : Draining nm d r (ss ++ [s]) (searchBatch nm s) := by
  have hi : s.rxringidx ∈ d.rxRange := Finset.mem_Icc.2 ⟨h.firstRx, hrxle⟩
  rcases progress_rx hd h hrxle htxle with ⟨hrx', hadv, _⟩
  have htx' := progress_tx hd h hrxle htxle
  have htxWf := (pair_fits hd h hrxle htxle).2.1
  refine ⟨h.firstRx, h.firstTx, ?_, ?_, ?_, ?_, ?_, ?_⟩
  · intro i hi'
    by_cases hne : i = s.rxringidx
    · subst hne
      rw [rx_searchBatch_self]
      exact hrx'
    · rw [rx_searchBatch_of_ne nm hne]
      exact h.rx i hi'
  · intro j hj'
    by_cases hne : j = s.txringidx
    · subst hne
      rw [tx_searchBatch_self]
      exact htx'
    · rw [tx_searchBatch_of_ne nm hne]
      exact h.tx j hj'
  · intro i hi' hlt
    have hne : i ≠ s.rxringidx := Nat.ne_of_lt hlt
    rw [rx_searchBatch_of_ne nm hne]
    exact h.rxDone i hi' hlt
  · intro j hj' hlt
    have hne : j ≠ s.txringidx := Nat.ne_of_lt hlt
    rw [tx_searchBatch_of_ne nm hne]
    exact h.txDone j hj' hlt
  · have hsum : ∑ i ∈ d.rxRange, advanced (r.rx i) ((searchBatch nm s).rx i) =
        ∑ i ∈ d.rxRange, advanced (r.rx i) (s.rx i) + (processRing nm s.pair).1 := by
      refine sum_add_of_eq hi ?_ ?_
      · rw [rx_searchBatch_self]
        exact hadv
      · intro i _ hne
        rw [rx_searchBatch_of_ne nm hne]
    change (s.m + (processRing nm s.pair).1) % 4294967296 = _
    rw [hsum, h.count, Nat.mod_add_mod]
  · intro i hi'
    by_cases hne : i = s.rxringidx
    · subst hne
      exact takenFrom_batch hd h hi htxWf hrxne htxne hadv
    · rw [takenFrom_append, h.frames i hi', if_neg (Ne.symm hne), List.append_nil,
        rx_searchBatch_of_ne nm hne]

end Batch

theorem draining_step (hd : d.Fits r) {s' : SearchLoop σ} (h : Draining nm d r ss s)
    (hstep : searchStep nm d s = some s') :
    Draining nm d r (ss ++ [s]) s' ∧ remaining d s' < remaining d s := by
  unfold searchStep at hstep
  by_cases hin : s.rxringidx ≤ d.lastRxRing ∧ s.txringidx ≤ d.lastTxRing
  · rw [if_pos hin] at hstep
    by_cases hrx : nmRingEmpty s.pair.rx = true
    · rw [if_pos hrx] at hstep
      exact Option.some.inj hstep ▸ draining_nextRx hd h hin.1 hrx
    · rw [if_neg hrx] at hstep
      by_cases htx : nmRingEmpty s.pair.tx = true
      · rw [if_pos htx] at hstep
        exact Option.some.inj hstep ▸ draining_nextTx hd h hin.2 htx
      · rw [if_neg htx] at hstep
        exact Option.some.inj hstep ▸ ⟨draining_batch hd h hin.1 hin.2 hrx htx,
          remaining_batch hd h hin.1 hin.2 hrx htx⟩
  · rw [if_neg hin] at hstep
    exact absurd hstep (by simp)

/-- Where the loop stops, the rx rings are empty or the tx rings are full. -/
theorem Draining.done (h : Draining nm d r ss s) (hend : searchStep nm d s = none) :
    (∀ i ∈ d.rxRange, nmRingEmpty (s.rx i) = true) ∨
      ∀ j ∈ d.txRange, nmRingEmpty (s.tx j) = true := by
  have hout : ¬ (s.rxringidx ≤ d.lastRxRing ∧ s.txringidx ≤ d.lastTxRing) := by
    intro hin
    unfold searchStep at hend
    rw [if_pos hin] at hend
    split at hend
    · simp at hend
    · split at hend <;> simp at hend
  by_cases hrx : s.rxringidx ≤ d.lastRxRing
  · right
    intro j hj
    have hle := (Finset.mem_Icc.1 hj).2
    exact h.txDone j hj (by omega)
  · left
    intro i hi
    have hle := (Finset.mem_Icc.1 hi).2
    exact h.rxDone i hi (by omega)

theorem advanced_lt {r : NetmapRing} (hr : r.Wf) (r' : NetmapRing) :
    advanced r r' < r.numSlots := Cyclic.gap_lt hr.cur_lt _

/-- The count is returned as it is. -/
theorem Draining.ret (hd : d.Fits r) (h : Draining nm d r ss s) :
    (BitVec.ofNat 32 s.m).toInt = ∑ i ∈ d.rxRange, (advanced (r.rx i) (s.rx i) : Int) := by
  have hle : ∑ i ∈ d.rxRange, advanced (r.rx i) (s.rx i) ≤
      ∑ i ∈ d.rxRange, (r.rx i).numSlots := by
    refine Finset.sum_le_sum ?_
    intro i hi
    exact Nat.le_of_lt (advanced_lt (hd.rx i hi) (s.rx i))
  have hregion := hd.rxRegion
  have hm : s.m = ∑ i ∈ d.rxRange, advanced (r.rx i) (s.rx i) := by
    rw [h.count]
    exact Nat.mod_eq_of_lt (by omega)
  rw [BitVec.toInt_ofNat', hm, ← Nat.cast_sum]
  exact Int.bmod_eq_of_le (by omega) (by omega)

end Turn

/-- The search stops; then every rx ring of the descriptor is empty or every tx ring is full, the
count is the sum of the ways of the rx cursors, and the frames of each rx ring were taken once and
in ring order, none of them beyond what waited. -/
theorem drained_searchValidRing (r : Rings σ) (hd : d.Fits r) :
    ∃ n ret r', searchValidRing nm d n r = some (ret, r') ∧
      ((∀ i ∈ d.rxRange, nmRingEmpty (r'.rx i) = true) ∨
        ∀ j ∈ d.txRange, nmRingEmpty (r'.tx j) = true) ∧
      ret = ∑ i ∈ d.rxRange, (advanced (r.rx i) (r'.rx i) : Int) ∧
      ∀ i ∈ d.rxRange,
        takenFrom nm (loopStates (searchStep nm d) n (startSearch d r)) i =
          Cyclic.arc (r.rx i).numSlots (r.rx i).cur (advanced (r.rx i) (r'.rx i)) ∧
        (takenFrom nm (loopStates (searchStep nm d) n (startSearch d r)) i).Nodup ∧
        advanced (r.rx i) (r'.rx i) ≤ pending (r.rx i) := by
  rcases loop_history (P := Draining nm d r) (draining_start nm d hd)
    (fun _ _ _ h hstep => draining_step hd h hstep) with ⟨n, s, hloop, hend, h⟩
  refine ⟨n, (BitVec.ofNat 32 s.m).toInt, s.toRings, ?_, h.done hend, h.ret hd, ?_⟩
  · rw [searchValidRing, hloop]
    rfl
  · intro i hi
    have hframes := h.frames i hi
    have hlt := advanced_lt (hd.rx i hi) (s.rx i)
    refine ⟨hframes, ?_, ?_⟩
    · rw [hframes]
      exact Cyclic.nodup_arc (Nat.le_of_lt hlt)
    · rw [← (h.rx i hi).way]
      exact Nat.le_add_right _ _

end Search

/-- An interface with two rx rings and one tx ring. -/
def demoInterface : Rings Unit :=
  { rx := fun i => if i = 0 then demoRing 4 2 1 10 else demoRing 8 5 5 30
    tx := fun _ => demoRing 8 0 7 20
    buf := demoBuf
    db := () }

def demoDesc : NmDesc :=
  { firstRxRing := 0
    lastRxRing := 1
    firstTxRing := 0
    lastTxRing := 0 }

theorem fits_demoDesc : demoDesc.Fits demoInterface := by
  have hrx : demoDesc.rxRange = {0, 1} := rfl
  have htx : demoDesc.txRange = {0} := rfl
  refine ⟨by decide, by decide, ?_, ?_, by decide, by decide⟩
  · intro i hi
    rw [hrx, Finset.mem_insert, Finset.mem_singleton] at hi
    rcases hi with rfl | rfl
    · exact ⟨by decide, by decide, by decide⟩
    · exact ⟨by decide, by decide, by decide⟩
  · intro j _
    change (demoRing 8 0 7 20).Wf
    exact ⟨by decide, by decide, by decide⟩

theorem drained_demoInterface :
    ∃ n ret r', searchValidRing demoNetmap demoDesc n demoInterface = some (ret, r') ∧
      ((∀ i ∈ demoDesc.rxRange, nmRingEmpty (r'.rx i) = true) ∨
        ∀ j ∈ demoDesc.txRange, nmRingEmpty (r'.tx j) = true) ∧
      ret = ∑ i ∈ demoDesc.rxRange, (advanced (demoInterface.rx i) (r'.rx i) : Int) ∧
      ∀ i ∈ demoDesc.rxRange,
        takenFrom demoNetmap
            (loopStates (searchStep demoNetmap demoDesc) n (startSearch demoDesc demoInterface)) i =
          Cyclic.arc (demoInterface.rx i).numSlots (demoInterface.rx i).cur
            (advanced (demoInterface.rx i) (r'.rx i)) ∧
        (takenFrom demoNetmap (loopStates (searchStep demoNetmap demoDesc) n
          (startSearch demoDesc demoInterface)) i).Nodup ∧
        advanced (demoInterface.rx i) (r'.rx i) ≤ pending (demoInterface.rx i) :=
  drained_searchValidRing demoNetmap demoDesc demoInterface fits_demoDesc

end Arch
end NmMemcached
