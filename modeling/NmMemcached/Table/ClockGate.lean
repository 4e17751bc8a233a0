import NmMemcached.Lib.TickGate
import NmMemcached.Table.Slots

/-!
# ClockGate — the virtual clock of the table

Runs of `Clock`, `Find(k,0)` and gated `Add`/`Del` calls (`nochk_counter` nonzero) from `Clear`.
The two counters of the table simulate the library's `TickGate` as long as the 64-bit counter does
not wrap (`gateOf_run`), which gives the acceptance law.  That an outstanding iterator is left
alone until the next `Clock` comes from the slots: the one accepted update writes the hidden side,
and a closed gate changes nothing at all (`run_of_closed`).
-/

namespace NmMemcached
namespace Table
namespace LookupTable

open Lib

universe u

variable {T : Type u} {S : Nat}

/-! ## Calls -/

inductive Call (T : Type u)
  | clock
  | find (gcnt : Nat)
  | add (gcnt : Nat) (itm : T) (nochkCounter : Int)
  | del (gcnt : Nat) (nochkCounter : Int)

/-- What a call hands back. -/
inductive Ret
  | void
  | iterator (itr : Iterator)
  | code (r : Except String Int)

namespace Call

/-- `Add` and `Del` are gated and name a key of the table. -/
def Gated (S : Nat) : Call T → Prop
  | .clock => True
  | .find _ => True
  | .add gcnt _ nochkCounter => gcnt < S ∧ nochkCounter ≠ 0
  | .del gcnt nochkCounter => gcnt < S ∧ nochkCounter ≠ 0

def IsUpdate : Call T → Prop
  | .clock => False
  | .find _ => False
  | .add _ _ _ => True
  | .del _ _ => True

/-- The call as the gate sees it. -/
def gateEvent : Call T → TickGate.Event
  | .clock => .tick
  | .find _ => .idle
  | .add _ _ _ => .attempt
  | .del _ _ => .attempt

variable [Item T]

def exec (t : LookupTable T S) : Call T → Ret × LookupTable T S
  | .clock => (.void, t.clock)
  | .find gcnt => (.iterator (t.find gcnt 0), t)
  | .add gcnt itm nochkCounter =>
      (.code (t.add gcnt itm nochkCounter).1, (t.add gcnt itm nochkCounter).2)
  | .del gcnt nochkCounter => (.code (t.del gcnt nochkCounter).1, (t.del gcnt nochkCounter).2)

/-- The call is an update that returned `OK`. -/
def accepted (t : LookupTable T S) (c : Call T) : Bool :=
  match (c.exec t).1 with
  | .code (.ok r) => decide (r = ok)
  | _ => false

end Call

/-- How often `Clock` is called. -/
def clocks (cs : List (Call T)) : Nat :=
  cs.countP fun c => c.gateEvent = .tick

variable [Item T]

def next (t : LookupTable T S) (c : Call T) : LookupTable T S :=
  (c.exec t).2

/-- How many updates of the run return `OK`. -/
def acceptedCount (t : LookupTable T S) : List (Call T) → Nat
  | [] => 0
  | c :: cs => (if c.accepted t then 1 else 0) + (t.next c).acceptedCount cs

/-! ## One call -/

/-- Everything a gated call can do: tick, nothing, be refused, or publish on one key. -/
theorem exec_cases (t : LookupTable T S) {c : Call T} (hc : c.Gated S) :
    (c = .clock ∧ c.exec t = (.void, t.clock)) ∨
    (∃ k, c = .find k ∧ c.exec t = (.iterator (t.find k 0), t)) ∨
    (c.IsUpdate ∧ ¬ t.GateOpen 1 ∧ c.exec t = (.code (.ok err), t)) ∨
    (c.IsUpdate ∧ t.GateOpen 1 ∧ (c.exec t).1 = .code (.ok ok) ∧
      (∃ k f, (t.next c).slots = TwoSlot.publishAt k f t.slots) ∧
      (t.next c).virtualClockCounter = t.virtualClockCounter ∧
      (t.next c).virtualClockCounterPrv = t.virtualClockCounter) := by
  -- `Add` and `Del` differ in what they write only.
  have hupdate : ∀ (k : Nat) (n : Int) (f : T → T), k < S → n ≠ 0 → c.IsUpdate →
      c.exec t = (.code (t.updateBack k n f).1, (t.updateBack k n f).2) →
      (c.IsUpdate ∧ ¬ t.GateOpen 1 ∧ c.exec t = (.code (.ok err), t)) ∨
      (c.IsUpdate ∧ t.GateOpen 1 ∧ (c.exec t).1 = .code (.ok ok) ∧
        (∃ k f, (t.next c).slots = TwoSlot.publishAt k f t.slots) ∧
        (t.next c).virtualClockCounter = t.virtualClockCounter ∧
        (t.next c).virtualClockCounterPrv = t.virtualClockCounter) := by
    intro k n f hk hn hup hexec
    have hgate : t.GateOpen n ↔ t.GateOpen 1 := by
      simp [GateOpen, hn]
    rcases updateBack_cases t hk n f with ⟨hclosed, hret⟩ | ⟨hopen, hret, hslots, hvcc, hprv⟩
    · left
      exact ⟨hup, fun h => hclosed (hgate.2 h), by rw [hexec, hret]⟩
    · right
      have hnext : t.next c = (t.updateBack k n f).2 := by
        simp [next, hexec]
      refine ⟨hup, hgate.1 hopen, by rw [hexec, hret], ⟨k, f, ?_⟩, ?_, ?_⟩
      · rw [hnext, hslots]
      · rw [hnext, hvcc]
      · rw [hnext, hprv, if_pos hn]
  cases c with
  | clock =>
      exact Or.inl ⟨rfl, rfl⟩
  | find k =>
      exact Or.inr (Or.inl ⟨k, rfl, rfl⟩)
  | add k itm n =>
      exact Or.inr (Or.inr (hupdate k n _ hc.1 hc.2 trivial rfl))
  | del k n =>
      exact Or.inr (Or.inr (hupdate k n _ hc.1 hc.2 trivial rfl))

theorem accepted_iff {t : LookupTable T S} {c : Call T} (hc : c.Gated S) :
    c.accepted t = true ↔ c.IsUpdate ∧ t.GateOpen 1 := by
  rcases exec_cases t hc with ⟨rfl, hexec⟩ | ⟨k, rfl, hexec⟩ | ⟨hup, hclosed, hexec⟩ |
    ⟨hup, hopen, hret, _⟩
  · simp [Call.accepted, hexec, Call.IsUpdate]
  · simp [Call.accepted, hexec, Call.IsUpdate]
  · simp [Call.accepted, hexec, hclosed, ok, err]
  · simp [Call.accepted, hret, hup, hopen]

/-! ## The counters are a tick gate -/

def gateOf (t : LookupTable T S) : TickGate :=
  { now := t.virtualClockCounter.toNat
    last := t.virtualClockCounterPrv.toNat }

omit [Item T] in
theorem gateOpen_iff_admits (t : LookupTable T S) : t.GateOpen 1 ↔ t.gateOf.Admits := by
  simp [GateOpen, TickGate.Admits, gateOf, BitVec.lt_def]

omit [Item T] in
theorem isUpdate_iff_gateEvent (c : Call T) : c.IsUpdate ↔ c.gateEvent = .attempt := by
  cases c <;> simp [Call.IsUpdate, Call.gateEvent]

theorem gateOf_next {t : LookupTable T S} {c : Call T} (hc : c.Gated S)
    (hroom : c.gateEvent = .tick → t.virtualClockCounter.toNat + 1 < 2 ^ 64) :
    (t.next c).gateOf = t.gateOf.step c.gateEvent := by
  rcases exec_cases t hc with ⟨rfl, hexec⟩ | ⟨k, rfl, hexec⟩ | ⟨hup, hclosed, hexec⟩ |
    ⟨hup, hopen, _, _, hvcc, hprv⟩
  · -- The only step where the 64 bits matter: there is room, so nothing wraps.
    have hcount : t.clock.virtualClockCounter.toNat = t.virtualClockCounter.toNat + 1 := by
      rw [clock, BitVec.toNat_add]
      exact Nat.mod_eq_of_lt (hroom rfl)
    have hprv : t.clock.virtualClockCounterPrv = t.virtualClockCounterPrv := rfl
    simp [next, hexec, gateOf, TickGate.step, Call.gateEvent, hcount, hprv]
  · simp [next, hexec, TickGate.step, Call.gateEvent]
  · have hev := (isUpdate_iff_gateEvent c).1 hup
    have hno : ¬ t.gateOf.Admits := fun h => hclosed ((gateOpen_iff_admits t).2 h)
    simp [next, hexec, hev, TickGate.step, hno]
  · have hev := (isUpdate_iff_gateEvent c).1 hup
    have hyes : t.gateOf.Admits := (gateOpen_iff_admits t).1 hopen
    simp only [hev, TickGate.step, hyes, if_true]
    simp [gateOf, hvcc, hprv]

omit [Item T] in
theorem clocks_cons (c : Call T) (cs : List (Call T)) :
    clocks (c :: cs) = clocks cs + if c.gateEvent = .tick then 1 else 0 := by
  simp [clocks, List.countP_cons]

/-- After a call there is room for the clocks of the rest of the run. -/
theorem room_next {t : LookupTable T S} {c : Call T} {cs : List (Call T)} (hc : c.Gated S)
    (hroom : t.virtualClockCounter.toNat + clocks (c :: cs) < 2 ^ 64) :
    (t.next c).gateOf = t.gateOf.step c.gateEvent ∧
      (t.next c).virtualClockCounter.toNat + clocks cs < 2 ^ 64 := by
  rw [clocks_cons] at hroom
  have hgate : (t.next c).gateOf = t.gateOf.step c.gateEvent := by
    refine gateOf_next hc ?_
    intro hev
    simp only [hev, if_true] at hroom
    omega
  refine ⟨hgate, ?_⟩
  have hnow : (t.next c).virtualClockCounter.toNat =
      t.virtualClockCounter.toNat + if c.gateEvent = .tick then 1 else 0 := by
    have hgateNow := t.gateOf.now_step c.gateEvent
    rw [← hgate] at hgateNow
    exact hgateNow
  omega

theorem gateOf_run {t : LookupTable T S} {cs : List (Call T)} (hcs : ∀ c ∈ cs, c.Gated S)
    (hroom : t.virtualClockCounter.toNat + clocks cs < 2 ^ 64) :
    (run next t cs).gateOf = run TickGate.step t.gateOf (cs.map Call.gateEvent) := by
  -- The induction hands on the room for the clocks that are still to come.
  induction cs generalizing t with
  | nil =>
      rfl
  | cons c cs ih =>
      rcases room_next (hcs c (by simp)) hroom with ⟨hgate, hroom'⟩
      have htail : ∀ c' ∈ cs, c'.Gated S := fun c' h => hcs c' (List.mem_cons_of_mem _ h)
      simpa [← hgate] using ih htail hroom'

theorem acceptedCount_eq_admitted {t : LookupTable T S} {cs : List (Call T)}
    (hcs : ∀ c ∈ cs, c.Gated S) (hroom : t.virtualClockCounter.toNat + clocks cs < 2 ^ 64) :
    t.acceptedCount cs = t.gateOf.admitted (cs.map Call.gateEvent) := by
  induction cs generalizing t with
  | nil =>
      rfl
  | cons c cs ih =>
      have hc : c.Gated S := hcs c (by simp)
      rcases room_next hc hroom with ⟨hgate, hroom'⟩
      have htail : ∀ c' ∈ cs, c'.Gated S := fun c' h => hcs c' (List.mem_cons_of_mem _ h)
      have hhead : c.accepted t = true ↔ c.gateEvent = .attempt ∧ t.gateOf.Admits := by
        rw [accepted_iff hc, isUpdate_iff_gateEvent, gateOpen_iff_admits]
      simp [acceptedCount, TickGate.admitted, hhead, ih htail hroom', hgate]

/-! ## Iterators between two ticks -/

/-- Behind a closed gate nothing but the clock changes the table. -/
theorem run_of_closed {t : LookupTable T S} {cs : List (Call T)} (hcs : ∀ c ∈ cs, c.Gated S)
    (hno : .clock ∉ cs) (hclosed : ¬ t.GateOpen 1) : run next t cs = t := by
  induction cs with
  | nil =>
      rfl
  | cons c cs ih =>
      have hstep : t.next c = t := by
        rcases exec_cases t (hcs c (by simp)) with ⟨rfl, _⟩ | ⟨k, rfl, hexec⟩ | ⟨_, _, hexec⟩ |
          ⟨_, hopen, _⟩
        · simp at hno
        · simp [next, hexec]
        · simp [next, hexec]
        · exact absurd hopen hclosed
      have htail : ∀ c' ∈ cs, c'.Gated S := fun c' h => hcs c' (List.mem_cons_of_mem _ h)
      have hno' : .clock ∉ cs := fun h => hno (List.mem_cons_of_mem _ h)
      simpa [hstep] using ih htail hno'

/-- The slot shown for `k` is not written before the next `Clock`. -/
theorem slot_run_of_no_clock {t : LookupTable T S} {cs : List (Call T)}
    (hcs : ∀ c ∈ cs, c.Gated S) (hno : .clock ∉ cs) (k : Nat) :
    ((run next t cs).slots k).slot (t.sideBit k) = (t.slots k).slot (t.sideBit k) := by
  induction cs with
  | nil =>
      rfl
  | cons c cs ih =>
      have htail : ∀ c' ∈ cs, c'.Gated S := fun c' h => hcs c' (List.mem_cons_of_mem _ h)
      have hno' : .clock ∉ cs := fun h => hno (List.mem_cons_of_mem _ h)
      rcases exec_cases t (hcs c (by simp)) with ⟨rfl, _⟩ | ⟨j, rfl, hexec⟩ | ⟨_, _, hexec⟩ |
        ⟨_, _, _, ⟨j, f, hslots⟩, hvcc, hprv⟩
      · simp at hno
      · simpa [next, hexec] using ih htail hno'
      · simpa [next, hexec] using ih htail hno'
      · -- The accepted update leaves the shown slot and closes the gate behind it.
        have hclosed : ¬ (t.next c).GateOpen 1 := by
          simp [GateOpen, hvcc, hprv]
        calc
          ((run next t (c :: cs)).slots k).slot (t.sideBit k)
              = ((t.next c).slots k).slot (t.sideBit k) := by
                rw [run_cons, run_of_closed htail hno' hclosed]
          _ = (t.slots k).slot (t.sideBit k) := by
                rw [hslots]
                exact TwoSlot.slot_publishAt_cur j k f t.slots

/-! ## The gate law -/

omit [Item T] in
theorem countP_tick_map (cs : List (Call T)) :
    (cs.map Call.gateEvent).countP (fun e => e = .tick) = clocks cs := by
  simp [clocks, List.countP_map, Function.comp_def]

/-- The counter of a run from `Clear` is the number of its clocks, so the rest has room. -/
theorem room_of_split {as bs : List (Call T)} (has : ∀ c ∈ as, c.Gated S)
    (hroom : clocks (as ++ bs) < 2 ^ 64) :
    (run next (clear : LookupTable T S) as).gateOf =
        run TickGate.step TickGate.fresh (as.map Call.gateEvent) ∧
      (run next (clear : LookupTable T S) as).virtualClockCounter.toNat + clocks bs < 2 ^ 64 := by
  have hsum : clocks (as ++ bs) = clocks as + clocks bs := by
    simp [clocks]
  have hgate : (run next (clear : LookupTable T S) as).gateOf =
      run TickGate.step TickGate.fresh (as.map Call.gateEvent) := by
    refine gateOf_run has ?_
    have hzero : (clear : LookupTable T S).virtualClockCounter.toNat = 0 := rfl
    omega
  refine ⟨hgate, ?_⟩
  -- From `Clear` on, the counter is the number of clocks.
  have hnow : (run next (clear : LookupTable T S) as).virtualClockCounter.toNat = clocks as := by
    calc
      (run next (clear : LookupTable T S) as).virtualClockCounter.toNat
          = (run TickGate.step TickGate.fresh (as.map Call.gateEvent)).now :=
            congrArg TickGate.now hgate
      _ = clocks as := by
            rw [TickGate.now_run, countP_tick_map]
            exact Nat.zero_add _
  omega

omit [Item T] in
theorem eq_clock_of_gateEvent {c : Call T} (h : c.gateEvent = .tick) : c = .clock := by
  cases c <;> simp [Call.gateEvent] at h ⊢

/-- The gate's "a tick since the last admission", read off the calls. -/
theorem tickedSince_map_iff {cs : List (Call T)} (hcs : ∀ c ∈ cs, c.Gated S)
    (hclocks : clocks cs < 2 ^ 64) :
    TickGate.TickedSince (cs.map Call.gateEvent) ↔
      ∃ as bs, cs = as ++ .clock :: bs ∧
        (run next (clear : LookupTable T S) (as ++ [.clock])).acceptedCount bs = 0 := by
  -- Behind a clock, the table and the gate count the same admissions.
  have hcount : ∀ as bs : List (Call T), cs = as ++ .clock :: bs →
      (run next (clear : LookupTable T S) (as ++ [.clock])).acceptedCount bs =
        (run TickGate.step TickGate.fresh (as.map Call.gateEvent ++ [.tick])).admitted
          (bs.map Call.gateEvent) := by
    intro as bs hsplit
    have hsplit' : cs = (as ++ [.clock]) ++ bs := by
      simpa using hsplit
    have has : ∀ c ∈ as ++ [.clock], c.Gated S :=
      fun c h => hcs c (hsplit' ▸ List.mem_append_left bs h)
    have hbs : ∀ c ∈ bs, c.Gated S :=
      fun c h => hcs c (hsplit' ▸ List.mem_append_right (as ++ [.clock]) h)
    rcases room_of_split (S := S) has (hsplit' ▸ hclocks) with ⟨hgate, hroom⟩
    rw [acceptedCount_eq_admitted hbs hroom, hgate]
    simp [Call.gateEvent]
  constructor
  · rintro ⟨as', bs', hmap, hzero⟩
    -- A split of the events at a tick is a split of the calls at a clock.
    rcases List.map_eq_append_iff.1 hmap with ⟨as, rest, rfl, rfl, hrest⟩
    rcases List.map_eq_cons_iff.1 hrest with ⟨c, bs, rfl, hc, rfl⟩
    rcases eq_clock_of_gateEvent hc with rfl
    exact ⟨as, bs, rfl, (hcount as bs rfl).trans hzero⟩
  · rintro ⟨as, bs, rfl, hzero⟩
    exact ⟨as.map Call.gateEvent, bs.map Call.gateEvent, by simp [Call.gateEvent],
      (hcount as bs rfl).symm.trans hzero⟩

/-- Without a clock at most one update is accepted. -/
theorem acceptedCount_le_one (t : LookupTable T S) {ds : List (Call T)}
    (hds : ∀ c ∈ ds, c.Gated S) (hno : .clock ∉ ds) : t.acceptedCount ds ≤ 1 := by
  have htick : TickGate.Event.tick ∉ ds.map Call.gateEvent := by
    intro hmem
    rcases List.mem_map.1 hmem with ⟨c, hc, hev⟩
    exact hno (eq_clock_of_gateEvent hev ▸ hc)
  -- A stretch without a clock needs no room in the counter.
  have hzero : clocks ds = 0 := by
    rw [← countP_tick_map, List.countP_eq_zero]
    intro e he hdec
    exact htick (of_decide_eq_true hdec ▸ he)
  have hroom : t.virtualClockCounter.toNat + clocks ds < 2 ^ 64 := by
    simpa [hzero] using t.virtualClockCounter.isLt
  rw [acceptedCount_eq_admitted hds hroom]
  exact TickGate.admitted_le_one htick

/-- For every run of clocks, finds and gated updates from `Clear`: the previous counter never
passes the current one; a gated call returns `OK` iff some `Clock` was followed by no accepted
update; without a `Clock` at most one update is accepted; and an item `Find` returned is not
written before the next `Clock`. -/
theorem clockGate_run (hS : 0 < S) (cs : List (Call T)) (hcs : ∀ c ∈ cs, c.Gated S)
    (hclocks : clocks cs < 2 ^ 64) :
    (run next (clear : LookupTable T S) cs).virtualClockCounterPrv ≤
      (run next (clear : LookupTable T S) cs).virtualClockCounter ∧
    (∀ c : Call T, c.Gated S → c.IsUpdate →
      (c.accepted (run next (clear : LookupTable T S) cs) = true ↔
        ∃ as bs, cs = as ++ .clock :: bs ∧
          (run next (clear : LookupTable T S) (as ++ [.clock])).acceptedCount bs = 0)) ∧
    (∀ ds : List (Call T), (∀ c ∈ ds, c.Gated S) → .clock ∉ ds →
      (run next (clear : LookupTable T S) cs).acceptedCount ds ≤ 1) ∧
    (∀ (k : Nat) (ds : List (Call T)), (∀ c ∈ ds, c.Gated S) → .clock ∉ ds →
      (run next (clear : LookupTable T S) cs).find k 0 ≠ .end_ →
      (run next (run next (clear : LookupTable T S) cs) ds).get
          ((run next (clear : LookupTable T S) cs).find k 0) =
        (run next (clear : LookupTable T S) cs).get
          ((run next (clear : LookupTable T S) cs).find k 0)) := by
  have hroom : clocks (cs ++ []) < 2 ^ 64 := by
    simpa using hclocks
  rcases room_of_split (S := S) hcs hroom with ⟨hgate, _⟩
  refine ⟨?_, ?_, ?_, ?_⟩
  · have hle := TickGate.last_le_now (cs.map Call.gateEvent)
    rw [← hgate] at hle
    exact BitVec.le_def.2 hle
  · intro c hc hup
    have hopen : c.accepted (run next (clear : LookupTable T S) cs) = true ↔
        (run next (clear : LookupTable T S) cs).GateOpen 1 := by
      simp [accepted_iff hc, hup]
    rw [hopen, gateOpen_iff_admits, hgate, TickGate.admits_iff_tickedSince,
      tickedSince_map_iff hcs hclocks]
  · exact fun ds hds hno => acceptedCount_le_one _ hds hno
  · intro k ds hds hno hend
    rcases find_ne_end hS hend with ⟨_, _, hfind⟩
    rw [hfind, get_slotIter, get_slotIter]
    exact slot_run_of_no_clock hds hno k

theorem clockGate_run_two_clocks :
    ((Call.add 5 (0, 9) 1 : Call (ValidBit × Nat)).accepted
        (run next (clear : LookupTable (ValidBit × Nat) 64)
          [.clock, .add 3 (0, 7) 1, .find 3, .clock]) = true ↔
      ∃ as bs, ([.clock, .add 3 (0, 7) 1, .find 3, .clock] : List (Call (ValidBit × Nat))) =
          as ++ .clock :: bs ∧
        (run next (clear : LookupTable (ValidBit × Nat) 64) (as ++ [.clock])).acceptedCount
          bs = 0) ∧
    (run next (run next (clear : LookupTable (ValidBit × Nat) 64)
        [.clock, .add 3 (0, 7) 1, .find 3, .clock]) [.add 3 (0, 8) 1, .del 3 1]).get
          (.sideA 3) = (0, 7) :=
  have hcs : ∀ c ∈ ([.clock, .add 3 (0, 7) 1, .find 3, .clock] : List (Call (ValidBit × Nat))),
      c.Gated 64 := by
    simp [Call.Gated]
  have hds : ∀ c ∈ ([.add 3 (0, 8) 1, .del 3 1] : List (Call (ValidBit × Nat))), c.Gated 64 := by
    simp [Call.Gated]
  ⟨(clockGate_run (by decide) _ hcs (by decide)).2.1 _ (by simp [Call.Gated]) trivial,
    (clockGate_run (by decide) _ hcs (by decide)).2.2.2 3 _ hds (by simp) (by decide)⟩

end LookupTable
end Table
end NmMemcached
