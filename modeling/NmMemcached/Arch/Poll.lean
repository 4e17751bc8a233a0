import NmMemcached.Arch.Arrivals
import NmMemcached.Arch.Search

/-!
# Poll — one wait of a worker, and the kernel between two waits

`Netmap::Poll` asks the kernel to bring the rings up to date, waits for frames, and has
`SearchValidRing` work on what is there.  What the kernel does to the rings it does in these calls
only (`DATA OWNERSHIP` in `net/netmap.h`), so every call of `SearchValidRing` finds rings that
stand still.

* An rx slot belongs to the kernel until `tail` passes it; the slot in front of `head` stays with
  the kernel.
* A tx slot belongs to the kernel from the time `head` passes it; it is sent when `tail` comes to
  it.  `nm_tx_pending` says whether one is left.
* `pkt_count_` and `evt_count_` are not set by the constructor, so a run may start with any values.
-/

namespace NmMemcached
namespace Arch

open Lib Base Net

def nmTxPending (r : NetmapRing) : Bool := decide (nmRingNext r r.tail ≠ r.head)

/-- An interface, the counters of its worker, and what went out on the wire. -/
structure Port (σ : Type) extends Rings σ where
  pktCount : Nat
  evtCount : Nat
  wire : List Frame

/-- What `poll` came to: its value, whether `errno` is `EAGAIN` or `EINTR`, and `POLLIN`. -/
structure PollResult where
  ret : Int
  retry : Bool
  pollin : Bool
  deriving DecidableEq

namespace PollResult

/-- The rings are looked at. -/
def Ready (res : PollResult) : Prop := 0 < res.ret ∧ res.pollin = true

instance (res : PollResult) : Decidable res.Ready := inferInstanceAs (Decidable (_ ∧ _))

end PollResult

section Port

variable {σ : Type} (d : NmDesc)

/-- A bound on the turns of one search. -/
def searchBound (r : Rings σ) : Nat := remaining d (startSearch d r) + 1

/-- The counters are `uint64_t`; `pktcnt` is an `int`. -/
def countPackets (s : Port σ) (pktcnt : Int) : Port σ :=
  if 0 < pktcnt then
    { s with
      pktCount := (s.pktCount + pktcnt.toNat) % 18446744073709551616
      evtCount := (s.evtCount + 1) % 18446744073709551616 }
  else
    s

def poll (nm : Netmap σ) (res : PollResult) (s : Port σ) : Int × Port σ :=
  if res.ret ≤ 0 then
    if res.ret < 0 ∧ res.retry = false then (-1, s) else (0, s)
  else if res.pollin then
    match searchValidRing nm d (searchBound d s.toRings) s.toRings with
    -- The bound is never used up.
    | none => (0, s)
    | some (pktcnt, r) => (0, countPackets { s with toRings := r } pktcnt)
  else
    (0, s)

/-! ## The kernel -/

/-- A frame comes in on ring `a`, if the kernel has a slot for it. -/
def received (a : Nat) (f : Frame) (flags : BitVec 16) (s : Port σ) : Port σ :=
  let r := s.rx a
  if nmRingNext r r.tail = r.head then
    s
  else
    let slot := r.slot r.tail
    { s with
      rx := Function.update s.rx a
        { r.setSlot r.tail { slot with len := f.len, flags := flags } with
          tail := nmRingNext r r.tail }
      buf := Function.update s.buf slot.bufIdx f.data }

/-- The next answer in tx ring `a` goes out, if there is one. -/
def transmitted (a : Nat) (flags : BitVec 16) (s : Port σ) : Port σ :=
  let r := s.tx a
  if nmTxPending r then
    let i := nmRingNext r r.tail
    let slot := r.slot i
    { s with
      tx := Function.update s.tx a
        { r.setSlot i { slot with flags := flags } with tail := i }
      wire := s.wire ++ [⟨s.buf slot.bufIdx, slot.len⟩] }
  else
    s

/-- A step of the worker, of the kernel, or of the database. -/
inductive PortEvent (σ : Type)
  | poll (nm : Netmap σ) (res : PollResult)
  | received (f : Frame) (flags : BitVec 16)
  | transmitted (flags : BitVec 16)
  | ringFlags (rxFlags txFlags : Nat)
  | database (db : σ)

def portStep (a : Nat) (s : Port σ) : PortEvent σ → Port σ
  | .poll nm res => (poll d nm res s).2
  -- `len` of a slot is a `uint16_t`.
  | .received f flags => received a { f with len := f.len % 65536 } flags s
  | .transmitted flags => transmitted a flags s
  | .ringFlags rxFlags txFlags =>
      { s with
        rx := Function.update s.rx a { s.rx a with flags := rxFlags }
        tx := Function.update s.tx a { s.tx a with flags := txFlags } }
  | .database db => { s with db := db }

/-! ## Polls of any rings -/

variable {d}

/-- The bound of `poll` is enough. -/
theorem searchValidRing_bound (nm : Netmap σ) {r : Rings σ} (hd : d.Fits r) :
    ∃ ret r', searchValidRing nm d (searchBound d r) r = some (ret, r') := by
  have hstart : ∃ ss, Draining nm d r ss (startSearch d r) := ⟨[], draining_start nm d hd⟩
  have hstep : ∀ s s', (∃ ss, Draining nm d r ss s) → searchStep nm d s = some s' →
      (∃ ss, Draining nm d r ss s') ∧ remaining d s' < remaining d s := by
    rintro s s' ⟨ss, h⟩ hnext
    rcases draining_step hd h hnext with ⟨h', hlt⟩
    exact ⟨⟨_, h'⟩, hlt⟩
  rcases loop_of_measure_lt hstep hstart (Nat.lt_succ_self _) with ⟨s, hloop, _, _⟩
  exact ⟨(BitVec.ofNat 32 s.m).toInt, s.toRings, by rw [searchValidRing, searchBound, hloop]; rfl⟩

end Port

end Arch
end NmMemcached
