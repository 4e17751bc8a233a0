import NmMemcached.Lib.TwoSlot
import NmMemcached.Table.LookupTable

/-!
# Slots — the table as a family of double-buffered registers

For each key the two sides and the side bit form a `TwoSlot` register (`slots`).  This module says
once what every operation of the table does to the family:

* `find` reads the front slot when it is valid (`find_front`) and names the back slot when asked
  for it (`find_back`);
* `updateBack`, the common body of `Add` and `Del`, is refused by the gate, throws, or is
  `TwoSlot.publishAt` on the key (`updateBack_cases`).

Later modules reason about `slots` and never unfold the bitmap again.
-/

namespace NmMemcached
namespace Table
namespace LookupTable

open Lib

universe u

variable {T : Type u} {S : Nat}

/-! ## The bit of a key -/

theorem bits_eq_twoPow (k : Nat) : bits k = BitVec.twoPow 64 (k % 64) := by
  have hmod : k - ((k >>> 6) <<< 6) = k % 64 := by
    rw [Nat.shiftRight_eq_div_pow, Nat.shiftLeft_eq]
    omega
  rw [bits, hmod, BitVec.twoPow_eq]

theorem getLsbD_bits (k i : Nat) : (bits k).getLsbD i = decide (i = k % 64) := by
  have hlt : k % 64 < 64 := Nat.mod_lt k (by decide)
  rw [bits_eq_twoPow, BitVec.getLsbD_twoPow]
  by_cases h : i = k % 64
  · simp [h, hlt]
  · have h' : ¬ k % 64 = i := fun e => h e.symm
    simp [h, h']

/-- Whether side a is the one shown for `k`. -/
def sideBit (t : LookupTable T S) (k : Nat) : Bool :=
  (t.dataSideBmp (k >>> 6)).getLsbD (k % 64)

theorem and_bits_eq_zero_iff (w : BitVec 64) (k : Nat) :
    w &&& bits k = 0#64 ↔ w.getLsbD (k % 64) = false := by
  have hpow : bits k ≠ 0#64 := by
    intro h0
    have hbit := congrArg (fun x => BitVec.getLsbD x (k % 64)) h0
    simp [getLsbD_bits] at hbit
  rw [bits_eq_twoPow] at hpow ⊢
  rw [BitVec.and_twoPow]
  by_cases h : w.getLsbD (k % 64) = true
  · simp [h, hpow]
  · simp [h]

theorem sideBit_eq_false_iff (t : LookupTable T S) (k : Nat) :
    t.sideBit k = false ↔ t.dataSideBmp (k >>> 6) &&& bits k = 0#64 :=
  (and_bits_eq_zero_iff _ k).symm

@[simp] theorem sideBit_put (t : LookupTable T S) (itr : Iterator) (x : T) (k : Nat) :
    (t.put itr x).sideBit k = t.sideBit k := by
  cases itr <;> rfl

@[simp] theorem sideBit_notifyChange (t : LookupTable T S) (k j : Nat) :
    (t.notifyChange k).sideBit j = t.sideBit j := rfl

/-- Flipping the bit of `g` in its word of a bitmap flips the bit of `g` and no other. -/
theorem getLsbD_update_xor_bits (bmp : Nat → BitVec 64) (g k : Nat) :
    (Function.update bmp (g >>> 6) (bmp (g >>> 6) ^^^ bits g) (k >>> 6)).getLsbD (k % 64) =
      if k = g then !(bmp (g >>> 6)).getLsbD (g % 64) else (bmp (k >>> 6)).getLsbD (k % 64) := by
  -- Keys of one word differ in their bit, and the XOR changes no other word.
  by_cases hword : k >>> 6 = g >>> 6
  · simp only [hword, Function.update_self, BitVec.getLsbD_xor, getLsbD_bits]
    by_cases hkg : k = g
    · simp [hkg]
    · have hbit : k % 64 ≠ g % 64 := by
        rw [Nat.shiftRight_eq_div_pow, Nat.shiftRight_eq_div_pow] at hword
        omega
      simp [hkg, hbit]
  · have hkg : k ≠ g := fun h => hword (by rw [h])
    simp [Function.update_of_ne hword, hkg]

theorem sideBit_swapSide (t : LookupTable T S) (k j : Nat) :
    (t.swapSide k).sideBit j = if j = k then !t.sideBit k else t.sideBit j :=
  getLsbD_update_xor_bits t.dataSideBmp k j

/-! ## Slots and iterators -/

/-- The register of a key: slot `true` is side a. -/
def slots (t : LookupTable T S) (k : Nat) : TwoSlot T :=
  { slot := fun b => if b then t.dataSideA k else t.dataSideB k
    cur := t.sideBit k }

/-- The iterator of a slot. -/
def slotIter (k : Nat) (b : Bool) : Iterator :=
  if b then .sideA k else .sideB k

@[simp] theorem slots_cur (t : LookupTable T S) (k : Nat) : (t.slots k).cur = t.sideBit k := rfl

@[simp] theorem get_slotIter (t : LookupTable T S) (k : Nat) (b : Bool) :
    t.get (slotIter k b) = (t.slots k).slot b := by
  cases b <;> rfl

@[simp] theorem slotIter_ne_end (k : Nat) (b : Bool) : slotIter k b ≠ .end_ := by
  cases b <;> simp [slotIter]

/-! ## Publishing -/

/-- What `updateBack` does once the gate is passed and the key is in range. -/
def publishBack (t : LookupTable T S) (k : Nat) (f : T → T) : LookupTable T S :=
  ((t.put (slotIter k (!t.sideBit k)) (f (t.slots k).back)).swapSide k).notifyChange k

@[simp] theorem virtualClockCounter_publishBack (t : LookupTable T S) (k : Nat) (f : T → T) :
    (t.publishBack k f).virtualClockCounter = t.virtualClockCounter := by
  unfold publishBack
  cases t.sideBit k <;> rfl

@[simp] theorem virtualClockCounterPrv_publishBack (t : LookupTable T S) (k : Nat) (f : T → T) :
    (t.publishBack k f).virtualClockCounterPrv = t.virtualClockCounterPrv := by
  unfold publishBack
  cases t.sideBit k <;> rfl

/-- A write through an iterator is a write to its slot. -/
theorem slots_put (t : LookupTable T S) (k : Nat) (b : Bool) (x : T) :
    (t.put (slotIter k b) x).slots = Function.update t.slots k ((t.slots k).set b x) := by
  funext j
  by_cases hjk : j = k
  · subst hjk
    rw [Function.update_self]
    refine TwoSlot.ext (funext fun c => ?_) (sideBit_put t _ x j)
    cases b <;> cases c <;> simp [slots, slotIter, put, TwoSlot.set]
  · rw [Function.update_of_ne hjk]
    refine TwoSlot.ext (funext fun c => ?_) (sideBit_put t _ x j)
    cases b <;> cases c <;> simp [slots, slotIter, put, Function.update_of_ne hjk]

theorem slots_swapSide (t : LookupTable T S) (k : Nat) :
    (t.swapSide k).slots = Function.update t.slots k (t.slots k).flip := by
  funext j
  have hbit := sideBit_swapSide t k j
  by_cases hjk : j = k
  · subst hjk
    rw [Function.update_self]
    exact TwoSlot.ext rfl (hbit.trans (if_pos rfl))
  · rw [Function.update_of_ne hjk]
    exact TwoSlot.ext rfl (hbit.trans (if_neg hjk))

/-- The write, the swap and the notice together publish on the register of `k`. -/
theorem slots_publishBack (t : LookupTable T S) (k : Nat) (f : T → T) :
    (t.publishBack k f).slots = TwoSlot.publishAt k f t.slots := by
  have hnotice : (t.publishBack k f).slots =
      ((t.put (slotIter k (!t.sideBit k)) (f (t.slots k).back)).swapSide k).slots := rfl
  rw [hnotice, slots_swapSide, slots_put, Function.update_self, Function.update_idem,
    TwoSlot.publishAt, TwoSlot.publish_eq]
  rfl

variable [Item T]

theorem slots_clear (k : Nat) :
    (clear : LookupTable T S).slots k = { slot := fun _ => Item.zero, cur := false } := by
  simp [slots, clear, sideBit]

/-! ## Find -/

theorem find_of_le {t : LookupTable T S} {k : Nat} (hS : 0 < S) (hk : S ≤ k) (flag : Int) :
    t.find k flag = .end_ := by
  have hgt : k > S - 1 := by omega
  simp [find, hgt]

theorem find_back {t : LookupTable T S} {k : Nat} (hk : k < S) {flag : Int} (hflag : flag ≠ 0) :
    t.find k flag = slotIter k (!t.sideBit k) := by
  have hle : ¬ k > S - 1 := by omega
  have hbit := t.sideBit_eq_false_iff k
  cases hb : t.sideBit k <;> simp [hb] at hbit <;> simp [find, hle, hflag, hbit, slotIter]

theorem find_front {t : LookupTable T S} {k : Nat} (hk : k < S) :
    t.find k 0 =
      if Item.valid (t.slots k).front = statOn then slotIter k (t.sideBit k) else .end_ := by
  have hle : ¬ k > S - 1 := by omega
  have hbit := t.sideBit_eq_false_iff k
  cases hb : t.sideBit k <;> simp [hb] at hbit <;>
    simp [find, hle, hbit, slotIter, TwoSlot.front, slots, hb]

/-- An iterator other than `End()` points at the current slot of its key. -/
theorem find_ne_end {t : LookupTable T S} {k : Nat} (hS : 0 < S) (h : t.find k 0 ≠ .end_) :
    k < S ∧ Item.valid (t.slots k).front = statOn ∧ t.find k 0 = slotIter k (t.sideBit k) := by
  by_cases hk : k < S
  · have hfind := find_front (t := t) hk
    by_cases hv : Item.valid (t.slots k).front = statOn
    · exact ⟨hk, hv, by simpa [hv] using hfind⟩
    · exact absurd (by simpa [hv] using hfind) h
  · exact absurd (find_of_le hS (Nat.le_of_not_lt hk) 0) h

/-! ## Add and Del -/

/-- The gate lets a call pass. -/
def GateOpen (t : LookupTable T S) (nochkCounter : Int) : Prop :=
  nochkCounter ≠ 0 → t.virtualClockCounterPrv < t.virtualClockCounter

theorem updateBack_of_closed {t : LookupTable T S} {n : Int} (hclosed : ¬ t.GateOpen n) (k : Nat)
    (f : T → T) : t.updateBack k n f = (.ok err, t) := by
  refine if_pos ?_
  by_contra hno
  apply hclosed
  intro hn
  exact BitVec.not_le.1 fun hle => hno ⟨hn, hle⟩

/-- The table behind the gate: a gated call has used up the tick. -/
def passGate (t : LookupTable T S) (n : Int) : LookupTable T S :=
  if n ≠ 0 then { t with virtualClockCounterPrv := t.virtualClockCounter } else t

omit [Item T] in
/-- Passing the gate only moves `virtualClockCounterPrv`. -/
theorem passGate_eq (t : LookupTable T S) (n : Int) :
    t.passGate n = { t with
      virtualClockCounterPrv :=
        if n ≠ 0 then t.virtualClockCounter else t.virtualClockCounterPrv } := by
  unfold passGate
  split <;> rfl

theorem updateBack_of_open {t : LookupTable T S} {n : Int} (hopen : t.GateOpen n) (k : Nat)
    (f : T → T) :
    t.updateBack k n f =
      if (t.passGate n).find k 1 = .end_ then
        (.error "exception not found(add_link).", t.passGate n)
      else
        (.ok ok, (((t.passGate n).put ((t.passGate n).find k 1)
          (f ((t.passGate n).get ((t.passGate n).find k 1)))).swapSide k).notifyChange k) :=
  if_neg fun h => BitVec.not_le.2 (hopen h.1) h.2

/-- With the key in range, the iterator is that of the hidden slot. -/
theorem updateBack_of_lt {t : LookupTable T S} {n : Int} (hopen : t.GateOpen n) {k : Nat}
    (hk : k < S) (f : T → T) :
    t.updateBack k n f = (.ok ok, (t.passGate n).publishBack k f) := by
  rw [updateBack_of_open hopen, find_back (t := t.passGate n) hk (show (1 : Int) ≠ 0 by decide),
    if_neg (slotIter_ne_end k _), get_slotIter]
  rfl

/-- Everything a call of `Add` or `Del` can do. -/
theorem updateBack_cases (t : LookupTable T S) {k : Nat} (hk : k < S) (n : Int) (f : T → T) :
    (¬ t.GateOpen n ∧ t.updateBack k n f = (.ok err, t)) ∨
    (t.GateOpen n ∧ (t.updateBack k n f).1 = .ok ok ∧
      (t.updateBack k n f).2.slots = TwoSlot.publishAt k f t.slots ∧
      (t.updateBack k n f).2.virtualClockCounter = t.virtualClockCounter ∧
      (t.updateBack k n f).2.virtualClockCounterPrv =
        if n ≠ 0 then t.virtualClockCounter else t.virtualClockCounterPrv) := by
  by_cases hopen : t.GateOpen n
  · right
    rw [updateBack_of_lt hopen hk f]
    refine ⟨hopen, rfl, ?_, ?_, ?_⟩
    · rw [slots_publishBack, passGate_eq]
      rfl
    · rw [virtualClockCounter_publishBack, passGate_eq]
    · rw [virtualClockCounterPrv_publishBack, passGate_eq]
  · left
    exact ⟨hopen, updateBack_of_closed hopen k f⟩

/-- Without the gate, a call with a key in range always publishes. -/
theorem updateBack_ungated (t : LookupTable T S) {k : Nat} (hk : k < S) (f : T → T) :
    (t.updateBack k 0 f).1 = .ok ok ∧
      (t.updateBack k 0 f).2.slots = TwoSlot.publishAt k f t.slots := by
  rcases updateBack_cases t hk 0 f with ⟨hclosed, _⟩ | ⟨_, hok, hslots, _⟩
  · exact absurd (fun h => absurd rfl h) hclosed
  · exact ⟨hok, hslots⟩

/-- Without the gate, a call with a key out of range throws and changes nothing. -/
theorem updateBack_ungated_of_le (t : LookupTable T S) {k : Nat} (hS : 0 < S) (hk : S ≤ k)
    (f : T → T) :
    t.updateBack k 0 f = (.error "exception not found(add_link).", t) := by
  simp [updateBack, find_of_le hS hk]

end LookupTable
end Table
end NmMemcached
