import NmMemcached.Table.Refinement

/-!
# Enumerate — the bulk update of `EnumerateForUpdate`

The first loop prepares the hidden side of the keys from 1 on, the second flips the side bitmap
word by word.  In terms of the slots, a key that is in both loops is prepared and flipped.  Key 0
is in the second loop only, so its hidden item comes to the front as it is (`bulkUpdated_iff`).
-/

namespace NmMemcached
namespace Table
namespace LookupTable

open Lib

universe u

variable {T : Type u} {S : Nat}

/-! ## The second loop -/

theorem dataSideBmp_flipWords (t : LookupTable T S) {ws : List Nat} (hws : ws.Nodup) (w : Nat) :
    (ws.foldl flipWord t).dataSideBmp w =
      if w ∈ ws then t.dataSideBmp w ^^^ BitVec.allOnes 64 else t.dataSideBmp w := by
  have hfold : ∀ t : LookupTable T S, (ws.foldl flipWord t).dataSideBmp =
      ws.foldl (fun s k => Function.update s k (s k ^^^ BitVec.allOnes 64)) t.dataSideBmp := by
    clear hws
    induction ws with
    | nil =>
        exact fun t => rfl
    | cons v ws ih =>
        exact fun t => ih (flipWord t v)
  rw [hfold]
  exact TwoSlot.foldl_update_apply (fun x => x ^^^ BitVec.allOnes 64) hws _ w

theorem data_flipWords (t : LookupTable T S) (ws : List Nat) :
    (ws.foldl flipWord t).dataSideA = t.dataSideA ∧
      (ws.foldl flipWord t).dataSideB = t.dataSideB := by
  induction ws generalizing t with
  | nil =>
      exact ⟨rfl, rfl⟩
  | cons v ws ih =>
      exact ih (flipWord t v)

/-- Every bit of a word is flipped, whichever keys were prepared. -/
theorem slots_flipWords (t : LookupTable T S) {ws : List Nat} (hws : ws.Nodup) {k : Nat}
    (hk : k >>> 6 ∈ ws) : (ws.foldl flipWord t).slots k = (t.slots k).flip := by
  have hbit : (ws.foldl flipWord t).sideBit k = !t.sideBit k := by
    have hlt : k % 64 < 64 := Nat.mod_lt k (by decide)
    rw [sideBit, dataSideBmp_flipWords t hws, if_pos hk, BitVec.getLsbD_xor,
      BitVec.getLsbD_allOnes, sideBit]
    simp [hlt]
  rcases data_flipWords t ws with ⟨hA, hB⟩
  exact TwoSlot.ext (by simp [slots, TwoSlot.flip, hA, hB]) hbit

/-! ## The first loop -/

variable [Item T]

/-- The item the first loop leaves on the hidden side. -/
def enumerated (func : T → T) (x : T) : T := Item.setValid statOn (func x)

theorem enumerateOne_eq (func : T → T) (t : LookupTable T S) (k : Nat) :
    enumerateOne func t k =
      t.put (slotIter k (!t.sideBit k)) (enumerated func (t.slots k).front) := by
  have hbit := t.sideBit_eq_false_iff k
  -- The hidden side of the key is side a or side b, as its bit says.
  cases hb : t.sideBit k
  · have hzero : t.dataSideBmp (k >>> 6) &&& bits k = 0 := hbit.1 hb
    simp [enumerateOne, hzero, slotIter, put, slots, TwoSlot.front, hb, enumerated]
  · have hone : ¬ t.dataSideBmp (k >>> 6) &&& bits k = 0#64 := fun h => by simp [hbit.2 h] at hb
    simp [enumerateOne, hone, slotIter, put, slots, TwoSlot.front, hb, enumerated]

theorem slots_enumerateOne (func : T → T) (t : LookupTable T S) (k : Nat) :
    (enumerateOne func t k).slots =
      Function.update t.slots k ((t.slots k).prepare (enumerated func)) := by
  rw [enumerateOne_eq, slots_put]
  rfl

/-- The first loop prepares the keys it visits. -/
theorem slots_enumerate (func : T → T) (t : LookupTable T S) {ks : List Nat} (hks : ks.Nodup)
    (k : Nat) :
    (ks.foldl (enumerateOne func) t).slots k =
      if k ∈ ks then (t.slots k).prepare (enumerated func) else t.slots k := by
  have hfold : ∀ t : LookupTable T S, (ks.foldl (enumerateOne func) t).slots =
      ks.foldl (fun s k => Function.update s k ((s k).prepare (enumerated func))) t.slots := by
    clear hks
    induction ks with
    | nil =>
        exact fun t => rfl
    | cons j js ih =>
        intro t
        rw [List.foldl_cons, ih, slots_enumerateOne]
        rfl
  rw [hfold]
  exact TwoSlot.foldl_update_apply (TwoSlot.prepare (enumerated func)) hks _ k

/-! ## Both loops -/

/-- What the call does to a key of the table. -/
theorem slots_enumerateForUpdate (h64 : 64 ∣ S) (t : LookupTable T S) (func : T → T) {k : Nat}
    (hk : k < S) :
    (t.enumerateForUpdate func).slots k =
      if k = 0 then (t.slots k).flip else ((t.slots k).prepare (enumerated func)).flip := by
  have hword : k >>> 6 ∈ List.range (S >>> 6) := by
    rw [List.mem_range, Nat.shiftRight_eq_div_pow, Nat.shiftRight_eq_div_pow]
    omega
  have hvisited : k ∈ List.range' 1 (S - 1) ↔ k ≠ 0 := by
    rw [List.mem_range'_1]
    omega
  rw [enumerateForUpdate, slots_flipWords _ List.nodup_range hword,
    slots_enumerate func t List.nodup_range' k]
  by_cases hzero : k = 0 <;> simp [hvisited, hzero]

/-- `Find` shows a key as the law of the bulk update has it. -/
def BulkUpdated (t : LookupTable T S) (func : T → T) : Prop :=
  (∀ k, 1 ≤ k → k < S →
    (t.enumerateForUpdate func).shown k = some (Item.setValid statOn (func (t.slots k).front))) ∧
  (t.enumerateForUpdate func).shown 0 = t.shown 0

/-- The two sides of key 0 hold the same item, or none that is valid. -/
def ZeroSidesAgree (t : LookupTable T S) : Prop :=
  t.dataSideA 0 = t.dataSideB 0 ∨
    (Item.valid (t.dataSideA 0) ≠ statOn ∧ Item.valid (t.dataSideB 0) ≠ statOn)

theorem shown_enumerateForUpdate (h64 : 64 ∣ S) (t : LookupTable T S) (func : T → T) {k : Nat}
    (hpos : 1 ≤ k) (hk : k < S) :
    (t.enumerateForUpdate func).shown k =
      some (Item.setValid statOn (func (t.slots k).front)) := by
  have hzero : k ≠ 0 := Nat.one_le_iff_ne_zero.1 hpos
  have hfront : ((t.enumerateForUpdate func).slots k).front =
      Item.setValid statOn (func (t.slots k).front) := by
    rw [slots_enumerateForUpdate h64 t func hk, if_neg hzero, TwoSlot.front_flip,
      TwoSlot.back_prepare, enumerated]
  rw [shown_of_lt hk, hfront, Item.valid_setValid, if_pos rfl]

/-- Key 0 shows what was hidden. -/
theorem shown_zero_enumerateForUpdate (hS : 0 < S) (h64 : 64 ∣ S) (t : LookupTable T S)
    (func : T → T) :
    (t.enumerateForUpdate func).shown 0 =
      if Item.valid (t.slots 0).back = statOn then some (t.slots 0).back else none := by
  rw [shown_of_lt hS, slots_enumerateForUpdate h64 t func hS, if_pos rfl, TwoSlot.front_flip]

theorem zeroSidesAgree_iff (t : LookupTable T S) :
    t.ZeroSidesAgree ↔ (t.slots 0).back = (t.slots 0).front ∨
      (Item.valid (t.slots 0).back ≠ statOn ∧ Item.valid (t.slots 0).front ≠ statOn) := by
  cases hb : t.sideBit 0
  · simp [ZeroSidesAgree, slots, TwoSlot.back, TwoSlot.front, hb]
  · simp [ZeroSidesAgree, slots, TwoSlot.back, TwoSlot.front, hb, eq_comm, and_comm]

/-- After the call every key from 1 on shows `func` of its item; key 0, which is not passed to
`func`, shows what it did exactly when its two sides agree. -/
theorem bulkUpdated_iff (hS : 0 < S) (h64 : 64 ∣ S) (t : LookupTable T S) (func : T → T) :
    t.BulkUpdated func ↔ t.ZeroSidesAgree := by
  have hrest : ∀ k, 1 ≤ k → k < S → (t.enumerateForUpdate func).shown k =
      some (Item.setValid statOn (func (t.slots k).front)) :=
    fun k hpos hk => shown_enumerateForUpdate h64 t func hpos hk
  rw [BulkUpdated, and_iff_right hrest, shown_zero_enumerateForUpdate hS h64, shown_of_lt hS,
    zeroSidesAgree_iff]
  by_cases hback : Item.valid (t.slots 0).back = statOn
  · by_cases hfront : Item.valid (t.slots 0).front = statOn
    · simp [hback, hfront]
    · have hne : (t.slots 0).back ≠ (t.slots 0).front := fun h => hfront (h ▸ hback)
      simp [hback, hfront, hne]
  · by_cases hfront : Item.valid (t.slots 0).front = statOn
    · have hne : (t.slots 0).back ≠ (t.slots 0).front := fun h => hback (h ▸ hfront)
      simp [hback, hfront, hne]
    · simp [hback, hfront]

/-- A key that was added once and one that was added twice: they stand on different sides. -/
def addedOnceAndTwice : LookupTable (ValidBit × Nat) 64 :=
  run apply clear [.add 3 (0, 7), .add 5 (0, 8), .add 5 (0, 9)]

theorem bulkUpdated_addedOnceAndTwice :
    addedOnceAndTwice.sideBit 3 ≠ addedOnceAndTwice.sideBit 5 ∧
      addedOnceAndTwice.BulkUpdated fun x => (x.1, x.2 + 1) :=
  ⟨by decide, (bulkUpdated_iff (by decide) (by decide) _ _).2 (Or.inl rfl)⟩

/-- `Add(0, 7)` on a cleared table: key 0 shows 7, and behind the call it shows the zeroed item of
the other side. -/
theorem add_0_not_bulkUpdated :
    (run apply (clear : LookupTable (ValidBit × Nat) 64) [.add 0 (0, 7)]).shown 0 = some (0, 7) ∧
      ((run apply (clear : LookupTable (ValidBit × Nat) 64)
        [.add 0 (0, 7)]).enumerateForUpdate id).shown 0 = some (0, 0) ∧
      ¬ (run apply (clear : LookupTable (ValidBit × Nat) 64)
        [.add 0 (0, 7)]).BulkUpdated id := by
  have hbefore : (run apply (clear : LookupTable (ValidBit × Nat) 64)
      [.add 0 (0, 7)]).shown 0 = some (0, 7) := by decide
  have hafter : ((run apply (clear : LookupTable (ValidBit × Nat) 64)
      [.add 0 (0, 7)]).enumerateForUpdate id).shown 0 = some (0, 0) := by
    rw [shown_zero_enumerateForUpdate (by decide) (by decide)]
    decide
  refine ⟨hbefore, hafter, fun h => ?_⟩
  have hsame := h.2
  rw [hbefore, hafter] at hsame
  exact absurd hsame (by decide)

end LookupTable
end Table
end NmMemcached
