import NmMemcached.Table.Slots

/-!
# Refinement — the double-buffered table is a plain map

Runs of ungated `Add` and `Del` calls (`nochk_counter = 0`) from `Clear`.  The abstract side is a
plain map from keys to what a reader is shown; the concrete side is `LookupTable` with its two
sides and its bitmap.

1. `Update` is one call, `Update.write` what it does to the hidden side.
2. The slots of a run of calls are the run of the library's keyed updates (`slots_run`).
3. Hence `Find` shows the last call on its key, and nothing else.
-/

namespace NmMemcached
namespace Table
namespace LookupTable

open Lib

universe u

variable {T : Type u} {S : Nat}

/-! ## Calls -/

/-- A call of `Add(gcnt, itm, 0)` or `Del(gcnt, 0)`. -/
inductive Update (T : Type u)
  | add (gcnt : Nat) (itm : T)
  | del (gcnt : Nat)

namespace Update

def key : Update T → Nat
  | .add gcnt _ => gcnt
  | .del gcnt => gcnt

/-- The calls that concern `k`. -/
def onKey (k : Nat) (op : Update T) : Bool :=
  decide (op.key = k)

variable [Item T]

/-- What the call makes of the hidden item. -/
def write : Update T → T → T
  | .add _ itm => fun _ => Item.setValid statOn itm
  | .del _ => Item.setValid statOff

def exec (t : LookupTable T S) : Update T → Except String Int × LookupTable T S
  | .add gcnt itm => t.add gcnt itm 0
  | .del gcnt => t.del gcnt 0

theorem exec_eq (t : LookupTable T S) (op : Update T) :
    op.exec t = t.updateBack op.key 0 op.write := by
  cases op <;> rfl

end Update

variable [Item T]

/-- The table after a call. -/
def apply (t : LookupTable T S) (op : Update T) : LookupTable T S :=
  (op.exec t).2

theorem slots_apply (t : LookupTable T S) {op : Update T} (hk : op.key < S) :
    (t.apply op).slots = TwoSlot.publishAt op.key op.write t.slots := by
  simpa [apply, Update.exec_eq] using (updateBack_ungated t hk op.write).2

/-- A call with a key out of range throws before it touches anything. -/
theorem apply_of_le (t : LookupTable T S) (hS : 0 < S) {op : Update T} (hk : S ≤ op.key) :
    t.apply op = t := by
  simp [apply, Update.exec_eq, updateBack_ungated_of_le t hS hk]

theorem slots_run (t : LookupTable T S) {ops : List (Update T)} (hkeys : ∀ op ∈ ops, op.key < S) :
    (run apply t ops).slots = run (TwoSlot.updateOn Update.key Update.write) t.slots ops := by
  induction ops generalizing t with
  | nil =>
      rfl
  | cons op ops ih =>
      have hop : op.key < S := hkeys op (by simp)
      have hops : ∀ op' ∈ ops, op'.key < S := fun op' h => hkeys op' (List.mem_cons_of_mem _ h)
      calc
        (run apply t (op :: ops)).slots
            = run (TwoSlot.updateOn Update.key Update.write) (t.apply op).slots ops :=
              ih (t.apply op) hops
        _ = run (TwoSlot.updateOn Update.key Update.write) t.slots (op :: ops) := by
              rw [slots_apply t hop]
              rfl

/-! ## What a reader is shown -/

/-- The item `Find(k,0)` returns; `none` stands for `End()`. -/
def shown (t : LookupTable T S) (k : Nat) : Option T :=
  if t.find k 0 = .end_ then none else some (t.get (t.find k 0))

theorem shown_of_lt {t : LookupTable T S} {k : Nat} (hk : k < S) :
    t.shown k =
      if Item.valid (t.slots k).front = statOn then some (t.slots k).front else none := by
  have hfind := find_front (t := t) hk
  by_cases hv : Item.valid (t.slots k).front = statOn
  · have hiter : t.find k 0 = slotIter k (t.sideBit k) := by
      simpa [hv] using hfind
    have hget : t.get (slotIter k (t.sideBit k)) = (t.slots k).front := get_slotIter t k _
    rw [shown, hiter, if_neg (slotIter_ne_end k _), if_pos hv, hget]
  · have hiter : t.find k 0 = .end_ := by
      simpa [hv] using hfind
    simp [shown, hiter, hv]

theorem shown_of_le {t : LookupTable T S} {k : Nat} (hS : 0 < S) (hk : S ≤ k) :
    t.shown k = none := by
  simp [shown, find_of_le hS hk]

/-- A call on one key leaves the iterator and the item of every other key alone. -/
theorem find_apply_of_ne {t : LookupTable T S} (hS : 0 < S) {op : Update T} {k : Nat}
    (hne : k ≠ op.key) :
    (t.apply op).find k 0 = t.find k 0 ∧ (t.apply op).shown k = t.shown k := by
  by_cases hop : op.key < S
  · have hslot : (t.apply op).slots k = t.slots k := by
      rw [slots_apply t hop]
      exact TwoSlot.publishAt_of_ne hne _ _
    have hbit : (t.apply op).sideBit k = t.sideBit k := congrArg TwoSlot.cur hslot
    by_cases hk : k < S
    · simp [find_front hk, shown_of_lt hk, hslot, hbit]
    · have hle : S ≤ k := Nat.le_of_not_lt hk
      simp [find_of_le hS hle, shown_of_le hS hle]
  · simp [apply_of_le t hS (Nat.le_of_not_lt hop)]

/-- What a call does to an item, seen through an iterator: only the hidden item of its own key
changes. -/
theorem get_apply (t : LookupTable T S) (hS : 0 < S) (op : Update T) {k : Nat} (b : Bool) :
    (t.apply op).get (slotIter k b) =
      if op.key = k ∧ k < S ∧ b = !t.sideBit k then op.write (t.get (slotIter k b))
      else t.get (slotIter k b) := by
  rw [get_slotIter, get_slotIter]
  -- The item stays unless the call is in range, on this key, and the item is hidden.
  by_cases hop : op.key < S
  · rw [slots_apply t hop]
    by_cases hk : op.key = k
    · subst hk
      rw [TwoSlot.publishAt_same]
      by_cases hb : b = !t.sideBit op.key
      · subst hb
        simpa [hop] using TwoSlot.slot_publish_not_cur op.write (t.slots op.key)
      · simpa [hb] using TwoSlot.slot_publish_of_ne (f := op.write) (c := t.slots op.key) hb
    · rw [TwoSlot.publishAt_of_ne fun h => hk h.symm]
      simp [hk]
  · have hnot : ¬ (op.key = k ∧ k < S ∧ b = !t.sideBit k) := by
      rintro ⟨rfl, hlt, _⟩
      exact hop hlt
    rw [apply_of_le t hS (Nat.le_of_not_lt hop), if_neg hnot]

/-- Right after an `Add` its item is shown. -/
theorem shown_apply_add (t : LookupTable T S) {k : Nat} (hk : k < S) (itm : T) :
    (t.apply (.add k itm)).shown k = some (Item.setValid statOn itm) := by
  have hslots := slots_apply t (show (Update.add k itm).key < S from hk)
  have hfront : ((t.apply (.add k itm)).slots k).front = Item.setValid statOn itm := by
    rw [hslots]
    simp [Update.key, Update.write]
  rw [shown_of_lt hk, hfront]
  simp

/-- Right after a `Del` nothing is shown. -/
theorem shown_apply_del (t : LookupTable T S) {k : Nat} (hk : k < S) :
    (t.apply (.del k)).shown k = none := by
  have hslots := slots_apply t (show (Update.del k : Update T).key < S from hk)
  have hvalid : Item.valid ((t.apply (.del k)).slots k).front = statOff := by
    rw [hslots]
    simp [Update.key, Update.write]
  rw [shown_of_lt hk, hvalid]
  simp [statOn, statOff]

/-! ## The plain map -/

/-- What a reader of a plain map is shown: every key below `S` starts with a zeroed item. -/
abbrev PlainMap (T : Type u) : Type u := Nat → Option T

namespace PlainMap

def start (S : Nat) : PlainMap T :=
  fun k => if k < S then some Item.zero else none

def step (m : PlainMap T) : Update T → PlainMap T
  | .add gcnt itm => Function.update m gcnt (some (Item.setValid statOn itm))
  | .del gcnt => Function.update m gcnt none

end PlainMap

/-- The front item the last call on a key leaves. -/
theorem shown_run_of_some {ops : List (Update T)} (hkeys : ∀ op ∈ ops, op.key < S) {k : Nat}
    {op : Update T} (hlast : lastOn (Update.onKey k) ops = some op) :
    (run apply (clear : LookupTable T S) ops).shown k =
      match op with
      | .add _ itm => some (Item.setValid statOn itm)
      | .del _ => none := by
  rcases mem_of_lastOn hlast with ⟨hmem, hon⟩
  have hkey : op.key = k := by
    simpa [Update.onKey] using hon
  have hk : k < S := hkey ▸ hkeys op hmem
  rcases TwoSlot.front_run_updateOn_of_some Update.key Update.write
    (s := (clear : LookupTable T S).slots) hlast with ⟨x, hx⟩
  rw [shown_of_lt hk, slots_run _ hkeys, hx]
  cases op with
  | add gcnt itm =>
      simp [Update.write]
  | del gcnt =>
      simp [Update.write, statOn, statOff]

theorem shown_run_of_none {ops : List (Update T)} (hkeys : ∀ op ∈ ops, op.key < S) {k : Nat}
    (hk : k < S) (hlast : lastOn (Update.onKey k) ops = none) :
    (run apply (clear : LookupTable T S) ops).shown k = some Item.zero := by
  have hslot := TwoSlot.run_updateOn_of_none Update.key Update.write
    (s := (clear : LookupTable T S).slots) hlast
  rw [shown_of_lt hk, slots_run _ hkeys, hslot, slots_clear]
  simp [TwoSlot.front, Item.valid_zero, statOn]

/-- The two-sided table refines the plain map, key by key and over every run. -/
theorem shown_run_eq_plainMap (hS : 0 < S) {ops : List (Update T)}
    (hkeys : ∀ op ∈ ops, op.key < S) :
    (run apply (clear : LookupTable T S) ops).shown = run PlainMap.step (PlainMap.start S) ops := by
  induction ops using List.reverseRecOn with
  | nil =>
      funext k
      by_cases hk : k < S
      · simpa [PlainMap.start, hk] using shown_run_of_none (T := T) hkeys hk rfl
      · simpa [PlainMap.start, hk] using
          shown_of_le (t := (clear : LookupTable T S)) hS (Nat.le_of_not_lt hk)
  | append_singleton ops op ih =>
      have hops : ∀ op' ∈ ops, op'.key < S := fun op' h => hkeys op' (by simp [h])
      funext k
      -- The last call decides for its key, and the other keys show what they did.
      by_cases hk : k = op.key
      · have hlast : lastOn (Update.onKey k) (ops ++ [op]) = some op := by
          simp [Update.onKey, hk]
        rw [shown_run_of_some hkeys hlast]
        cases op <;> simp [PlainMap.step, hk, Update.key]
      · have hother : (run apply (clear : LookupTable T S) (ops ++ [op])).shown k =
            (run apply (clear : LookupTable T S) ops).shown k := by
          simpa using (find_apply_of_ne (t := run apply clear ops) hS hk).2
        rw [hother, ih hops]
        have hstep : PlainMap.step (run PlainMap.step (PlainMap.start S) ops) op k =
            run PlainMap.step (PlainMap.start S) ops k := by
          cases op <;> exact Function.update_of_ne hk _ _
        simpa using hstep.symm

/-- `Find(k,0)` after any run of ungated calls from `Clear`: the item of the last `Add` with its
valid flag on, `End()` after a `Del` and beyond the table, the zeroed item for a key no call
named; and a further call changes nothing at any other key.  The size need only be positive: that
it is a multiple of 64 matters for the bounds of the arrays, not for what `Find` shows. -/
theorem find_after_run (hS : 0 < S) (ops : List (Update T))
    (hkeys : ∀ op ∈ ops, op.key < S) (k : Nat) :
    (run apply (clear : LookupTable T S) ops).shown = run PlainMap.step (PlainMap.start S) ops ∧
    (∀ gcnt itm, lastOn (Update.onKey k) ops = some (.add gcnt itm) →
      (run apply (clear : LookupTable T S) ops).shown k = some (Item.setValid statOn itm)) ∧
    (∀ gcnt, lastOn (Update.onKey k) ops = some (.del gcnt) →
      (run apply (clear : LookupTable T S) ops).find k 0 = .end_) ∧
    (lastOn (Update.onKey k) ops = none → k < S →
      (run apply (clear : LookupTable T S) ops).shown k = some Item.zero) ∧
    (S ≤ k → (run apply (clear : LookupTable T S) ops).find k 0 = .end_) ∧
    (∀ op : Update T, op.key < S → op.key ≠ k →
      (run apply (clear : LookupTable T S) (ops ++ [op])).shown k =
        (run apply (clear : LookupTable T S) ops).shown k) := by
  refine ⟨shown_run_eq_plainMap hS hkeys, ?_, ?_, ?_, ?_, ?_⟩
  · intro gcnt itm hlast
    exact shown_run_of_some hkeys hlast
  · intro gcnt hlast
    have hnone := shown_run_of_some hkeys hlast
    -- An iterator other than `End()` would show something.
    by_contra hfind
    simp [shown, hfind] at hnone
  · intro hlast hk
    exact shown_run_of_none hkeys hk hlast
  · intro hk
    exact find_of_le hS hk 0
  · intro op _ hne
    simpa using (find_apply_of_ne (t := run apply clear ops) hS (fun h => hne h.symm)).2

theorem find_after_run_add_add_del :
    (run apply (clear : LookupTable (ValidBit × Nat) 64)
      [.add 3 (0, 7), .add 5 (1, 9), .del 3]).shown 5 = some (0, 9) ∧
    (run apply (clear : LookupTable (ValidBit × Nat) 64)
      [.add 3 (0, 7), .add 5 (1, 9), .del 3]).find 3 0 = .end_ :=
  ⟨(find_after_run (by decide) _ (by decide) 5).2.1 5 (1, 9) rfl,
    (find_after_run (by decide) _ (by decide) 3).2.2.1 3 rfl⟩

end LookupTable
end Table
end NmMemcached
