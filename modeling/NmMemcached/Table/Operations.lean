import NmMemcached.Table.Enumerate

/-!
# Operations — runs of all calls of the table

`Op` is a call of any member function of `LookupTable` that a run may contain.  A run starts from
`Clear` and is folded by `after`.  Two facts about a single call are used by every law over runs:
which calls return `OK` on a key (`updates_add`, `updates_del`), and what `operator[]` does to the
slots (`slots_index`).
-/

namespace NmMemcached
namespace Table
namespace LookupTable

open Lib

universe u

variable {T : Type u} {S : Nat}

inductive Op (T : Type u)
  | clock
  | clear
  | find (gcnt : Nat) (flag : Int)
  | findNoticeBmp64 (gcnt : Nat)
  | clearNoticeBmp64 (gcnt : Nat)
  | index (gcnt : Nat)
  | enumerateForUpdate (func : T → T)
  | add (gcnt : Nat) (itm : T) (nochkCounter : Int)
  | del (gcnt : Nat) (nochkCounter : Int)

namespace Op

/-- The key of the call is in the table. -/
def KeyBelow (S : Nat) : Op T → Prop
  | .clock => True
  | .clear => True
  | .find gcnt _ => gcnt < S
  | .findNoticeBmp64 gcnt => gcnt < S
  | .clearNoticeBmp64 gcnt => gcnt < S
  | .index gcnt => gcnt < S
  | .enumerateForUpdate _ => True
  | .add gcnt _ _ => gcnt < S
  | .del gcnt _ => gcnt < S

end Op

variable [Item T]

/-- The table a call leaves. -/
def after (t : LookupTable T S) : Op T → LookupTable T S
  | .clock => t.clock
  | .clear => clear
  | .find _ _ => t
  | .findNoticeBmp64 _ => t
  | .clearNoticeBmp64 gcnt => t.clearNoticeBmp64 gcnt
  | .index gcnt => (t.index gcnt).2
  | .enumerateForUpdate func => t.enumerateForUpdate func
  | .add gcnt itm nochkCounter => (t.add gcnt itm nochkCounter).2
  | .del gcnt nochkCounter => (t.del gcnt nochkCounter).2

/-! ## Calls that return OK -/

def returnsOk : Except String Int → Bool
  | .ok r => decide (r = ok)
  | .error _ => false

/-- The call is an `Add` on `k` that returns `OK`. -/
def adds (t : LookupTable T S) (k : Nat) : Op T → Bool
  | .add gcnt itm nochkCounter => decide (gcnt = k) && returnsOk (t.add gcnt itm nochkCounter).1
  | _ => false

/-- The call is a `Del` on `k` that returns `OK`. -/
def dels (t : LookupTable T S) (k : Nat) : Op T → Bool
  | .del gcnt nochkCounter => decide (gcnt = k) && returnsOk (t.del gcnt nochkCounter).1
  | _ => false

/-- An update of a key of the table publishes and returns `OK`, or it does neither. -/
theorem updateBack_returnsOk (t : LookupTable T S) {k : Nat} (hk : k < S) (n : Int) (f : T → T) :
    (returnsOk (t.updateBack k n f).1 = false ∧ (t.updateBack k n f).2 = t) ∨
      (returnsOk (t.updateBack k n f).1 = true ∧
        (t.updateBack k n f).2 = (t.passGate n).publishBack k f) := by
  by_cases hopen : t.GateOpen n
  · right
    rw [updateBack_of_lt hopen hk]
    exact ⟨rfl, rfl⟩
  · left
    rw [updateBack_of_closed hopen]
    exact ⟨rfl, rfl⟩

omit [Item T] in
theorem slots_passGate (t : LookupTable T S) (n : Int) : (t.passGate n).slots = t.slots := by
  rw [passGate_eq]
  rfl

/-- What an update of `g` does to the slots of `k`. -/
theorem slots_updateBack (t : LookupTable T S) {g : Nat} (hg : g < S) (n : Int) (f : T → T)
    (k : Nat) :
    (t.updateBack g n f).2.slots k =
      if g = k ∧ returnsOk (t.updateBack g n f).1 = true then (t.slots k).publish f
      else t.slots k := by
  rcases updateBack_returnsOk t hg n f with ⟨hret, hsame⟩ | ⟨hret, hpublish⟩
  · rw [hsame, hret, if_neg (by simp)]
  · rw [hpublish, slots_publishBack, slots_passGate, hret]
    by_cases hk : g = k
    · rw [← hk, TwoSlot.publishAt_same, if_pos ⟨rfl, rfl⟩]
    · rw [TwoSlot.publishAt_of_ne (Ne.symm hk), if_neg fun h => hk h.1]

/-! ## The index operator -/

/-- `operator[]` marks the item that is shown; when none is, it shows the hidden one. -/
theorem slots_index (t : LookupTable T S) {g : Nat} (hg : g < S) (k : Nat) :
    (t.index g).2.slots k =
      if g = k then
        if Item.valid (t.slots k).front = statOn then
          (t.slots k).set (t.slots k).cur (Item.setValid statOn (t.slots k).front)
        else ((t.slots k).set (!(t.slots k).cur) (Item.setValid statOn (t.slots k).back)).flip
      else t.slots k := by
  have hle : ¬ g > S - 1 := by omega
  have hback : t.find g 1 = slotIter g (!t.sideBit g) := find_back hg (by decide)
  have hafter : (t.index g).2.slots = Function.update t.slots g
      (if Item.valid (t.slots g).front = statOn then
        (t.slots g).set (t.slots g).cur (Item.setValid statOn (t.slots g).front)
      else ((t.slots g).set (!(t.slots g).cur) (Item.setValid statOn (t.slots g).back)).flip) := by
    rw [index, if_neg hle]
    by_cases hv : Item.valid (t.slots g).front = statOn
    · have hfront : t.find g 0 = slotIter g (t.sideBit g) := by
        rw [find_front hg, if_pos hv]
      simp only [hfront, slotIter_ne_end, ne_eq, not_false_eq_true, if_true, get_slotIter,
        slots_put, hv]
      rfl
    · have hfront : t.find g 0 = .end_ := by
        rw [find_front hg, if_neg hv]
      simp only [hfront, hback, slotIter_ne_end, ne_eq, not_true_eq_false, if_false, get_slotIter,
        slots_swapSide, slots_put, Function.update_self, Function.update_idem, hv]
      rfl
  rw [hafter]
  by_cases hk : g = k
  · rw [hk, Function.update_self, if_pos rfl]
  · rw [Function.update_of_ne (Ne.symm hk), if_neg hk]

/-- The item behind the reference that `operator[]` returns is the one `Find` shows from then
on. -/
theorem shown_index (t : LookupTable T S) {g : Nat} (hg : g < S) :
    ∃ itr, (t.index g).1 = .ok itr ∧ (t.index g).2.shown g = some ((t.index g).2.get itr) := by
  have hle : ¬ g > S - 1 := by omega
  have hslot := slots_index t hg g
  rw [if_pos rfl] at hslot
  have hback : t.find g 1 = slotIter g (!t.sideBit g) := find_back hg (by decide)
  by_cases hv : Item.valid (t.slots g).front = statOn
  · refine ⟨slotIter g (t.sideBit g), ?_, ?_⟩
    · rw [index, if_neg hle, find_front hg, if_pos hv]
      simp
    · rw [if_pos hv] at hslot
      rw [get_slotIter, shown_of_lt hg, hslot, TwoSlot.front_set, Item.valid_setValid, if_pos rfl]
      simp [TwoSlot.set]
  · refine ⟨slotIter g (!t.sideBit g), ?_, ?_⟩
    · rw [index, if_neg hle, find_front hg, if_neg hv, hback]
      simp
    · rw [if_neg hv] at hslot
      rw [get_slotIter, shown_of_lt hg, hslot, TwoSlot.front_flip, TwoSlot.back_set,
        Item.valid_setValid, if_pos rfl]
      simp [TwoSlot.set, TwoSlot.flip]

end LookupTable
end Table
end NmMemcached
