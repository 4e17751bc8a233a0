import NmMemcached.Lib.Simulation
import NmMemcached.Table.Enumerate
import NmMemcached.Table.Notices

/-!
# Behaviour — what a client of the table can tell

Two sides, two bitmaps and two counters are how the table works.  A client sees less: `Board` has
for each key the item that is shown, the item that is hidden and the notice, and one flag for the
clock.

`answers_eq` says that the table answers every use of it, in any order, as a board does.

* The client reads through an iterator at once, and writes through the reference of `operator[]`
  only.
* A word of notices is the list of its 64 bits.
-/

namespace NmMemcached
namespace Table

open Lib

universe u

/-! ## The board -/

structure Cell (T : Type u) where
  shown : T
  hidden : T
  noticed : Bool

/-- `ticked` says that `Clock` was called behind the last update that passed the gate. -/
structure Board (T : Type u) where
  cells : Nat → Cell T
  ticked : Bool

namespace Cell

variable {T : Type u}

def flip (c : Cell T) : Cell T := { c with shown := c.hidden, hidden := c.shown }

def notify (c : Cell T) : Cell T := { c with noticed := !c.noticed }

/-- An update changes the hidden item and shows it. -/
def publish (f : T → T) (c : Cell T) : Cell T :=
  { shown := f c.hidden, hidden := c.shown, noticed := !c.noticed }

variable [Item T]

/-- A bulk update shows a changed copy. -/
def renew (f : T → T) (c : Cell T) : Cell T :=
  { c with shown := Item.setValid statOn (f c.shown), hidden := c.shown }

/-- `operator[]` makes the shown item valid, or the hidden one and shows it. -/
def expose (c : Cell T) : Cell T :=
  if Item.valid c.shown = statOn then { c with shown := Item.setValid statOn c.shown }
  else { c with shown := Item.setValid statOn c.hidden, hidden := c.shown }

/-- What the client writes through the reference. -/
def assign (f : T → T) (c : Cell T) : Cell T :=
  { c.expose with shown := f c.expose.shown }

end Cell

namespace LookupTable

/-- The calls, the assignment through `operator[]`, and the two member functions that the others
call. -/
inductive Use (T : Type u)
  | call (op : Op T)
  | assign (gcnt : Nat) (f : T → T)
  | swapSide (gcnt : Nat)
  | notifyChange (gcnt : Nat)

/-- What the client gets. -/
inductive Answer (T : Type u)
  | done
  | code (r : Except String Int)
  | item (x : Option T)
  | notices (bs : List Bool)
  | reference (r : Except String T)

/-- The use stays inside the arrays; most calls look at the key themselves. -/
def Use.Inside (S : Nat) {T : Type u} : Use T → Prop
  | .call (.clearNoticeBmp64 gcnt) => gcnt ≠ S
  | .swapSide gcnt => gcnt < S
  | .notifyChange gcnt => gcnt < S
  | _ => True

def Use.isClock {T : Type u} : Use T → Bool
  | .call .clock => true
  | _ => false

end LookupTable

namespace Board

open LookupTable

variable {T : Type u}

def modify (b : Board T) (g : Nat) (f : Cell T → Cell T) : Board T :=
  { b with cells := Function.update b.cells g (f (b.cells g)) }

@[simp] theorem cells_modify_self (b : Board T) (g : Nat) (f : Cell T → Cell T) :
    (b.modify g f).cells g = f (b.cells g) :=
  Function.update_self g _ _

theorem cells_modify_of_ne {b : Board T} {g k : Nat} (h : k ≠ g) (f : Cell T → Cell T) :
    (b.modify g f).cells k = b.cells k :=
  Function.update_of_ne h _ _

variable [Item T]

def start : Board T :=
  { cells := fun _ => { shown := Item.zero, hidden := Item.zero, noticed := false }
    ticked := false }

/-- `Add` and `Del`. -/
def update (S : Nat) (b : Board T) (g : Nat) (n : Int) (f : T → T) :
    Except String Int × Board T :=
  if n ≠ 0 ∧ b.ticked = false then
    (.ok err, b)
  else
    let b' : Board T := { b with ticked := b.ticked && decide (n = 0) }
    if g < S then (.ok ok, b'.modify g (Cell.publish f))
    else (.error "exception not found(add_link).", b')

/-- `operator[]`, and what the client does with the reference. -/
def assign (S : Nat) (b : Board T) (g : Nat) (f : T → T) : Except String T × Board T :=
  if g < S then
    (.ok (b.cells g).expose.shown, b.modify g (Cell.assign f))
  else
    (.error "invalid index", b)

def use (S : Nat) (b : Board T) : Use T → Board T
  | .call .clock => { b with ticked := true }
  | .call .clear => start
  | .call (.find _ _) => b
  | .call (.findNoticeBmp64 _) => b
  | .call (.clearNoticeBmp64 g) =>
      if g < S then
        { b with
          cells := fun k =>
            if k / 64 = g / 64 then { b.cells k with noticed := false } else b.cells k }
      else b
  | .call (.index g) => (b.assign S g id).2
  | .call (.enumerateForUpdate f) =>
      -- Key 0 is flipped with the others, but nothing was prepared for it.
      { b with cells := fun k => if k = 0 then (b.cells k).flip else (b.cells k).renew f }
  | .call (.add g itm n) => (b.update S g n fun _ => Item.setValid statOn itm).2
  | .call (.del g n) => (b.update S g n (Item.setValid statOff)).2
  | .assign g f => (b.assign S g f).2
  | .swapSide g => b.modify g Cell.flip
  | .notifyChange g => b.modify g Cell.notify

def answer (S : Nat) (b : Board T) : Use T → Answer T
  | .call (.find g flag) =>
      .item (if g < S then
        if flag ≠ 0 then some (b.cells g).hidden
        else if Item.valid (b.cells g).shown = statOn then some (b.cells g).shown else none
      else none)
  | .call (.findNoticeBmp64 g) =>
      .notices ((List.range 64).map fun i => decide (g < S) && (b.cells (g / 64 * 64 + i)).noticed)
  | .call (.index g) => .reference (b.assign S g id).1
  | .call (.add g itm n) => .code (b.update S g n fun _ => Item.setValid statOn itm).1
  | .call (.del g n) => .code (b.update S g n (Item.setValid statOff)).1
  | .assign g f => .reference (b.assign S g f).1
  | _ => .done

end Board

namespace LookupTable

variable {T : Type u} {S : Nat}

/-! ## Changes of one key -/

/-- The table and the board say the same. -/
structure Matches (t : LookupTable T S) (b : Board T) : Prop where
  shown : ∀ k < S, (b.cells k).shown = (t.slots k).front
  hidden : ∀ k < S, (b.cells k).hidden = (t.slots k).back
  noticed : ∀ k < S, (b.cells k).noticed = t.noticed k
  ticked : b.ticked = decide (t.virtualClockCounterPrv < t.virtualClockCounter)
  le : t.virtualClockCounterPrv ≤ t.virtualClockCounter

section Matching

variable {t t' : LookupTable T S} {b : Board T} (h : Matches t b)
include h

/-- Both change the same cell, and the gate stays as it is. -/
theorem Matches.modify {g : Nat} {f : Cell T → Cell T} {c : TwoSlot T}
    (hslots : t'.slots = Function.update t.slots g c) (hshown : (f (b.cells g)).shown = c.front)
    (hhidden : (f (b.cells g)).hidden = c.back)
    (hnoticed : ∀ k < S, t'.noticed k = if k = g then (f (b.cells g)).noticed else t.noticed k)
    (hnow : t'.virtualClockCounter = t.virtualClockCounter)
    (hprv : t'.virtualClockCounterPrv = t.virtualClockCounterPrv) :
    Matches t' (b.modify g f) := by
  have hgate : (b.modify g f).ticked = b.ticked := rfl
  refine ⟨?_, ?_, ?_, ?_, ?_⟩
  · intro k hk
    by_cases hkg : k = g
    · subst hkg
      rw [hslots, Function.update_self, Board.cells_modify_self, hshown]
    · rw [hslots, Function.update_of_ne hkg, Board.cells_modify_of_ne hkg, h.shown k hk]
  · intro k hk
    by_cases hkg : k = g
    · subst hkg
      rw [hslots, Function.update_self, Board.cells_modify_self, hhidden]
    · rw [hslots, Function.update_of_ne hkg, Board.cells_modify_of_ne hkg, h.hidden k hk]
  · intro k hk
    rw [hnoticed k hk]
    by_cases hkg : k = g
    · subst hkg
      rw [if_pos rfl, Board.cells_modify_self]
    · rw [if_neg hkg, Board.cells_modify_of_ne hkg, h.noticed k hk]
  · rw [hgate, hnow, hprv, h.ticked]
  · rw [hnow, hprv]
    exact h.le

theorem Matches.swapSide {g : Nat} (hg : g < S) :
    Matches (t.swapSide g) (b.modify g Cell.flip) := by
  refine h.modify (slots_swapSide t g) ?_ ?_ ?_ rfl rfl
  · rw [TwoSlot.front_flip]
    exact h.hidden g hg
  · rw [TwoSlot.back_flip]
    exact h.shown g hg
  · intro k hk
    by_cases hkg : k = g
    · subst hkg
      rw [if_pos rfl]
      exact (h.noticed k hk).symm
    · rw [if_neg hkg]
      rfl

theorem Matches.notifyChange {g : Nat} (hg : g < S) :
    Matches (t.notifyChange g) (b.modify g Cell.notify) := by
  have hslots : (t.notifyChange g).slots = Function.update t.slots g (t.slots g) := by
    rw [Function.update_eq_self]
    rfl
  refine h.modify hslots (h.shown g hg) (h.hidden g hg) ?_ rfl rfl
  intro k hk
  have hbit : (t.notifyChange g).noticed k =
      if k = g then !(t.dataNoticeBmp (g >>> 6)).getLsbD (g % 64)
      else (t.dataNoticeBmp (k >>> 6)).getLsbD (k % 64) := by
    rw [noticed_of_lt hk]
    exact getLsbD_update_xor_bits t.dataNoticeBmp g k
  rw [hbit, ← noticed_of_lt hg, ← noticed_of_lt hk, ← h.noticed g hg]
  rfl

/-- Behind the gate. -/
theorem Matches.publishBack {g : Nat} (hg : g < S) (f : T → T) :
    Matches (t.publishBack g f) (b.modify g (Cell.publish f)) := by
  refine h.modify (slots_publishBack t g f) ?_ ?_ ?_ (virtualClockCounter_publishBack t g f)
    (virtualClockCounterPrv_publishBack t g f)
  · rw [TwoSlot.front_publish, ← h.hidden g hg]
    rfl
  · rw [TwoSlot.back_publish, ← h.shown g hg]
    rfl
  · intro k hk
    rw [noticed_publishBack t g f hk]
    by_cases hkg : k = g
    · subst hkg
      rw [if_pos rfl, if_pos rfl, ← h.noticed k hk]
      rfl
    · rw [if_neg hkg, if_neg hkg]

theorem Matches.gateOpen_iff (n : Int) : t.GateOpen n ↔ ¬ (n ≠ 0 ∧ b.ticked = false) := by
  rw [h.ticked, decide_eq_false_iff_not, GateOpen]
  constructor
  · rintro hopen ⟨hn, hclosed⟩
    exact hclosed (hopen hn)
  · intro hno hn
    by_contra hclosed
    exact hno ⟨hn, hclosed⟩

/-- A gated call that passes uses up the tick. -/
theorem Matches.passGate (n : Int) :
    Matches (t.passGate n) { b with ticked := b.ticked && decide (n = 0) } := by
  by_cases hn : n = 0
  · have hsame : t.passGate n = t := if_neg (not_not_intro hn)
    rw [hsame, decide_eq_true hn, Bool.and_true]
    exact h
  · have hpass : t.passGate n = { t with virtualClockCounterPrv := t.virtualClockCounter } :=
      if_pos hn
    rw [hpass, decide_eq_false hn, Bool.and_false]
    refine ⟨h.shown, h.hidden, h.noticed, ?_, BitVec.le_refl _⟩
    exact (decide_eq_false (BitVec.lt_irrefl _)).symm

end Matching

theorem put_get (t : LookupTable T S) (itr : Iterator) : t.put itr (t.get itr) = t := by
  cases itr with
  | sideA g => exact congrArg (fun a => { t with dataSideA := a }) (Function.update_eq_self g _)
  | sideB g => exact congrArg (fun a => { t with dataSideB := a }) (Function.update_eq_self g _)
  | end_ => rfl

theorem counters_put (t : LookupTable T S) (itr : Iterator) (x : T) :
    (t.put itr x).virtualClockCounter = t.virtualClockCounter ∧
      (t.put itr x).virtualClockCounterPrv = t.virtualClockCounterPrv := by
  cases itr <;> exact ⟨rfl, rfl⟩

/-! ## The uses of the table -/

variable [Item T]

/-- What is behind an iterator. -/
def itemAt (t : LookupTable T S) (itr : Iterator) : Option T :=
  if itr = .end_ then none else some (t.get itr)

/-- `operator[]`, and a write through the reference. -/
def assign (t : LookupTable T S) (gcnt : Nat) (f : T → T) : Except String T × LookupTable T S :=
  match (t.index gcnt).1 with
  | .ok itr =>
      (.ok ((t.index gcnt).2.get itr), (t.index gcnt).2.put itr (f ((t.index gcnt).2.get itr)))
  | .error e => (.error e, (t.index gcnt).2)

def use (t : LookupTable T S) : Use T → LookupTable T S
  | .call op => t.after op
  | .assign gcnt f => (t.assign gcnt f).2
  | .swapSide gcnt => t.swapSide gcnt
  | .notifyChange gcnt => t.notifyChange gcnt

def answer (t : LookupTable T S) : Use T → Answer T
  | .call (.find gcnt flag) => .item (t.itemAt (t.find gcnt flag))
  | .call (.findNoticeBmp64 gcnt) =>
      .notices ((List.range 64).map fun i => (t.findNoticeBmp64 gcnt).getLsbD i)
  | .call (.index gcnt) => .reference (t.assign gcnt id).1
  | .call (.add gcnt itm n) => .code (t.add gcnt itm n).1
  | .call (.del gcnt n) => .code (t.del gcnt n).1
  | .assign gcnt f => .reference (t.assign gcnt f).1
  | _ => .done

theorem matches_clear : Matches (clear : LookupTable T S) Board.start := by
  refine ⟨?_, ?_, ?_, ?_, ?_⟩
  · intro k _
    rw [slots_clear]
    rfl
  · intro k _
    rw [slots_clear]
    rfl
  · intro k hk
    simp [noticed_of_lt hk, clear, Board.start]
  · rfl
  · exact BitVec.le_refl _

/-! ## Updates -/

section Calls

variable {t : LookupTable T S} {b : Board T} (h : Matches t b)
include h

theorem Matches.updateBack (hS : 0 < S) (g : Nat) (n : Int) (f : T → T) :
    (t.updateBack g n f).1 = (b.update S g n f).1 ∧
      Matches (t.updateBack g n f).2 (b.update S g n f).2 := by
  by_cases hopen : t.GateOpen n
  · have hgate := h.passGate n
    rw [Board.update, if_neg ((h.gateOpen_iff n).1 hopen)]
    by_cases hg : g < S
    · rw [updateBack_of_lt hopen hg, if_pos hg]
      exact ⟨rfl, hgate.publishBack hg f⟩
    · have hend : (t.passGate n).find g 1 = .end_ := find_of_le hS (Nat.le_of_not_lt hg) 1
      rw [updateBack_of_open hopen, if_pos hend, if_neg hg]
      exact ⟨rfl, hgate⟩
  · have hclosed := (not_congr (h.gateOpen_iff n)).1 hopen
    rw [updateBack_of_closed hopen, Board.update, if_pos (not_not.1 hclosed)]
    exact ⟨rfl, h⟩

end Calls

/-! ## The index operator -/

theorem counters_index (t : LookupTable T S) (g : Nat) :
    (t.index g).2.virtualClockCounter = t.virtualClockCounter ∧
      (t.index g).2.virtualClockCounterPrv = t.virtualClockCounterPrv := by
  unfold index
  split
  · exact ⟨rfl, rfl⟩
  · dsimp only
    split
    · exact counters_put _ _ _
    · split
      · exact ⟨rfl, rfl⟩
      · exact counters_put _ _ _

/-- The reference names the slot that is shown from then on. -/
theorem index_eq (t : LookupTable T S) {g : Nat} (hg : g < S) :
    (t.index g).1 = .ok (slotIter g ((t.index g).2.slots g).cur) := by
  have hle : ¬ g > S - 1 := by omega
  have hback : t.find g 1 = slotIter g (!t.sideBit g) := find_back hg (by decide)
  have hslot := slots_index t hg g
  rw [if_pos rfl] at hslot
  rw [hslot]
  by_cases hv : Item.valid (t.slots g).front = statOn
  · have hfront : t.find g 0 = slotIter g (t.sideBit g) := by
      rw [find_front hg, if_pos hv]
    rw [if_pos hv, index, if_neg hle, hfront]
    simp [TwoSlot.set]
  · have hfront : t.find g 0 = .end_ := by
      rw [find_front hg, if_neg hv]
    rw [if_neg hv, index, if_neg hle, hfront, hback]
    simp [TwoSlot.set, TwoSlot.flip]

/-- The item behind the reference is the shown one, and the write changes nothing else. -/
theorem assign_eq (t : LookupTable T S) {g : Nat} (hg : g < S) (f : T → T) :
    (t.assign g f).1 = .ok ((t.index g).2.slots g).front ∧
      (t.assign g f).2 = (t.index g).2.put (slotIter g ((t.index g).2.slots g).cur)
        (f ((t.index g).2.slots g).front) := by
  rw [assign, index_eq t hg]
  dsimp only
  rw [get_slotIter]
  exact ⟨rfl, rfl⟩

theorem assign_id (t : LookupTable T S) (g : Nat) : (t.assign g id).2 = (t.index g).2 := by
  unfold assign
  split
  · exact put_get _ _
  · rfl

theorem Matches.assign {t : LookupTable T S} {b : Board T} (h : Matches t b) (hS : 0 < S) (g : Nat)
    (f : T → T) : (t.assign g f).1 = (b.assign S g f).1 ∧
      Matches (t.assign g f).2 (b.assign S g f).2 := by
  by_cases hg : g < S
  · rcases assign_eq t hg f with ⟨hanswer, hafter⟩
    have hslots := funext (slots_index t hg)
    generalize hnew : (t.index g).2.slots g = c at hanswer hafter
    have hcell : (b.cells g).expose.shown = c.front ∧ (b.cells g).expose.hidden = c.back ∧
        (b.cells g).expose.noticed = (b.cells g).noticed := by
      rw [← hnew, slots_index t hg, if_pos rfl, Cell.expose, h.shown g hg, h.hidden g hg]
      by_cases hv : Item.valid (t.slots g).front = statOn
      · rw [if_pos hv, if_pos hv, TwoSlot.front_set]
        exact ⟨rfl, by simp [TwoSlot.back, TwoSlot.set], rfl⟩
      · rw [if_neg hv, if_neg hv, TwoSlot.front_flip, TwoSlot.back_set, TwoSlot.back_flip]
        exact ⟨rfl, by simp [TwoSlot.front, TwoSlot.set], rfl⟩
    rcases hcell with ⟨hshown, hhidden, hkept⟩
    rw [Board.assign, if_pos hg, hanswer, hafter]
    refine ⟨congrArg Except.ok hshown.symm, ?_⟩
    have hput : ((t.index g).2.put (slotIter g c.cur) (f c.front)).slots =
        Function.update t.slots g (c.set c.cur (f c.front)) := by
      rw [slots_put, hnew]
      funext k
      by_cases hkg : k = g
      · rw [hkg, Function.update_self, Function.update_self]
      · rw [Function.update_of_ne hkg, Function.update_of_ne hkg, slots_index t hg,
          if_neg (Ne.symm hkg)]
    refine h.modify (f := Cell.assign f) hput ?_ ?_ ?_ ?_ ?_
    · rw [TwoSlot.front_set, ← hshown]
      rfl
    · refine Eq.trans hhidden ?_
      simp [TwoSlot.back, TwoSlot.set]
    · intro k hk
      have hbmp := (dataNoticeBmp_put (t.index g).2 (slotIter g c.cur) (f c.front)).trans
        (dataNoticeBmp_index t g)
      rw [noticed_congr hbmp]
      by_cases hkg : k = g
      · rw [if_pos hkg, hkg, Cell.assign, hkept, h.noticed g hg]
      · rw [if_neg hkg]
    · rw [(counters_put _ _ _).1, (counters_index t g).1]
    · rw [(counters_put _ _ _).2, (counters_index t g).2]
  · have hgt : g > S - 1 := by omega
    have hindex : t.index g = (.error "invalid index", t) := if_pos hgt
    rw [LookupTable.assign, hindex, Board.assign, if_neg hg]
    exact ⟨rfl, h⟩

/-! ## Whole words and the whole table -/

theorem Matches.clearNoticeBmp64 {t : LookupTable T S} {b : Board T} (h : Matches t b) {g : Nat}
    (hg : g ≠ S) : Matches (t.clearNoticeBmp64 g) (b.use S (.call (.clearNoticeBmp64 g))) := by
  by_cases hlt : g < S
  · have hcells : b.use S (.call (.clearNoticeBmp64 g)) =
        { b with
          cells := fun k =>
            if k / 64 = g / 64 then { b.cells k with noticed := false } else b.cells k } :=
      if_pos hlt
    have hword : ∀ k, k >>> 6 = k / 64 := fun k => Nat.shiftRight_eq_div_pow k 6
    have hclear : t.clearNoticeBmp64 g =
        { t with dataNoticeBmp := Function.update t.dataNoticeBmp (g >>> 6) 0 } :=
      if_pos (Nat.le_of_lt hlt)
    rw [hcells]
    refine ⟨?_, ?_, ?_, ?_, ?_⟩
    · intro k hk
      rw [hclear, apply_ite Cell.shown, ite_self, h.shown k hk]
      rfl
    · intro k hk
      rw [hclear, apply_ite Cell.hidden, ite_self, h.hidden k hk]
      rfl
    · intro k hk
      rw [noticed_clearNoticeBmp64 t hlt hk, hword, hword, apply_ite Cell.noticed, h.noticed k hk]
    · rw [hclear]
      exact h.ticked
    · rw [hclear]
      exact h.le
  · have hle : ¬ g ≤ S := fun hle => hlt (Nat.lt_of_le_of_ne hle hg)
    have hsame : b.use S (.call (.clearNoticeBmp64 g)) = b := if_neg hlt
    rw [LookupTable.clearNoticeBmp64, if_neg hle, hsame]
    exact h

theorem counters_enumerateForUpdate (t : LookupTable T S) (func : T → T) :
    (t.enumerateForUpdate func).virtualClockCounter = t.virtualClockCounter ∧
      (t.enumerateForUpdate func).virtualClockCounterPrv = t.virtualClockCounterPrv := by
  have hflip : ∀ (ws : List Nat) (t : LookupTable T S),
      (ws.foldl flipWord t).virtualClockCounter = t.virtualClockCounter ∧
        (ws.foldl flipWord t).virtualClockCounterPrv = t.virtualClockCounterPrv := by
    intro ws
    induction ws with
    | nil =>
        exact fun _ => ⟨rfl, rfl⟩
    | cons w ws ih =>
        exact fun t => ih (flipWord t w)
  have hprepare : ∀ (ks : List Nat) (t : LookupTable T S),
      (ks.foldl (enumerateOne func) t).virtualClockCounter = t.virtualClockCounter ∧
        (ks.foldl (enumerateOne func) t).virtualClockCounterPrv = t.virtualClockCounterPrv := by
    intro ks
    induction ks with
    | nil =>
        exact fun _ => ⟨rfl, rfl⟩
    | cons k ks ih =>
        intro t
        rw [List.foldl_cons, (ih _).1, (ih _).2, enumerateOne_eq]
        exact counters_put _ _ _
  rw [enumerateForUpdate, (hflip _ _).1, (hflip _ _).2]
  exact hprepare _ _

theorem Matches.enumerateForUpdate {t : LookupTable T S} {b : Board T} (h : Matches t b)
    (h64 : 64 ∣ S) (f : T → T) :
    Matches (t.enumerateForUpdate f) (b.use S (.call (.enumerateForUpdate f))) := by
  have hcell : ∀ k, (b.use S (.call (.enumerateForUpdate f))).cells k =
      if k = 0 then (b.cells k).flip else (b.cells k).renew f := fun _ => rfl
  rcases counters_enumerateForUpdate t f with ⟨hnow, hprv⟩
  refine ⟨?_, ?_, ?_, ?_, ?_⟩
  · intro k hk
    rw [slots_enumerateForUpdate h64 t f hk, hcell]
    by_cases hzero : k = 0
    · rw [if_pos hzero, if_pos hzero, TwoSlot.front_flip, ← h.hidden k hk]
      rfl
    · rw [if_neg hzero, if_neg hzero, TwoSlot.front_flip, TwoSlot.back_prepare, ← h.shown k hk]
      rfl
  · intro k hk
    rw [slots_enumerateForUpdate h64 t f hk, hcell]
    by_cases hzero : k = 0
    · rw [if_pos hzero, if_pos hzero, TwoSlot.back_flip, ← h.shown k hk]
      rfl
    · rw [if_neg hzero, if_neg hzero, TwoSlot.back_flip, TwoSlot.front_prepare, ← h.shown k hk]
      rfl
  · intro k hk
    rw [noticed_congr (dataNoticeBmp_enumerateForUpdate t f), ← h.noticed k hk, hcell]
    by_cases hzero : k = 0
    · rw [if_pos hzero]
      rfl
    · rw [if_neg hzero]
      rfl
  · rw [hnow, hprv]
    exact h.ticked
  · rw [hnow, hprv]
    exact h.le

/-- The counter has room for one more tick. -/
theorem Matches.clock {t : LookupTable T S} {b : Board T} (h : Matches t b)
    (hroom : t.virtualClockCounter.toNat + 1 < 2 ^ 64) :
    Matches t.clock (b.use S (.call .clock)) := by
  have hcount : t.clock.virtualClockCounter.toNat = t.virtualClockCounter.toNat + 1 := by
    rw [LookupTable.clock, BitVec.toNat_add]
    exact Nat.mod_eq_of_lt hroom
  have hprv : t.clock.virtualClockCounterPrv = t.virtualClockCounterPrv := rfl
  have hle := h.le
  rw [BitVec.le_def] at hle
  have hlt : t.clock.virtualClockCounterPrv < t.clock.virtualClockCounter := by
    rw [BitVec.lt_def, hcount, hprv]
    exact Nat.lt_succ_of_le hle
  exact ⟨h.shown, h.hidden, h.noticed, (decide_eq_true hlt).symm, BitVec.le_of_lt hlt⟩

/-! ## What the calls answer -/

section Answers

variable {t : LookupTable T S} {b : Board T} (h : Matches t b)
include h

theorem Matches.find (hS : 0 < S) (g : Nat) (flag : Int) :
    t.answer (.call (.find g flag)) = b.answer S (.call (.find g flag)) := by
  rw [LookupTable.answer, Board.answer, itemAt]
  by_cases hg : g < S
  · rw [if_pos hg, h.shown g hg, h.hidden g hg]
    by_cases hflag : flag = 0
    · rw [if_neg (not_not_intro hflag), hflag, find_front hg]
      by_cases hv : Item.valid (t.slots g).front = statOn
      · rw [if_pos hv, if_pos hv, if_neg (slotIter_ne_end _ _), get_slotIter]
        rfl
      · rw [if_neg hv, if_neg hv, if_pos rfl]
    · rw [if_pos hflag, find_back hg hflag, if_neg (slotIter_ne_end _ _), get_slotIter]
      rfl
  · rw [if_neg hg, find_of_le hS (Nat.le_of_not_lt hg), if_pos rfl]

theorem Matches.findNoticeBmp64 (hS : 0 < S) (h64 : 64 ∣ S) (g : Nat) :
    t.answer (.call (.findNoticeBmp64 g)) = b.answer S (.call (.findNoticeBmp64 g)) := by
  refine congrArg Answer.notices (List.map_congr_left fun i hi => ?_)
  have hlt := List.mem_range.1 hi
  by_cases hg : g < S
  · -- The 64 keys of the word are all in the table.
    have hle : ¬ g > S - 1 := by omega
    have hk : g / 64 * 64 + i < S := by omega
    have hword : (g / 64 * 64 + i) >>> 6 = g >>> 6 := by
      rw [Nat.shiftRight_eq_div_pow, Nat.shiftRight_eq_div_pow]
      omega
    have hbit : (g / 64 * 64 + i) % 64 = i := by omega
    rw [decide_eq_true hg, Bool.true_and, h.noticed _ hk, noticed_of_lt hk, hword, hbit,
      LookupTable.findNoticeBmp64, if_neg hle]
  · have hgt : g > S - 1 := by omega
    rw [decide_eq_false hg, Bool.false_and, LookupTable.findNoticeBmp64, if_pos hgt]
    exact BitVec.getLsbD_zero

/-! ## One use -/

/-- The table and the board answer the same, and still match. -/
theorem Matches.use (hS : 0 < S) (h64 : 64 ∣ S) {u : Use T} (hinside : u.Inside S)
    (hroom : u.isClock = true → t.virtualClockCounter.toNat + 1 < 2 ^ 64) :
    t.answer u = b.answer S u ∧ Matches (t.use u) (b.use S u) := by
  cases u with
  | call op =>
      cases op with
      | clock => exact ⟨rfl, h.clock (hroom rfl)⟩
      | clear => exact ⟨rfl, matches_clear⟩
      | find g flag => exact ⟨h.find hS g flag, h⟩
      | findNoticeBmp64 g => exact ⟨h.findNoticeBmp64 hS h64 g, h⟩
      | clearNoticeBmp64 g => exact ⟨rfl, h.clearNoticeBmp64 hinside⟩
      | index g =>
          rcases h.assign hS g id with ⟨hanswer, hafter⟩
          rw [assign_id] at hafter
          exact ⟨congrArg Answer.reference hanswer, hafter⟩
      | enumerateForUpdate f => exact ⟨rfl, h.enumerateForUpdate h64 f⟩
      | add g itm n =>
          rcases h.updateBack hS g n fun _ => Item.setValid statOn itm with ⟨hanswer, hafter⟩
          exact ⟨congrArg Answer.code hanswer, hafter⟩
      | del g n =>
          rcases h.updateBack hS g n (Item.setValid statOff) with ⟨hanswer, hafter⟩
          exact ⟨congrArg Answer.code hanswer, hafter⟩
  | assign g f =>
      rcases h.assign hS g f with ⟨hanswer, hafter⟩
      exact ⟨congrArg Answer.reference hanswer, hafter⟩
  | swapSide g => exact ⟨rfl, h.swapSide hinside⟩
  | notifyChange g => exact ⟨rfl, h.notifyChange hinside⟩

end Answers

/-! ## Runs -/

/-- How far a use moves the counter of `Clock`. -/
theorem counter_use (t : LookupTable T S) (u : Use T) :
    (t.use u).virtualClockCounter.toNat ≤
      t.virtualClockCounter.toNat + if u.isClock then 1 else 0 := by
  have hupdate : ∀ (g : Nat) (n : Int) (f : T → T),
      (t.updateBack g n f).2.virtualClockCounter = t.virtualClockCounter := by
    intro g n f
    by_cases hopen : t.GateOpen n
    · have hpass : (t.passGate n).virtualClockCounter = t.virtualClockCounter := by
        rw [passGate_eq]
      rw [updateBack_of_open hopen]
      split
      · exact hpass
      · exact (counters_put _ _ _).1.trans hpass
    · rw [updateBack_of_closed hopen]
  have hassign : ∀ (g : Nat) (f : T → T),
      (t.assign g f).2.virtualClockCounter = t.virtualClockCounter := by
    intro g f
    unfold assign
    split
    · exact (counters_put _ _ _).1.trans (counters_index t g).1
    · exact (counters_index t g).1
  cases u with
  | call op =>
      cases op with
      | clock =>
          have hadd : (t.use (.call .clock)).virtualClockCounter.toNat =
              (t.virtualClockCounter + 1).toNat := rfl
          rw [hadd, BitVec.toNat_add]
          exact Nat.mod_le _ _
      | clear => exact Nat.zero_le _
      | find g flag => exact Nat.le_refl _
      | findNoticeBmp64 g => exact Nat.le_refl _
      | clearNoticeBmp64 g =>
          have hsame : (t.clearNoticeBmp64 g).virtualClockCounter = t.virtualClockCounter := by
            unfold LookupTable.clearNoticeBmp64
            split <;> rfl
          exact Nat.le_of_eq (congrArg BitVec.toNat hsame)
      | index g => exact Nat.le_of_eq (congrArg BitVec.toNat (counters_index t g).1)
      | enumerateForUpdate f =>
          exact Nat.le_of_eq (congrArg BitVec.toNat (counters_enumerateForUpdate t f).1)
      | add g itm n => exact Nat.le_of_eq (congrArg BitVec.toNat (hupdate g n _))
      | del g n => exact Nat.le_of_eq (congrArg BitVec.toNat (hupdate g n _))
  | assign g f => exact Nat.le_of_eq (congrArg BitVec.toNat (hassign g f))
  | swapSide g => exact Nat.le_refl _
  | notifyChange g => exact Nat.le_refl _

/-- The use stays inside the arrays, and the counter does not wrap. -/
def Fits (t : LookupTable T S) (u : Use T) : Prop :=
  u.Inside S ∧ (u.isClock = true → t.virtualClockCounter.toNat + 1 < 2 ^ 64)

theorem along_fits {t : LookupTable T S} {us : List (Use T)} (hinside : ∀ u ∈ us, u.Inside S)
    (hclocks : t.virtualClockCounter.toNat + us.countP Use.isClock < 2 ^ 64) :
    Along use Fits t us := by
  induction us generalizing t with
  | nil =>
      trivial
  | cons u us ih =>
      rcases List.forall_mem_cons.1 hinside with ⟨hu, hrest⟩
      have hcount := counter_use t u
      rw [List.countP_cons] at hclocks
      refine ⟨⟨hu, fun hclock => ?_⟩, ih hrest ?_⟩
      · rw [if_pos hclock] at hclocks
        omega
      · omega

theorem labels_of_matches (hS : 0 < S) (h64 : 64 ∣ S) {t : LookupTable T S} {b : Board T}
    (h : Matches t b) {us : List (Use T)} (hinside : ∀ u ∈ us, u.Inside S)
    (hclocks : t.virtualClockCounter.toNat + us.countP Use.isClock < 2 ^ 64) :
    labels use answer t us = labels (Board.use S) (Board.answer S) b us := by
  refine (labels_eq_of_bisimulation ?_ h (along_fits hinside hclocks)).1
  intro t b u hmatch hfits
  exact hmatch.use hS h64 hfits.1 hfits.2

theorem room_clear {n : Nat} (hn : n < 2 ^ 64) :
    (clear : LookupTable T S).virtualClockCounter.toNat + n < 2 ^ 64 :=
  (Nat.zero_add n).symm ▸ hn

/-- Whatever is called in whatever order, the table answers as the board does. -/
theorem answers_eq (hS : 0 < S) (h64 : 64 ∣ S) {us : List (Use T)}
    (hinside : ∀ u ∈ us, u.Inside S) (hclocks : us.countP Use.isClock < 2 ^ 64) :
    labels use answer (clear : LookupTable T S) us =
      labels (Board.use S) (Board.answer S) Board.start us :=
  labels_of_matches hS h64 matches_clear hinside (room_clear hclocks)

/-- Gated updates, an assignment through the index operator, a bulk update and the notices. -/
def someUses : List (Use (ValidBit × Nat)) :=
  [.call .clock, .call (.add 5 (0, 7) 1), .call (.del 5 1), .call (.find 5 0),
    .assign 9 fun _ => (0, 3), .call (.enumerateForUpdate fun x => (x.1, x.2 + 1)),
    .swapSide 9, .notifyChange 9, .call (.add 64 (0, 1) 0), .call (.findNoticeBmp64 9)]

theorem answers_eq_someUses :
    labels use answer (clear : LookupTable (ValidBit × Nat) 64) someUses =
      labels (Board.use 64) (Board.answer 64) Board.start someUses := by
  refine answers_eq (by decide) (by decide) ?_ ?_
  · simp only [someUses, List.forall_mem_cons]
    exact ⟨trivial, trivial, trivial, trivial, trivial, trivial, show 9 < 64 by decide,
      show 9 < 64 by decide, trivial, trivial, nofun⟩
  · decide

end LookupTable
end Table
end NmMemcached
