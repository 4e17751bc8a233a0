import NmMemcached.Table.Operations

/-!
# Deletion — what a deleted key may still show

`Del` marks one of the two sides and shows it.  The item that was shown until then stays on the
hidden side as it was, and an older one may stay on the marked side.  `operator[]` brings the
hidden side back, `EnumerateForUpdate` copies the marked one.

* Items are run with a label that says whether bytes of an `Add` are in them (`Labelled`).  The
  labels change nothing else: erasing them gives the run of the plain table (`erase_run`).
* A key counts as deleted from a `Del` on it that returns `OK` to the next `Add` that does
  (`Tracked`).  What `operator[]` hands out, `Find` shows from then on (`shown_index`).
* A deleted key shows no bytes of an `Add` exactly as long as no call exposes a labelled item
  (`deletedHidden_iff`).
-/

namespace NmMemcached
namespace Table

universe u

/-- An item with its label. -/
structure Labelled (T : Type u) where
  item : T
  added : Bool
  deriving DecidableEq

namespace Labelled

variable {T : Type u} [Item T]

/-- The valid bit is that of the item, and `memset` leaves no bytes of an `Add`. -/
instance : Item (Labelled T) where
  zero := { item := Item.zero, added := false }
  valid x := Item.valid x.item
  setValid v x := { x with item := Item.setValid v x.item }
  valid_zero := Item.valid_zero
  valid_setValid v x := Item.valid_setValid v x.item

@[simp] theorem added_setValid (v : ValidBit) (x : Labelled T) :
    (Item.setValid v x).added = x.added := rfl

@[simp] theorem item_setValid (v : ValidBit) (x : Labelled T) :
    (Item.setValid v x).item = Item.setValid v x.item := rfl

end Labelled

namespace LookupTable

open Lib

variable {T : Type u} {S : Nat}

/-! ## Labels -/

/-- The call on labelled items.  `keep func x` says whether the callback `func` leaves any of the
bytes of `x` in place. -/
def Op.label (keep : (T → T) → T → Bool) : Op T → Op (Labelled T)
  | .clock => .clock
  | .clear => .clear
  | .find gcnt flag => .find gcnt flag
  | .findNoticeBmp64 gcnt => .findNoticeBmp64 gcnt
  | .clearNoticeBmp64 gcnt => .clearNoticeBmp64 gcnt
  | .index gcnt => .index gcnt
  | .enumerateForUpdate func =>
      .enumerateForUpdate fun x => { item := func x.item, added := x.added && keep func x.item }
  | .add gcnt itm nochkCounter => .add gcnt { item := itm, added := true } nochkCounter
  | .del gcnt nochkCounter => .del gcnt nochkCounter

/-- The table without the labels. -/
def erase (t : LookupTable (Labelled T) S) : LookupTable T S :=
  { dataSideA := fun n => (t.dataSideA n).item
    dataSideB := fun n => (t.dataSideB n).item
    end_ := t.end_.item
    dataSideBmp := t.dataSideBmp
    dataNoticeBmp := t.dataNoticeBmp
    virtualClockCounter := t.virtualClockCounter
    virtualClockCounterPrv := t.virtualClockCounterPrv }

theorem erase_put (t : LookupTable (Labelled T) S) (itr : Iterator) (x : Labelled T) :
    (t.put itr x).erase = t.erase.put itr x.item := by
  cases itr <;> simp only [put, erase, LookupTable.mk.injEq, and_true, true_and]
  · funext n
    rw [Function.apply_update (fun _ => Labelled.item)]
  · funext n
    rw [Function.apply_update (fun _ => Labelled.item)]

@[simp] theorem item_get (t : LookupTable (Labelled T) S) (itr : Iterator) :
    (t.get itr).item = t.erase.get itr := by
  cases itr <;> rfl

theorem front_erase (t : LookupTable (Labelled T) S) (k : Nat) :
    (t.erase.slots k).front = (t.slots k).front.item := by
  have hslot : ∀ b, (t.erase.slots k).slot b = ((t.slots k).slot b).item := by
    intro b
    cases b <;> rfl
  exact hslot _

variable [Item T]

@[simp] theorem find_erase (t : LookupTable (Labelled T) S) (g : Nat) (flag : Int) :
    t.erase.find g flag = t.find g flag := rfl

theorem erase_updateBack (t : LookupTable (Labelled T) S) (g : Nat) (n : Int)
    {f : Labelled T → Labelled T} {f' : T → T} (hf : ∀ x, (f x).item = f' x.item) :
    (t.updateBack g n f).1 = (t.erase.updateBack g n f').1 ∧
      (t.updateBack g n f).2.erase = (t.erase.updateBack g n f').2 := by
  have hpass : (t.passGate n).erase = t.erase.passGate n := by
    simp only [passGate_eq]
    rfl
  by_cases hopen : t.GateOpen n
  · have hopen' : t.erase.GateOpen n := hopen
    rw [updateBack_of_open hopen, updateBack_of_open hopen', ← hpass, find_erase]
    by_cases hend : (t.passGate n).find g 1 = .end_
    · rw [if_pos hend, if_pos hend]
      exact ⟨rfl, rfl⟩
    · rw [if_neg hend, if_neg hend, ← item_get, ← hf, ← erase_put]
      exact ⟨rfl, rfl⟩
  · have hclosed : ¬ t.erase.GateOpen n := hopen
    rw [updateBack_of_closed hopen, updateBack_of_closed hclosed]
    exact ⟨rfl, rfl⟩

theorem erase_index (t : LookupTable (Labelled T) S) (g : Nat) :
    (t.index g).2.erase = (t.erase.index g).2 := by
  have hput : ∀ itr, (t.put itr (Item.setValid statOn (t.get itr))).erase =
      t.erase.put itr (Item.setValid statOn (t.erase.get itr)) := by
    intro itr
    rw [erase_put, Labelled.item_setValid, item_get]
  by_cases hle : g > S - 1
  · rw [index, index, if_pos hle, if_pos hle]
  · rw [index, index, if_neg hle, if_neg hle]
    simp only [find_erase]
    by_cases hfront : t.find g 0 = .end_
    · by_cases hback : t.find g 1 = .end_
      · simp only [hfront, hback, ne_eq, not_true_eq_false, if_true, if_false]
      · simp only [hfront, hback, ne_eq, not_true_eq_false, if_false, ← hput]
        rfl
    · simp only [hfront, ne_eq, not_false_eq_true, if_true, hput]

theorem erase_enumerateForUpdate (t : LookupTable (Labelled T) S)
    {f : Labelled T → Labelled T} {f' : T → T} (hf : ∀ x, (f x).item = f' x.item) :
    (t.enumerateForUpdate f).erase = t.erase.enumerateForUpdate f' := by
  have hflip : ∀ (ws : List Nat) (t : LookupTable (Labelled T) S),
      (ws.foldl flipWord t).erase = ws.foldl flipWord t.erase := by
    intro ws
    induction ws with
    | nil =>
        exact fun _ => rfl
    | cons w ws ih =>
        exact fun t => ih (flipWord t w)
  have hone : ∀ (t : LookupTable (Labelled T) S) (k : Nat),
      (enumerateOne f t k).erase = enumerateOne f' t.erase k := by
    intro t k
    rw [enumerateOne_eq, enumerateOne_eq, erase_put, enumerated, enumerated,
      Labelled.item_setValid, hf, front_erase]
    rfl
  have hprepare : ∀ (ks : List Nat) (t : LookupTable (Labelled T) S),
      (ks.foldl (enumerateOne f) t).erase = ks.foldl (enumerateOne f') t.erase := by
    intro ks
    induction ks with
    | nil =>
        exact fun _ => rfl
    | cons k ks ih =>
        intro t
        rw [List.foldl_cons, ih, hone]
        rfl
  rw [enumerateForUpdate, hflip, hprepare]
  rfl

theorem erase_after (keep : (T → T) → T → Bool) (t : LookupTable (Labelled T) S) (op : Op T) :
    (t.after (op.label keep)).erase = t.erase.after op := by
  cases op with
  | clearNoticeBmp64 g =>
      simp only [Op.label, after, clearNoticeBmp64]
      split <;> rfl
  | index g =>
      exact erase_index t g
  | enumerateForUpdate func =>
      exact erase_enumerateForUpdate t fun _ => rfl
  | add g itm n =>
      exact (erase_updateBack t g n fun _ => rfl).2
  | del g n =>
      exact (erase_updateBack t g n fun _ => rfl).2
  | _ =>
      rfl

/-- The same calls return `OK`. -/
theorem adds_erase (keep : (T → T) → T → Bool) (t : LookupTable (Labelled T) S) (k : Nat)
    (op : Op T) : t.erase.adds k op = t.adds k (op.label keep) := by
  cases op with
  | add g itm n =>
      have hret : (t.add g { item := itm, added := true } n).1 = (t.erase.add g itm n).1 :=
        (erase_updateBack t g n fun _ => rfl).1
      simp only [adds, Op.label, hret]
  | _ =>
      rfl

theorem dels_erase (keep : (T → T) → T → Bool) (t : LookupTable (Labelled T) S) (k : Nat)
    (op : Op T) : t.erase.dels k op = t.dels k (op.label keep) := by
  cases op with
  | del g n =>
      have hret : (t.del g n).1 = (t.erase.del g n).1 :=
        (erase_updateBack t g n fun _ => rfl).1
      simp only [dels, Op.label, hret]
  | _ =>
      rfl

/-! ## Deleted keys -/

/-- Whether a key counts as deleted behind a call. -/
def deletedAfter (t : LookupTable T S) (deleted : Bool) (k : Nat) : Op T → Bool
  | .clear => false
  | op => !t.adds k op && (t.dels k op || deleted)

theorem deletedAfter_erase (keep : (T → T) → T → Bool) (t : LookupTable (Labelled T) S)
    (deleted : Bool) (k : Nat) (op : Op T) :
    t.erase.deletedAfter deleted k op = t.deletedAfter deleted k (op.label keep) := by
  cases op <;> simp only [deletedAfter, adds_erase keep, dels_erase keep] <;> rfl

/-- A labelled table beside the keys whose last `Add` or `Del` that returned `OK` is a `Del`. -/
structure Tracked (T : Type u) (S : Nat) where
  table : LookupTable (Labelled T) S
  deleted : Nat → Bool

namespace Tracked

/-- `Clear`. -/
def start : Tracked T S :=
  { table := clear, deleted := fun _ => false }

def after (keep : (T → T) → T → Bool) (d : Tracked T S) (op : Op T) : Tracked T S :=
  { table := d.table.after (op.label keep)
    deleted := fun k => d.table.erase.deletedAfter (d.deleted k) k op }

/-- The labels are beside the table: without them the run is that of the plain table. -/
theorem erase_run (keep : (T → T) → T → Bool) (d : Tracked T S) (ops : List (Op T)) :
    (run (after keep) d ops).table.erase = run LookupTable.after d.table.erase ops := by
  induction ops generalizing d with
  | nil =>
      rfl
  | cons op ops ih =>
      calc
        (run (after keep) d (op :: ops)).table.erase
            = run LookupTable.after (d.table.after (op.label keep)).erase ops :=
              ih (d.after keep op)
        _ = run LookupTable.after d.table.erase (op :: ops) := by
              rw [erase_after]
              rfl

theorem deleted_after (keep : (T → T) → T → Bool) (d : Tracked T S) (op : Op T) (k : Nat) :
    (d.after keep op).deleted k = d.table.deletedAfter (d.deleted k) k (op.label keep) :=
  deletedAfter_erase keep d.table (d.deleted k) k op

/-- What `Find` shows of a deleted key holds no bytes of an `Add`. -/
def Hidden (d : Tracked T S) : Prop :=
  ∀ k < S, d.deleted k = true → ∀ x, d.table.shown k = some x → x.added = false

/-- The call brings no item with bytes of an `Add` to the front of a deleted key. -/
def Careful (keep : (T → T) → T → Bool) (d : Tracked T S) : Op T → Prop
  | .index gcnt =>
      d.deleted gcnt = true → Item.valid (d.table.slots gcnt).front ≠ statOn →
        (d.table.slots gcnt).back.added = false
  | .enumerateForUpdate func =>
      (∀ k, 1 ≤ k → k < S → d.deleted k = true → (d.table.slots k).front.added = true →
        keep func (d.table.slots k).front.item = false) ∧
      (d.deleted 0 = true → Item.valid (d.table.slots 0).back = statOn →
        (d.table.slots 0).back.added = false)
  | _ => True

theorem hidden_iff (d : Tracked T S) :
    d.Hidden ↔ ∀ k < S, d.deleted k = true → Item.valid (d.table.slots k).front = statOn →
      (d.table.slots k).front.added = false := by
  have hshown : ∀ k < S, (∀ x, d.table.shown k = some x → x.added = false) ↔
      (Item.valid (d.table.slots k).front = statOn → (d.table.slots k).front.added = false) := by
    intro k hk
    rw [shown_of_lt hk]
    by_cases hv : Item.valid (d.table.slots k).front = statOn
    · simp [hv]
    · simp [hv]
  constructor
  · exact fun h k hk hdel => (hshown k hk).1 (h k hk hdel)
  · exact fun h k hk hdel => (hshown k hk).2 (h k hk hdel)

/-- A call that leaves every deleted key that shows an item as it was. -/
theorem hidden_of_kept {d d' : Tracked T S} (hd : d.Hidden)
    (h : ∀ k < S, d'.deleted k = true → Item.valid (d'.table.slots k).front = statOn →
      d.deleted k = true ∧ d'.table.slots k = d.table.slots k) : d'.Hidden := by
  rw [hidden_iff] at hd ⊢
  intro k hk hdel hv
  rcases h k hk hdel hv with ⟨hdel₀, hslot⟩
  rw [hslot] at hv ⊢
  exact hd k hk hdel₀ hv

/-- An `Add` ends the deletion of its key. -/
theorem hidden_add (keep : (T → T) → T → Bool) {d : Tracked T S} (hd : d.Hidden) {g : Nat}
    (hg : g < S) (itm : T) (n : Int) : (d.after keep (.add g itm n)).Hidden := by
  refine hidden_of_kept hd ?_
  intro k _ hdel _
  have hslot := slots_updateBack d.table hg n
    (fun _ => Item.setValid statOn { item := itm, added := true }) k
  simp only [deleted_after, deletedAfter, Op.label, adds, dels, Bool.and_eq_true,
    Bool.not_eq_true', Bool.false_or, Bool.and_eq_false_iff, decide_eq_false_iff_not] at hdel
  refine ⟨hdel.2, hslot.trans (if_neg ?_)⟩
  rintro ⟨rfl, hok⟩
  rcases hdel.1 with hne | hfail
  · exact hne rfl
  · exact Bool.false_ne_true (hfail.symm.trans hok)

/-- A `Del` leaves its key with nothing to show. -/
theorem hidden_del (keep : (T → T) → T → Bool) {d : Tracked T S} (hd : d.Hidden) {g : Nat}
    (hg : g < S) (n : Int) : (d.after keep (.del g n)).Hidden := by
  refine hidden_of_kept hd ?_
  intro k _ hdel hv
  have hslot := slots_updateBack d.table hg n (Item.setValid statOff) k
  have hafter : (d.after keep (.del g n)).table.slots k =
      (d.table.updateBack g n (Item.setValid statOff)).2.slots k := rfl
  rw [hafter] at hv ⊢
  by_cases hpublished : g = k ∧ returnsOk (d.table.updateBack g n (Item.setValid statOff)).1 = true
  · rw [hslot, if_pos hpublished, TwoSlot.front_publish, Item.valid_setValid] at hv
    exact absurd hv (by decide)
  · rw [if_neg hpublished] at hslot
    refine ⟨?_, hslot⟩
    simp only [deleted_after, deletedAfter, Op.label, adds, dels, Bool.not_false, Bool.true_and,
      Bool.or_eq_true, Bool.and_eq_true, decide_eq_true_iff] at hdel
    exact hdel.resolve_left hpublished

/-- `operator[]` shows what its key has hidden, unless the key is shown already. -/
theorem hidden_index (keep : (T → T) → T → Bool) {d : Tracked T S} (hd : d.Hidden) {g : Nat}
    (hg : g < S) : (d.after keep (.index g)).Hidden ↔ d.Careful keep (.index g) := by
  have hslot : ∀ k, (d.after keep (.index g)).table.slots k = _ := slots_index d.table hg
  have hdel : (d.after keep (.index g)).deleted = d.deleted := by
    funext k
    simp [deleted_after, deletedAfter, Op.label, adds, dels]
  rw [hidden_iff] at hd
  rw [hidden_iff, hdel]
  constructor
  · intro h hdeleted hv
    have hfront := h g hg hdeleted
    rw [hslot, if_pos rfl, if_neg hv, TwoSlot.front_flip, TwoSlot.back_set] at hfront
    simpa using hfront (Item.valid_setValid _ _)
  · intro hcareful k hk hdeleted hv
    rw [hslot] at hv ⊢
    by_cases hgk : g = k
    · subst hgk
      rw [if_pos rfl] at hv ⊢
      by_cases hfront : Item.valid (d.table.slots g).front = statOn
      · rw [if_pos hfront, TwoSlot.front_set]
        exact hd g hk hdeleted hfront
      · rw [if_neg hfront, TwoSlot.front_flip, TwoSlot.back_set]
        exact hcareful hdeleted hfront
    · rw [if_neg hgk] at hv ⊢
      exact hd k hk hdeleted hv

/-- The bulk update shows the callback's copy of the marked item, and of key 0 what it has
hidden. -/
theorem hidden_enumerateForUpdate (hS : 0 < S) (h64 : 64 ∣ S) (keep : (T → T) → T → Bool)
    {d : Tracked T S} (func : T → T) :
    (d.after keep (.enumerateForUpdate func)).Hidden ↔
      d.Careful keep (.enumerateForUpdate func) := by
  have hslot : ∀ k < S, (d.after keep (.enumerateForUpdate func)).table.slots k = _ :=
    fun k hk => slots_enumerateForUpdate h64 d.table _ hk
  have hdel : (d.after keep (.enumerateForUpdate func)).deleted = d.deleted := by
    funext k
    simp [deleted_after, deletedAfter, Op.label, adds, dels]
  rw [hidden_iff, hdel]
  constructor
  · intro h
    refine ⟨?_, ?_⟩
    · intro k hpos hk hdeleted hadded
      have hfront := h k hk hdeleted
      rw [hslot k hk, if_neg (Nat.one_le_iff_ne_zero.1 hpos), TwoSlot.front_flip,
        TwoSlot.back_prepare, enumerated] at hfront
      simpa [hadded] using hfront (Item.valid_setValid _ _)
    · intro hdeleted hv
      have hfront := h 0 hS hdeleted
      rw [hslot 0 hS, if_pos rfl, TwoSlot.front_flip] at hfront
      exact hfront hv
  · rintro ⟨hrest, hzero⟩ k hk hdeleted hv
    rw [hslot k hk] at hv ⊢
    by_cases hk0 : k = 0
    · subst hk0
      rw [if_pos rfl, TwoSlot.front_flip] at hv ⊢
      exact hzero hdeleted hv
    · rw [if_neg hk0, TwoSlot.front_flip, TwoSlot.back_prepare, enumerated,
        Labelled.added_setValid]
      cases hadded : (d.table.slots k).front.added
      · rfl
      · exact hrest k (Nat.one_le_iff_ne_zero.2 hk0) hk hdeleted hadded

theorem hidden_start : (start : Tracked T S).Hidden :=
  fun _ _ hdel => absurd hdel Bool.false_ne_true

theorem hidden_after_iff (hS : 0 < S) (h64 : 64 ∣ S) (keep : (T → T) → T → Bool)
    {d : Tracked T S} (hd : d.Hidden) {op : Op T} (hop : op.KeyBelow S) :
    (d.after keep op).Hidden ↔ d.Careful keep op := by
  -- Clocks, searches and notices touch no item.
  have hidle : ∀ d' : Tracked T S, d'.deleted = d.deleted → d'.table.slots = d.table.slots →
      (d'.Hidden ↔ True) := by
    intro d' hdel hslot
    refine iff_of_true (hidden_of_kept hd ?_) trivial
    intro k _ hdeleted _
    exact ⟨hdel ▸ hdeleted, by rw [hslot]⟩
  have hkept : ∀ op : Op T, (∀ k, d.table.erase.adds k op = false) →
      (∀ k, d.table.erase.dels k op = false) → op ≠ .clear →
      (d.after keep op).deleted = d.deleted := by
    intro op hadds hdels hclear
    funext k
    cases op with
    | clear =>
        exact absurd rfl hclear
    | _ =>
        simp [Tracked.after, deletedAfter, hadds k, hdels k]
  cases op with
  | clock =>
      exact hidle _ (hkept .clock (fun _ => rfl) (fun _ => rfl) (by simp)) rfl
  | clear =>
      exact iff_of_true (fun _ _ hdel => absurd hdel Bool.false_ne_true) trivial
  | find g flag =>
      exact hidle _ (hkept (.find g flag) (fun _ => rfl) (fun _ => rfl) (by simp)) rfl
  | findNoticeBmp64 g =>
      exact hidle _ (hkept (.findNoticeBmp64 g) (fun _ => rfl) (fun _ => rfl) (by simp)) rfl
  | clearNoticeBmp64 g =>
      refine hidle _ (hkept (.clearNoticeBmp64 g) (fun _ => rfl) (fun _ => rfl) (by simp)) ?_
      simp only [Tracked.after, Op.label, LookupTable.after, clearNoticeBmp64]
      split <;> rfl
  | index g =>
      exact hidden_index keep hd hop
  | enumerateForUpdate func =>
      exact hidden_enumerateForUpdate hS h64 keep func
  | add g itm n =>
      exact iff_of_true (hidden_add keep hd hop itm n) trivial
  | del g n =>
      exact iff_of_true (hidden_del keep hd hop n) trivial

end Tracked

open Tracked

/-- In a run from `Clear` no deleted key shows bytes of an `Add`, in any state, exactly when no
call of `operator[]` or `EnumerateForUpdate` finds such bytes on the side it brings to the front. -/
theorem deletedHidden_iff (hS : 0 < S) (h64 : 64 ∣ S) (keep : (T → T) → T → Bool)
    {ops : List (Op T)} (hops : ∀ op ∈ ops, op.KeyBelow S) :
    (∀ past, past <+: ops → (run (Tracked.after keep) (start : Tracked T S) past).Hidden) ↔
      Along (Tracked.after keep) (Careful keep) (start : Tracked T S) ops := by
  refine forall_prefix_iff_along (I := fun _ => True) (fun _ _ _ _ => trivial) ?_ trivial
    hidden_start hops
  intro d op _ hd hop
  exact hidden_after_iff hS h64 keep hd hop

/-- Keys 1 and 2 are added, key 2 is deleted, and key 1 is looked up. -/
theorem deletedHidden_index_1 :
    (∀ op ∈ [Op.add 1 ((0, 7) : ValidBit × Nat) 0, .add 2 (0, 8) 0, .del 2 0, .index 1],
      op.KeyBelow 64) ∧
    ∀ past, past <+: [Op.add 1 (0, 7) 0, .add 2 (0, 8) 0, .del 2 0, .index 1] →
      (run (Tracked.after fun _ _ => true)
        (start : Tracked (ValidBit × Nat) 64) past).Hidden := by
  have hbelow : ∀ op ∈ [Op.add 1 ((0, 7) : ValidBit × Nat) 0, .add 2 (0, 8) 0, .del 2 0,
      .index 1], op.KeyBelow 64 := by simp [Op.KeyBelow]
  refine ⟨hbelow, (deletedHidden_iff (by decide) (by decide) _ hbelow).2 ?_⟩
  refine ⟨trivial, trivial, trivial, ?_, trivial⟩
  intro hdeleted
  exact absurd hdeleted (by decide)

/-- `Add(5, 7)` and `Del(5)`: key 5 shows nothing, and `operator[](5)` shows the 7 again. -/
theorem index_5_shows_deleted :
    (run after (clear : LookupTable (ValidBit × Nat) 64)
        [.add 5 (0, 7) 0, .del 5 0]).shown 5 = none ∧
      (run after (clear : LookupTable (ValidBit × Nat) 64)
        [.add 5 (0, 7) 0, .del 5 0, .index 5]).shown 5 = some (0, 7) ∧
      ¬ ∀ ops : List (Op (ValidBit × Nat)), (∀ op ∈ ops, op.KeyBelow 64) →
        (run (Tracked.after fun _ _ => true)
          (start : Tracked (ValidBit × Nat) 64) ops).Hidden := by
  refine ⟨by decide, by decide, ?_⟩
  intro hall
  have hhidden := hall [.add 5 (0, 7) 0, .del 5 0, .index 5] (by simp [Op.KeyBelow]) 5 (by decide)
    (by decide) { item := (0, 7), added := true } (by decide)
  exact Bool.false_ne_true hhidden.symm

end LookupTable
end Table
end NmMemcached
