import Mathlib.Logic.Function.Basic
import NmMemcached.Lib.Runs

/-!
# TwoSlot — double-buffered registers

A register with two slots, one of them *current*.  Readers look at the current slot, a writer
prepares the other one and then flips.  This file gives

* the register and its only update, `publish`;
* what a reader that holds a slot sees: the slot it took stays as it is through one `publish`
  (`slot_publish_cur`) and is the target of the next;
* families of registers indexed by keys (`publishAt`), where an update of one key is invisible
  at every other;
* the same update in two steps, `prepare` and `flip`, for many keys at once
  (`foldl_update_apply`).
-/

namespace NmMemcached
namespace Lib

universe u v w

/-- Two slots and the index of the current one. -/
@[ext]
structure TwoSlot (α : Type u) where
  slot : Bool → α
  cur : Bool

namespace TwoSlot

variable {α : Type u}

/-- What a reader sees. -/
def front (c : TwoSlot α) : α := c.slot c.cur

/-- What the next update is made of. -/
def back (c : TwoSlot α) : α := c.slot (!c.cur)

/-- Rewrite the hidden slot with `f`, then make it current. -/
def publish (f : α → α) (c : TwoSlot α) : TwoSlot α :=
  { slot := Function.update c.slot (!c.cur) (f c.back)
    cur := !c.cur }

@[simp] theorem cur_publish (f : α → α) (c : TwoSlot α) : (c.publish f).cur = !c.cur := rfl

@[simp] theorem front_publish (f : α → α) (c : TwoSlot α) : (c.publish f).front = f c.back := by
  simp [front, publish]

/-- A slot other than the hidden one is left alone. -/
theorem slot_publish_of_ne {f : α → α} {c : TwoSlot α} {b : Bool} (h : b ≠ !c.cur) :
    (c.publish f).slot b = c.slot b := by
  simp [publish, Function.update_of_ne h]

/-- A reader that took the current slot is not disturbed by the next update. -/
@[simp] theorem slot_publish_cur (f : α → α) (c : TwoSlot α) :
    (c.publish f).slot c.cur = c.slot c.cur :=
  slot_publish_of_ne (by simp)

/-- The slot an update rewrites holds `f` of what it held. -/
@[simp] theorem slot_publish_not_cur (f : α → α) (c : TwoSlot α) :
    (c.publish f).slot (!c.cur) = f (c.slot (!c.cur)) := by
  simp [publish, back]

@[simp] theorem back_publish (f : α → α) (c : TwoSlot α) : (c.publish f).back = c.front := by
  simp [back, front]

/-! ## The parts of an update -/

/-- Write one slot. -/
def set (b : Bool) (x : α) (c : TwoSlot α) : TwoSlot α :=
  { c with slot := Function.update c.slot b x }

/-- Write `f` of the current slot into the hidden one; nothing is shown yet. -/
def prepare (f : α → α) (c : TwoSlot α) : TwoSlot α :=
  c.set (!c.cur) (f c.front)

/-- Show the hidden slot as it is. -/
def flip (c : TwoSlot α) : TwoSlot α :=
  { c with cur := !c.cur }

theorem publish_eq (f : α → α) (c : TwoSlot α) : c.publish f = (c.set (!c.cur) (f c.back)).flip :=
  rfl

@[simp] theorem front_set (c : TwoSlot α) (x : α) : (c.set c.cur x).front = x := by
  simp [front, set]

@[simp] theorem back_set (c : TwoSlot α) (x : α) : (c.set (!c.cur) x).back = x := by
  simp [back, set]

@[simp] theorem front_flip (c : TwoSlot α) : c.flip.front = c.back := rfl

@[simp] theorem back_flip (c : TwoSlot α) : c.flip.back = c.front := by
  simp [back, front, flip]

@[simp] theorem front_prepare (f : α → α) (c : TwoSlot α) : (c.prepare f).front = c.front := by
  simp [front, prepare, set]

@[simp] theorem back_prepare (f : α → α) (c : TwoSlot α) : (c.prepare f).back = f c.front := by
  simp [back, prepare, set]

/-! ## Related registers -/

/-- Two registers in step: the same slot is current and the slots are related one by one. -/
def Rel {β : Type v} (R : α → β → Prop) (c : TwoSlot α) (d : TwoSlot β) : Prop :=
  c.cur = d.cur ∧ ∀ b, R (c.slot b) (d.slot b)

/-- Related writes keep registers in step. -/
theorem rel_publish {β : Type v} {R : α → β → Prop} {f : α → α} {g : β → β}
    (hfg : ∀ x y, R x y → R (f x) (g y)) {c : TwoSlot α} {d : TwoSlot β} (h : Rel R c d) :
    Rel R (c.publish f) (d.publish g) := by
  refine ⟨by simp [h.1], ?_⟩
  intro b
  -- The same slot is hidden on both sides, so both rewrite the same one.
  by_cases hb : b = !c.cur
  · subst hb
    have hd : (d.publish g).slot (!c.cur) = g (d.slot (!c.cur)) := by
      rw [h.1]
      exact slot_publish_not_cur g d
    rw [slot_publish_not_cur, hd]
    exact hfg _ _ (h.2 _)
  · have hd : b ≠ !d.cur := by simpa [h.1] using hb
    rw [slot_publish_of_ne hb, slot_publish_of_ne hd]
    exact h.2 b

/-! ## Families of registers -/

section Family

variable {κ : Type v} [DecidableEq κ]

/-- Update the register of one key. -/
def publishAt (k : κ) (f : α → α) (s : κ → TwoSlot α) : κ → TwoSlot α :=
  Function.update s k ((s k).publish f)

@[simp] theorem publishAt_same (k : κ) (f : α → α) (s : κ → TwoSlot α) :
    publishAt k f s k = (s k).publish f := by
  simp [publishAt]

theorem publishAt_of_ne {k j : κ} (h : j ≠ k) (f : α → α) (s : κ → TwoSlot α) :
    publishAt k f s j = s j := by
  simp [publishAt, Function.update_of_ne h]

/-- The slot that is current at `j` survives one update of any key. -/
theorem slot_publishAt_cur (k j : κ) (f : α → α) (s : κ → TwoSlot α) :
    (publishAt k f s j).slot (s j).cur = (s j).slot (s j).cur := by
  by_cases h : j = k
  · subst h
    simp
  · rw [publishAt_of_ne h]

/-- What every slot satisfies and the write keeps, every slot satisfies afterwards. -/
theorem forall_slot_publishAt {P : α → Prop} {f : α → α} (hf : ∀ x, P x → P (f x))
    {s : κ → TwoSlot α} (h : ∀ j b, P ((s j).slot b)) (k j : κ) (b : Bool) :
    P ((publishAt k f s j).slot b) := by
  by_cases hj : j = k
  · subst hj
    by_cases hb : b = !(s j).cur
    · subst hb
      simpa using hf _ (h j _)
    · simpa [slot_publish_of_ne hb] using h j b
  · simpa [publishAt_of_ne hj] using h j b

theorem rel_publishAt {β : Type w} {R : α → β → Prop} {f : α → α} {g : β → β}
    (hfg : ∀ x y, R x y → R (f x) (g y)) {s : κ → TwoSlot α} {t : κ → TwoSlot β}
    (h : ∀ j, Rel R (s j) (t j)) (k j : κ) : Rel R (publishAt k f s j) (publishAt k g t j) := by
  by_cases hj : j = k
  · subst hj
    simpa using rel_publish hfg (h j)
  · simpa [publishAt_of_ne hj] using h j

/-- A loop over different keys that rewrites the entry of each. -/
theorem foldl_update_apply {β : Type w} (g : β → β) {ks : List κ} (hks : ks.Nodup) (s : κ → β)
    (k : κ) :
    ks.foldl (fun s k => Function.update s k (g (s k))) s k = if k ∈ ks then g (s k) else s k := by
  induction ks generalizing s with
  | nil =>
      rfl
  | cons j js ih =>
      rcases List.nodup_cons.1 hks with ⟨hj, hjs⟩
      rw [List.foldl_cons, ih hjs]
      by_cases hk : k = j
      · subst hk
        simp [hj]
      · simp [hk]

/-! ## Runs of keyed updates

An event names a key and how it rewrites the hidden slot of that key.
-/

variable {ε : Type w} (key : ε → κ) (write : ε → α → α)

/-- The family after one event. -/
def updateOn (s : κ → TwoSlot α) (e : ε) : κ → TwoSlot α :=
  publishAt (key e) (write e) s

/-- A key no event names keeps its register. -/
theorem run_updateOn_of_none {k : κ} {es : List ε} {s : κ → TwoSlot α}
    (h : lastOn (fun e => decide (key e = k)) es = none) :
    run (updateOn key write) s es k = s k := by
  have hne : ∀ e ∈ es, key e ≠ k := by
    simpa using lastOn_eq_none.1 h
  clear h
  induction es generalizing s with
  | nil =>
      rfl
  | cons e es ih =>
      have hhead : k ≠ key e := fun hk => hne e (by simp) hk.symm
      have htail : ∀ e' ∈ es, key e' ≠ k := fun e' he' => hne e' (List.mem_cons_of_mem _ he')
      calc
        run (updateOn key write) s (e :: es) k
            = updateOn key write s e k := ih htail
        _ = s k := publishAt_of_ne hhead _ _

/-- The front of a key is made by the last event that names it, whatever came before. -/
theorem front_run_updateOn_of_some {k : κ} {es : List ε} {s : κ → TwoSlot α} {e : ε}
    (h : lastOn (fun e => decide (key e = k)) es = some e) :
    ∃ x, (run (updateOn key write) s es k).front = write e x := by
  induction es using List.reverseRecOn with
  | nil =>
      simp at h
  | append_singleton es f ih =>
      -- The last event names the key, or it leaves the register of the key alone.
      by_cases hf : key f = k
      · have hfe : f = e := by
          simpa [hf] using h
        subst hfe
        subst hf
        exact ⟨(run (updateOn key write) s es (key f)).back, by simp [updateOn]⟩
      · have hlast : lastOn (fun e => decide (key e = k)) es = some e := by
          simpa [hf] using h
        rcases ih hlast with ⟨x, hx⟩
        refine ⟨x, ?_⟩
        have hne : k ≠ key f := fun hk => hf hk.symm
        simpa [updateOn, publishAt_of_ne hne] using hx

end Family

end TwoSlot

end Lib
end NmMemcached
