import NmMemcached.Table.Behaviour

/-!
# Isolation — keys do not disturb each other

Sixty-four keys share a word of each bitmap, and one flip of `EnumerateForUpdate` turns a whole
word.  Still, what the calls on a key answer about its item depends on the calls on that key and on
those for the whole table only (`isolated`), as long as the updates do not ask the clock: a gated
update of any key uses up the tick of all.
-/

namespace NmMemcached
namespace Table

open Lib

universe u

namespace LookupTable

variable {T : Type u}

/-- The use is about the item of the key, or about all items. -/
def Use.concerns (k : Nat) : Use T → Bool
  | .call .clock => false
  | .call .clear => true
  | .call (.find gcnt _) => decide (gcnt = k)
  | .call (.findNoticeBmp64 _) => false
  | .call (.clearNoticeBmp64 _) => false
  | .call (.index gcnt) => decide (gcnt = k)
  | .call (.enumerateForUpdate _) => true
  | .call (.add gcnt _ _) => decide (gcnt = k)
  | .call (.del gcnt _) => decide (gcnt = k)
  | .assign gcnt _ => decide (gcnt = k)
  | .swapSide gcnt => decide (gcnt = k)
  | .notifyChange _ => false

/-- An update does not look at the clock. -/
def Use.Ungated : Use T → Prop
  | .call (.add _ _ n) => n = 0
  | .call (.del _ n) => n = 0
  | _ => True

end LookupTable

namespace Board

open LookupTable

variable {T : Type u} {S : Nat} {b d : Board T} {k : Nat}

/-- The boards have the same items for the key. -/
def SameItems (k : Nat) (b d : Board T) : Prop :=
  (b.cells k).shown = (d.cells k).shown ∧ (b.cells k).hidden = (d.cells k).hidden

theorem sameItems_modify (h : SameItems k b d) (g : Nat) {f : Cell T → Cell T}
    (hf : ∀ c e : Cell T, c.shown = e.shown → c.hidden = e.hidden →
      (f c).shown = (f e).shown ∧ (f c).hidden = (f e).hidden) :
    SameItems k (b.modify g f) (d.modify g f) := by
  by_cases hk : k = g
  · subst hk
    rw [SameItems, cells_modify_self, cells_modify_self]
    exact hf _ _ h.1 h.2
  · rw [SameItems, cells_modify_of_ne hk, cells_modify_of_ne hk]
    exact h

theorem sameItems_modify_of_ne (h : SameItems k b d) {g : Nat} (hg : g ≠ k)
    (f : Cell T → Cell T) : SameItems k (b.modify g f) d := by
  rw [SameItems, cells_modify_of_ne (Ne.symm hg)]
  exact h

/-- A write to the notice of a key is none to its items. -/
theorem sameItems_notify (h : SameItems k b d) (g : Nat) : SameItems k (b.modify g .notify) d := by
  by_cases hk : k = g
  · subst hk
    rw [SameItems, cells_modify_self]
    exact h
  · exact sameItems_modify_of_ne h (Ne.symm hk) _

theorem update_ungated (S : Nat) (b : Board T) (g : Nat) (f : T → T) :
    b.update S g 0 f =
      if g < S then (.ok ok, b.modify g (Cell.publish f))
      else (.error "exception not found(add_link).", b) := by
  have hsame : ({ b with ticked := b.ticked && decide ((0 : Int) = 0) } : Board T) = b := by
    rw [decide_eq_true rfl, Bool.and_true]
  rw [update, if_neg (fun hno => hno.1 rfl)]
  dsimp only
  rw [hsame]

theorem sameItems_update (h : SameItems k b d) (g : Nat) (f : T → T) :
    (b.update S g 0 f).1 = (d.update S g 0 f).1 ∧
      SameItems k (b.update S g 0 f).2 (d.update S g 0 f).2 := by
  rw [update_ungated, update_ungated]
  by_cases hg : g < S
  · rw [if_pos hg, if_pos hg]
    exact ⟨rfl, sameItems_modify h g fun c e hs hh => ⟨congrArg f hh, hs⟩⟩
  · rw [if_neg hg, if_neg hg]
    exact ⟨rfl, h⟩

variable [Item T]

theorem expose_congr {c e : Cell T} (hs : c.shown = e.shown) (hh : c.hidden = e.hidden) :
    c.expose.shown = e.expose.shown ∧ c.expose.hidden = e.expose.hidden := by
  unfold Cell.expose
  rw [hs, hh]
  split <;> exact ⟨rfl, rfl⟩

theorem sameItems_assign (h : SameItems k b d) (f : T → T) :
    (b.assign S k f).1 = (d.assign S k f).1 ∧
      SameItems k (b.assign S k f).2 (d.assign S k f).2 := by
  rw [assign, assign]
  by_cases hk : k < S
  · rw [if_pos hk, if_pos hk]
    refine ⟨congrArg Except.ok (expose_congr h.1 h.2).1, sameItems_modify h k fun c e hs hh => ?_⟩
    exact ⟨congrArg f (expose_congr hs hh).1, (expose_congr hs hh).2⟩
  · rw [if_neg hk, if_neg hk]
    exact ⟨rfl, h⟩

/-- What concerns the key answers the same on both boards. -/
theorem use_of_concerns (h : SameItems k b d) {u : Use T} (hungated : u.Ungated)
    (hu : u.concerns k = true) :
    b.answer S u = d.answer S u ∧ SameItems k (b.use S u) (d.use S u) := by
  have hkey : ∀ {g : Nat}, decide (g = k) = true → g = k := of_decide_eq_true
  cases u with
  | call op =>
      cases op with
      | clear => exact ⟨rfl, rfl, rfl⟩
      | find g flag =>
          obtain rfl := hkey hu
          rw [answer, answer, h.1, h.2]
          exact ⟨rfl, h⟩
      | index g =>
          obtain rfl := hkey hu
          rcases sameItems_assign h id with ⟨hanswer, hafter⟩
          exact ⟨congrArg Answer.reference hanswer, hafter⟩
      | enumerateForUpdate f =>
          have hcell : ∀ b : Board T, (b.use S (.call (.enumerateForUpdate f))).cells k =
              if k = 0 then (b.cells k).flip else (b.cells k).renew f := fun _ => rfl
          refine ⟨rfl, ?_⟩
          rw [SameItems, hcell, hcell]
          split
          · exact ⟨h.2, h.1⟩
          · exact ⟨congrArg (fun x => Item.setValid statOn (f x)) h.1, h.1⟩
      | add g itm n =>
          obtain rfl : n = 0 := hungated
          rcases sameItems_update h g fun _ => Item.setValid statOn itm with ⟨hanswer, hafter⟩
          exact ⟨congrArg Answer.code hanswer, hafter⟩
      | del g n =>
          obtain rfl : n = 0 := hungated
          rcases sameItems_update h g (Item.setValid statOff) with ⟨hanswer, hafter⟩
          exact ⟨congrArg Answer.code hanswer, hafter⟩
      | _ => cases hu
  | assign g f =>
      obtain rfl := hkey hu
      rcases sameItems_assign h f with ⟨hanswer, hafter⟩
      exact ⟨congrArg Answer.reference hanswer, hafter⟩
  | swapSide g => exact ⟨rfl, sameItems_modify h g fun c e hs hh => ⟨hh, hs⟩⟩
  | notifyChange g => cases hu

/-- What does not concern the key leaves its items alone. -/
theorem use_of_not_concerns (h : SameItems k b d) {u : Use T} (hungated : u.Ungated)
    (hu : u.concerns k = false) : SameItems k (b.use S u) d := by
  have hkey : ∀ {g : Nat}, decide (g = k) = false → g ≠ k := of_decide_eq_false
  have hassign : ∀ (g : Nat) (f : T → T), g ≠ k → SameItems k (b.assign S g f).2 d := by
    intro g f hg
    unfold assign
    split
    · exact sameItems_modify_of_ne h hg _
    · exact h
  have hupdate : ∀ (g : Nat) (f : T → T), g ≠ k → SameItems k (b.update S g 0 f).2 d := by
    intro g f hg
    rw [update_ungated]
    split
    · exact sameItems_modify_of_ne h hg _
    · exact h
  cases u with
  | call op =>
      cases op with
      | clock => exact h
      | clear => cases hu
      | find g flag => exact h
      | findNoticeBmp64 g => exact h
      | clearNoticeBmp64 g =>
          have hkept : SameItems k (b.use S (.call (.clearNoticeBmp64 g))) b := by
            by_cases hg : g < S
            · have hcell : (b.use S (.call (.clearNoticeBmp64 g))).cells k =
                  if k / 64 = g / 64 then { b.cells k with noticed := false } else b.cells k :=
                congrArg (fun d : Board T => d.cells k) (if_pos hg)
              rw [SameItems, hcell, apply_ite Cell.shown, ite_self, apply_ite Cell.hidden, ite_self]
              exact ⟨rfl, rfl⟩
            · have hsame : b.use S (.call (.clearNoticeBmp64 g)) = b := if_neg hg
              rw [hsame]
              exact ⟨rfl, rfl⟩
          exact ⟨hkept.1.trans h.1, hkept.2.trans h.2⟩
      | index g => exact hassign g id (hkey hu)
      | enumerateForUpdate f => cases hu
      | add g itm n =>
          obtain rfl : n = 0 := hungated
          exact hupdate g _ (hkey hu)
      | del g n =>
          obtain rfl : n = 0 := hungated
          exact hupdate g _ (hkey hu)
  | assign g f => exact hassign g f (hkey hu)
  | swapSide g => exact sameItems_modify_of_ne h (hkey hu) _
  | notifyChange g => exact sameItems_notify h g

end Board

namespace LookupTable

variable {T : Type u} {S : Nat} [Item T]

/-- What is answered about the item of a key is what would be answered without the calls on other
keys. -/
theorem isolated (hS : 0 < S) (h64 : 64 ∣ S) {us : List (Use T)} (hinside : ∀ u ∈ us, u.Inside S)
    (hclocks : us.countP Use.isClock < 2 ^ 64) (hungated : ∀ u ∈ us, u.Ungated) (k : Nat) :
    labelsAt use answer (Use.concerns k) (clear : LookupTable T S) us =
      labels use answer (clear : LookupTable T S) (us.filter (Use.concerns k)) := by
  have hfilter : ∀ u ∈ us.filter (Use.concerns k), u.Inside S :=
    fun u hu => hinside u (List.mem_filter.1 hu).1
  have hfewer : (us.filter (Use.concerns k)).countP Use.isClock < 2 ^ 64 :=
    Nat.lt_of_le_of_lt (List.filter_sublist.countP_le) hclocks
  have hall := labels_of_matches hS h64 (matches_clear (T := T)) hinside (room_clear hclocks)
  have hsome := labels_of_matches hS h64 (matches_clear (T := T)) hfilter (room_clear hfewer)
  have hseen : ∀ (b d : Board T) (u : Use T), Board.SameItems k b d → u.Ungated →
      u.concerns k = true → b.answer S u = d.answer S u ∧
        Board.SameItems k (b.use S u) (d.use S u) :=
    fun _ _ _ h hu hconcerns => Board.use_of_concerns h hu hconcerns
  have hunseen : ∀ (b d : Board T) (u : Use T), Board.SameItems k b d → u.Ungated →
      u.concerns k = false → Board.SameItems k (b.use S u) d :=
    fun _ _ _ h hu hconcerns => Board.use_of_not_concerns h hu hconcerns
  -- Both runs are runs of the board now.
  rw [hsome, labelsAt, hall]
  exact labelsAt_eq_filter hseen hunseen ⟨rfl, rfl⟩ hungated

/-- Calls on two keys of one word. -/
def twoKeys : List (Use (ValidBit × Nat)) :=
  [.call (.add 5 (0, 7) 0), .call (.add 6 (0, 8) 0), .call (.find 5 0), .call (.del 6 0),
    .call (.enumerateForUpdate fun x => (x.1, x.2 + 1)), .call (.find 5 0), .call (.find 6 1)]

theorem isolated_twoKeys :
    labelsAt use answer (Use.concerns 5) (clear : LookupTable (ValidBit × Nat) 64) twoKeys =
      labels use answer (clear : LookupTable (ValidBit × Nat) 64)
        (twoKeys.filter (Use.concerns 5)) := by
  refine isolated (by decide) (by decide) ?_ (by decide) ?_ 5
  · simp only [twoKeys, List.forall_mem_cons]
    exact ⟨trivial, trivial, trivial, trivial, trivial, trivial, trivial, nofun⟩
  · simp only [twoKeys, List.forall_mem_cons]
    exact ⟨rfl, rfl, trivial, rfl, trivial, trivial, trivial, nofun⟩

end LookupTable
end Table
end NmMemcached
