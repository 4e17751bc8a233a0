import NmMemcached.Table.ClockGate

/-!
# Atomicity — calls of `Add` and `Del` that fail

A call fails in one of two ways: the gate refuses it, or its key is not in the table and `Find`
ends at `End()`.  The gate is asked first, and a gated call that passes has used up its tick before
its key is looked at; so a gated call with a key out of range closes the gate for the next one
(`failsCleanly_iff`).
-/

namespace NmMemcached
namespace Table
namespace LookupTable

open Lib

universe u

variable {T : Type u} {S : Nat} [Item T]

/-! ## The two failures -/

/-- A key out of range: the tick is gone, whatever the call was for. -/
theorem updateBack_of_le {t : LookupTable T S} {n : Int} (hopen : t.GateOpen n) (hS : 0 < S)
    {k : Nat} (hk : S ≤ k) (f : T → T) :
    t.updateBack k n f = (.error "exception not found(add_link).", t.passGate n) := by
  rw [updateBack_of_open hopen, find_of_le hS hk, if_pos rfl]

/-- In range a call is refused, or it returns `OK`. -/
theorem updateBack_ok_or_err (t : LookupTable T S) {k : Nat} (hk : k < S) (n : Int) (f : T → T) :
    (t.updateBack k n f).1 = .ok ok ∨ t.updateBack k n f = (.ok err, t) := by
  rcases updateBack_cases t hk n f with ⟨_, hret⟩ | ⟨_, hok, _⟩
  · exact Or.inr hret
  · exact Or.inl hok

/-! ## Calls -/

/-- Unless the update returns `OK`, nothing in the table changes. -/
def FailsCleanly (t : LookupTable T S) (c : Call T) : Prop :=
  c.IsUpdate → (c.exec t).1 ≠ .code (.ok ok) → t.next c = t

/-- A gated update passes the gate with a key that the table does not have. -/
def Call.WastesTick (t : LookupTable T S) : Call T → Prop
  | .clock => False
  | .find _ => False
  | .add gcnt _ nochkCounter => nochkCounter ≠ 0 ∧ t.GateOpen nochkCounter ∧ S ≤ gcnt
  | .del gcnt nochkCounter => nochkCounter ≠ 0 ∧ t.GateOpen nochkCounter ∧ S ≤ gcnt

theorem updateBack_clean_iff (t : LookupTable T S) (hS : 0 < S) (k : Nat) (n : Int) (f : T → T) :
    ((t.updateBack k n f).1 ≠ .ok ok → (t.updateBack k n f).2 = t) ↔
      ¬ (n ≠ 0 ∧ t.GateOpen n ∧ S ≤ k) := by
  by_cases hopen : t.GateOpen n
  · by_cases hk : k < S
    · have hin : ¬ (n ≠ 0 ∧ t.GateOpen n ∧ S ≤ k) := fun h => absurd hk (Nat.not_lt.2 h.2.2)
      refine iff_of_true ?_ hin
      rcases updateBack_ok_or_err t hk n f with hok | herr
      · exact fun hno => absurd hok hno
      · intro _
        rw [herr]
    · have hle : S ≤ k := Nat.le_of_not_lt hk
      have hthrow := updateBack_of_le hopen hS hle f
      have hne : (t.updateBack k n f).1 ≠ .ok ok := by
        rw [hthrow]
        simp
      by_cases hn : n = 0
      · refine iff_of_true ?_ (fun h => h.1 hn)
        intro _
        rw [hthrow, hn]
        rfl
      · refine iff_of_false ?_ (not_not.2 ⟨hn, hopen, hle⟩)
        intro hclean
        -- An open gate means the two counters differ, and they are equal after the call.
        have hsame := congrArg virtualClockCounterPrv (hclean hne)
        rw [hthrow, passGate_eq] at hsame
        simp only [ne_eq, hn, not_false_eq_true, if_true] at hsame
        exact absurd (hopen hn) (by rw [hsame]; exact BitVec.lt_irrefl _)
  · refine iff_of_true ?_ (fun h => hopen h.2.1)
    intro _
    rw [updateBack_of_closed hopen]

/-- A call that does not return `OK` leaves the table as it was, both sides, the two bitmaps and
both counters, unless it is a gated call that passes the gate with a key out of range. -/
theorem failsCleanly_iff (hS : 0 < S) (t : LookupTable T S) (c : Call T) :
    t.FailsCleanly c ↔ ¬ c.WastesTick t := by
  -- `Add` and `Del` differ in what they would have written only.
  have hupdate : ∀ (k : Nat) (n : Int) (f : T → T), c.IsUpdate →
      c.exec t = (.code (t.updateBack k n f).1, (t.updateBack k n f).2) →
      (t.FailsCleanly c ↔ ¬ (n ≠ 0 ∧ t.GateOpen n ∧ S ≤ k)) := by
    intro k n f hup hexec
    rw [← updateBack_clean_iff t hS k n f, FailsCleanly, next, hexec]
    simp only [hup, forall_const, ne_eq, Ret.code.injEq]
  cases c with
  | clock =>
      exact iff_of_true (fun hup => absurd hup not_false) not_false
  | find k =>
      exact iff_of_true (fun hup => absurd hup not_false) not_false
  | add k itm n =>
      exact hupdate k n _ trivial rfl
  | del k n =>
      exact hupdate k n _ trivial rfl

/-- A refused `Add` on a table that was just cleared. -/
theorem failsCleanly_refused_add :
    (clear : LookupTable (ValidBit × Nat) 64).FailsCleanly (.add 5 (0, 7) 1) :=
  (failsCleanly_iff (by decide) _ _).2 (by simp [Call.WastesTick, GateOpen, clear])

/-- After one `Clock`, a gated `Del` of the key 64 throws and uses up the tick: the gated `Add` of
the key 5 that follows is refused, and without the `Del` it would have been accepted. -/
theorem del_64_wastes_tick :
    ((Call.del 64 1).exec (clear : LookupTable (ValidBit × Nat) 64).clock).1 =
        .code (.error "exception not found(add_link).") ∧
      (clear : LookupTable (ValidBit × Nat) 64).clock.next (.del 64 1) ≠ clear.clock ∧
      (Call.add 5 (0, 7) 1).accepted
        ((clear : LookupTable (ValidBit × Nat) 64).clock.next (.del 64 1)) = false ∧
      (Call.add 5 (0, 7) 1).accepted (clear : LookupTable (ValidBit × Nat) 64).clock = true ∧
      ¬ ∀ (t : LookupTable (ValidBit × Nat) 64) c, t.FailsCleanly c := by
  have hopen : (clear : LookupTable (ValidBit × Nat) 64).clock.GateOpen 1 := fun _ => by decide
  have hthrow := updateBack_of_le hopen (by decide) (Nat.le_refl 64) (Item.setValid statOff)
  have hret : ((Call.del 64 1).exec (clear : LookupTable (ValidBit × Nat) 64).clock).1 =
      .code (.error "exception not found(add_link).") :=
    congrArg Ret.code (congrArg Prod.fst hthrow)
  have hprv : ((clear : LookupTable (ValidBit × Nat) 64).clock.next
      (.del 64 1)).virtualClockCounterPrv = 1 := by decide
  have hchanged : (clear : LookupTable (ValidBit × Nat) 64).clock.next (.del 64 1) ≠
      clear.clock := by
    intro hsame
    rw [hsame] at hprv
    exact absurd hprv (by decide)
  refine ⟨hret, hchanged, by decide, by decide, ?_⟩
  intro hall
  refine hchanged (hall _ _ trivial ?_)
  rw [hret]
  simp

end LookupTable
end Table
end NmMemcached
