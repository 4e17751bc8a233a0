import NmMemcached.Table.Operations

/-!
# Notices — the bitmap of changed keys

`NotifyChange` flips the bit of the key, it does not set it.  So along any run the bit of a key is
the parity of the changes since the word was last cleared (`noticed_run`), and it says whether
there was a change exactly as long as no key changes twice between two clearings
(`noticesExact_iff`).
-/

namespace NmMemcached
namespace Table
namespace LookupTable

open Lib

universe u

variable {T : Type u} {S : Nat}

/-! ## One call -/

/-- Bit `k mod 64` of `FindNoticeBmp64(k)`. -/
def noticed (t : LookupTable T S) (k : Nat) : Bool :=
  (t.findNoticeBmp64 k).getLsbD (k % 64)

theorem noticed_of_lt {t : LookupTable T S} {k : Nat} (hk : k < S) :
    t.noticed k = (t.dataNoticeBmp (k >>> 6)).getLsbD (k % 64) := by
  have hle : ¬ k > S - 1 := by omega
  rw [noticed, findNoticeBmp64, if_neg hle]

theorem noticed_congr {t t' : LookupTable T S} (h : t'.dataNoticeBmp = t.dataNoticeBmp) (k : Nat) :
    t'.noticed k = t.noticed k := by
  simp only [noticed, findNoticeBmp64, h]

theorem noticed_clearNoticeBmp64 (t : LookupTable T S) {g k : Nat} (hg : g < S) (hk : k < S) :
    (t.clearNoticeBmp64 g).noticed k = if k >>> 6 = g >>> 6 then false else t.noticed k := by
  rw [noticed_of_lt hk, noticed_of_lt hk, clearNoticeBmp64, if_pos (Nat.le_of_lt hg)]
  by_cases hword : k >>> 6 = g >>> 6
  · simp [hword]
  · simp [hword]

theorem dataNoticeBmp_put (t : LookupTable T S) (itr : Iterator) (x : T) :
    (t.put itr x).dataNoticeBmp = t.dataNoticeBmp := by
  cases itr <;> rfl

theorem noticed_publishBack (t : LookupTable T S) (g : Nat) (f : T → T) {k : Nat} (hk : k < S) :
    (t.publishBack g f).noticed k = if k = g then !t.noticed k else t.noticed k := by
  have hput := dataNoticeBmp_put t (slotIter g (!t.sideBit g)) (f (t.slots g).back)
  have hbit : (t.publishBack g f).noticed k =
      (Function.update t.dataNoticeBmp (g >>> 6) (t.dataNoticeBmp (g >>> 6) ^^^ bits g)
        (k >>> 6)).getLsbD (k % 64) := by
    rw [noticed_of_lt hk, ← hput]
    rfl
  rw [hbit, getLsbD_update_xor_bits, noticed_of_lt hk]
  by_cases hkg : k = g
  · rw [if_pos hkg, if_pos hkg, hkg]
  · rw [if_neg hkg, if_neg hkg]

theorem dataNoticeBmp_enumerateForUpdate [Item T] (t : LookupTable T S) (func : T → T) :
    (t.enumerateForUpdate func).dataNoticeBmp = t.dataNoticeBmp := by
  have hflip : ∀ (ws : List Nat) (t : LookupTable T S),
      (ws.foldl flipWord t).dataNoticeBmp = t.dataNoticeBmp := by
    intro ws
    induction ws with
    | nil =>
        exact fun _ => rfl
    | cons w ws ih =>
        exact fun t => ih (flipWord t w)
  have hprepare : ∀ (ks : List Nat) (t : LookupTable T S),
      (ks.foldl (enumerateOne func) t).dataNoticeBmp = t.dataNoticeBmp := by
    intro ks
    induction ks with
    | nil =>
        exact fun _ => rfl
    | cons k ks ih =>
        intro t
        rw [List.foldl_cons, ih, enumerateOne_eq, dataNoticeBmp_put]
  rw [enumerateForUpdate, hflip, hprepare]

variable [Item T]

theorem dataNoticeBmp_index (t : LookupTable T S) (g : Nat) :
    (t.index g).2.dataNoticeBmp = t.dataNoticeBmp := by
  unfold index
  split
  · rfl
  · dsimp only
    split
    · exact dataNoticeBmp_put _ _ _
    · split
      · rfl
      · exact dataNoticeBmp_put _ _ _

/-- The call is a change of `k`: an `Add` or a `Del` that returns `OK`. -/
def changes (t : LookupTable T S) (k : Nat) (op : Op T) : Bool :=
  t.adds k op || t.dels k op

/-- The call clears the word of `k`. -/
def Op.clears (k : Nat) : Op T → Bool
  | .clear => true
  | .clearNoticeBmp64 gcnt => decide (k >>> 6 = gcnt >>> 6)
  | _ => false

theorem clears_of_changes {t : LookupTable T S} {k : Nat} {op : Op T}
    (h : t.changes k op = true) : op.clears k = false := by
  cases op with
  | add g itm n =>
      rfl
  | del g n =>
      rfl
  | _ =>
      simp [changes, adds, dels] at h

theorem noticed_updateBack (t : LookupTable T S) {g : Nat} (hg : g < S) (n : Int) (f : T → T)
    {k : Nat} (hk : k < S) :
    (t.updateBack g n f).2.noticed k =
      (t.noticed k ^^ (decide (g = k) && returnsOk (t.updateBack g n f).1)) := by
  rcases updateBack_returnsOk t hg n f with ⟨hret, hsame⟩ | ⟨hret, hpublish⟩
  · simp [hsame, hret]
  · rw [hpublish, hret, noticed_publishBack _ _ _ hk, passGate_eq]
    have hsame : ∀ v, ({ t with virtualClockCounterPrv := v } : LookupTable T S).noticed k =
        t.noticed k := fun _ => rfl
    by_cases hkg : k = g
    · subst hkg
      simp [hsame]
    · simp [hkg, hsame, Ne.symm hkg]

/-- A call clears the bit of a key, flips it when it changes the key, or leaves it alone. -/
theorem noticed_after (t : LookupTable T S) {op : Op T} (hop : op.KeyBelow S) {k : Nat}
    (hk : k < S) :
    (t.after op).noticed k = if op.clears k then false else t.noticed k ^^ t.changes k op := by
  have hkeeps : ∀ t' : LookupTable T S, t'.dataNoticeBmp = t.dataNoticeBmp →
      t'.noticed k = if false then false else t.noticed k ^^ (false || false) := by
    intro t' h
    simp [noticed_congr h]
  cases op with
  | clock =>
      exact hkeeps _ rfl
  | clear =>
      simp [after, Op.clears, noticed_of_lt hk, clear]
  | find g flag =>
      exact hkeeps _ rfl
  | findNoticeBmp64 g =>
      exact hkeeps _ rfl
  | clearNoticeBmp64 g =>
      simp [after, Op.clears, noticed_clearNoticeBmp64 t hop hk, changes, adds, dels]
  | index g =>
      exact hkeeps _ (dataNoticeBmp_index t g)
  | enumerateForUpdate func =>
      exact hkeeps _ (dataNoticeBmp_enumerateForUpdate t func)
  | add g itm n =>
      simpa [after, Op.clears, changes, adds, dels, add] using noticed_updateBack t hop n _ hk
  | del g n =>
      simpa [after, Op.clears, changes, adds, dels, del] using noticed_updateBack t hop n _ hk

/-! ## Runs -/

/-- A table beside the number of changes each key had since the last clearing of its word. -/
structure Counted (T : Type u) (S : Nat) where
  table : LookupTable T S
  count : Nat → Nat

namespace Counted

/-- `Clear`. -/
def start : Counted T S :=
  { table := clear, count := fun _ => 0 }

def after (c : Counted T S) (op : Op T) : Counted T S :=
  { table := c.table.after op
    count := fun k =>
      if op.clears k then 0 else c.count k + if c.table.changes k op then 1 else 0 }

/-- The bit of a key is the parity of its changes. -/
def Parity (c : Counted T S) : Prop :=
  ∀ k < S, c.table.noticed k = decide (c.count k % 2 = 1)

theorem parity_start : (start : Counted T S).Parity := by
  intro k hk
  simp [start, noticed_of_lt hk, clear]

theorem parity_after (c : Counted T S) (op : Op T) (hc : c.Parity) (hop : op.KeyBelow S) :
    (c.after op).Parity := by
  intro k hk
  have hbit := noticed_after c.table hop hk
  rw [hc k hk] at hbit
  simp only [after, hbit]
  by_cases hclear : op.clears k = true
  · simp [hclear]
  · by_cases hchange : c.table.changes k op = true
    · simp only [hclear, hchange, if_true, Bool.xor_true, Bool.false_eq_true, if_false]
      by_cases hodd : c.count k % 2 = 1
      · simp [hodd, Nat.add_mod]
      · have heven : c.count k % 2 = 0 := by omega
        simp [heven, Nat.add_mod]
    · simp [hclear, hchange]

/-- The bit of every key says whether the key had a change since the last clearing. -/
def Exact (c : Counted T S) : Prop :=
  ∀ k < S, c.table.noticed k = true ↔ 0 < c.count k

/-- The call changes no key that already had a change since the last clearing. -/
def Fresh (c : Counted T S) (op : Op T) : Prop :=
  ∀ k < S, c.table.changes k op = true → c.count k = 0

end Counted

open Counted

/-- Along every run the bit of a key is the parity of its changes since the last clearing. -/
theorem noticed_run {ops : List (Op T)} (hops : ∀ op ∈ ops, op.KeyBelow S) :
    (run Counted.after (start : Counted T S) ops).Parity := by
  induction ops using List.reverseRecOn with
  | nil =>
      exact parity_start
  | append_singleton ops op ih =>
      rw [run_append]
      exact parity_after _ op (ih fun o ho => hops o (by simp [ho])) (hops op (by simp))

/-- In a run from `Clear`, the bits say in every state which keys were changed, exactly when no
`Add` or `Del` returns `OK` on a key that was changed since the last clearing of its word. -/
theorem noticesExact_iff {ops : List (Op T)} (hops : ∀ op ∈ ops, op.KeyBelow S) :
    (∀ past, past <+: ops → (run Counted.after (start : Counted T S) past).Exact) ↔
      Along Counted.after Fresh (start : Counted T S) ops := by
  refine forall_prefix_iff_along parity_after ?_ parity_start ?_ hops
  · intro c op hc hexact hop
    have hparity := parity_after c op hc hop
    constructor
    · intro hnext k hk hchange
      -- A second change would clear the bit.
      by_contra hne
      have hbit := (hexact k hk).2 (Nat.pos_of_ne_zero hne)
      have hafter := noticed_after c.table hop hk
      have hkept := clears_of_changes hchange
      have hcount : (c.after op).count k = c.count k + 1 := by
        simp [Counted.after, hkept, hchange]
      have hset := (hnext k hk).2 (by omega)
      simp [Counted.after, hafter, hkept, hbit, hchange] at hset
    · intro hfresh k hk
      rw [hparity k hk, decide_eq_true_iff]
      have hcount : (c.after op).count k =
          if op.clears k then 0 else c.count k + if c.table.changes k op then 1 else 0 := rfl
      have hodd := hexact k hk
      rw [hc k hk, decide_eq_true_iff] at hodd
      have hzero := hfresh k hk
      by_cases hclear : op.clears k = true
      · simp [hcount, hclear]
      · by_cases hchange : c.table.changes k op = true
        · simp [hcount, hclear, hchange, hzero hchange]
        · simpa [hcount, hclear, hchange] using hodd
  · intro k hk
    rw [parity_start k hk]
    simp [start]

/-- Key 5 is added, the word of key 3 is cleared, and key 5 is deleted. -/
theorem noticesExact_add_clear_del :
    (∀ op ∈ [Op.add 5 ((0, 7) : ValidBit × Nat) 0, .clearNoticeBmp64 3, .del 5 0],
      op.KeyBelow 64) ∧
    ∀ past, past <+: [Op.add 5 (0, 7) 0, .clearNoticeBmp64 3, .del 5 0] →
      (run Counted.after (start : Counted (ValidBit × Nat) 64) past).Exact := by
  have hbelow : ∀ op ∈ [Op.add 5 ((0, 7) : ValidBit × Nat) 0, .clearNoticeBmp64 3, .del 5 0],
      op.KeyBelow 64 := by simp [Op.KeyBelow]
  refine ⟨hbelow, (noticesExact_iff hbelow).2 ⟨?_, ?_, ?_, trivial⟩⟩
  · exact fun _ _ _ => rfl
  · intro k _ hchange
    simp [changes, adds, dels] at hchange
  · intro k _ hchange
    have hk : k = 5 := by
      have hfive := hchange
      simp only [changes, adds, dels, Bool.false_or, Bool.and_eq_true, decide_eq_true_iff] at hfive
      exact hfive.1.symm
    rw [hk]
    decide

/-- Key 5 is added twice: both calls return `OK`, and no bit is set. -/
theorem add_5_twice_not_noticed :
    (clear : LookupTable (ValidBit × Nat) 64).changes 5 (.add 5 (0, 7) 0) = true ∧
      ((clear : LookupTable (ValidBit × Nat) 64).after (.add 5 (0, 7) 0)).changes 5
        (.add 5 (0, 8) 0) = true ∧
      (run after (clear : LookupTable (ValidBit × Nat) 64)
        [.add 5 (0, 7) 0, .add 5 (0, 8) 0]).findNoticeBmp64 5 = 0 ∧
      ¬ ∀ ops : List (Op (ValidBit × Nat)), (∀ op ∈ ops, op.KeyBelow 64) →
        (run Counted.after (start : Counted (ValidBit × Nat) 64) ops).Exact := by
  refine ⟨by decide, by decide, by decide, ?_⟩
  intro hall
  have hexact := hall [.add 5 (0, 7) 0, .add 5 (0, 8) 0] (by simp [Op.KeyBelow]) 5 (by decide)
  exact absurd (hexact.2 (by decide)) (by decide)

end LookupTable
end Table
end NmMemcached
