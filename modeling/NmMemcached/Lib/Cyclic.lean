import Mathlib.Data.List.Nodup
import Mathlib.Data.Nat.ModEq
import Mathlib.Logic.Function.Basic
import Mathlib.Tactic.Common

/-!
# Cyclic — positions of a circular array

In a ring of `n` positions, `next` is the position behind another one, `advance n i k` the one `k`
steps ahead, and `gap n i j` the number of steps from `i` to `j`.  `arc n i k` lists the `k`
positions from `i` on; they are pairwise different as long as the arc does not go round.

`perm_exchange` is about two arrays: when one entry of each is exchanged, the entries of both
together stay the same up to order.
-/

namespace NmMemcached
namespace Lib
namespace Cyclic

variable {n i j k : Nat}

/-! ## Steps -/

def next (n i : Nat) : Nat := if i + 1 = n then 0 else i + 1

def advance (n i k : Nat) : Nat := (i + k) % n

def gap (n i j : Nat) : Nat := (j + n - i) % n

theorem next_lt (h : i < n) : next n i < n := by
  unfold next
  split <;> omega

theorem advance_lt (h : i < n) (k : Nat) : advance n i k < n :=
  Nat.mod_lt _ (Nat.zero_lt_of_lt h)

theorem advance_zero (h : i < n) : advance n i 0 = i :=
  Nat.mod_eq_of_lt h

theorem next_eq_advance (h : i < n) : next n i = advance n i 1 := by
  unfold next advance
  split
  · rename_i hlast
    rw [hlast, Nat.mod_self]
  · rw [Nat.mod_eq_of_lt (by omega)]

theorem advance_advance (n i k l : Nat) : advance n (advance n i k) l = advance n i (k + l) := by
  unfold advance
  rw [Nat.mod_add_mod, Nat.add_assoc]

theorem advance_next (h : i < n) (k : Nat) : advance n (next n i) k = advance n i (k + 1) := by
  rw [next_eq_advance h, advance_advance, Nat.add_comm]

theorem advance_inj {a b : Nat} (ha : a < n) (hb : b < n) (h : advance n i a = advance n i b) :
    a = b := by
  have hmod : Nat.ModEq n (i + a) (i + b) := h
  have hab : Nat.ModEq n a b := Nat.ModEq.add_left_cancel' i hmod
  exact Nat.ModEq.eq_of_lt_of_lt hab ha hb

/-! ## Distances -/

theorem gap_lt (h : i < n) (j : Nat) : gap n i j < n :=
  Nat.mod_lt _ (Nat.zero_lt_of_lt h)

theorem gap_of_le (hij : i ≤ j) (hj : j < n) : gap n i j = j - i := by
  have hsum : j + n - i = (j - i) + n := by omega
  rw [gap, hsum, Nat.add_mod_right, Nat.mod_eq_of_lt (by omega)]

theorem gap_of_lt (hji : j < i) (hi : i < n) : gap n i j = j + n - i :=
  Nat.mod_eq_of_lt (by omega)

theorem advance_gap (hi : i < n) (hj : j < n) : advance n i (gap n i j) = j := by
  by_cases h : i ≤ j
  · rw [gap_of_le h hj, advance, Nat.mod_eq_of_lt (by omega)]
    omega
  · have hsum : i + (j + n - i) = j + n := by omega
    rw [gap_of_lt (Nat.lt_of_not_le h) hi, advance, hsum, Nat.add_mod_right, Nat.mod_eq_of_lt hj]

theorem gap_eq_zero_iff (hi : i < n) (hj : j < n) : gap n i j = 0 ↔ i = j := by
  constructor
  · intro h
    have hadv := advance_gap hi hj
    rwa [h, advance_zero hi] at hadv
  · rintro rfl
    rw [gap_of_le (Nat.le_refl i) hj, Nat.sub_self]

/-- The number of steps to a position that was reached without going round. -/
theorem gap_advance_self (hi : i < n) (hk : k < n) : gap n i (advance n i k) = k :=
  advance_inj (gap_lt hi _) hk (advance_gap hi (advance_lt hi k))

/-- A step towards a position leaves one step less. -/
theorem gap_advance (hi : i < n) (hj : j < n) (hk : k ≤ gap n i j) :
    gap n (advance n i k) j = gap n i j - k := by
  have hlt := gap_lt hi j
  refine advance_inj (gap_lt (advance_lt hi k) _) (by omega) ?_ (i := advance n i k)
  rw [advance_gap (advance_lt hi k) hj, advance_advance, Nat.add_sub_cancel' hk,
    advance_gap hi hj]

/-- A step away from a position adds one, as long as it does not come back to it. -/
theorem gap_next (hi : i < n) (hj : j < n) (hlt : gap n i j + 1 < n) :
    gap n i (next n j) = gap n i j + 1 := by
  have hnext : next n j = advance n i (gap n i j + 1) := by
    rw [next_eq_advance hj, ← advance_advance, advance_gap hi hj]
  rw [hnext, gap_advance_self hi hlt]

/-- The ways from `i` to `j` and from behind `j` back to `i` make one round. -/
theorem gap_add_gap_next (hi : i < n) (hj : j < n) :
    gap n i j + gap n (next n j) i + 1 = n := by
  unfold next
  by_cases hlast : j + 1 = n
  · rw [if_pos hlast, gap_of_le (by omega) hj, gap_of_le (Nat.zero_le i) hi]
    omega
  · rw [if_neg hlast]
    by_cases hle : i ≤ j
    · rw [gap_of_le hle hj, gap_of_lt (by omega) (by omega)]
      omega
    · rw [gap_of_lt (by omega) hi, gap_of_le (by omega) hi]
      omega

/-! ## Arcs -/

def arc (n i k : Nat) : List Nat := (List.range k).map (advance n i)

theorem nodup_arc (hk : k ≤ n) : (arc n i k).Nodup := by
  refine List.Nodup.map_on ?_ List.nodup_range
  intro a ha b hb hab
  rw [List.mem_range] at ha hb
  exact advance_inj (by omega) (by omega) hab

theorem arc_succ (hi : i < n) (k : Nat) : arc n i (k + 1) = i :: arc n (next n i) k := by
  have hfun : (fun l => advance n i (l + 1)) = advance n (next n i) :=
    funext fun l => (advance_next hi l).symm
  rw [arc, List.range_succ_eq_map, List.map_cons, List.map_map, advance_zero hi]
  exact congrArg (fun f => i :: (List.range k).map f) hfun

theorem arc_concat (n i k : Nat) : arc n i (k + 1) = arc n i k ++ [advance n i k] := by
  simp [arc, List.range_succ]

theorem lt_of_mem_arc (hi : i < n) (h : j ∈ arc n i k) : j < n := by
  rcases List.mem_map.1 h with ⟨l, _, rfl⟩
  exact advance_lt hi l

theorem advance_not_mem_arc (hk : k < n) : advance n i k ∉ arc n i k := by
  intro h
  rcases List.mem_map.1 h with ⟨l, hl, heq⟩
  rw [List.mem_range] at hl
  exact absurd (advance_inj (by omega) hk heq) (by omega)

/-- An arc goes on where its first part ends. -/
theorem arc_add (n i k l : Nat) : arc n i (k + l) = arc n i k ++ arc n (advance n i k) l := by
  have hfun : advance n i ∘ (k + ·) = advance n (advance n i k) :=
    funext fun x => (advance_advance n i k x).symm
  rw [arc, List.range_add, List.map_append, List.map_map, hfun]
  rfl

/-- An arc that does not go round does not come back to where it starts. -/
theorem not_mem_arc_next (hi : i < n) (hk : k < n) : i ∉ arc n (next n i) k := by
  have hnodup := nodup_arc (i := i) (Nat.succ_le_of_lt hk)
  rw [arc_succ hi] at hnodup
  exact (List.nodup_cons.1 hnodup).1

end Cyclic

/-! ## Exchanging two entries -/

section Exchange

universe u

variable {α : Type u}

/-- The entries of an array of `n`. -/
def entries (n : Nat) (f : Nat → α) : List α := (List.range n).map f

/-- Writing an entry puts the new value in and takes the old one out. -/
theorem perm_update {n i : Nat} (hi : i < n) (f : Nat → α) (x : α) :
    (f i :: entries n (Function.update f i x)).Perm (x :: entries n f) := by
  induction n with
  | zero =>
      exact absurd hi (Nat.not_lt_zero i)
  | succ n ih =>
      unfold entries at ih ⊢
      rw [List.range_succ, List.map_append, List.map_append]
      by_cases hlast : i = n
      · -- The entries in front of the last one are not touched.
        subst hlast
        have hsame : (List.range i).map (Function.update f i x) = (List.range i).map f := by
          apply List.map_congr_left
          intro a ha
          exact Function.update_of_ne (Nat.ne_of_lt (List.mem_range.1 ha)) x f
        rw [hsame, List.map_singleton, List.map_singleton, Function.update_self]
        -- Bring both new entries to the front.
        have hx : ((List.range i).map f ++ [x]).Perm (x :: (List.range i).map f) :=
          List.perm_append_singleton x _
        have hfi : ((List.range i).map f ++ [f i]).Perm (f i :: (List.range i).map f) :=
          List.perm_append_singleton (f i) _
        exact ((hx.cons (f i)).trans (List.Perm.swap x (f i) _)).trans (hfi.cons x).symm
      · have hother : Function.update f i x n = f n := Function.update_of_ne (Ne.symm hlast) x f
        have hrest := ih (by omega)
        rw [List.map_singleton, List.map_singleton, hother]
        exact hrest.append_right [f n]

/-- Two arrays exchange an entry: together they hold what they held. -/
theorem perm_exchange {n m i j : Nat} (hi : i < n) (hj : j < m) (f g : Nat → α) :
    (entries n (Function.update f i (g j)) ++ entries m (Function.update g j (f i))).Perm
      (entries n f ++ entries m g) := by
  have hf := perm_update hi f (g j)
  have hg := perm_update hj g (f i)
  have hout : (f i :: g j :: (entries n (Function.update f i (g j)) ++
      entries m (Function.update g j (f i)))).Perm
      (f i :: entries n (Function.update f i (g j)) ++
        g j :: entries m (Function.update g j (f i))) :=
    List.perm_middle.symm.cons (f i)
  have hin : (g j :: entries n f ++ f i :: entries m g).Perm
      (g j :: f i :: (entries n f ++ entries m g)) :=
    List.perm_middle.cons (g j)
  -- What is taken out of one array is put into the other.
  have hall := ((hout.trans (hf.append hg)).trans hin).trans (List.Perm.swap (f i) (g j) _)
  exact List.Perm.cons_inv (List.Perm.cons_inv hall)

end Exchange

end Lib
end NmMemcached
