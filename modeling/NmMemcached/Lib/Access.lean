import NmMemcached.Lib.Mem

/-!
# Access — programs that load and store

A `Region` is the range of bytes that one access touches.  `Within` is inclusion of the bytes, so
an access of no bytes is within every region; `within_iff` turns it into arithmetic.

A `Prog` is a program over a memory whose accesses are its nodes: a load hands the bytes it asked
for, and no others, to the rest of the program, a store writes.  `run` gives the result and the
memory behind it, `accesses` what was touched, in order.

The accesses are all that counts.  A byte outside the stores keeps its value (`run_of_keeps`), and
two memories that agree on the accessed bytes have the same run (`run_congr`).
-/

namespace NmMemcached
namespace Lib

universe u v

/-! ## Regions -/

/-- `len` bytes from `start` on. -/
structure Region where
  start : Nat
  len : Nat
deriving DecidableEq

namespace Region

variable {r s : Region} {a : Nat}

instance : Membership Nat Region :=
  ⟨fun r a => r.start ≤ a ∧ a < r.start + r.len⟩

theorem mem_iff : a ∈ r ↔ r.start ≤ a ∧ a < r.start + r.len := Iff.rfl

/-! ## Inclusion -/

def Within (r s : Region) : Prop := ∀ a ∈ r, a ∈ s

theorem within_iff :
    r.Within s ↔ r.len = 0 ∨ (s.start ≤ r.start ∧ r.start + r.len ≤ s.start + s.len) := by
  constructor
  · intro h
    by_cases hempty : r.len = 0
    · exact Or.inl hempty
    · -- The first and the last byte give the two bounds.
      have hfirst := h r.start (mem_iff.2 ⟨Nat.le_refl _, by omega⟩)
      have hlast := h (r.start + r.len - 1) (mem_iff.2 ⟨by omega, by omega⟩)
      rw [mem_iff] at hfirst hlast
      right
      omega
  · rintro (hempty | ⟨hlo, hhi⟩) a ha
    · rw [mem_iff] at ha
      omega
    · rw [mem_iff] at ha ⊢
      omega

instance : Decidable (r.Within s) := decidable_of_iff _ within_iff.symm

/-- A region of at least one byte. -/
theorem within_iff_of_pos (h : 0 < r.len) :
    r.Within s ↔ s.start ≤ r.start ∧ r.start + r.len ≤ s.start + s.len := by
  rw [within_iff]
  constructor
  · rintro (hempty | hbounds)
    · omega
    · exact hbounds
  · exact Or.inr

end Region

/-! ## Windows -/

namespace Mem

/-- The `len` bytes from `off` on, and nothing behind them. -/
def window (m : Mem) (off len : Nat) : Mem :=
  fun i => if i < len then m (off + i) else 0

theorem window_of_lt {m : Mem} {off len i : Nat} (h : i < len) :
    m.window off len i = m (off + i) := by
  simp [window, h]

theorem read_window {m : Mem} {off len i n : Nat} (h : i + n ≤ len) :
    (m.window off len).read i n = m.read (off + i) n := by
  apply read_congr
  intro j hj
  rw [window_of_lt (by omega), Nat.add_assoc]

theorem window_congr {m m' : Mem} {off len : Nat} (h : ∀ a ∈ Region.mk off len, m a = m' a) :
    m.window off len = m'.window off len := by
  funext i
  by_cases hi : i < len
  · rw [window_of_lt hi, window_of_lt hi]
    exact h _ ⟨Nat.le_add_right _ _, Nat.add_lt_add_left hi _⟩
  · simp [window, hi]

theorem write_congr {m m' : Mem} {off a : Nat} {bs : List UInt8}
    (h : a ∉ Region.mk off bs.length → m a = m' a) : m.write off bs a = m'.write off bs a := by
  by_cases ha : a ∈ Region.mk off bs.length
  · obtain ⟨i, rfl⟩ := Nat.exists_eq_add_of_le ha.1
    have hi : i < bs.length := Nat.lt_of_add_lt_add_left ha.2
    rw [write_add hi, write_add hi]
  · have hout : a < off ∨ off + bs.length ≤ a := by
      rw [Region.mem_iff] at ha
      simp only at ha
      omega
    rw [write_of_disjoint hout, write_of_disjoint hout]
    exact h ha

end Mem

/-! ## Programs -/

inductive Access
  | load (r : Region)
  | store (r : Region)

def Access.region : Access → Region
  | .load r => r
  | .store r => r

inductive Prog (α : Type u) : Type u
  | done (a : α)
  | loading (off len : Nat) (next : Mem → Prog α)
  | storing (off : Nat) (bs : List UInt8) (next : Prog α)

namespace Prog

variable {α β : Type u}

def bind : Prog α → (α → Prog β) → Prog β
  | done a, f => f a
  | loading off len next, f => loading off len fun w => (next w).bind f
  | storing off bs next, f => storing off bs (next.bind f)

instance : Monad Prog where
  pure := done
  bind := bind

/-- The bytes are seen from index 0 on. -/
def load (off len : Nat) : Prog Mem := loading off len done

def byte (off : Nat) : Prog UInt8 := loading off 1 fun w => done (w 0)

def be16 (off : Nat) : Prog Nat := loading off 2 fun w => done (w.be16 0)

def be32 (off : Nat) : Prog Nat := loading off 4 fun w => done (w.be32 0)

def le32 (off : Nat) : Prog (BitVec 32) := loading off 4 fun w => done (w.le32 0)

def bytes (off n : Nat) : Prog (List UInt8) := loading off n fun w => done (w.read 0 n)

def store (off : Nat) (bs : List UInt8) : Prog Unit := storing off bs (done ())

def run : Prog α → Mem → α × Mem
  | done a, m => (a, m)
  | loading off len next, m => (next (m.window off len)).run m
  | storing off bs next, m => next.run (m.write off bs)

def accesses : Prog α → Mem → List Access
  | done _, _ => []
  | loading off len next, m => .load ⟨off, len⟩ :: (next (m.window off len)).accesses m
  | storing off bs next, m => .store ⟨off, bs.length⟩ :: next.accesses (m.write off bs)

/-- `g` of the rest of a program, once the first part came out as `s`. -/
def after {γ : Sort v} (g : Prog β → Mem → γ) (f : α → Prog β) (s : α × Mem) : γ :=
  g (f s.1) s.2

@[simp] theorem after_mk {γ : Sort v} (g : Prog β → Mem → γ) (f : α → Prog β) (a : α) (m : Mem) :
    after g f (a, m) = g (f a) m := rfl

section Run

variable (m : Mem)

@[simp] theorem run_pure (a : α) : (pure a : Prog α).run m = (a, m) := rfl

@[simp] theorem run_load (off len : Nat) : (load off len).run m = (m.window off len, m) := rfl

@[simp] theorem run_byte (off : Nat) : (byte off).run m = (m off, m) := rfl

@[simp] theorem run_be16 (off : Nat) : (be16 off).run m = (m.be16 off, m) := rfl

@[simp] theorem run_be32 (off : Nat) : (be32 off).run m = (m.be32 off, m) := rfl

@[simp] theorem run_le32 (off : Nat) : (le32 off).run m = (m.le32 off, m) := rfl

@[simp] theorem run_bytes (off n : Nat) : (bytes off n).run m = (m.read off n, m) := by
  have hread : (m.window off n).read 0 n = m.read off n :=
    Mem.read_window (Nat.le_of_eq (Nat.zero_add n))
  exact congrArg (fun bs => (bs, m)) hread

@[simp] theorem run_store (off : Nat) (bs : List UInt8) :
    (store off bs).run m = ((), m.write off bs) := rfl

@[simp] theorem run_bind (p : Prog α) (f : α → Prog β) :
    (p >>= f).run m = after run f (p.run m) := by
  induction p generalizing m with
  | done a =>
      rfl
  | loading off len next ih =>
      exact ih _ m
  | storing off bs next ih =>
      exact ih _

@[simp] theorem run_ite (c : Prop) [Decidable c] (p q : Prog α) :
    (if c then p else q).run m = if c then p.run m else q.run m :=
  apply_ite (fun r : Prog α => r.run m) c p q

end Run

/-! ## What holds of every access -/

/-- Every access of a run is as `P` says. -/
def All (P : Access → Prop) (p : Prog α) (m : Mem) : Prop := ∀ x ∈ p.accesses m, P x

section All

variable {P : Access → Prop} (m : Mem)

@[simp] theorem all_pure (a : α) : (pure a : Prog α).All P m ↔ True := by
  refine iff_of_true ?_ trivial
  intro x hx
  cases hx

@[simp] theorem all_load (off len : Nat) : (load off len).All P m ↔ P (.load ⟨off, len⟩) :=
  List.forall_mem_singleton

@[simp] theorem all_byte (off : Nat) : (byte off).All P m ↔ P (.load ⟨off, 1⟩) :=
  List.forall_mem_singleton

@[simp] theorem all_be16 (off : Nat) : (be16 off).All P m ↔ P (.load ⟨off, 2⟩) :=
  List.forall_mem_singleton

@[simp] theorem all_be32 (off : Nat) : (be32 off).All P m ↔ P (.load ⟨off, 4⟩) :=
  List.forall_mem_singleton

@[simp] theorem all_le32 (off : Nat) : (le32 off).All P m ↔ P (.load ⟨off, 4⟩) :=
  List.forall_mem_singleton

@[simp] theorem all_bytes (off n : Nat) : (bytes off n).All P m ↔ P (.load ⟨off, n⟩) :=
  List.forall_mem_singleton

@[simp] theorem all_store (off : Nat) (bs : List UInt8) :
    (store off bs).All P m ↔ P (.store ⟨off, bs.length⟩) :=
  List.forall_mem_singleton

theorem accesses_bind (p : Prog α) (f : α → Prog β) :
    (p >>= f).accesses m = p.accesses m ++ after accesses f (p.run m) := by
  induction p generalizing m with
  | done a =>
      rfl
  | loading off len next ih =>
      exact congrArg (List.cons _) (ih _ m)
  | storing off bs next ih =>
      exact congrArg (List.cons _) (ih _)

@[simp] theorem all_bind (p : Prog α) (f : α → Prog β) :
    (p >>= f).All P m ↔ p.All P m ∧ after (All P) f (p.run m) := by
  rw [All, accesses_bind, List.forall_mem_append]
  rfl

@[simp] theorem all_ite (c : Prop) [Decidable c] (p q : Prog α) :
    (if c then p else q).All P m ↔ if c then p.All P m else q.All P m := by
  split <;> rfl

end All

/-! ## Bounds and frames -/

/-- Every access lies in the first `n` bytes. -/
def Within (n : Nat) : Prog α → Mem → Prop := All fun x => x.region.Within ⟨0, n⟩

/-- No store touches the byte at `a`. -/
def Keeps (a : Nat) : Prog α → Mem → Prop := All fun x => ∀ r, x = .store r → a ∉ r

section Bounds

variable {n : Nat} (m : Mem)

theorem within_zero_iff (off len : Nat) :
    (Region.mk off len).Within ⟨0, n⟩ ↔ len = 0 ∨ off + len ≤ n := by
  simp [Region.within_iff]

@[simp] theorem within_pure (a : α) : (pure a : Prog α).Within n m ↔ True := all_pure m a

@[simp] theorem within_load (off len : Nat) :
    (load off len).Within n m ↔ len = 0 ∨ off + len ≤ n :=
  (all_load m off len).trans (within_zero_iff off len)

@[simp] theorem within_byte (off : Nat) : (byte off).Within n m ↔ off + 1 ≤ n :=
  (all_byte m off).trans ((within_zero_iff off 1).trans (by simp))

@[simp] theorem within_be16 (off : Nat) : (be16 off).Within n m ↔ off + 2 ≤ n :=
  (all_be16 m off).trans ((within_zero_iff off 2).trans (by simp))

@[simp] theorem within_be32 (off : Nat) : (be32 off).Within n m ↔ off + 4 ≤ n :=
  (all_be32 m off).trans ((within_zero_iff off 4).trans (by simp))

@[simp] theorem within_le32 (off : Nat) : (le32 off).Within n m ↔ off + 4 ≤ n :=
  (all_le32 m off).trans ((within_zero_iff off 4).trans (by simp))

@[simp] theorem within_bytes (off len : Nat) :
    (bytes off len).Within n m ↔ len = 0 ∨ off + len ≤ n :=
  (all_bytes m off len).trans (within_zero_iff off len)

@[simp] theorem within_store (off : Nat) (bs : List UInt8) :
    (store off bs).Within n m ↔ bs.length = 0 ∨ off + bs.length ≤ n :=
  (all_store m off bs).trans (within_zero_iff off bs.length)

@[simp] theorem within_bind (p : Prog α) (f : α → Prog β) :
    (p >>= f).Within n m ↔ p.Within n m ∧ after (Within n) f (p.run m) := all_bind m p f

@[simp] theorem within_ite (c : Prop) [Decidable c] (p q : Prog α) :
    (if c then p else q).Within n m ↔ if c then p.Within n m else q.Within n m := all_ite m c p q

end Bounds

section Frame

variable {a : Nat} (m : Mem)

theorem keeps_loading (r : Region) : (∀ s, Access.load r = .store s → a ∉ s) ↔ True := by
  simp

@[simp] theorem keeps_pure (b : α) : (pure b : Prog α).Keeps a m ↔ True := all_pure m b

@[simp] theorem keeps_load (off len : Nat) : (load off len).Keeps a m ↔ True :=
  (all_load m off len).trans (keeps_loading _)

@[simp] theorem keeps_byte (off : Nat) : (byte off).Keeps a m ↔ True :=
  (all_byte m off).trans (keeps_loading _)

@[simp] theorem keeps_be16 (off : Nat) : (be16 off).Keeps a m ↔ True :=
  (all_be16 m off).trans (keeps_loading _)

@[simp] theorem keeps_bytes (off n : Nat) : (bytes off n).Keeps a m ↔ True :=
  (all_bytes m off n).trans (keeps_loading _)

@[simp] theorem keeps_store (off : Nat) (bs : List UInt8) :
    (store off bs).Keeps a m ↔ a < off ∨ off + bs.length ≤ a := by
  rw [Keeps, all_store]
  simp only [Access.store.injEq, forall_eq', Region.mem_iff]
  omega

@[simp] theorem keeps_bind (p : Prog α) (f : α → Prog β) :
    (p >>= f).Keeps a m ↔ p.Keeps a m ∧ after (Keeps a) f (p.run m) := all_bind m p f

@[simp] theorem keeps_ite (c : Prop) [Decidable c] (p q : Prog α) :
    (if c then p else q).Keeps a m ↔ if c then p.Keeps a m else q.Keeps a m := all_ite m c p q

/-- The frame rule. -/
theorem run_of_keeps {p : Prog α} {m : Mem} (h : p.Keeps a m) : (p.run m).2 a = m a := by
  induction p generalizing m with
  | done b =>
      rfl
  | loading off len next ih =>
      exact ih _ (List.forall_mem_cons.1 h).2
  | storing off bs next ih =>
      rcases List.forall_mem_cons.1 h with ⟨hstore, hrest⟩
      have hout : a ∉ Region.mk off bs.length := hstore _ rfl
      rw [Region.mem_iff] at hout
      simp only at hout
      exact (ih hrest).trans (Mem.write_of_disjoint (by omega))

end Frame

/-- What a run does depends on the bytes it accesses alone. -/
theorem run_congr {p : Prog α} {m m' : Mem}
    (h : ∀ x ∈ p.accesses m, ∀ a ∈ x.region, m a = m' a) :
    (p.run m').1 = (p.run m).1 ∧ ∀ a, m a = m' a → (p.run m').2 a = (p.run m).2 a := by
  induction p generalizing m m' with
  | done b =>
      exact ⟨rfl, fun a ha => ha.symm⟩
  | loading off len next ih =>
      rcases List.forall_mem_cons.1 h with ⟨hload, hrest⟩
      have hsame : m'.window off len = m.window off len :=
        Mem.window_congr fun a ha => (hload a ha).symm
      simp only [run, hsame]
      exact ih _ hrest
  | storing off bs next ih =>
      rcases List.forall_mem_cons.1 h with ⟨_, hrest⟩
      have hagree : ∀ x ∈ next.accesses (m.write off bs), ∀ a ∈ x.region,
          m.write off bs a = m'.write off bs a :=
        fun x hx a ha => Mem.write_congr fun _ => hrest x hx a ha
      have hrun := ih hagree
      exact ⟨hrun.1, fun a ha => hrun.2 a (Mem.write_congr fun _ => ha)⟩

end Prog

end Lib
end NmMemcached
