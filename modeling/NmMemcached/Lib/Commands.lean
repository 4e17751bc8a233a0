import Mathlib.Tactic.Common

/-!
# Commands — programs that use a state through commands alone

A `Program` is a tree of commands.  It does not see the state: what it knows is what its commands
have answered.  `exec` says what a command answers and does; `run` gives the result of a program
and the state behind it, `All` says something of every command the run gives.

A law about all commands of a run goes from the parts of a program to the whole (`all_bind`).
-/

namespace NmMemcached
namespace Lib

universe u v w

/-- A command in `C r` is answered by an `r`. -/
inductive Program (C : Type u → Type v) (α : Type u) : Type (max (u + 1) v)
  | done (a : α)
  | command {r : Type u} (c : C r) (next : r → Program C α)

namespace Program

variable {C : Type u → Type v} {α β r : Type u} {σ : Type w}

def bind : Program C α → (α → Program C β) → Program C β
  | done a, f => f a
  | command c next, f => command c fun x => (next x).bind f

instance : Monad (Program C) where
  pure := done
  bind := bind

/-- One command. -/
def call (c : C r) : Program C r := command c done

section Run

variable (exec : ∀ {r : Type u}, C r → σ → r × σ)

def run : Program C α → σ → α × σ
  | done a, s => (a, s)
  | command c next, s => run (next (exec c s).1) (exec c s).2

/-- Every command of a run is as `P` says. -/
def All (P : ∀ {r : Type u}, C r → Prop) : Program C α → σ → Prop
  | done _, _ => True
  | command c next, s => P c ∧ All P (next (exec c s).1) (exec c s).2

/-- `g` of the rest of a program, once the first part came out as `x`. -/
def after {γ : Sort*} (g : Program C β → σ → γ) (f : α → Program C β) (x : α × σ) : γ :=
  g (f x.1) x.2

@[simp] theorem after_mk {γ : Sort*} (g : Program C β → σ → γ) (f : α → Program C β) (a : α)
    (s : σ) : after g f (a, s) = g (f a) s := rfl

variable {exec} (s : σ)

@[simp] theorem run_pure (a : α) : (pure a : Program C α).run exec s = (a, s) := rfl

@[simp] theorem run_call (c : C r) : (call c).run exec s = exec c s := rfl

@[simp] theorem run_bind (p : Program C α) (f : α → Program C β) :
    (p >>= f).run exec s = after (run exec) f (p.run exec s) := by
  induction p generalizing s with
  | done a =>
      rfl
  | command c next ih =>
      exact ih _ _

@[simp] theorem run_ite (c : Prop) [Decidable c] (p q : Program C α) :
    (if c then p else q).run exec s = if c then p.run exec s else q.run exec s :=
  apply_ite (fun x : Program C α => x.run exec s) c p q

variable {P : ∀ {r : Type u}, C r → Prop}

@[simp] theorem all_pure (a : α) : (pure a : Program C α).All exec P s ↔ True := Iff.rfl

@[simp] theorem all_call (c : C r) : (call c).All exec P s ↔ P c := and_iff_left trivial

@[simp] theorem all_bind (p : Program C α) (f : α → Program C β) :
    (p >>= f).All exec P s ↔ p.All exec P s ∧ after (All exec P) f (p.run exec s) := by
  induction p generalizing s with
  | done a =>
      exact (and_iff_right trivial).symm
  | command c next ih =>
      exact (and_congr_right fun _ => ih _ _).trans and_assoc.symm

/-- The rest of the program may start anywhere. -/
theorem All.bind {p : Program C α} {f : α → Program C β} (hp : p.All exec P s)
    (hf : ∀ s', (f (p.run exec s).1).All exec P s') : (p >>= f).All exec P s :=
  (all_bind s p f).2 ⟨hp, hf _⟩

@[simp] theorem all_ite (c : Prop) [Decidable c] (p q : Program C α) :
    (if c then p else q).All exec P s ↔ if c then p.All exec P s else q.All exec P s := by
  split <;> rfl

theorem All.mono {Q : ∀ {r : Type u}, C r → Prop} {p : Program C α} (h : p.All exec P s)
    (hPQ : ∀ {r : Type u} (c : C r), P c → Q c) : p.All exec Q s := by
  induction p generalizing s with
  | done a =>
      trivial
  | command c next ih =>
      exact ⟨hPQ c h.1, ih _ _ h.2⟩

end Run

end Program

end Lib
end NmMemcached
