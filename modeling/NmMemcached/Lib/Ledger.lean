import NmMemcached.Lib.Commands

/-!
# Ledger — programs that acquire, use and release

A command may acquire, use and release resources, which its `entries` say from its answer.
`settle` replays the entries and fails at a use or a release of what is not held.

`Leaves` says what a program leaves for every answer its commands may get.  It goes through a
program part by part (`leaves_bind`), and holds of the ledger of every run in a world with such
answers (`settle_run`).
-/

namespace NmMemcached
namespace Lib
namespace Ledger

universe u v w

inductive Entry (ρ : Type v)
  | acquired (r : ρ)
  | used (r : ρ)
  | released (r : ρ)
  deriving DecidableEq

section Settle

variable {ρ : Type v} [DecidableEq ρ]

/-- What is held behind the entries; `none` says that something was used or released that was not
held. -/
def settle : List ρ → List (Entry ρ) → Option (List ρ)
  | held, [] => some held
  | held, .acquired r :: es => settle (r :: held) es
  | held, .used r :: es => if r ∈ held then settle held es else none
  | held, .released r :: es => if r ∈ held then settle (held.erase r) es else none

theorem settle_append (held : List ρ) (es fs : List (Entry ρ)) :
    settle held (es ++ fs) = (settle held es).bind fun held' => settle held' fs := by
  induction es generalizing held with
  | nil =>
      rfl
  | cons e es ih =>
      cases e with
      | acquired r =>
          exact ih (r :: held)
      | used r =>
          simp only [List.cons_append, settle]
          split
          · exact ih held
          · rfl
      | released r =>
          simp only [List.cons_append, settle]
          split
          · exact ih (held.erase r)
          · rfl

end Settle

/-! ## Programs -/

section Programs

variable {ρ : Type v} [DecidableEq ρ] {C : Type u → Type w} {α β : Type u}
  (entries : {r : Type u} → C r → r → List (Entry ρ)) (Ok : {r : Type u} → C r → r → Prop)

/-- From `held` on, whatever answers the commands get, the program uses and releases only what is
held, and leaves what `Q` says. -/
def Leaves (Q : α → List ρ → Prop) : Program C α → List ρ → Prop
  | .done a, held => Q a held
  | .command c next, held =>
      ∀ x, Ok c x → ∃ held', settle held (entries c x) = some held' ∧ Leaves Q (next x) held'

variable {Q : α → List ρ → Prop} {R : β → List ρ → Prop} {held : List ρ}

@[simp] theorem leaves_pure (a : α) : Leaves entries Ok Q (pure a : Program C α) held ↔ Q a held :=
  Iff.rfl

@[simp] theorem leaves_call {r : Type u} {P : r → List ρ → Prop} (c : C r) :
    Leaves entries Ok P (Program.call c) held ↔
      ∀ x, Ok c x → ∃ held', settle held (entries c x) = some held' ∧ P x held' := Iff.rfl

@[simp] theorem leaves_bind (p : Program C α) (f : α → Program C β) :
    Leaves entries Ok R (p >>= f) held ↔
      Leaves entries Ok (fun a held' => Leaves entries Ok R (f a) held') p held := by
  induction p generalizing held with
  | done a =>
      rfl
  | command c next ih =>
      refine forall_congr' fun x => imp_congr_right fun _ => ?_
      exact exists_congr fun held' => and_congr_right fun _ => ih x

theorem Leaves.mono {Q' : α → List ρ → Prop} {p : Program C α} (h : Leaves entries Ok Q p held)
    (hQ : ∀ a held', Q a held' → Q' a held') : Leaves entries Ok Q' p held := by
  induction p generalizing held with
  | done a =>
      exact hQ a held h
  | command c next ih =>
      intro x hx
      rcases h x hx with ⟨held', hsettle, hnext⟩
      exact ⟨held', hsettle, ih x hnext⟩

/-- What is held is determined by the answers. -/
theorem Leaves.and {Q' : α → List ρ → Prop} {p : Program C α} (h : Leaves entries Ok Q p held)
    (h' : Leaves entries Ok Q' p held) :
    Leaves entries Ok (fun a held' => Q a held' ∧ Q' a held') p held := by
  induction p generalizing held with
  | done a =>
      exact ⟨h, h'⟩
  | command c next ih =>
      intro x hx
      rcases h x hx with ⟨held₁, hsettle, hnext⟩
      rcases h' x hx with ⟨held₂, hsettle', hnext'⟩
      obtain rfl : held₁ = held₂ := Option.some.inj (hsettle.symm.trans hsettle')
      exact ⟨held₁, hsettle, ih x hnext hnext'⟩

/-! ## Runs -/

/-- A world answers every command, from a state of its own. -/
structure World (C : Type u → Type w) (ω : Type u) where
  answer : {r : Type u} → C r → ω → r × ω

variable {ω : Type u} (k : World C ω)

/-- The ledger is kept beside the state of the world. -/
def World.exec {r : Type u} (c : C r) (s : ω × List (Entry ρ)) : r × (ω × List (Entry ρ)) :=
  ((k.answer c s.1).1, (k.answer c s.1).2, s.2 ++ entries c (k.answer c s.1).1)

/-- The ledger of a run settles to what the program leaves. -/
theorem settle_run (hk : ∀ {r : Type u} (c : C r) (w : ω), Ok c (k.answer c w).1)
    {p : Program C α} (h : Leaves entries Ok Q p held) {s : ω × List (Entry ρ)}
    {start : List ρ} (hs : settle start s.2 = some held) :
    ∃ held', settle start (p.run (k.exec entries) s).2.2 = some held' ∧
      Q (p.run (k.exec entries) s).1 held' := by
  induction p generalizing held s with
  | done a =>
      exact ⟨held, hs, h⟩
  | command c next ih =>
      rcases h (k.answer c s.1).1 (hk c s.1) with ⟨held', hsettle, hnext⟩
      refine ih _ hnext ?_
      calc
        _ = settle start (s.2 ++ entries c (k.answer c s.1).1) := rfl
        _ = settle held (entries c (k.answer c s.1).1) := by
          rw [settle_append, hs]
          rfl
        _ = some held' := hsettle

end Programs

end Ledger
end Lib
end NmMemcached
