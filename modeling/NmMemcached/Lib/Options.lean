import Mathlib.Tactic.Common

/-!
# Options — the options of a command line

`getopt` goes through the arguments in order: what does not start with a dash is passed over, a
`--` ends the options, and an argument behind a dash is a cluster of letters, the last of which may
take the rest of the cluster or the next argument.  A letter that is not known, and one whose
argument is missing, is reported as `?`.

`render` writes options as a command line, one argument for each letter and each argument; it is
read back as it was (`getopt_render`).
-/

namespace NmMemcached
namespace Lib
namespace Options

inductive Arity
  | flag
  | argument
  deriving DecidableEq

structure Opt where
  ch : Char
  optarg : Option (List Char)
  deriving DecidableEq

def Opt.unknown : Opt := ⟨'?', none⟩

/-- What an option string says of a letter. -/
def arity : List Char → Char → Option Arity
  | [], _ => none
  | d :: ds, c =>
      if d = c ∧ c ≠ ':' then
        if ds.head? = some ':' then some .argument else some .flag
      else
        arity ds c

section Getopt

variable (optstring : List Char)

/-- A cluster, and the arguments behind it. -/
def cluster : List Char → List (List Char) → List Opt × List (List Char)
  | [], rest => ([], rest)
  | c :: cs, rest =>
      match arity optstring c with
      | none => (Opt.unknown :: (cluster cs rest).1, (cluster cs rest).2)
      | some .flag => (⟨c, none⟩ :: (cluster cs rest).1, (cluster cs rest).2)
      | some .argument =>
          if cs ≠ [] then ([⟨c, some cs⟩], rest)
          else
            match rest with
            | [] => ([Opt.unknown], [])
            | arg :: rest => ([⟨c, some arg⟩], rest)

theorem length_cluster_le (cs : List Char) (rest : List (List Char)) :
    (cluster optstring cs rest).2.length ≤ rest.length := by
  induction cs with
  | nil =>
      exact Nat.le_refl _
  | cons c cs ih =>
      unfold cluster
      split
      · exact ih
      · exact ih
      · split
        · exact Nat.le_refl _
        · split
          · exact Nat.le_refl _
          · exact Nat.le_succ _

/-- The options of a command line; the arguments do not include the name of the program. -/
def getopt : List (List Char) → List Opt
  | [] => []
  | ('-' :: c :: cs) :: rest =>
      if c = '-' ∧ cs = [] then []
      else
        (cluster optstring (c :: cs) rest).1 ++ getopt (cluster optstring (c :: cs) rest).2
  | _ :: rest => getopt rest
termination_by args => args.length
decreasing_by
  · exact Nat.lt_succ_of_le (length_cluster_le optstring (c :: cs) rest)
  · exact Nat.lt_succ_self _

/-- An option that the option string knows, with an argument where it takes one. -/
def Opt.Known (o : Opt) : Prop :=
  o.ch ≠ '-' ∧
    match o.optarg with
    | none => arity optstring o.ch = some .flag
    | some _ => arity optstring o.ch = some .argument

def Opt.render (o : Opt) : List (List Char) := ['-', o.ch] :: o.optarg.toList

/-- A rendered option is read back, whatever its argument looks like. -/
theorem getopt_render_append {o : Opt} (h : o.Known optstring) (rest : List (List Char)) :
    getopt optstring (o.render ++ rest) = o :: getopt optstring rest := by
  rcases o with ⟨c, optarg⟩
  have hdash : ¬ (c = '-' ∧ ([] : List Char) = []) := fun hc => h.1 hc.1
  cases optarg with
  | none =>
      have hflag : arity optstring c = some .flag := h.2
      rw [Opt.render, Option.toList_none, List.singleton_append, getopt, if_neg hdash]
      simp [cluster, hflag]
  | some arg =>
      have harg : arity optstring c = some .argument := h.2
      rw [Opt.render, Option.toList_some, List.cons_append, List.singleton_append, getopt,
        if_neg hdash]
      simp [cluster, harg]

/-- What is written as a command line is read back. -/
theorem getopt_render {os : List Opt} (h : ∀ o ∈ os, o.Known optstring) :
    getopt optstring (os.flatMap Opt.render) = os := by
  induction os with
  | nil =>
      rw [List.flatMap_nil, getopt]
  | cons o os ih =>
      rcases List.forall_mem_cons.1 h with ⟨ho, hos⟩
      rw [List.flatMap_cons, getopt_render_append optstring ho, ih hos]

end Getopt

end Options
end Lib
end NmMemcached
