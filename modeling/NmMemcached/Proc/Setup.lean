import NmMemcached.Arch.Binding
import NmMemcached.Lib.Options
import NmMemcached.Lib.Runs

/-!
# Setup — from the command line to the ring pairs

`Process::Setup` reads the options, `Process::Start` gives each thread its number, and
`thread_func` opens the interface.  The last occurrence of an option counts (`fields_setup`), and
the workers all come up exactly for a plain interface name and numbers of rings that `nm_open`
takes (`opens_start`).
-/

namespace NmMemcached
namespace Proc

open Lib Lib.Numerals Lib.Options Lib.Ledger Arch

/-! ## The process -/

structure Process where
  ifnm : List Char
  affinity : Int
  debug : Nat
  port : Int
  deriving DecidableEq

def Process.init : Process := { ifnm := [], affinity := 0, debug := 0, port := 0 }

/-- `strncpy` into a cleared buffer of 64 bytes, the last of which stays zero. -/
def strncpy63 (cs : List Char) : List Char := cs.take 63

def optstring : List Char := "i:c:vp:".toList

/-- One turn of the option loop. -/
def setupOpt (p : Process) (o : Opt) : Process :=
  match o.optarg with
  | some optarg =>
      if o.ch = 'i' then { p with ifnm := strncpy63 optarg }
      else if o.ch = 'c' then { p with affinity := atoi optarg }
      else if o.ch = 'p' then { p with port := atoi optarg }
      else p
  | none => if o.ch = 'v' then { p with debug := p.debug + 1 } else p

/-- `Process::Setup`; `installed` says whether `sigaction` took the handler. -/
def setup (installed : Bool) (argv : List (List Char)) : Except String Process :=
  let p := run setupOpt Process.init (getopt optstring argv.tail)
  if installed = false then .error "failed to install ^C handler"
  else if p.ifnm = [] ∨ p.port = 0 then .error "invalid arguments."
  else .ok p

structure Thread where
  id : Nat
  affinity : Int
  port : Int
  ifnm : List Char

/-- `NMMC_THREAD`. -/
def threadCount : Nat := 8

/-- A sum of two `int`s. -/
def intAdd (a b : Int) : Int := (BitVec.ofInt 32 (a + b)).toInt

/-- The threads of `Process::Start`.  `pthread_create` never returns -1, so its failure is not
noticed. -/
def start (p : Process) : List Thread :=
  (List.range threadCount).map fun n =>
    { id := n
      affinity := intAdd p.affinity n
      port := p.port
      ifnm := strncpy63 p.ifnm }

/-- `network->Open` in `thread_func`. -/
def openThread (t : Thread) : Program Sys OpenResult := openNetmap t.ifnm t.affinity

/-! ## The options -/

/-- The argument of the last option with this letter. -/
def lastArg (ch : Char) (os : List Opt) : Option (List Char) :=
  (lastOn (fun o => o.ch == ch && o.optarg.isSome) os).bind Opt.optarg

theorem lastArg_append_singleton (ch : Char) (os : List Opt) (o : Opt) :
    lastArg ch (os ++ [o]) = if o.ch = ch then o.optarg.or (lastArg ch os) else lastArg ch os := by
  unfold lastArg
  rw [lastOn_append_singleton]
  by_cases hch : o.ch = ch
  · cases hoptarg : o.optarg with
    | none => simp [hch]
    | some arg => simp [hch, hoptarg]
  · simp [hch]

/-- The last occurrence of an option counts. -/
theorem run_setupOpt (os : List Opt) :
    run setupOpt Process.init os =
      { ifnm := ((lastArg 'i' os).map strncpy63).getD []
        affinity := ((lastArg 'c' os).map atoi).getD 0
        debug := os.countP fun o => o.ch == 'v' && o.optarg.isNone
        port := ((lastArg 'p' os).map atoi).getD 0 } := by
  induction os using List.reverseRecOn with
  | nil =>
      rfl
  | append_singleton os o ih =>
      rw [run_append, ih, run_cons, run_nil]
      simp only [lastArg_append_singleton, List.countP_append, List.countP_singleton]
      rcases o with ⟨ch, optarg⟩
      cases optarg with
      | none =>
          by_cases hv : ch = 'v'
          · simp [setupOpt, hv]
          · simp [setupOpt, hv]
      | some arg =>
          by_cases hi : ch = 'i'
          · simp [setupOpt, hi]
          by_cases hc : ch = 'c'
          · simp [setupOpt, hc]
          by_cases hp : ch = 'p'
          · simp [setupOpt, hp]
          · simp [setupOpt, hi, hc, hp]

/-- What `Setup` accepts. -/
theorem setup_iff {installed : Bool} {argv : List (List Char)} {p : Process} :
    setup installed argv = .ok p ↔
      installed = true ∧ p.ifnm ≠ [] ∧ p.port ≠ 0 ∧
        p = run setupOpt Process.init (getopt optstring argv.tail) := by
  unfold setup
  cases installed with
  | false =>
      simp
  | true =>
      by_cases hbad : (run setupOpt Process.init (getopt optstring argv.tail)).ifnm = [] ∨
          (run setupOpt Process.init (getopt optstring argv.tail)).port = 0
      · simp only [hbad, if_true]
        constructor
        · intro h
          cases h
        · rintro ⟨_, hifnm, hport, rfl⟩
          exact absurd hbad (not_or.2 ⟨hifnm, hport⟩)
      · rw [if_neg (by decide), if_neg hbad]
        rw [not_or] at hbad
        constructor
        · intro h
          obtain rfl := Except.ok.inj h
          exact ⟨rfl, hbad.1, hbad.2, rfl⟩
        · rintro ⟨_, _, _, rfl⟩
          rfl

theorem isInt_toInt (b : BitVec 32) : IsInt b.toInt := by
  have hlow := BitVec.le_toInt b
  have hhigh := BitVec.toInt_lt (x := b)
  unfold IsInt
  omega

/-- What `Start` finds in the fields. -/
theorem fields_of_setup {installed : Bool} {argv : List (List Char)} {p : Process}
    (h : setup installed argv = .ok p) : IsInt p.affinity ∧ strncpy63 p.ifnm = p.ifnm := by
  rcases setup_iff.1 h with ⟨_, _, _, hp⟩
  rw [run_setupOpt] at hp
  rw [hp]
  refine ⟨?_, ?_⟩
  · cases lastArg 'c' (getopt optstring argv.tail) with
    | none =>
        have hzero : IsInt 0 := ⟨by decide, by decide⟩
        exact hzero
    | some arg =>
        exact isInt_toInt _
  · cases lastArg 'i' (getopt optstring argv.tail) with
    | none => rfl
    | some arg => exact List.take_take.trans (congrArg (List.take · arg) (Nat.min_self 63))

/-! ## The workers -/

theorem intAdd_eq {a b : Int} (h : IsInt (a + b)) : intAdd a b = a + b := by
  unfold IsInt at h
  rw [intAdd, BitVec.toInt_ofInt]
  exact Int.bmod_eq_of_le (by omega) (by omega)

/-- The numbers of the threads, without an overflow. -/
theorem mem_start_iff {p : Process} (hifnm : strncpy63 p.ifnm = p.ifnm) {t : Thread} :
    t ∈ start p ↔ ∃ n < threadCount,
      t = { id := n, affinity := intAdd p.affinity n, port := p.port, ifnm := p.ifnm } := by
  rw [start, List.mem_map]
  constructor
  · rintro ⟨n, hn, rfl⟩
    exact ⟨n, List.mem_range.1 hn, by rw [hifnm]⟩
  · rintro ⟨n, hn, rfl⟩
    exact ⟨n, List.mem_range.2 hn, by rw [hifnm]⟩

theorem not_plain_of_mark {name blanks : List Char} {kind : PairKind} :
    ¬ Plain (name ++ kind.char :: blanks) := by
  intro h
  have hmark := h kind.char (by simp)
  rw [isSeparator_of_kind] at hmark
  cases hmark

/-- A plain name asks for the ring of the worker. -/
theorem asks_iff_of_plain {ifnm : List Char} {affinity : Int} (hplain : Plain ifnm) :
    (∃ req, Asks ifnm affinity req) ↔ 0 ≤ affinity ∧ affinity < netmapRingMask := by
  constructor
  · rintro ⟨req, hreq⟩
    cases hreq with
    | ring _ hle hlt => exact ⟨hle, hlt⟩
    | zero _ _ hifnm _ => exact absurd (hifnm ▸ hplain) not_plain_of_mark
  · rintro ⟨hle, hlt⟩
    exact ⟨_, .ring hplain hle hlt⟩

/-- All workers get a ring exactly for a plain name and rings that can be numbered. -/
theorem asks_start_iff {p : Process} (hint : IsInt p.affinity)
    (hifnm : strncpy63 p.ifnm = p.ifnm) :
    (∀ t ∈ start p, t.ifnm.length < ifNamSiz ∧ ∃ req, Asks t.ifnm t.affinity req) ↔
      p.ifnm.length < ifNamSiz ∧ Plain p.ifnm ∧ 0 ≤ p.affinity ∧
        p.affinity + 7 < netmapRingMask := by
  have hzero : intAdd p.affinity 0 = p.affinity := by
    rw [intAdd_eq (by simpa using hint), Int.add_zero]
  constructor
  · intro h
    have hthread : ∀ n : Nat, n < threadCount → p.ifnm.length < ifNamSiz ∧
        ∃ req, Asks p.ifnm (intAdd p.affinity n) req := fun n hn =>
      h _ ((mem_start_iff hifnm).2 ⟨n, hn, rfl⟩)
    have hfirst := (hthread 0 (by decide)).2
    have hsecond := (hthread 1 (by decide)).2
    -- A name with a mark suits number zero only, and that is not two workers.
    have hplain : Plain p.ifnm := by
      rcases hfirst with ⟨req, hreq⟩
      cases hreq with
      | ring hplain _ _ => exact hplain
      | zero _ _ _ ha =>
          rcases hsecond with ⟨req, hreq⟩
          cases hreq with
          | ring hplain _ _ => exact hplain
          | zero _ _ _ ha' =>
              have haff : p.affinity = 0 := hzero.symm.trans ha
              rw [haff] at ha'
              exact absurd ha' (by decide)
    have hlow := (asks_iff_of_plain hplain).1 hfirst
    have hhigh := (asks_iff_of_plain hplain).1 (hthread 7 (by decide)).2
    rw [Nat.cast_zero, hzero] at hlow
    have hseven : intAdd p.affinity 7 = p.affinity + 7 := intAdd_eq (by
      unfold IsInt
      unfold netmapRingMask at hlow
      omega)
    rw [Nat.cast_ofNat, hseven] at hhigh
    exact ⟨(hthread 0 (by decide)).1, hplain, hlow.1, hhigh.2⟩
  · rintro ⟨hlen, hplain, hle, hlt⟩ t ht
    rcases (mem_start_iff hifnm).1 ht with ⟨n, hn, rfl⟩
    refine ⟨hlen, (asks_iff_of_plain hplain).2 ?_⟩
    have hadd : intAdd p.affinity n = p.affinity + n := intAdd_eq (by
      unfold IsInt
      unfold netmapRingMask at hlt
      unfold threadCount at hn
      omega)
    unfold threadCount at hn
    change 0 ≤ intAdd p.affinity n ∧ intAdd p.affinity n < netmapRingMask
    rw [hadd]
    omega

/-- From the command line to the rings.  A worker that comes up has the ring pair of its number;
on a system that refuses nothing all of them come up exactly when the last interface name is plain
and short and the rings from the last start number on can be numbered. -/
theorem rings_of_setup {installed : Bool} {argv : List (List Char)} {p : Process}
    (h : setup installed argv = .ok p) {ω : Type} (k : World Sys ω) (w : ω) :
    (p.ifnm = ((lastArg 'i' (getopt optstring argv.tail)).map strncpy63).getD [] ∧
      p.affinity = ((lastArg 'c' (getopt optstring argv.tail)).map atoi).getD 0) ∧
    (∀ t ∈ start p, ∀ dmac desc,
      ((openThread t).run (k.exec Sys.entries) (w, [])).1 = .opened dmac desc →
        0 ≤ p.affinity + t.id ∧ desc.rings = oneRing (p.affinity + t.id).toNat) ∧
    ((∀ {r : Type} (c : Sys r) (w : ω), Willing c (k.answer c w).1) →
      ((∀ t ∈ start p, ∃ dmac desc,
          ((openThread t).run (k.exec Sys.entries) (w, [])).1 = .opened dmac desc) ↔
        p.ifnm.length < ifNamSiz ∧ Plain p.ifnm ∧ 0 ≤ p.affinity ∧
          p.affinity + 7 < netmapRingMask)) := by
  rcases fields_of_setup h with ⟨hint, hifnm⟩
  refine ⟨?_, ?_, ?_⟩
  · have hp := (setup_iff.1 h).2.2.2
    rw [run_setupOpt] at hp
    rw [hp]
    exact ⟨rfl, rfl⟩
  · intro t ht dmac desc hres
    rcases (mem_start_iff hifnm).1 ht with ⟨n, hn, rfl⟩
    rcases (openNetmap_binds k w p.ifnm (isInt_toInt _)).1 dmac desc hres with ⟨hasks, hrings⟩
    -- A sum that overflows is negative, and no ring has such a number.
    have hle : 0 ≤ intAdd p.affinity n := by
      generalize desc.req = req at hasks
      cases hasks with
      | ring _ hle _ => exact hle
      | zero _ _ _ hzero => exact Int.le_of_eq hzero.symm
    have hadd : intAdd p.affinity n = p.affinity + n := by
      unfold threadCount at hn
      unfold IsInt at hint
      by_cases hover : p.affinity + n < 2147483648
      · exact intAdd_eq ⟨by omega, hover⟩
      · have hwrap : intAdd p.affinity n = p.affinity + n - 4294967296 := by
          rw [intAdd, BitVec.toInt_ofInt, Int.bmod_def]
          split <;> omega
        omega
    change 0 ≤ p.affinity + n ∧ desc.rings = oneRing (p.affinity + n).toNat
    rw [← hadd]
    exact ⟨hle, hrings⟩
  · intro hk
    rw [← asks_start_iff hint hifnm]
    refine forall_congr' fun t => imp_congr_right fun ht => ?_
    rcases (mem_start_iff hifnm).1 ht with ⟨n, hn, rfl⟩
    exact (openNetmap_binds k w p.ifnm (isInt_toInt _)).2 hk

/-- Three options, the second interface name in place of the first. -/
def demoOptions : List Opt :=
  [⟨'i', some "lo".toList⟩, ⟨'p', some "11211".toList⟩, ⟨'i', some "eth4".toList⟩]

def demoProcess : Process :=
  { ifnm := "eth4".toList, affinity := 0, debug := 0, port := 11211 }

theorem setup_demoOptions :
    setup true ("nmmc".toList :: demoOptions.flatMap Opt.render) = .ok demoProcess := by
  have hknown : ∀ o ∈ demoOptions, o.Known optstring := by
    intro o ho
    simp only [demoOptions, List.mem_cons, List.not_mem_nil, or_false] at ho
    rcases ho with rfl | rfl | rfl
    · exact ⟨by decide, by decide⟩
    · exact ⟨by decide, by decide⟩
    · exact ⟨by decide, by decide⟩
  have hopts := getopt_render optstring hknown
  refine setup_iff.2 ⟨rfl, by decide, by decide, ?_⟩
  rw [List.tail_cons, hopts]
  decide

theorem rings_demoOptions :
    ∃ t ∈ start demoProcess, t.id = 7 ∧ ∃ dmac desc,
      ((openThread t).run (demoWorld.exec Sys.entries) ((), [])).1 = .opened dmac desc := by
  have hwilling : ∀ {r : Type} (c : Sys r) (w : Unit), Willing c (demoWorld.answer c w).1 := by
    intro r c w
    cases c <;> simp [Willing, demoWorld, demoAnswer]
  have hifnm : strncpy63 demoProcess.ifnm = demoProcess.ifnm := rfl
  have hmem := (mem_start_iff (p := demoProcess) hifnm).2 ⟨7, (by decide : 7 < threadCount), rfl⟩
  have hopens := ((rings_of_setup setup_demoOptions demoWorld ()).2.2 hwilling).2
    ⟨by decide, by decide, by decide, by decide⟩
  exact ⟨_, hmem, rfl, hopens _ hmem⟩

end Proc
end NmMemcached
