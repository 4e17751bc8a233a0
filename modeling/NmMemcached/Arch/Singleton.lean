import NmMemcached.Lib.Runs

/-!
# Singleton — the shared socket of `src/nmmc_arch_impl_socket.cc`

All `Socket` objects share one datagram socket with its event loop.  The first `AddRef` opens it,
the last `Release` closes it, and one mutex is held by whoever is inside of `AddRef`, `Release`,
`Poll` or `Send`.  Each thread opens its `Socket`, polls and sends through it as often as it wants,
and gives it back; then it releases its server.

* A step is an acquisition of the mutex, or what is done under it, or what is done without it:
  `AddRef` reads `fd_` for its caller when it has let go of the mutex.
* A `Poll` is inside for as long as the event loop runs, and `OnRecv` is called in there.
* An exception ends the process.
-/

namespace NmMemcached
namespace Arch
namespace Singleton

open Lib

/-! ## Threads -/

/-- The next step of a thread that has a `Socket`. -/
inductive Pc
  | created
  | addWait
  | addBody
  | addReturn
  | opened
  | pollWait
  | pollLoop
  | sendWait
  | sendBody
  | releaseWait
  | releaseBody
  | closed
  | ended
  deriving DecidableEq

namespace Pc

/-- The thread has the mutex. -/
def inside : Pc → Bool
  | .addBody => true
  | .pollLoop => true
  | .sendBody => true
  | .releaseBody => true
  | _ => false

/-- `AddRef` has counted the thread, and `Release` has not yet. -/
def holds : Pc → Bool
  | .created => false
  | .addWait => false
  | .addBody => false
  | .closed => false
  | .ended => false
  | _ => true

/-- `Socket::fd_` has been set. -/
def hasFd : Pc → Bool
  | .addReturn => false
  | pc => pc.holds

end Pc

/-- `fd` is `Socket::fd_`. -/
structure Thread where
  pc : Pc
  fd : Int
  deriving DecidableEq

/-- `sock` in `received` is the descriptor that `OnRecv` reads from, `fd` the one it sends on. -/
inductive Mark
  | opened (fd : Int)
  | closed (fd : Int)
  | received (i : Nat) (server : Option Nat) (sock : Option Int) (fd : Int)
  | sent (i : Nat) (fd : Int)
  deriving DecidableEq

/-- `server` is the thread whose server `server_` points to, `sock` what the event loop listens
on. -/
structure State where
  owner : Option Nat
  ref : Nat
  fd : Int
  sock : Option Int
  server : Option Nat
  threads : List Thread
  running : Bool
  trace : List Mark

/-! ## Steps -/

/-- What a thread decides on, or the system for it. -/
inductive Choice
  | go
  | poll
  | send
  | release
  | socket (fd : Nat)
  | refused
  | deliver
  deriving DecidableEq

def setThread (s : State) (i : Nat) (t : Thread) : State :=
  { s with threads := s.threads.set i t }

/-- `pthread_mutex_lock`; a thread that has to wait takes no step. -/
def acquire (s : State) (i : Nat) (t : Thread) (pc : Pc) : State :=
  match s.owner with
  | some _ => s
  | none => setThread { s with owner := some i } i { t with pc := pc }

def throw (s : State) : State := { s with running := false }

/-- `AddRef` under the mutex, up to `pthread_mutex_unlock`. -/
def addBody (s : State) (i : Nat) (t : Thread) (c : Choice) : State :=
  let counted := setThread { s with owner := none, ref := (s.ref + 1) % 4294967296 } i
    { t with pc := .addReturn }
  if s.ref = 0 then
    match c with
    | .socket fd =>
        { counted with fd := fd, sock := some fd, trace := s.trace ++ [.opened fd] }
    -- One of the calls that set the socket up was refused.
    | _ => throw s
  else
    counted

/-- `Release` under the mutex. -/
def releaseBody (s : State) (i : Nat) (t : Thread) : State :=
  let counted := setThread { s with owner := none, ref := (s.ref + 4294967295) % 4294967296 } i
    { t with pc := .closed }
  if s.ref = 1 then { counted with trace := s.trace ++ [.closed s.fd] } else counted

def threadStep (s : State) (i : Nat) (t : Thread) (c : Choice) : State :=
  match t.pc with
  -- `FindMacAddr` comes first, and throws for an interface that is not there.
  | .created => if c = .refused then throw s else setThread s i { t with pc := .addWait }
  | .addWait => acquire s i t .addBody
  | .addBody => addBody s i t c
  | .addReturn => if s.fd = -1 then throw s else setThread s i { pc := .opened, fd := s.fd }
  | .opened =>
      match c with
      | .poll => setThread s i { t with pc := .pollWait }
      | .send => setThread s i { t with pc := .sendWait }
      | .release =>
          if t.fd = -1 then setThread s i { t with pc := .closed }
          else setThread s i { t with pc := .releaseWait }
      | _ => s
  | .pollWait =>
      -- `server_` is set before the event loop is entered.
      match s.owner with
      | some _ => s
      | none => setThread { s with owner := some i, server := some i } i { t with pc := .pollLoop }
  | .pollLoop =>
      if c = .deliver then
        { s with trace := s.trace ++ [.received i s.server s.sock s.fd] }
      else
        setThread { s with owner := none } i { t with pc := .opened }
  | .sendWait => acquire s i t .sendBody
  | .sendBody =>
      setThread { s with owner := none, trace := s.trace ++ [.sent i s.fd] } i
        { t with pc := .opened }
  | .releaseWait => acquire s i t .releaseBody
  | .releaseBody => releaseBody s i t
  | .closed => setThread s i { t with pc := .ended }
  | .ended => s

def step (s : State) (e : Nat × Choice) : State :=
  if s.running then
    match s.threads[e.1]? with
    | some t => threadStep s e.1 t e.2
    | none => s
  else
    s

/-- `n` threads, each with a `Socket` that was just built. -/
def init (n : Nat) : State :=
  { owner := none
    ref := 0
    fd := -1
    sock := none
    server := none
    threads := List.replicate n { pc := .created, fd := -1 }
    running := true
    trace := [] }

/-! ## The life of the socket -/

/-- The descriptor that is open behind a mark, when the mark is in order: it is opened when none
is, closed when it is, and used in between, by a thread that finds its own server in `server_`. -/
def lifeStep : Option Int → Mark → Option (Option Int)
  | none, .opened fd => some (some fd)
  | some fd, .closed fd' => if fd' = fd then some none else none
  | some fd, .received i server sock fd' =>
      if server = some i ∧ sock = some fd ∧ fd' = fd then some (some fd) else none
  | some fd, .sent _ fd' => if fd' = fd then some (some fd) else none
  | _, _ => none

def life (trace : List Mark) : Option (Option Int) := trace.foldlM lifeStep none

theorem life_append_singleton (trace : List Mark) (mark : Mark) :
    life (trace ++ [mark]) = (life trace).bind fun cur => lifeStep cur mark := by
  rw [life, List.foldlM_append]
  cases h : trace.foldlM lifeStep none <;> simp [life, h]

/-! ## The invariant -/

/-- How many threads are counted. -/
def holders (threads : List Thread) : Nat := threads.countP fun t => t.pc.holds

theorem holders_set {threads : List Thread} {i : Nat} {t t' : Thread}
    (h : threads[i]? = some t) :
    holders (threads.set i t') + (if t.pc.holds then 1 else 0) =
      holders threads + (if t'.pc.holds then 1 else 0) := by
  rcases List.getElem?_eq_some_iff.1 h with ⟨hi, rfl⟩
  have hset := @List.countP_set _ (fun t : Thread => t.pc.holds) threads i t' hi
  have hpos : threads[i].pc.holds = true → 0 < holders threads := fun hholds =>
    List.countP_pos_iff.2 ⟨threads[i], List.getElem_mem hi, hholds⟩
  unfold holders at hpos ⊢
  rw [hset]
  split
  · rename_i hholds
    have hone := hpos hholds
    omega
  · omega

theorem holders_le (threads : List Thread) : holders threads ≤ threads.length :=
  List.countP_le_length

structure Inv (n : Nat) (s : State) : Prop where
  length : s.threads.length = n
  ref : s.ref = holders s.threads
  owner : ∀ (i : Nat) (t : Thread), s.threads[i]? = some t → (t.pc.inside = true ↔ s.owner = some i)
  life : life s.trace = some (if s.ref = 0 then none else some s.fd)
  fd : s.ref ≠ 0 → 0 ≤ s.fd ∧ s.sock = some s.fd
  fds : ∀ (i : Nat) (t : Thread), s.threads[i]? = some t → t.pc.hasFd = true → t.fd = s.fd
  server : ∀ (i : Nat) (t : Thread), s.threads[i]? = some t → t.pc = .pollLoop → s.server = some i
  held : ∀ i, s.owner = some i → i < n

theorem inv_init (n : Nat) : Inv n (init n) := by
  have hthread : ∀ (i : Nat) (t : Thread), (init n).threads[i]? = some t →
      t = { pc := .created, fd := -1 } :=
    fun i t h => List.eq_of_mem_replicate (List.mem_of_getElem? h)
  refine ⟨by simp [init], ?_, ?_, rfl, fun h => absurd rfl h, ?_, ?_, nofun⟩
  · simp [init, holders, List.countP_replicate, Pc.holds]
  · intro i t h
    rw [hthread i t h]
    simp [init, Pc.inside]
  · intro i t h
    rw [hthread i t h]
    exact nofun
  · intro i t h
    rw [hthread i t h]
    exact nofun

/-- The thread at `i` goes from `t` to `t'`, and the rest changes from `s` to `s'`. -/
structure Replaces (s s' : State) (i : Nat) (t t' : Thread) : Prop where
  threads : s'.threads = s.threads.set i t'
  ref : s'.ref + (if t.pc.holds then 1 else 0) = s.ref + (if t'.pc.holds then 1 else 0)
  own : t'.pc.inside = true ↔ s'.owner = some i
  other : ∀ k, k ≠ i → (s'.owner = some k ↔ s.owner = some k)
  life : life s'.trace = some (if s'.ref = 0 then none else some s'.fd)
  fd : s'.ref ≠ 0 → 0 ≤ s'.fd ∧ s'.sock = some s'.fd
  same : s'.fd = s.fd ∨ s.ref = 0
  ownFd : t'.pc.hasFd = true → t'.fd = s'.fd
  server : s'.server = s.server ∨ s.owner = none
  ownServer : t'.pc = .pollLoop → s'.server = some i

theorem holds_of_hasFd {pc : Pc} (h : pc.hasFd = true) : pc.holds = true := by
  cases pc <;> first | rfl | exact absurd h (by decide)

theorem inv_replaces {n : Nat} {s s' : State} {i : Nat} {t t' : Thread} (h : Inv n s)
    (ht : s.threads[i]? = some t) (hr : Replaces s s' i t t') : Inv n s' := by
  have hthread : ∀ (k : Nat) (u : Thread), s'.threads[k]? = some u →
      (k = i ∧ u = t') ∨ (k ≠ i ∧ s.threads[k]? = some u) := by
    intro k u hu
    rw [hr.threads] at hu
    by_cases hk : k = i
    · rw [hk, List.getElem?_set_self (List.getElem?_eq_some_iff.1 ht).1] at hu
      exact Or.inl ⟨hk, (Option.some.inj hu).symm⟩
    · rw [List.getElem?_set_ne (Ne.symm hk)] at hu
      exact Or.inr ⟨hk, hu⟩
  -- Another thread that is counted keeps the socket open.
  have hcounted : ∀ (k : Nat) (u : Thread), s.threads[k]? = some u → u.pc.holds = true →
      s.ref ≠ 0 := by
    intro k u hu hholds hzero
    have hpos : 0 < holders s.threads := List.countP_pos_iff.2 ⟨u, List.mem_of_getElem? hu, hholds⟩
    rw [← h.ref] at hpos
    omega
  refine ⟨?_, ?_, ?_, hr.life, hr.fd, ?_, ?_, ?_⟩
  · rw [hr.threads, List.length_set, h.length]
  · have hset := @holders_set s.threads i t t' ht
    have hold := h.ref
    have hnew := hr.ref
    rw [hr.threads]
    omega
  · intro k u hu
    rcases hthread k u hu with ⟨rfl, rfl⟩ | ⟨hk, hold⟩
    · exact hr.own
    · exact (h.owner k u hold).trans (hr.other k hk).symm
  · intro k u hu hfd
    rcases hthread k u hu with ⟨rfl, rfl⟩ | ⟨hk, hold⟩
    · exact hr.ownFd hfd
    · rcases hr.same with hsame | hzero
      · rw [hsame]
        exact h.fds k u hold hfd
      · exact absurd hzero (hcounted k u hold (holds_of_hasFd hfd))
  · intro k u hu hpoll
    rcases hthread k u hu with ⟨rfl, rfl⟩ | ⟨hk, hold⟩
    · exact hr.ownServer hpoll
    · rcases hr.server with hsame | hfree
      · rw [hsame]
        exact h.server k u hold hpoll
      · -- Nobody polls without the mutex.
        have hown := (h.owner k u hold).1 (by rw [hpoll]; rfl)
        rw [hfree] at hown
        cases hown
  · intro k hk
    by_cases hki : k = i
    · rw [hki, ← h.length]
      exact (List.getElem?_eq_some_iff.1 ht).1
    · exact h.held k ((hr.other k hki).1 hk)

/-! ## Each step -/

section Steps

variable {n : Nat} {s : State} {i : Nat} {t : Thread} (h : Inv n s) (ht : s.threads[i]? = some t)
include h ht

/-- A step outside of the mutex. -/
theorem inv_quiet {pc : Pc} (hholds : pc.holds = t.pc.holds) (hold : t.pc.inside = false)
    (hnew : pc.inside = false) (hfd : pc.hasFd = true → t.pc.hasFd = true) :
    Inv n (setThread s i { t with pc := pc }) := by
  have hown := h.owner i t ht
  refine inv_replaces h ht
    { threads := rfl
      ref := by simp [setThread, hholds]
      own := by rw [hold] at hown; simpa [setThread, hnew] using hown
      other := fun _ _ => Iff.rfl
      life := h.life
      fd := h.fd
      same := Or.inl rfl
      ownFd := fun hpc => h.fds i t ht (hfd hpc)
      server := Or.inl rfl
      ownServer := ?_ }
  intro hpoll
  dsimp only at hpoll
  rw [hpoll] at hnew
  cases hnew

/-- The mutex is free, and the thread takes it. -/
theorem inv_enter {pc : Pc} {server : Option Nat} (hfree : s.owner = none)
    (hholds : pc.holds = t.pc.holds) (hnew : pc.inside = true)
    (hfd : pc.hasFd = true → t.pc.hasFd = true) (hpoll : pc = .pollLoop → server = some i) :
    Inv n (setThread { s with owner := some i, server := server } i { t with pc := pc }) :=
  inv_replaces h ht
    { threads := rfl
      ref := by simp [setThread, hholds]
      own := by simp [setThread, hnew]
      other := fun k hk => by simp [setThread, hfree, Ne.symm hk]
      life := h.life
      fd := h.fd
      same := Or.inl rfl
      ownFd := fun hpc => h.fds i t ht (hfd hpc)
      server := Or.inr hfree
      ownServer := hpoll }

theorem inv_acquire {pc : Pc} (hholds : pc.holds = t.pc.holds) (hnew : pc.inside = true)
    (hfd : pc.hasFd = true → t.pc.hasFd = true) (hpoll : pc ≠ .pollLoop) :
    Inv n (acquire s i t pc) := by
  cases hfree : s.owner with
  | some k =>
      simpa only [acquire, hfree] using h
  | none =>
      simp only [acquire, hfree]
      exact inv_enter h ht hfree hholds hnew hfd fun hpc => absurd hpc hpoll

/-- The thread lets go of the mutex and is counted as before. -/
theorem inv_leave {pc : Pc} {trace : List Mark} (hinside : t.pc.inside = true)
    (hholds : pc.holds = t.pc.holds) (hnew : pc.inside = false)
    (hfd : pc.hasFd = true → t.pc.hasFd = true)
    (hlife : life trace = some (if s.ref = 0 then none else some s.fd)) :
    Inv n (setThread { s with owner := none, trace := trace } i { t with pc := pc }) := by
  have hown := (h.owner i t ht).1 hinside
  refine inv_replaces h ht
    { threads := rfl
      ref := by simp [setThread, hholds]
      own := by simp [setThread, hnew]
      other := fun k hk => by simp [setThread, hown, Ne.symm hk]
      life := hlife
      fd := h.fd
      same := Or.inl rfl
      ownFd := fun hpc => h.fds i t ht (hfd hpc)
      server := Or.inl rfl
      ownServer := ?_ }
  intro hpoll
  dsimp only at hpoll
  rw [hpoll] at hnew
  cases hnew

omit ht in
theorem inv_throw : Inv n (throw s) :=
  ⟨h.length, h.ref, h.owner, h.life, h.fd, h.fds, h.server, h.held⟩

/-- A counted thread is a holder of the socket. -/
theorem ref_of_holds (hholds : t.pc.holds = true) : s.ref ≠ 0 := by
  have hpos : 0 < holders s.threads := List.countP_pos_iff.2 ⟨t, List.mem_of_getElem? ht, hholds⟩
  have href := h.ref
  omega

omit ht in
theorem ref_le : s.ref ≤ n := by
  rw [h.ref, ← h.length]
  exact holders_le s.threads

/-- Not all threads are counted when one is not. -/
theorem ref_lt (hholds : t.pc.holds = false) : s.ref < n := by
  have hset := @holders_set s.threads i t { t with pc := .opened } ht
  have hall := holders_le (s.threads.set i { t with pc := .opened })
  have href := h.ref
  have hlength := h.length
  have hnew : Pc.opened.holds = true := rfl
  simp only [hholds, hnew, Bool.false_eq_true, if_false, if_true] at hset
  rw [List.length_set] at hall
  omega

theorem inv_addBody (hn : n < 4294967296) (hpc : t.pc = .addBody) (c : Choice) :
    Inv n (addBody s i t c) := by
  have hlt := ref_lt h ht (by rw [hpc]; rfl)
  have hmod : (s.ref + 1) % 4294967296 = s.ref + 1 := Nat.mod_eq_of_lt (by omega)
  have hown := (h.owner i t ht).1 (by rw [hpc]; rfl)
  have hother : ∀ k, k ≠ i → ((none : Option Nat) = some k ↔ s.owner = some k) :=
    fun k hk => by simp [hown, Ne.symm hk]
  unfold addBody
  by_cases hzero : s.ref = 0
  · rw [if_pos hzero]
    cases c with
    | socket fd =>
        -- The socket is opened behind the life of the one before.
        have hlife : life (s.trace ++ [.opened fd]) = some (some (fd : Int)) := by
          rw [life_append_singleton, h.life, if_pos hzero]
          rfl
        refine inv_replaces h ht
          { threads := rfl
            ref := by simp [setThread, hmod, hpc, Pc.holds]
            own := by simp [setThread, Pc.inside]
            other := hother
            life := by simpa [setThread, hmod] using hlife
            fd := fun _ => ⟨Int.natCast_nonneg fd, rfl⟩
            same := Or.inr hzero
            ownFd := nofun
            server := Or.inl rfl
            ownServer := nofun }
    | _ => exact inv_throw h
  · rw [if_neg hzero]
    have hlife := h.life
    rw [if_neg hzero] at hlife
    exact inv_replaces h ht
      { threads := rfl
        ref := by simp [setThread, hmod, hpc, Pc.holds]
        own := by simp [setThread, Pc.inside]
        other := hother
        life := by simpa [setThread, hmod] using hlife
        fd := fun _ => h.fd hzero
        same := Or.inl rfl
        ownFd := nofun
        server := Or.inl rfl
        ownServer := nofun }

theorem inv_releaseBody (hn : n < 4294967296) (hpc : t.pc = .releaseBody) :
    Inv n (releaseBody s i t) := by
  have hne := ref_of_holds h ht (by rw [hpc]; rfl)
  have hle := ref_le h
  have hmod : (s.ref + 4294967295) % 4294967296 = s.ref - 1 := by omega
  have hcount : s.ref - 1 + 1 = s.ref := Nat.sub_add_cancel (Nat.one_le_iff_ne_zero.2 hne)
  have hown := (h.owner i t ht).1 (by rw [hpc]; rfl)
  have hother : ∀ k, k ≠ i → ((none : Option Nat) = some k ↔ s.owner = some k) :=
    fun k hk => by simp [hown, Ne.symm hk]
  have hlife := h.life
  rw [if_neg hne] at hlife
  unfold releaseBody
  by_cases hone : s.ref = 1
  · rw [if_pos hone]
    have hclosed : life (s.trace ++ [.closed s.fd]) = some none := by
      rw [life_append_singleton, hlife]
      simp [lifeStep]
    exact inv_replaces h ht
      { threads := rfl
        ref := by simp [setThread, hone, hpc, Pc.holds]
        own := by simp [setThread, Pc.inside]
        other := hother
        life := by simpa [setThread, hone] using hclosed
        fd := fun hnot => absurd (by simp [setThread, hone]) hnot
        same := Or.inl rfl
        ownFd := nofun
        server := Or.inl rfl
        ownServer := nofun }
  · rw [if_neg hone]
    have hmore : s.ref - 1 ≠ 0 := by omega
    exact inv_replaces h ht
      { threads := rfl
        ref := by simpa [setThread, hmod, hpc, Pc.holds] using hcount
        own := by simp [setThread, Pc.inside]
        other := hother
        life := by simpa [setThread, hmod, hmore] using hlife
        fd := fun _ => h.fd hne
        same := Or.inl rfl
        ownFd := nofun
        server := Or.inl rfl
        ownServer := nofun }

/-- `AddRef` returns the descriptor that the caller's own reference keeps open. -/
theorem inv_addReturn (hpc : t.pc = .addReturn) :
    Inv n (setThread s i { pc := .opened, fd := s.fd }) := by
  have hown := h.owner i t ht
  rw [hpc] at hown
  exact inv_replaces h ht
    { threads := rfl
      ref := by simp [setThread, hpc, Pc.holds]
      own := hown
      other := fun _ _ => Iff.rfl
      life := h.life
      fd := h.fd
      same := Or.inl rfl
      ownFd := fun _ => rfl
      server := Or.inl rfl
      ownServer := nofun }

/-- `OnRecv` finds the server of the thread that polls. -/
theorem inv_deliver (hpc : t.pc = .pollLoop) :
    Inv n { s with trace := s.trace ++ [.received i s.server s.sock s.fd] } := by
  have hne := ref_of_holds h ht (by rw [hpc]; rfl)
  have hlife := h.life
  rw [if_neg hne] at hlife
  refine ⟨h.length, h.ref, h.owner, ?_, h.fd, h.fds, h.server, h.held⟩
  rw [life_append_singleton, hlife, if_neg hne]
  simp [lifeStep, h.server i t ht hpc, (h.fd hne).2]

end Steps

theorem inv_threadStep {n : Nat} (hn : n < 4294967296) {s : State} (h : Inv n s) {i : Nat}
    {t : Thread} (ht : s.threads[i]? = some t) (c : Choice) : Inv n (threadStep s i t c) := by
  cases hpc : t.pc with
  | created =>
      simp only [threadStep, hpc]
      split
      · exact inv_throw h
      · exact inv_quiet h ht (by rw [hpc]; rfl) (by rw [hpc]; rfl) rfl nofun
  | addWait =>
      simp only [threadStep, hpc]
      exact inv_acquire h ht (by rw [hpc]; rfl) rfl nofun nofun
  | addBody =>
      simp only [threadStep, hpc]
      exact inv_addBody h ht hn hpc c
  | addReturn =>
      simp only [threadStep, hpc]
      split
      · exact inv_throw h
      · exact inv_addReturn h ht hpc
  | opened =>
      have hgo : ∀ pc : Pc, pc.holds = true → pc.inside = false →
          Inv n (setThread s i { t with pc := pc }) := fun pc hholds hinside =>
        inv_quiet h ht (by rw [hpc, hholds]; rfl) (by rw [hpc]; rfl) hinside fun _ => by
          rw [hpc]
          rfl
      cases c with
      | poll =>
          simpa only [threadStep, hpc] using hgo .pollWait rfl rfl
      | send =>
          simpa only [threadStep, hpc] using hgo .sendWait rfl rfl
      | release =>
          -- The descriptor is not -1, so the reference is given back.
          have hfd := h.fds i t ht (by rw [hpc]; rfl)
          have hopen := (h.fd (ref_of_holds h ht (by rw [hpc]; rfl))).1
          have hset : t.fd ≠ -1 := by omega
          simpa only [threadStep, hpc, hset, if_false] using hgo .releaseWait rfl rfl
      | _ =>
          simpa only [threadStep, hpc] using h
  | pollWait =>
      simp only [threadStep, hpc]
      split
      · exact h
      · rename_i hfree
        exact inv_enter h ht hfree (by rw [hpc]; rfl) rfl (fun _ => by rw [hpc]; rfl) fun _ => rfl
  | pollLoop =>
      simp only [threadStep, hpc]
      split
      · exact inv_deliver h ht hpc
      · exact inv_leave h ht (by rw [hpc]; rfl) (by rw [hpc]; rfl) rfl (fun _ => by rw [hpc]; rfl)
          h.life
  | sendWait =>
      simp only [threadStep, hpc]
      exact inv_acquire h ht (by rw [hpc]; rfl) rfl (fun _ => by rw [hpc]; rfl) nofun
  | sendBody =>
      have hne := ref_of_holds h ht (by rw [hpc]; rfl)
      simp only [threadStep, hpc]
      refine inv_leave h ht (by rw [hpc]; rfl) (by rw [hpc]; rfl) rfl (fun _ => by rw [hpc]; rfl) ?_
      rw [life_append_singleton, h.life, if_neg hne]
      simp [lifeStep]
  | releaseWait =>
      simp only [threadStep, hpc]
      exact inv_acquire h ht (by rw [hpc]; rfl) rfl (fun _ => by rw [hpc]; rfl) nofun
  | releaseBody =>
      simp only [threadStep, hpc]
      exact inv_releaseBody h ht hn hpc
  | closed =>
      simp only [threadStep, hpc]
      exact inv_quiet h ht (by rw [hpc]; rfl) (by rw [hpc]; rfl) rfl nofun
  | ended =>
      simpa only [threadStep, hpc] using h

theorem inv_step {n : Nat} (hn : n < 4294967296) {s : State} (h : Inv n s) (e : Nat × Choice) :
    Inv n (step s e) := by
  unfold step
  split
  · cases ht : s.threads[e.1]? with
    | none =>
        exact h
    | some t =>
        exact inv_threadStep hn h ht e.2
  · exact h

theorem inv_run {n : Nat} (hn : n < 4294967296) {s : State} (h : Inv n s)
    (es : List (Nat × Choice)) : Inv n (run step s es) :=
  run_history step (P := fun _ s => Inv n s) h (fun _ e hs => inv_step hn hs e) es

/-! ## The way to the end -/

/-- The steps in front of a thread that makes no call any more but the last. -/
def left : Pc → Nat
  | .created => 12
  | .addWait => 11
  | .addBody => 10
  | .addReturn => 9
  | .pollWait => 8
  | .pollLoop => 7
  | .sendWait => 8
  | .sendBody => 7
  | .opened => 6
  | .releaseWait => 5
  | .releaseBody => 4
  | .closed => 3
  | .ended => 0

/-- The mutex is free, or it is the thread's. -/
def Free (s : State) (i : Nat) : Prop := s.owner = none ∨ s.owner = some i

/-- A thread that need not wait for the mutex has a step that brings it nearer to its end. -/
theorem nearer {n : Nat} {s : State} (h : Inv n s) {i : Nat} {t : Thread}
    (ht : s.threads[i]? = some t) (hrunning : s.running = true) (hfree : Free s i)
    (hpc : t.pc ≠ .ended) :
    ∃ c t', (step s (i, c)).running = true ∧ (step s (i, c)).threads = s.threads.set i t' ∧
      left t'.pc < left t.pc ∧ Free (step s (i, c)) i := by
  have hown := h.owner i t ht
  have hstep : ∀ c, step s (i, c) = threadStep s i t c := by
    intro c
    simp [step, hrunning, ht]
  -- A thread in front of the mutex does not have it.
  have hnone : t.pc.inside = false → s.owner = none := by
    intro hout
    rcases hfree with hnone | hmine
    · exact hnone
    · rw [hown.2 hmine] at hout
      cases hout
  cases hp : t.pc with
  | created =>
      refine ⟨.go, { t with pc := .addWait }, ?_⟩
      simpa [hstep, threadStep, hp, setThread, hrunning, left, Free] using hfree
  | addWait =>
      have hout := hnone (by rw [hp]; rfl)
      exact ⟨.go, { t with pc := .addBody }, by
        simp [hstep, threadStep, hp, acquire, hout, setThread, hrunning, left, Free]⟩
  | addBody =>
      by_cases hzero : s.ref = 0 <;>
        exact ⟨.socket 0, { t with pc := .addReturn }, by
          simp [hstep, threadStep, hp, addBody, hzero, setThread, hrunning, left, Free]⟩
  | addReturn =>
      have hopen := (h.fd (ref_of_holds h ht (by rw [hp]; rfl))).1
      have hset : s.fd ≠ -1 := by omega
      refine ⟨.go, { pc := .opened, fd := s.fd }, ?_⟩
      simpa [hstep, threadStep, hp, hset, setThread, hrunning, left, Free] using hfree
  | opened =>
      have hopen := (h.fd (ref_of_holds h ht (by rw [hp]; rfl))).1
      have hfd := h.fds i t ht (by rw [hp]; rfl)
      have hset : t.fd ≠ -1 := by omega
      refine ⟨.release, { t with pc := .releaseWait }, ?_⟩
      simpa [hstep, threadStep, hp, hset, setThread, hrunning, left, Free] using hfree
  | pollWait =>
      have hout := hnone (by rw [hp]; rfl)
      exact ⟨.go, { t with pc := .pollLoop }, by
        simp [hstep, threadStep, hp, hout, setThread, hrunning, left, Free]⟩
  | pollLoop =>
      exact ⟨.go, { t with pc := .opened }, by
        simp [hstep, threadStep, hp, setThread, hrunning, left, Free]⟩
  | sendWait =>
      have hout := hnone (by rw [hp]; rfl)
      exact ⟨.go, { t with pc := .sendBody }, by
        simp [hstep, threadStep, hp, acquire, hout, setThread, hrunning, left, Free]⟩
  | sendBody =>
      exact ⟨.go, { t with pc := .opened }, by
        simp [hstep, threadStep, hp, setThread, hrunning, left, Free]⟩
  | releaseWait =>
      have hout := hnone (by rw [hp]; rfl)
      exact ⟨.go, { t with pc := .releaseBody }, by
        simp [hstep, threadStep, hp, acquire, hout, setThread, hrunning, left, Free]⟩
  | releaseBody =>
      by_cases hone : s.ref = 1 <;>
        exact ⟨.go, { t with pc := .closed }, by
          simp [hstep, threadStep, hp, releaseBody, hone, setThread, hrunning, left, Free]⟩
  | closed =>
      refine ⟨.go, { t with pc := .ended }, ?_⟩
      simpa [hstep, threadStep, hp, setThread, hrunning, left, Free] using hfree
  | ended =>
      exact absurd hp hpc

/-- A state from which everything can go on. -/
structure Going (n : Nat) (s : State) : Prop extends Inv n s where
  running : s.running = true

/-- A thread that need not wait comes to its end, and the others stay where they are. -/
theorem reaches_ended {n : Nat} (hn : n < 4294967296) {s : State} (h : Going n s) {i : Nat}
    {t : Thread} (ht : s.threads[i]? = some t) (hfree : Free s i) :
    Reaches step (fun s' => Going n s' ∧ s'.owner = none ∧
      ∃ t' : Thread, t'.pc = .ended ∧ s'.threads = s.threads.set i t') s := by
  generalize hj : left t.pc = j
  induction j using Nat.strongRecOn generalizing s t with
  | ind j ih =>
      by_cases hpc : t.pc = .ended
      · refine reaches_now ⟨h, ?_, t, hpc, ?_⟩
        · rcases hfree with hnone | hmine
          · exact hnone
          · have hinside := (h.owner i t ht).2 hmine
            rw [hpc] at hinside
            cases hinside
        · rcases List.getElem?_eq_some_iff.1 ht with ⟨hi, rfl⟩
          exact (List.set_getElem_self hi).symm
      · rcases nearer h.toInv ht h.running hfree hpc with ⟨c, t', hrunning, hthreads, hless, hfree'⟩
        have ht' : (step s (i, c)).threads[i]? = some t' := by
          rw [hthreads, List.getElem?_set_self (List.getElem?_eq_some_iff.1 ht).1]
        refine reaches_step (i, c) ?_
        refine (ih _ (hj ▸ hless) ⟨inv_step hn h.toInv _, hrunning⟩ ht' hfree' rfl).bind ?_
        rintro s' ⟨hgoing, hnone, u, hu, hset⟩
        refine reaches_now ⟨hgoing, hnone, u, hu, ?_⟩
        rw [hset, hthreads, List.set_set]

theorem reaches_allEnded {n : Nat} (hn : n < 4294967296) {s : State} (h : Going n s)
    (hfree : s.owner = none) {m : Nat} (hm : m ≤ n) :
    Reaches step (fun s' => (Going n s' ∧ s'.owner = none) ∧
      ∀ (i : Nat) (t : Thread), i < m → s'.threads[i]? = some t → t.pc = .ended) s := by
  induction m with
  | zero =>
      exact reaches_now ⟨⟨h, hfree⟩, fun i t hi => absurd hi (Nat.not_lt_zero i)⟩
  | succ m ih =>
      refine (ih (by omega)).bind ?_
      rintro s' ⟨⟨hgoing, hnone⟩, hbelow⟩
      have hlt : m < s'.threads.length := by
        rw [hgoing.length]
        exact hm
      have ht : s'.threads[m]? = some s'.threads[m] := List.getElem?_eq_getElem hlt
      refine (reaches_ended hn hgoing ht (Or.inl hnone)).bind ?_
      rintro s'' ⟨hgoing', hnone', u, hu, hset⟩
      refine reaches_now ⟨⟨hgoing', hnone'⟩, ?_⟩
      intro i t hi hit
      rw [hset] at hit
      by_cases him : i = m
      · rw [him, List.getElem?_set_self hlt] at hit
        rw [← Option.some.inj hit]
        exact hu
      · rw [List.getElem?_set_ne (Ne.symm him)] at hit
        exact hbelow i t (by omega) hit

/-- From every state some order of steps ends all threads. -/
theorem reaches_end {n : Nat} (hn : n < 4294967296) {s : State} (h : Going n s) :
    Reaches step (fun s' => Going n s' ∧ ∀ t ∈ s'.threads, t.pc = .ended) s := by
  have hfree : Reaches step (fun s' => Going n s' ∧ s'.owner = none) s := by
    cases howner : s.owner with
    | none =>
        exact reaches_now ⟨h, howner⟩
    | some i =>
        -- The owner goes first.
        have hlt : i < s.threads.length := by
          rw [h.length]
          exact h.held i howner
        have ht : s.threads[i]? = some s.threads[i] := List.getElem?_eq_getElem hlt
        refine (reaches_ended hn h ht (Or.inr howner)).bind ?_
        rintro s' ⟨hgoing, hnone, _⟩
        exact reaches_now ⟨hgoing, hnone⟩
  refine hfree.bind ?_
  rintro s' ⟨hgoing, hnone⟩
  refine (reaches_allEnded hn hgoing hnone (Nat.le_refl n)).bind ?_
  rintro s'' ⟨⟨hend, _⟩, hall⟩
  refine reaches_now ⟨hend, ?_⟩
  intro t hmem
  rcases List.getElem?_of_mem hmem with ⟨i, hi⟩
  have hlt : i < n := by
    rw [← hend.length]
    exact (List.getElem?_eq_some_iff.1 hi).1
  exact hall i t hlt hi

/-- Every run of the threads that share the socket.  As many references are counted as threads
have one; the socket is opened once, closed with the last of them and used in between only, by a
thread that finds its own server in `server_`; each thread has been given the open descriptor.
Nobody waits for ever: some order of steps ends all threads, with the socket closed. -/
theorem shared_socket {n : Nat} (hn : n < 4294967296) (es : List (Nat × Choice)) :
    ((run step (init n) es).ref = holders (run step (init n) es).threads ∧
      life (run step (init n) es).trace =
        some (if (run step (init n) es).ref = 0 then none
          else some (run step (init n) es).fd) ∧
      ∀ t ∈ (run step (init n) es).threads, t.pc.hasFd = true →
        t.fd = (run step (init n) es).fd ∧ 0 ≤ t.fd) ∧
    ((run step (init n) es).running = true →
      Reaches step (fun s => (∀ t ∈ s.threads, t.pc = .ended) ∧ s.running = true ∧
        life s.trace = some none) (run step (init n) es)) := by
  have hinv := inv_run hn (inv_init n) es
  generalize run step (init n) es = s at hinv
  refine ⟨⟨hinv.ref, hinv.life, ?_⟩, ?_⟩
  · intro t hmem hfd
    rcases List.getElem?_of_mem hmem with ⟨i, hi⟩
    have hsame := hinv.fds i t hi hfd
    refine ⟨hsame, ?_⟩
    rw [hsame]
    exact (hinv.fd (ref_of_holds hinv hi (holds_of_hasFd hfd))).1
  · intro hrunning
    refine (reaches_end hn ⟨hinv, hrunning⟩).bind ?_
    rintro s' ⟨hgoing, hall⟩
    refine reaches_now ⟨hall, hgoing.running, ?_⟩
    -- Nobody is counted any more.
    have hzero : holders s'.threads = 0 := by
      refine List.countP_eq_zero.2 fun t ht => ?_
      rw [hall t ht]
      decide
    rw [hgoing.life, if_pos (hgoing.ref.trans hzero)]

/-- Two threads open the socket, one of them polls, and the first gives it back. -/
def twoThreads : List (Nat × Choice) :=
  [(0, .go), (1, .go), (0, .go), (1, .go), (0, .socket 5), (1, .go), (0, .go), (1, .go), (1, .go),
    (1, .poll), (1, .go), (1, .deliver), (0, .release), (0, .go), (1, .go), (0, .go), (0, .go)]

theorem shared_socket_twoThreads :
    life (run step (init 2) twoThreads).trace = some (some 5) ∧
      Reaches step (fun s => (∀ t ∈ s.threads, t.pc = .ended) ∧ s.running = true ∧
        life s.trace = some none) (run step (init 2) twoThreads) := by
  have hall := shared_socket (by decide : 2 < 4294967296) twoThreads
  refine ⟨?_, hall.2 (by decide)⟩
  rw [hall.1.2.1]
  decide

end Singleton
end Arch
end NmMemcached
