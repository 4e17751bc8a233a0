import NmMemcached.Arch.PortName
import NmMemcached.Arch.Queues
import NmMemcached.Lib.Ledger

/-!
# Open — how a worker gets its ring pair

`Netmap::Open` looks up the hardware address, prints the port name and calls `nm_open`; `~Netmap`
calls `nm_close`.  They are programs over the calls of the system, which answers as it likes.

Whatever the system answers, what they acquire is released, and no descriptor is used that is not
open (`settle_life`).
-/

namespace NmMemcached
namespace Arch

open Lib Lib.Numerals Lib.Ledger

/-! ## The system -/

/-- The outputs of NIOCREGIF. -/
structure RegAnswer where
  nrTxRings : Nat
  nrRxRings : Nat
  nrMemsize : Nat

/-- The calls, with the type of their answer; `none` and `false` are failures. -/
inductive Sys : Type → Type
  | socket : Sys (Option Nat)
  | hwaddr (fd : Nat) (ifname : List Char) : Sys (Option Mac)
  | addr (fd : Nat) (ifname : List Char) : Sys Bool
  | calloc : Sys Bool
  | openDev : Sys (Option Nat)
  | regif (fd : Nat) (req : PortReq) : Sys (Option RegAnswer)
  | mmap (fd size : Nat) : Sys Bool
  | munmap (size : Nat) : Sys Unit
  | close (fd : Nat) : Sys Unit
  | free : Sys Unit

inductive Resource
  | fd (n : Nat)
  | block
  | mapping (size : Nat)
  deriving DecidableEq

/-- What a call acquires, uses and releases. -/
def Sys.entries : {r : Type} → Sys r → r → List (Entry Resource)
  | _, .socket, some fd => [.acquired (.fd fd)]
  | _, .openDev, some fd => [.acquired (.fd fd)]
  | _, .hwaddr fd _, _ => [.used (.fd fd)]
  | _, .addr fd _, _ => [.used (.fd fd)]
  | _, .calloc, true => [.acquired .block]
  | _, .regif fd _, _ => [.used (.fd fd)]
  | _, .mmap fd size, true => [.used (.fd fd), .acquired (.mapping size)]
  | _, .mmap fd _, false => [.used (.fd fd)]
  | _, .munmap size, _ => [.released (.mapping size)]
  | _, .close fd, _ => [.released (.fd fd)]
  | _, .free, _ => [.released .block]
  | _, _, _ => []

/-! ## Opening and closing -/

/-- `GetInterface`; the interface address is read and not used. -/
def getInterface (ifname : List Char) : Program Sys (Option Mac) := do
  match ← Program.call Sys.socket with
  | none => pure none
  | some fd =>
      match ← Program.call (Sys.hwaddr fd ifname) with
      | none => do
          Program.call (Sys.close fd)
          pure none
      | some mac => do
          let _ ← Program.call (Sys.addr fd ifname)
          Program.call (Sys.close fd)
          pure (some mac)

/-- `struct nm_desc`. -/
structure Descriptor where
  fd : Option Nat
  memsize : Nat
  doneMmap : Bool
  req : PortReq
  rings : NmDesc

/-- `NR_REG_MASK`. -/
def nrRegMask : BitVec 32 := 0xf

/-- The ring indexes of a mode; they are `uint16_t`. -/
def ringRange (req : PortReq) (a : RegAnswer) : NmDesc :=
  let reg := req.nrFlags &&& nrRegMask
  if reg = nrRegSw then ⟨a.nrRxRings, a.nrRxRings, a.nrTxRings, a.nrTxRings⟩
  else if reg = nrRegAllNic then
    ⟨0, (a.nrRxRings + 65535) % 65536, 0, (a.nrTxRings + 65535) % 65536⟩
  else if reg = nrRegNicSw then ⟨0, a.nrRxRings, 0, a.nrTxRings⟩
  else if reg = nrRegOneNic then
    ⟨req.nrRingid % 4096, req.nrRingid % 4096, req.nrRingid % 4096, req.nrRingid % 4096⟩
  else ⟨0, 0, 0, 0⟩

def nmClose (d : Option Descriptor) : Program Sys Unit :=
  match d with
  | none => pure ()
  | some d => do
      if d.doneMmap then Program.call (Sys.munmap d.memsize)
      match d.fd with
      | none => pure ()
      | some fd => Program.call (Sys.close fd)
      Program.call Sys.free

/-- `nm_open(ifname, &base_nmd, 0, NULL)`, for a `base_nmd` of zeros. -/
def nmOpen (ifname : List Char) : Program Sys (Option Descriptor) :=
  match parsePort ifname with
  | .error .notRecognised => pure none
  | .error (.fail _) => do
      nmClose none
      pure none
  | .ok req => do
      if ← Program.call Sys.calloc then
        let d : Descriptor :=
          { fd := ← Program.call Sys.openDev
            memsize := 0
            doneMmap := false
            req := req
            rings := ⟨0, 0, 0, 0⟩ }
        match d.fd with
        | none => do
            nmClose (some d)
            pure none
        | some fd =>
            match ← Program.call (Sys.regif fd req) with
            | none => do
                nmClose (some d)
                pure none
            | some a =>
                let d := { d with memsize := a.nrMemsize }
                if ← Program.call (Sys.mmap fd a.nrMemsize) then
                  pure (some { d with doneMmap := true, rings := ringRange req a })
                else do
                  nmClose (some d)
                  pure none
      else
        pure none

/-- `nmbf`: 64 bytes, of which `snprintf` gets 63, the last for the NUL. -/
def nmbf (ifnm : List Char) (affinity : Int) : List Char :=
  (netmapPrefix ++ (ifnm ++ '-' :: decimal affinity)).take 62

/-- What `Open` comes to. -/
inductive OpenResult
  /-- `strcpy` went behind `ifr_name`. -/
  | overrun
  | thrown (what : String)
  | opened (dmac : Mac) (desc : Descriptor)

/-- `Netmap::Open`. -/
def openNetmap (ifnm : List Char) (affinity : Int) : Program Sys OpenResult :=
  if ifNamSiz ≤ ifnm.length then pure .overrun
  else do
    match ← getInterface ifnm with
    | none => pure (.thrown "invalid interface.")
    | some dmac =>
        match ← nmOpen (nmbf ifnm affinity) with
        | none => pure (.thrown "Unable open netmap desc")
        | some desc => pure (.opened dmac desc)

/-- `~Netmap`; `desc_` is set by an `Open` that came back. -/
def deleteNetmap : OpenResult → Program Sys Unit
  | .opened _ desc => nmClose (some desc)
  | _ => pure ()

/-- A transport from its `Open` to its end. -/
def life (ifnm : List Char) (affinity : Int) : Program Sys OpenResult := do
  let res ← openNetmap ifnm affinity
  deleteNetmap res
  pure res

/-! ## What is held -/

namespace Descriptor

def holds (d : Descriptor) : List Resource :=
  (if d.doneMmap then [.mapping d.memsize] else []) ++ d.fd.toList.map .fd ++ [.block]

/-- A descriptor that `nm_open` returns for a port name. -/
structure For (ifname : List Char) (d : Descriptor) : Prop where
  holds : ∃ fd, d.holds = [.mapping d.memsize, .fd fd, .block]
  req : parsePort ifname = .ok d.req
  rings : ∃ a, d.rings = ringRange d.req a

end Descriptor

def OpenResult.holds : OpenResult → List Resource
  | .opened _ desc => desc.holds
  | _ => []

/-- What an `Open` leaves held. -/
def OpenResult.Holds : OpenResult → List Resource → Prop
  | .opened _ desc, held => ∃ fd, held = [.mapping desc.memsize, .fd fd, .block]
  | _, held => held = []

theorem holds_of_for {ifname : List Char} {res : OpenResult}
    (h : ∀ dmac desc, res = .opened dmac desc → desc.For ifname) : res.Holds res.holds := by
  cases res with
  | overrun => rfl
  | thrown what => rfl
  | opened dmac desc => exact (h dmac desc rfl).holds

section Held

variable (Ok : {r : Type} → Sys r → r → Prop) {held : List Resource}

theorem leaves_getInterface (ifname : List Char) :
    Leaves Sys.entries Ok (fun _ h => h = held) (getInterface ifname) held := by
  rw [getInterface, leaves_bind, leaves_call]
  intro fd _
  cases fd with
  | none =>
      exact ⟨held, rfl, rfl⟩
  | some fd =>
      refine ⟨.fd fd :: held, rfl, ?_⟩
      rw [leaves_bind, leaves_call]
      intro mac _
      have hclose : settle (.fd fd :: held) (Sys.entries (Sys.close fd) ()) = some held := by
        simp [Sys.entries, settle]
      refine ⟨.fd fd :: held, by simp [Sys.entries, settle], ?_⟩
      cases mac with
      | none =>
          simp only [leaves_bind, leaves_call, leaves_pure]
          exact fun _ _ => ⟨held, hclose, rfl⟩
      | some mac =>
          simp only [leaves_bind, leaves_call, leaves_pure]
          intro ok _
          exact ⟨.fd fd :: held, by simp [Sys.entries, settle], fun _ _ => ⟨held, hclose, rfl⟩⟩

/-- `nm_close` releases what the descriptor holds. -/
theorem leaves_nmClose (d : Descriptor) :
    Leaves Sys.entries Ok (fun _ h => h = held) (nmClose (some d)) (d.holds ++ held) := by
  rcases d with ⟨fd, memsize, doneMmap, req, rings⟩
  cases doneMmap with
  | false =>
      cases fd with
      | none => simp [nmClose, Descriptor.holds, Sys.entries, settle]
      | some fd => simp [nmClose, Descriptor.holds, Sys.entries, settle]
  | true =>
      cases fd with
      | none => simp [nmClose, Descriptor.holds, Sys.entries, settle]
      | some fd => simp [nmClose, Descriptor.holds, Sys.entries, settle]

/-- A failed `nm_open` holds nothing, a descriptor what it says. -/
theorem leaves_nmOpen (ifname : List Char) :
    Leaves Sys.entries Ok
      (fun d h => h = d.elim [] Descriptor.holds ++ held ∧ ∀ desc ∈ d, desc.For ifname)
      (nmOpen ifname) held := by
  have hnone : ∀ desc ∈ (none : Option Descriptor), desc.For ifname := by simp
  unfold nmOpen
  split
  · exact ⟨rfl, hnone⟩
  · exact ⟨rfl, hnone⟩
  · next req hreq =>
      rw [leaves_bind, leaves_call]
      intro block _
      cases block with
      | false =>
          exact ⟨held, rfl, rfl, hnone⟩
      | true =>
          refine ⟨.block :: held, rfl, ?_⟩
          simp only [if_true, leaves_bind, leaves_call]
          intro fd _
          -- Every path that fails closes the descriptor as it is there.
          have hfail : ∀ d : Descriptor, d.doneMmap = false → d.fd = fd →
              Leaves Sys.entries Ok (fun (d : Option Descriptor) h =>
                h = d.elim [] Descriptor.holds ++ held ∧ ∀ desc ∈ d, desc.For ifname)
                (nmClose (some d) >>= fun _ => pure none)
                (fd.toList.map .fd ++ (.block :: held)) := by
            intro d hdone hfd
            have hclose : Leaves Sys.entries Ok (fun _ h => h = held) (nmClose (some d))
                (d.holds ++ held) := leaves_nmClose Ok d
            have hholds : d.holds ++ held = fd.toList.map .fd ++ (.block :: held) := by
              rw [Descriptor.holds, hdone, hfd]
              simp
            rw [hholds] at hclose
            rw [leaves_bind]
            exact hclose.mono _ _ fun _ h hh => ⟨hh, hnone⟩
          cases fd with
          | none =>
              exact ⟨.block :: held, rfl, hfail _ rfl rfl⟩
          | some fd =>
              refine ⟨.fd fd :: .block :: held, rfl, ?_⟩
              simp only [leaves_bind, leaves_call]
              intro answer _
              refine ⟨.fd fd :: .block :: held, by simp [Sys.entries, settle], ?_⟩
              cases answer with
              | none =>
                  exact hfail _ rfl rfl
              | some a =>
                  simp only [leaves_bind, leaves_call]
                  intro mapped _
                  cases mapped with
                  | false =>
                      exact ⟨.fd fd :: .block :: held, by simp [Sys.entries, settle],
                        hfail _ rfl rfl⟩
                  | true =>
                      refine ⟨.mapping a.nrMemsize :: .fd fd :: .block :: held,
                        by simp [Sys.entries, settle], rfl, ?_⟩
                      rintro desc ⟨rfl⟩
                      exact ⟨⟨fd, rfl⟩, hreq, a, rfl⟩

theorem leaves_openNetmap (ifnm : List Char) (affinity : Int) :
    Leaves Sys.entries Ok
      (fun res h => h = res.holds ++ held ∧ ∀ dmac desc, res = .opened dmac desc →
        ifnm.length < ifNamSiz ∧ desc.For (nmbf ifnm affinity))
      (openNetmap ifnm affinity) held := by
  unfold openNetmap
  split
  · exact ⟨rfl, by simp⟩
  · next hlen =>
      rw [leaves_bind]
      refine (leaves_getInterface Ok ifnm).mono _ _ ?_
      rintro mac h rfl
      cases mac with
      | none =>
          exact ⟨rfl, by simp⟩
      | some dmac =>
          simp only [leaves_bind]
          refine (leaves_nmOpen Ok (nmbf ifnm affinity)).mono _ _ ?_
          rintro desc h ⟨rfl, hfor⟩
          cases desc with
          | none =>
              exact ⟨rfl, by simp⟩
          | some desc =>
              refine ⟨rfl, ?_⟩
              rintro _ _ ⟨rfl, rfl⟩
              exact ⟨Nat.not_le.1 hlen, hfor desc rfl⟩

theorem leaves_deleteNetmap (res : OpenResult) :
    Leaves Sys.entries Ok (fun _ h => h = held) (deleteNetmap res) (res.holds ++ held) := by
  cases res with
  | overrun => rfl
  | thrown what => rfl
  | opened dmac desc => exact leaves_nmClose Ok desc

theorem leaves_life (ifnm : List Char) (affinity : Int) :
    Leaves Sys.entries Ok (fun _ h => h = held) (life ifnm affinity) held := by
  rw [life, leaves_bind]
  refine (leaves_openNetmap Ok ifnm affinity).mono _ _ ?_
  rintro res h ⟨rfl, _⟩
  rw [leaves_bind]
  exact (leaves_deleteNetmap Ok res).mono _ _ fun _ h hh => hh

end Held

/-- A system that may answer anything. -/
def Any {r : Type} (_ : Sys r) (_ : r) : Prop := True

/-- Whatever the system answers, and whatever else is held: calls are made on open descriptors only;
an `Open` that throws has released all it had acquired, one that comes back holds a block, a
descriptor and a mapping, and with the destructor these are released too, each once. -/
theorem settle_life {ω : Type} (k : World Sys ω) (s : ω × List (Entry Resource))
    {others : List Resource} (hs : settle [] s.2 = some others) (ifnm : List Char)
    (affinity : Int) :
    (∃ held, settle [] ((openNetmap ifnm affinity).run (k.exec Sys.entries) s).2.2 =
        some (held ++ others) ∧
      ((openNetmap ifnm affinity).run (k.exec Sys.entries) s).1.Holds held) ∧
    settle [] ((life ifnm affinity).run (k.exec Sys.entries) s).2.2 = some others := by
  have hany : ∀ {r : Type} (c : Sys r) (w : ω), Any c (k.answer c w).1 := fun _ _ => trivial
  constructor
  · rcases settle_run Sys.entries Any k hany (leaves_openNetmap Any ifnm affinity) hs with
      ⟨held, hheld, rfl, hfor⟩
    exact ⟨_, hheld, holds_of_for fun dmac desc hres => (hfor dmac desc hres).2⟩
  · rcases settle_run Sys.entries Any k hany (leaves_life Any ifnm affinity) hs with
      ⟨held, hheld, rfl⟩
    exact hheld

/-- A system with one interface and one region. -/
def demoAnswer : {r : Type} → Sys r → r
  | _, .socket => some 3
  | _, .hwaddr _ _ => some demoNetmap.dmac
  | _, .addr _ _ => true
  | _, .calloc => true
  | _, .openDev => some 3
  | _, .regif _ _ => some { nrTxRings := 8, nrRxRings := 8, nrMemsize := 343019520 }
  | _, .mmap _ _ => true
  | _, .munmap _ => ()
  | _, .close _ => ()
  | _, .free => ()

def demoWorld : World Sys Unit := ⟨fun c w => (demoAnswer c, w)⟩

theorem settle_demoWorld :
    settle [] ((life "eth4".toList 3).run (demoWorld.exec Sys.entries)
      ((), [.acquired (.fd 0)])).2.2 = some [.fd 0] :=
  (settle_life demoWorld ((), [.acquired (.fd 0)]) rfl "eth4".toList 3).2

end Arch
end NmMemcached
