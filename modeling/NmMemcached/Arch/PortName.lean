import NmMemcached.Lib.Numerals
import NmMemcached.Lib.Runs

/-!
# PortName — the port names of `nm_open`

A port is `netmap:` and an interface, or `vale`, a bridge, a colon and a port of the bridge.  Behind
it stand the rings to bind (`^`, `*`, or `-`, `{`, `}` and a number), flags behind a `/` and memory
ids behind an `@`.  `nm_open` reads this with a state machine, `parsePort`; `PortName` is the
syntax.
-/

namespace NmMemcached
namespace Arch

open Lib Lib.Numerals

/-! ## The scan -/

def nrRegAllNic : BitVec 32 := 1
def nrRegSw : BitVec 32 := 2
def nrRegNicSw : BitVec 32 := 3
def nrRegOneNic : BitVec 32 := 4
def nrRegPipeMaster : BitVec 32 := 5
def nrRegPipeSlave : BitVec 32 := 6

def nrMonitorTx : BitVec 32 := 0x100
def nrMonitorRx : BitVec 32 := 0x200
def nrZcopyMon : BitVec 32 := 0x400
def nrExclusive : BitVec 32 := 0x800
def nrRxRingsOnly : BitVec 32 := 0x2000
def nrTxRingsOnly : BitVec 32 := 0x4000

def netmapRingMask : Nat := 0xfff

/-- `sizeof(d->req.nr_name)`. -/
def ifNamSiz : Nat := 16

inductive PState
  | start
  | rngsfxok
  | getnum
  | flags
  | flagsok
  | memid
  deriving DecidableEq

/-- What a port name says besides the name. -/
structure PortOptions where
  nrFlags : BitVec 32
  nrRingid : Nat
  nrArg2 : Nat
  deriving DecidableEq

structure PortScan extends PortOptions where
  port : List Char
  pState : PState
  deriving DecidableEq

def flagBit : Char → Option (BitVec 32)
  | 'x' => some nrExclusive
  | 'z' => some nrZcopyMon
  | 't' => some nrMonitorTx
  | 'r' => some nrMonitorRx
  | 'R' => some nrRxRingsOnly
  | 'T' => some nrTxRingsOnly
  | _ => none

/-- A message about a character. -/
def charMessage (what : String) (c : Char) : String := what ++ ": '" ++ c.toString ++ "'"

/-- `case P_START`, with the characters at `port`. -/
def scanStart (c : Char) (cs : List Char) (s : PortScan) : Except String PortScan :=
  if c = '^' then .ok { s with nrFlags := nrRegSw, pState := .rngsfxok, port := cs }
  else if c = '*' then .ok { s with nrFlags := nrRegNicSw, pState := .rngsfxok, port := cs }
  else if c = '-' then .ok { s with nrFlags := nrRegOneNic, pState := .getnum, port := cs }
  else if c = '\x7b' then .ok { s with nrFlags := nrRegPipeMaster, pState := .getnum, port := cs }
  else if c = '\x7d' then .ok { s with nrFlags := nrRegPipeSlave, pState := .getnum, port := cs }
  else if c = '/' then .ok { s with pState := .flags, port := cs }
  else if c = '@' then .ok { s with pState := .memid, port := cs }
  else .error (charMessage "unknown modifier" c)

/-- `case P_RNGSFXOK`. -/
def scanRngsfxok (c : Char) (cs : List Char) (s : PortScan) : Except String PortScan :=
  if c = '/' then .ok { s with pState := .flags, port := cs }
  else if c = '@' then .ok { s with pState := .memid, port := cs }
  else .error (charMessage "unexpected character" c)

/-- `case P_GETNUM`. -/
def scanGetnum (s : PortScan) : Except String PortScan :=
  let num := strtol s.port
  if num.1 < 0 ∨ (netmapRingMask : Int) ≤ num.1 then
    .error ("'" ++ String.ofList (decimal num.1) ++ "' out of range [0, 4095)")
  else
    .ok { s with nrRingid := num.1.toNat % (netmapRingMask + 1), pState := .rngsfxok,
                 port := num.2 }

/-- `case P_FLAGS` and `case P_FLAGSOK`. -/
def scanFlags (c : Char) (cs : List Char) (s : PortScan) : Except String PortScan :=
  if c = '@' then .ok { s with pState := .memid, port := cs }
  else
    match flagBit c with
    | some bit => .ok { s with nrFlags := s.nrFlags ||| bit, pState := .flagsok, port := cs }
    | none => .error (charMessage "unrecognized flag" c)

/-- `case P_MEMID`. -/
def scanMemid (s : PortScan) : Except String PortScan :=
  if s.nrArg2 ≠ 0 then .error "double setting of memid"
  else
    let num := strtol s.port
    if num.1 ≤ 0 then
      .error ("invalid memid " ++ String.ofList (decimal num.1) ++ ", must be >0")
    else
      -- `nr_arg2` has sixteen bits.
      .ok { s with nrArg2 := num.1.toNat % 65536, pState := .rngsfxok, port := num.2 }

/-- One turn of `while (*port)`. -/
def scanTurn (c : Char) (cs : List Char) (s : PortScan) : Except String PortScan :=
  match s.pState with
  | .start => scanStart c cs s
  | .rngsfxok => scanRngsfxok c cs s
  | .getnum => scanGetnum s
  | .flags | .flagsok => scanFlags c cs s
  | .memid => scanMemid s

/-- A turn that reads a number leaves its state, any other turn takes a character. -/
def PortScan.turns (s : PortScan) : Nat :=
  2 * s.port.length + if s.pState = .getnum ∨ s.pState = .memid then 1 else 0

/-- What a turn does to the text. -/
theorem scanTurn_port {c : Char} {cs : List Char} {s s' : PortScan}
    (h : scanTurn c cs s = .ok s') :
    s'.port = cs ∨ (s.pState = .getnum ∨ s.pState = .memid) ∧ s'.pState = .rngsfxok ∧
      s'.port = (strtol s.port).2 := by
  cases hstate : s.pState with
  | start =>
      simp only [scanTurn, hstate, scanStart] at h
      repeat' split at h
      all_goals cases h
      all_goals exact Or.inl rfl
  | rngsfxok =>
      simp only [scanTurn, hstate, scanRngsfxok] at h
      repeat' split at h
      all_goals cases h
      all_goals exact Or.inl rfl
  | getnum =>
      simp only [scanTurn, hstate, scanGetnum] at h
      split at h
      · cases h
      · cases h
        exact Or.inr ⟨Or.inl rfl, rfl, rfl⟩
  | flags =>
      simp only [scanTurn, hstate, scanFlags] at h
      repeat' split at h
      all_goals cases h
      all_goals exact Or.inl rfl
  | flagsok =>
      simp only [scanTurn, hstate, scanFlags] at h
      repeat' split at h
      all_goals cases h
      all_goals exact Or.inl rfl
  | memid =>
      simp only [scanTurn, hstate, scanMemid] at h
      split at h
      · cases h
      · split at h
        · cases h
        · cases h
          exact Or.inr ⟨Or.inr rfl, rfl, rfl⟩

theorem turns_scanTurn {c : Char} {cs : List Char} {s s' : PortScan} (hport : s.port = c :: cs)
    (h : scanTurn c cs s = .ok s') : s'.turns < s.turns := by
  have hlen : s.port.length = cs.length + 1 := by rw [hport, List.length_cons]
  rcases scanTurn_port h with htake | ⟨hs, hs', hread⟩
  · unfold PortScan.turns
    rw [htake, hlen]
    split <;> split <;> omega
  · have hle := length_strtol_le s.port
    have hno : ¬ (s'.pState = .getnum ∨ s'.pState = .memid) := by simp [hs']
    rw [PortScan.turns, PortScan.turns, if_pos hs, if_neg hno, hread]
    omega

/-- `while (*port)`. -/
def scanPort (s : PortScan) : Except String PortScan :=
  match _hport : s.port with
  | [] => .ok s
  | c :: cs =>
      match _hturn : scanTurn c cs s with
      | .error errmsg => .error errmsg
      | .ok s' => scanPort s'
termination_by s.turns
decreasing_by exact turns_scanTurn _hport _hturn

/-- The test behind the loop. -/
def endPort (s : PortScan) : Except String PortOptions :=
  if s.pState ≠ .start ∧ s.pState ≠ .rngsfxok ∧ s.pState ≠ .flagsok then
    .error "unexpected end of port name"
  else
    .ok s.toPortOptions

/-- The characters that end a name. -/
def separators : List Char := ['-', '*', '^', '\x7b', '\x7d', '/', '@']

def isSeparator (c : Char) : Bool := separators.contains c

/-- `nm_is_identifier`. -/
def nmIsIdentifier (cs : List Char) : Bool := cs.all fun c => c.isAlphanum || c == '_'

inductive NameError
  /-- The name is not for netmap; `errno` is zero. -/
  | notRecognised
  | fail (errmsg : String)
  deriving DecidableEq

structure PortReq extends PortOptions where
  nrName : List Char
  deriving DecidableEq

/-- The name and what is behind the separator. -/
def parseSuffix (name port : List Char) : Except NameError PortReq :=
  if ifNamSiz ≤ name.length then .error (.fail "name too long")
  else
    let start : PortScan :=
      { port := port, pState := .start, nrFlags := nrRegAllNic, nrRingid := 0, nrArg2 := 0 }
    match scanPort start >>= endPort with
    | .error errmsg => .error (.fail errmsg)
    | .ok options => .ok { options with nrName := name }

def netmapPrefix : List Char := "netmap:".toList

/-- `NM_BDG_NAME`. -/
def nmBdgName : List Char := "vale".toList

/-- The reading of `ifname` in `nm_open`; the text is the characters in front of the NUL. -/
def parsePort (ifname : List Char) : Except NameError PortReq :=
  if ¬ netmapPrefix <+: ifname ∧ ¬ nmBdgName <+: ifname then
    .error .notRecognised
  else if ifname.head? = some 'v' then
    match ifname.dropWhile (· ≠ ':') with
    | [] => .error (.fail "missing ':' in vale name")
    | _ :: vpname =>
        let bridge := ifname.takeWhile (· ≠ ':')
        let vport := vpname.takeWhile fun c => !isSeparator c
        if nmIsIdentifier (bridge.drop 4) = false then .error (.fail "invalid bridge name")
        else if nmIsIdentifier vport = false then .error (.fail "invalid bridge port name")
        else parseSuffix (bridge ++ ':' :: vport) (vpname.dropWhile fun c => !isSeparator c)
  else
    let port := ifname.drop 7
    parseSuffix (port.takeWhile fun c => !isSeparator c) (port.dropWhile fun c => !isSeparator c)

/-! ## The syntax -/

inductive Flag
  | exclusive
  | zcopyMon
  | monitorTx
  | monitorRx
  | rxRingsOnly
  | txRingsOnly
  deriving DecidableEq

def Flag.char : Flag → Char
  | .exclusive => 'x'
  | .zcopyMon => 'z'
  | .monitorTx => 't'
  | .monitorRx => 'r'
  | .rxRingsOnly => 'R'
  | .txRingsOnly => 'T'

def Flag.bit : Flag → BitVec 32
  | .exclusive => nrExclusive
  | .zcopyMon => nrZcopyMon
  | .monitorTx => nrMonitorTx
  | .monitorRx => nrMonitorRx
  | .rxRingsOnly => nrRxRingsOnly
  | .txRingsOnly => nrTxRingsOnly

def flagText (fs : List Flag) : List Char := fs.map Flag.char

def addFlags (bits : BitVec 32) (fs : List Flag) : BitVec 32 :=
  fs.foldl (fun b f => b ||| f.bit) bits

/-- `@` and a number, with the flags between a `/` and the `@` if there is a `/`. -/
structure MemId where
  flags : Option (List Flag)
  num : Numeral

namespace MemId

def text (m : MemId) : List Char :=
  match m.flags with
  | none => '@' :: m.num.text
  | some fs => '/' :: (flagText fs ++ '@' :: m.num.text)

def bits (m : MemId) : List Flag := m.flags.getD []

/-- What is left of the number in `nr_arg2`. -/
def arg2 (m : MemId) : Nat := (clip m.num.value).toNat % 65536

end MemId

/-- What stands behind the rings: memory ids, and flags that end the name. -/
structure PortTail where
  memids : List MemId
  flags : List Flag

namespace PortTail

def text (t : PortTail) : List Char :=
  t.memids.flatMap MemId.text ++ if t.flags = [] then [] else '/' :: flagText t.flags

def bits (t : PortTail) : List Flag := t.memids.flatMap MemId.bits ++ t.flags

/-- Memory ids are positive, and the state machine takes another one as long as `nr_arg2` is
zero. -/
def MemidsOk : Nat → List MemId → Prop
  | _, [] => True
  | arg2, m :: ms => arg2 = 0 ∧ 0 < m.num.value ∧ MemidsOk m.arg2 ms

def lastArg2 : Nat → List MemId → Nat
  | arg2, [] => arg2
  | _, m :: ms => lastArg2 m.arg2 ms

end PortTail

inductive PairKind
  | oneNic
  | pipeMaster
  | pipeSlave
  deriving DecidableEq

def PairKind.char : PairKind → Char
  | .oneNic => '-'
  | .pipeMaster => '\x7b'
  | .pipeSlave => '\x7d'

def PairKind.reg : PairKind → BitVec 32
  | .oneNic => nrRegOneNic
  | .pipeMaster => nrRegPipeMaster
  | .pipeSlave => nrRegPipeSlave

/-- The rings to bind.  The number of a pair is missing only where something else follows. -/
inductive RingSet
  | allNic
  | sw
  | nicSw
  | pair (kind : PairKind) (num : Option Numeral)

namespace RingSet

def text : RingSet → List Char
  | .allNic => []
  | .sw => ['^']
  | .nicSw => ['*']
  | .pair kind num => kind.char :: num.elim [] Numeral.text

def reg : RingSet → BitVec 32
  | .allNic => nrRegAllNic
  | .sw => nrRegSw
  | .nicSw => nrRegNicSw
  | .pair kind _ => kind.reg

def ringid : RingSet → Nat
  | .pair _ (some n) => n.value.toNat
  | _ => 0

def Ok (t : PortTail) : RingSet → Prop
  | .pair _ (some n) => 0 ≤ n.value ∧ n.value < netmapRingMask
  | .pair _ none => t.text ≠ []
  | _ => True

end RingSet

/-- A name without a separator, or a bridge and a port of it. -/
inductive PortBase
  | netmap (name : List Char)
  | vale (bridge vport : List Char)

namespace PortBase

/-- `nr_name`. -/
def name : PortBase → List Char
  | .netmap name => name
  | .vale bridge vport => nmBdgName ++ bridge ++ ':' :: vport

def text : PortBase → List Char
  | .netmap name => netmapPrefix ++ name
  | base => base.name

def Ok : PortBase → Prop
  | .netmap name => ∀ c ∈ name, isSeparator c = false
  | .vale bridge vport => nmIsIdentifier bridge = true ∧ nmIsIdentifier vport = true

end PortBase

structure PortName where
  base : PortBase
  rings : RingSet
  tail : PortTail

namespace PortName

def text (p : PortName) : List Char := p.base.text ++ (p.rings.text ++ p.tail.text)

structure Ok (p : PortName) : Prop where
  base : p.base.Ok
  name : p.base.name.length < ifNamSiz
  rings : p.rings.Ok p.tail
  memids : PortTail.MemidsOk 0 p.tail.memids

/-- What the name asks for. -/
def request (p : PortName) : PortReq :=
  { nrName := p.base.name
    nrFlags := addFlags p.rings.reg p.tail.bits
    nrRingid := p.rings.ringid
    nrArg2 := PortTail.lastArg2 0 p.tail.memids }

end PortName

end Arch
end NmMemcached
