import Mathlib.Logic.Function.Basic
import NmMemcached.Server.OnRecieve

/-!
# Netmap — the zero-copy transport of `src/nmmc_arch_impl_netmap.cc`

`processRing` takes the frames of an rx ring one by one, parses each in its buffer, lets one of
`onUdp`, `onArp` and `onIcmp` rewrite it there, and sends an answer by exchanging the buffers of
the rx slot and the next tx slot.  The rings are those of the vendored `net/netmap.h`; the slots of
both index one pool of buffers.

The handlers return what the source returns, the packet as they leave it and, where the server is
involved, the state of the database.
-/

namespace NmMemcached
namespace Arch

open Lib Base Net

/-! ## Rings -/

/-- `NS_BUF_CHANGED`. -/
def nsBufChanged : BitVec 16 := 0x0001

structure NetmapSlot where
  bufIdx : Nat
  len : Nat
  flags : BitVec 16
  deriving DecidableEq

structure NetmapRing where
  numSlots : Nat
  head : Nat
  cur : Nat
  tail : Nat
  flags : Nat
  slot : Nat → NetmapSlot

def nmRingNext (r : NetmapRing) (i : Nat) : Nat :=
  if i + 1 = r.numSlots then 0 else i + 1

/-- `ret` is an `int`, the result is unsigned. -/
def nmRingSpace (r : NetmapRing) : Nat :=
  let ret : BitVec 32 := BitVec.ofNat 32 r.tail - BitVec.ofNat 32 r.cur
  let ret := if ret.toInt < 0 then ret + BitVec.ofNat 32 r.numSlots else ret
  ret.toNat

/-! ## Frame handlers -/

/-- A hardware address; `dmac_` is one. -/
structure Mac where
  bytes : List UInt8
  length_bytes : bytes.length = 6

def swapMac (pkt : Packet) : Packet :=
  let eh := pkt.header .ether
  let tmpMac := pkt.data.read eh 6
  (pkt.writeAt eh (pkt.data.read (eh + 6) 6)).writeAt (eh + 6) tmpMac

/-- Offset of `ip_dst` in the packet. -/
def ipDst (pkt : Packet) : Nat := pkt.header .ip + 16

/-- `(uint8_t)((ip_dst.s_addr>>8)&0xFF)`; `s_addr` is loaded in host order. -/
def dstOct3 (pkt : Packet) : BitVec 8 :=
  (pkt.data.le32 (ipDst pkt) >>> 8 &&& 0xFF#32).setWidth 8

/-- `INTERNAL_IP_OCT3 + (hash%USECORE_COUNT)`, as an octet. -/
def internalOct3 (hash : BitVec 32) : BitVec 8 :=
  ((internalIpOct3.setWidth 32 + hash % BitVec.ofNat 32 usecoreCount) &&& 0xFF#32).setWidth 8

/-- The destination address with its octet replaced. -/
def internalAddr (addr hash : BitVec 32) : BitVec 32 :=
  (addr &&& 0xFFFF00FF#32) ||| ((internalOct3 hash).setWidth 32 <<< 8)

/-- `OnUdp`; `recv` is `server_->OnRecieve`. -/
def onUdp {σ : Type*} (recv : Packet → σ → Nat × Packet × σ) (pkt : Packet) (db : σ) :
    Nat × Packet × σ :=
  let pkt := swapMac pkt
  let oct3 := dstOct3 pkt
  if oct3 = externalIpOct3 then
    if pkt.len > headerLen then
      let h := pkt.payload
      -- `Length()` is the length of the whole frame.
      if Header.bodylen pkt.data h + headerLen = pkt.len then
        let hash := hash32 pkt.data (h + headerLen) (Header.keylen pkt.data h)
        let addr := internalAddr (pkt.data.le32 (ipDst pkt)) hash
        (needSend, pkt.writeAt (ipDst pkt) (Mem.le32Bytes addr), db)
      else (0, pkt, db)
    else (0, pkt, db)
  else if oct3 = internalIpOct3 then recv pkt db
  else (0, pkt, db)

/-- `OnArp`: `ether_arp` has its operation at 6, the sender at 8 and 14, the target at 18 and
24. -/
def onArp (dmac : Mac) (pkt : Packet) : Nat × Packet :=
  let pkt := swapMac pkt
  let arp := pkt.header .arp
  let pkt := pkt.writeAt arp (Mem.be16Bytes 1 ++ Mem.be16Bytes Packet.ethertypeIp ++ [6, 4] ++
    Mem.be16Bytes 2)
  -- Sender and target change places, through a copy of the ARP header.
  let tarp := pkt.data
  let pkt := pkt.writeAt (arp + 24) (tarp.read (arp + 14) 4)
  let pkt := pkt.writeAt (arp + 18) (tarp.read (arp + 8) 6)
  let pkt := pkt.writeAt (arp + 14) (tarp.read (arp + 24) 4)
  let pkt := pkt.writeAt (arp + 8) dmac.bytes
  (needSend, pkt.writeAt (pkt.header .ether + 6) (pkt.data.read (arp + 8) 6))

def icmp6EchoRequest : UInt8 := 128
def icmp6EchoReply : UInt8 := 129
def ndNeighborSolicit : UInt8 := 135
def ndNeighborAdvert : UInt8 := 136

/-- `pkt->Length() - hlen`, an unsigned difference. -/
def icmpLen (pkt : Packet) : Nat :=
  let hlen := Packet.etherLen + pkt.lenVlan + pkt.lenIpv
  (BitVec.ofNat 32 pkt.len - BitVec.ofNat 32 hlen).toNat

/-- A checksum field is cleared, then set to the checksum over `len` bytes from `data` on. -/
def writeCksum (pkt : Packet) (off data len : Nat) : Packet :=
  let pkt := pkt.writeAt off [0, 0]
  pkt.writeAt off (Mem.be16Bytes (wrapsum (checkSum pkt.data data len 0)))

def onIcmpV4 (pkt : Packet) : Packet :=
  let ip := pkt.header .ip
  let icmp := pkt.header .icmp
  let tmpAddr := pkt.data.read (ip + 16) 4
  let pkt := pkt.writeAt (ip + 16) (pkt.data.read (ip + 12) 4)
  let pkt := pkt.writeAt (ip + 12) tmpAddr
  let pkt := writeCksum pkt (ip + 10) ip 20
  let pkt := pkt.writeAt icmp [0]
  writeCksum pkt (icmp + 2) icmp (icmpLen pkt)

/-- The advertisement for a solicitation; its checksum is taken before the option is written. -/
def ndAdvert (dmac : Mac) (pkt : Packet) : Packet :=
  let icmp := pkt.header .icmp
  let pkt := pkt.writeAt (icmp + 4) [0x60, 0, 0, 0]
  let pkt := pkt.writeAt icmp [ndNeighborAdvert]
  let pkt := pkt.writeAt (icmp + 1) [0]
  let pkt := writeCksum pkt (icmp + 2) icmp (icmpLen pkt)
  let pkt := pkt.writeAt (icmp + 24) [2]
  let pkt := pkt.writeAt (icmp + 25) [1]
  pkt.writeAt (icmp + 26) dmac.bytes

def onIcmpV6 (dmac : Mac) (pkt : Packet) : Packet :=
  let ip := pkt.header .ip
  let icmp := pkt.header .icmp
  let tmpAddr := pkt.data.read (ip + 24) 16
  let pkt := pkt.writeAt (ip + 24) (pkt.data.read (ip + 8) 16)
  let pkt := pkt.writeAt (ip + 8) tmpAddr
  if pkt.data icmp = icmp6EchoRequest then
    writeCksum (pkt.writeAt icmp [icmp6EchoReply]) (icmp + 2) icmp (icmpLen pkt)
  else if pkt.data icmp = ndNeighborSolicit then
    ndAdvert dmac pkt
  else
    pkt

def onIcmp (dmac : Mac) (pkt : Packet) : Nat × Packet :=
  let pkt := swapMac pkt
  if Packet.chkEthertype pkt.data Packet.ethertypeIp then (needSend, onIcmpV4 pkt)
  else (needSend, onIcmpV6 dmac pkt)

/-! ## Rings of frames -/

section Rings

universe u

variable {σ : Type u}

/-- What the members of `Netmap` and its server give to `ProcessRing`. -/
structure Netmap (σ : Type u) where
  dmac : Mac
  server : Server σ

/-- What one call of `ProcessRing` works on; `buf` is `NETMAP_BUF`. -/
structure RingPair (σ : Type u) where
  rx : NetmapRing
  tx : NetmapRing
  buf : Nat → Mem
  db : σ

/-- The dispatch on the packet type. -/
def onPacket (nm : Netmap σ) (pkt : Packet) (db : σ) : Nat × Packet × σ :=
  match pkt.type with
  | .udp => onUdp (Server.onRecieve nm.server) pkt db
  | .arp => let res := onArp nm.dmac pkt; (res.1, res.2, db)
  | .icmp => let res := onIcmp nm.dmac pkt; (res.1, res.2, db)
  | _ => (0, pkt, db)

/-- `Send`: the rx slot and the tx slot exchange their buffers. -/
def send (rxslot txslot : NetmapSlot) (pkt : Packet) : NetmapSlot × NetmapSlot :=
  ({ bufIdx := txslot.bufIdx
     len := pkt.len % 65536
     flags := rxslot.flags ||| nsBufChanged },
   { bufIdx := rxslot.bufIdx
     len := pkt.len % 65536
     flags := txslot.flags ||| nsBufChanged })

namespace NetmapRing

def setSlot (r : NetmapRing) (i : Nat) (s : NetmapSlot) : NetmapRing :=
  { r with slot := Function.update r.slot i s }

/-- `head = cur = i`. -/
def moveTo (r : NetmapRing) (i : Nat) : NetmapRing :=
  { r with head := i, cur := i }

def clearFlags (r : NetmapRing) : NetmapRing :=
  { r with flags := 0 }

end NetmapRing

/-- The state of the loop of `ProcessRing`: `rxCur` and `txCur` are `rxring_cur_work` and
`txring_cur_work`. -/
structure RingLoop (σ : Type u) extends RingPair σ where
  rxCur : Nat
  txCur : Nat
  processCount : Nat

/-- A slot with a wrong length is handled as an empty frame. -/
def checkLen (s : NetmapSlot) : NetmapSlot :=
  if s.len > 2048 then { s with len := 0 } else s

/-- The frame of a turn, parsed in its buffer. -/
def RingLoop.frame (st : RingLoop σ) : Packet :=
  let rxslot := checkLen (st.rx.slot st.rxCur)
  Packet.ofFrame (st.buf rxslot.bufIdx) rxslot.len

/-- One turn of the loop. -/
def ringTurn (nm : Netmap σ) (st : RingLoop σ) : RingLoop σ :=
  let rxslot := checkLen (st.rx.slot st.rxCur)
  let txslot := st.tx.slot st.txCur
  let res := onPacket nm st.frame st.db
  let buf := Function.update st.buf rxslot.bufIdx res.2.1.data
  if res.1 &&& needSend ≠ 0 then
    -- An answer takes the next tx slot; any other frame stays where it is.
    let slots := send rxslot txslot res.2.1
    { rx := st.rx.setSlot st.rxCur slots.1
      tx := st.tx.setSlot st.txCur slots.2
      buf := buf
      db := res.2.2
      rxCur := nmRingNext st.rx st.rxCur
      txCur := nmRingNext st.tx st.txCur
      processCount := st.processCount + 1 }
  else
    { rx := st.rx.setSlot st.rxCur rxslot
      tx := st.tx
      buf := buf
      db := res.2.2
      rxCur := nmRingNext st.rx st.rxCur
      txCur := st.txCur
      processCount := st.processCount + 1 }

/-- `while (limit-- > 0)`. -/
def ringLoop (nm : Netmap σ) : Nat → RingLoop σ → RingLoop σ
  | 0, st => st
  | limit + 1, st => ringLoop nm limit (ringTurn nm st)

/-- The rings as the loop finds them. -/
def clearRingFlags (p : RingPair σ) : RingPair σ :=
  if p.rx.flags ≠ 0 ∨ p.tx.flags ≠ 0 then
    { p with rx := p.rx.clearFlags, tx := p.tx.clearFlags }
  else p

def processRing (nm : Netmap σ) (p : RingPair σ) : Nat × RingPair σ :=
  let p := clearRingFlags p
  -- Every frame could be answered, so it needs room in the tx ring.
  let limit := min (min p.rx.numSlots (nmRingSpace p.rx)) (nmRingSpace p.tx)
  let st := ringLoop nm limit
    { p with rxCur := p.rx.cur, txCur := p.tx.cur, processCount := 0 }
  (st.processCount,
    { rx := st.rx.moveTo st.rxCur
      tx := st.tx.moveTo st.txCur
      buf := st.buf
      db := st.db })

end Rings

end Arch
end NmMemcached
