import NmMemcached.Lib.Mem

/-!
# Packet — parsed frames and datagrams (`src/nmmc_packet.cc`)

A `Packet` is a buffer, a length and the offsets of the headers in the buffer.  The two
constructors fill them in: `ofFrame` parses an Ethernet frame, `ofDatagram` takes a bare UDP
payload, where every offset is zero.  `len` means the length of the whole frame in the first case
and of the payload in the second.
-/

namespace NmMemcached
namespace Net

open Lib

/-- `Packet::DC, ETHER, …`: both the header ids and the packet types. -/
inductive PacketId
  | dc
  | ether
  | ip
  | udp
  | payload
  | arp
  | icmp
  deriving DecidableEq, Repr

/-- The part of `sockaddr_in` that names a peer. -/
structure SockAddr where
  addr : BitVec 32
  port : BitVec 16
  deriving DecidableEq, Repr

structure Packet where
  data : Mem
  len : Nat
  lenVlan : Nat
  lenIpv : Nat
  offset : PacketId → Nat
  type : PacketId
  sa : SockAddr

namespace Packet

/-- `Header(id)`, as a distance from `data_`. -/
def header (pkt : Packet) (id : PacketId) : Nat := pkt.offset id

/-- `PAYLOAD(p)`. -/
def payload (pkt : Packet) : Nat := pkt.header .payload

/-- A packet whose buffer was written in place. -/
def writeAt (pkt : Packet) (off : Nat) (bs : List UInt8) : Packet :=
  { pkt with data := pkt.data.write off bs }

/-- `Length(int)`. -/
def setLength (pkt : Packet) (len : Nat) : Packet :=
  { pkt with len := len }

@[simp] theorem data_writeAt (pkt : Packet) (off : Nat) (bs : List UInt8) :
    (pkt.writeAt off bs).data = pkt.data.write off bs := rfl

@[simp] theorem len_writeAt (pkt : Packet) (off : Nat) (bs : List UInt8) :
    (pkt.writeAt off bs).len = pkt.len := rfl

@[simp] theorem header_writeAt (pkt : Packet) (off : Nat) (bs : List UInt8) (id : PacketId) :
    (pkt.writeAt off bs).header id = pkt.header id := rfl

@[simp] theorem payload_writeAt (pkt : Packet) (off : Nat) (bs : List UInt8) :
    (pkt.writeAt off bs).payload = pkt.payload := rfl

@[simp] theorem data_setLength (pkt : Packet) (len : Nat) :
    (pkt.setLength len).data = pkt.data := rfl

@[simp] theorem len_setLength (pkt : Packet) (len : Nat) : (pkt.setLength len).len = len := rfl

@[simp] theorem payload_setLength (pkt : Packet) (len : Nat) :
    (pkt.setLength len).payload = pkt.payload := rfl

/-! ## Datagrams -/

/-- `Packet(char*, int, sockaddr_in*, unsigned)`. -/
def ofDatagram (data : Mem) (len : Nat) (sa : SockAddr) : Packet :=
  { data := data
    len := len
    lenVlan := 0
    lenIpv := 0
    offset := fun _ => 0
    type := .udp
    sa := sa }

@[simp] theorem payload_ofDatagram (data : Mem) (len : Nat) (sa : SockAddr) :
    (ofDatagram data len sa).payload = 0 := rfl

/-! ## Frames -/

def ethertypeIp : Nat := 0x0800
def ethertypeArp : Nat := 0x0806
def ethertypeVlan : Nat := 0x8100
def ethertypeIpv6 : Nat := 0x86dd

def ipprotoIcmp : UInt8 := 1
def ipprotoUdp : UInt8 := 17
def ipprotoIcmpv6 : UInt8 := 58

/-- `sizeof(struct ether_header)`. -/
def etherLen : Nat := 14

/-- `LEN_VLAN(e)`. -/
def vlanLen (data : Mem) : Nat :=
  if data.be16 12 = ethertypeVlan then
    if data.be16 16 = ethertypeVlan then 8 else 4
  else
    0

/-- `CHK_ETHERTYPE(e, t)`. -/
def chkEthertype (data : Mem) (t : Nat) : Bool :=
  if data.be16 12 = ethertypeVlan then
    if data.be16 16 = ethertypeVlan then decide (data.be16 18 = t) else decide (data.be16 16 = t)
  else
    decide (data.be16 12 = t)

/-- `len_ipv_`: four times `ip_hl` when `ip_v` is 4, else `sizeof(struct ip6_hdr)`. -/
def ipvLen (data : Mem) : Nat :=
  if (data (etherLen + vlanLen data)).toNat / 16 = 4 then
    (data (etherLen + vlanLen data)).toNat % 16 * 4
  else
    -- `sizeof(struct ip6_hdr)`, for every version other than 4.
    40

def frameOffset (data : Mem) : PacketId → Nat
  | .dc => 0
  | .ether => 0
  | .ip => etherLen + vlanLen data
  | .udp => etherLen + vlanLen data + ipvLen data
  | .arp => etherLen + vlanLen data
  | .icmp => etherLen + vlanLen data + ipvLen data
  | .payload => etherLen + vlanLen data + ipvLen data + 8

/-- `type_`, from the ethertype, the protocol byte and the time to live. -/
def frameType (data : Mem) : PacketId :=
  let ip := etherLen + vlanLen data
  if chkEthertype data ethertypeIp then
    if data (ip + 9) = ipprotoUdp then .udp
    else if data (ip + 9) = ipprotoIcmp ∧ data (ip + 8) ≠ 0 then .icmp
    else .dc
  else if chkEthertype data ethertypeIpv6 then
    if data (ip + 6) = ipprotoIcmpv6 ∧ data (ip + 7) ≠ 0 then .icmp
    else if data (ip + 6) = ipprotoUdp then .udp
    else .dc
  else if chkEthertype data ethertypeArp then .arp
  else .dc

/-- `Packet(char*, int)`. -/
def ofFrame (data : Mem) (len : Nat) : Packet :=
  { data := data
    len := len
    lenVlan := vlanLen data
    lenIpv := ipvLen data
    offset := frameOffset data
    type := frameType data
    sa := { addr := 0, port := 0 } }

end Packet

end Net
end NmMemcached
