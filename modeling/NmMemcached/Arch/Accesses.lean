import NmMemcached.Arch.Frames
import NmMemcached.Server.Accesses

/-!
# Accesses — what `ProcessRing` reads and writes in a frame

The constructor of `Packet` and the three handlers as programs over the buffer of a frame, in the
order of the source.  A handler gets the fields the constructor filled in, but no bytes:
everything it knows of the frame it has loaded.  `run_onFrameProg` says that the whole is the turn
of `ProcessRing`.
-/

namespace NmMemcached
namespace Arch

open Lib Base Net Server

/-- What a `Packet` holds besides its buffer. -/
structure Fields where
  len : Nat
  lenVlan : Nat
  lenIpv : Nat
  offset : PacketId → Nat
  type : PacketId

def fields (pkt : Packet) : Fields :=
  { len := pkt.len
    lenVlan := pkt.lenVlan
    lenIpv := pkt.lenIpv
    offset := pkt.offset
    type := pkt.type }

/-! ## The constructor -/

/-- `LEN_VLAN(e)`. -/
def vlanLenProg : Prog Nat := do
  let t ← Prog.be16 12
  if t = Packet.ethertypeVlan then
    let t ← Prog.be16 16
    return if t = Packet.ethertypeVlan then 8 else 4
  else return 0

/-- `CHK_ETHERTYPE(e, t)`. -/
def chkEthertypeProg (t : Nat) : Prog Bool := do
  let outer ← Prog.be16 12
  if outer = Packet.ethertypeVlan then
    let inner ← Prog.be16 16
    if inner = Packet.ethertypeVlan then
      let last ← Prog.be16 18
      return decide (last = t)
    else return decide (inner = t)
  else return decide (outer = t)

def frameTypeProg (ip : Nat) : Prog PacketId := do
  let isIp ← chkEthertypeProg Packet.ethertypeIp
  if isIp then
    let p ← Prog.byte (ip + 9)
    if p = Packet.ipprotoUdp then return .udp
    if p ≠ Packet.ipprotoIcmp then return .dc
    let ttl ← Prog.byte (ip + 8)
    return if ttl ≠ 0 then .icmp else .dc
  let isIpv6 ← chkEthertypeProg Packet.ethertypeIpv6
  if isIpv6 then
    let nxt ← Prog.byte (ip + 6)
    if nxt = Packet.ipprotoIcmpv6 then
      let hlim ← Prog.byte (ip + 7)
      return if hlim ≠ 0 then .icmp else .dc
    return if nxt = Packet.ipprotoUdp then .udp else .dc
  let isArp ← chkEthertypeProg Packet.ethertypeArp
  return if isArp then .arp else .dc

/-- The offsets behind `lenVlan` bytes of tags and an IP header of `lenIpv` bytes. -/
def offsets (lenVlan lenIpv : Nat) : PacketId → Nat
  | .dc => 0
  | .ether => 0
  | .ip => Packet.etherLen + lenVlan
  | .udp => Packet.etherLen + lenVlan + lenIpv
  | .arp => Packet.etherLen + lenVlan
  | .icmp => Packet.etherLen + lenVlan + lenIpv
  | .payload => Packet.etherLen + lenVlan + lenIpv + 8

/-- `Packet(char*, int)`. -/
def ofFrameProg (len : Nat) : Prog Fields := do
  let lenVlan ← vlanLenProg
  let ip ← Prog.byte (Packet.etherLen + lenVlan)
  let lenIpv := if ip.toNat / 16 = 4 then ip.toNat % 16 * 4 else 40
  let type ← frameTypeProg (Packet.etherLen + lenVlan)
  return { len, lenVlan, lenIpv, offset := offsets lenVlan lenIpv, type }

/-! ## The handlers -/

def swapMacProg (pkt : Fields) : Prog Unit := do
  let eh := pkt.offset .ether
  let tmpMac ← Prog.bytes eh 6
  let shost ← Prog.bytes (eh + 6) 6
  Prog.store eh shost
  Prog.store (eh + 6) tmpMac

def onArpProg (dmac : Mac) (pkt : Fields) : Prog Nat := do
  swapMacProg pkt
  let arp := pkt.offset .arp
  Prog.store arp (Mem.be16Bytes 1 ++ Mem.be16Bytes Packet.ethertypeIp ++ [6, 4] ++ Mem.be16Bytes 2)
  let tarp ← Prog.load arp 28
  Prog.store (arp + 24) (tarp.read 14 4)
  Prog.store (arp + 18) (tarp.read 8 6)
  Prog.store (arp + 14) (tarp.read 24 4)
  Prog.store (arp + 8) dmac.bytes
  let sha ← Prog.bytes (arp + 8) 6
  Prog.store (pkt.offset .ether + 6) sha
  return needSend

/-- `pkt->Length() - hlen`. -/
def Fields.icmpLen (pkt : Fields) : Nat :=
  let hlen := Packet.etherLen + pkt.lenVlan + pkt.lenIpv
  (BitVec.ofNat 32 pkt.len - BitVec.ofNat 32 hlen).toNat

def writeCksumProg (off data len : Nat) : Prog Unit := do
  Prog.store off [0, 0]
  let sum ← checkSumProg data len 0
  Prog.store off (Mem.be16Bytes (wrapsum sum))

def onIcmpV4Prog (pkt : Fields) : Prog Unit := do
  let ip := pkt.offset .ip
  let icmp := pkt.offset .icmp
  let tmpAddr ← Prog.bytes (ip + 16) 4
  let src ← Prog.bytes (ip + 12) 4
  Prog.store (ip + 16) src
  Prog.store (ip + 12) tmpAddr
  writeCksumProg (ip + 10) ip 20
  Prog.store icmp [0]
  writeCksumProg (icmp + 2) icmp pkt.icmpLen

/-- The target of the solicitation is logged. -/
def ndAdvertProg (dmac : Mac) (pkt : Fields) : Prog Unit := do
  let icmp := pkt.offset .icmp
  let _ ← Prog.bytes (icmp + 8) 16
  Prog.store (icmp + 4) [0x60, 0, 0, 0]
  Prog.store icmp [ndNeighborAdvert]
  Prog.store (icmp + 1) [0]
  writeCksumProg (icmp + 2) icmp pkt.icmpLen
  Prog.store (icmp + 24) [2]
  Prog.store (icmp + 25) [1]
  Prog.store (icmp + 26) dmac.bytes

/-- The exchange of the addresses of an IPv6 header. -/
def swapAddr6Prog (pkt : Fields) : Prog Unit := do
  let ip := pkt.offset .ip
  let tmpAddr ← Prog.bytes (ip + 24) 16
  let src ← Prog.bytes (ip + 8) 16
  Prog.store (ip + 24) src
  Prog.store (ip + 8) tmpAddr

def icmp6AnswerProg (dmac : Mac) (pkt : Fields) : Prog Unit := do
  let icmp := pkt.offset .icmp
  let type ← Prog.byte icmp
  if type = icmp6EchoRequest then
    Prog.store icmp [icmp6EchoReply]
    writeCksumProg (icmp + 2) icmp pkt.icmpLen
  else if type = ndNeighborSolicit then ndAdvertProg dmac pkt
  else return ()

def onIcmpV6Prog (dmac : Mac) (pkt : Fields) : Prog Unit := do
  swapAddr6Prog pkt
  icmp6AnswerProg dmac pkt

def onIcmpProg (dmac : Mac) (pkt : Fields) : Prog Nat := do
  swapMacProg pkt
  let isIp ← chkEthertypeProg Packet.ethertypeIp
  if isIp then onIcmpV4Prog pkt else onIcmpV6Prog dmac pkt
  return needSend

section Udp

variable {σ : Type}

/-- `OnUdp` behind `SwapMac`.  The result is the return value, `Length()` afterwards and the state
of the database. -/
def routeProg (srv : Server σ) (pkt : Fields) (db : σ) : Prog (Nat × Nat × σ) := do
  let dst := pkt.offset .ip + 16
  let addr ← Prog.le32 dst
  let oct3 : BitVec 8 := (addr >>> 8 &&& 0xFF#32).setWidth 8
  if oct3 = externalIpOct3 then
    if pkt.len > headerLen then
      let h := pkt.offset .payload
      let bodylen ← Prog.be32 (h + 8)
      if bodylen + headerLen = pkt.len then
        let keylen ← Prog.be16 (h + 2)
        let hash ← hash32Prog (h + headerLen) keylen
        Prog.store dst (Mem.le32Bytes (internalAddr addr hash))
        return (needSend, pkt.len, db)
      else return (0, pkt.len, db)
    else return (0, pkt.len, db)
  else if oct3 = internalIpOct3 then onRecieveProg srv (pkt.offset .payload) pkt.len db
  else return (0, pkt.len, db)

def onUdpProg (srv : Server σ) (pkt : Fields) (db : σ) : Prog (Nat × Nat × σ) := do
  swapMacProg pkt
  routeProg srv pkt db

/-- A turn of `ProcessRing` on a frame of `len` bytes. -/
def onFrameProg (nm : Netmap σ) (len : Nat) (db : σ) : Prog (Nat × Nat × σ) := do
  let pkt ← ofFrameProg len
  match pkt.type with
  | .udp => onUdpProg nm.server pkt db
  | .arp =>
      let ret ← onArpProg nm.dmac pkt
      return (ret, pkt.len, db)
  | .icmp =>
      let ret ← onIcmpProg nm.dmac pkt
      return (ret, pkt.len, db)
  | _ => return (0, pkt.len, db)

end Udp

/-! ## The programs are the source -/

section Run

variable (m : Mem)

theorem run_vlanLenProg : vlanLenProg.run m = (Packet.vlanLen m, m) := by
  unfold vlanLenProg Packet.vlanLen
  simp only [Prog.run_bind, Prog.run_be16, Prog.after_mk, Prog.run_ite, Prog.run_pure]
  split_ifs <;> rfl

theorem run_chkEthertypeProg (t : Nat) :
    (chkEthertypeProg t).run m = (Packet.chkEthertype m t, m) := by
  unfold chkEthertypeProg Packet.chkEthertype
  simp only [Prog.run_bind, Prog.run_be16, Prog.after_mk, Prog.run_ite, Prog.run_pure]
  split_ifs <;> rfl

theorem run_frameTypeProg :
    (frameTypeProg (Packet.etherLen + Packet.vlanLen m)).run m = (Packet.frameType m, m) := by
  have hne : Packet.ipprotoUdp ≠ Packet.ipprotoIcmpv6 := by decide
  unfold frameTypeProg Packet.frameType
  simp only [Prog.run_bind, run_chkEthertypeProg, Prog.run_byte, Prog.after_mk, Prog.run_ite,
    Prog.run_pure]
  split_ifs <;> simp_all

theorem offsets_eq : offsets (Packet.vlanLen m) (Packet.ipvLen m) = Packet.frameOffset m := by
  funext id
  cases id <;> rfl

theorem run_ofFrameProg (len : Nat) :
    (ofFrameProg len).run m = (fields (Packet.ofFrame m len), m) := by
  unfold ofFrameProg
  simp only [Prog.run_bind, run_vlanLenProg, Prog.run_byte, Prog.after_mk, run_frameTypeProg,
    Prog.run_pure]
  have hoff := offsets_eq m
  unfold Packet.ipvLen at hoff
  rw [hoff]
  rfl

variable (pkt : Packet)

theorem run_writeCksumProg (off data len : Nat) :
    (writeCksumProg off data len).run m = ((), (m.write off [0, 0]).write off
      (Mem.be16Bytes (wrapsum (checkSum (m.write off [0, 0]) data len 0)))) := by
  simp only [writeCksumProg, Prog.run_bind, Prog.run_store, Prog.after_mk, run_checkSumProg]

theorem run_swapMacProg : (swapMacProg (fields pkt)).run pkt.data = ((), (swapMac pkt).data) := by
  simp only [swapMacProg, Prog.run_bind, Prog.run_bytes, Prog.run_store, Prog.after_mk]
  rfl

theorem run_onArpProg (dmac : Mac) :
    (onArpProg dmac (fields pkt)).run pkt.data =
      ((onArp dmac pkt).1, (onArp dmac pkt).2.data) := by
  simp only [onArpProg, Prog.run_bind, run_swapMacProg, Prog.run_store, Prog.run_load,
    Prog.run_bytes, Prog.run_pure, Prog.after_mk, Mem.read_window (show 14 + 4 ≤ 28 by decide),
    Mem.read_window (show 8 + 6 ≤ 28 by decide), Mem.read_window (show 24 + 4 ≤ 28 by decide)]
  rfl

theorem run_onIcmpV4Prog :
    (onIcmpV4Prog (fields pkt)).run pkt.data = ((), (onIcmpV4 pkt).data) := by
  simp only [onIcmpV4Prog, Prog.run_bind, Prog.run_store, Prog.run_bytes, Prog.after_mk,
    run_writeCksumProg]
  rfl

theorem run_ndAdvertProg (dmac : Mac) :
    (ndAdvertProg dmac (fields pkt)).run pkt.data = ((), (ndAdvert dmac pkt).data) := by
  simp only [ndAdvertProg, Prog.run_bind, Prog.run_store, Prog.run_bytes, Prog.after_mk,
    run_writeCksumProg]
  rfl

/-- The packet with the addresses exchanged. -/
def swapAddr6 (pkt : Packet) : Packet :=
  let ip := pkt.header .ip
  (pkt.writeAt (ip + 24) (pkt.data.read (ip + 8) 16)).writeAt (ip + 8) (pkt.data.read (ip + 24) 16)

/-- Byte by byte. -/
theorem data_swapAddr6 (a : Nat) :
    (swapAddr6 pkt).data a =
      if pkt.header .ip + 8 ≤ a ∧ a < pkt.header .ip + 24 then pkt.data (a + 16)
      else if pkt.header .ip + 24 ≤ a ∧ a < pkt.header .ip + 40 then pkt.data (a - 16)
      else pkt.data a := by
  have hdata : (swapAddr6 pkt).data =
      (pkt.data.write (pkt.header .ip + 24) (pkt.data.read (pkt.header .ip + 8) 16)).write
        (pkt.header .ip + 8) (pkt.data.read (pkt.header .ip + 24) 16) := rfl
  have hlen : ∀ off, (pkt.data.read off 16).length = 16 := fun off => Mem.length_read _ _ _
  rw [hdata]
  split_ifs with hdst hsrc
  · obtain ⟨j, rfl⟩ := Nat.exists_eq_add_of_le hdst.1
    rw [Mem.write_add (by rw [hlen]; omega), Mem.getElem_read]
    exact congrArg pkt.data (by omega)
  · obtain ⟨j, rfl⟩ := Nat.exists_eq_add_of_le hsrc.1
    rw [Mem.write_of_le (by rw [hlen]; omega), Mem.write_add (by rw [hlen]; omega),
      Mem.getElem_read]
    exact congrArg pkt.data (by omega)
  · rw [Mem.write_of_disjoint (by rw [hlen]; omega), Mem.write_of_disjoint (by rw [hlen]; omega)]

/-- The rest of `onIcmpV6`. -/
def icmp6Answer (dmac : Mac) (pkt : Packet) : Packet :=
  let icmp := pkt.header .icmp
  if pkt.data icmp = icmp6EchoRequest then
    writeCksum (pkt.writeAt icmp [icmp6EchoReply]) (icmp + 2) icmp (icmpLen pkt)
  else if pkt.data icmp = ndNeighborSolicit then ndAdvert dmac pkt
  else pkt

theorem onIcmpV6_eq (dmac : Mac) : onIcmpV6 dmac pkt = icmp6Answer dmac (swapAddr6 pkt) := rfl

theorem run_swapAddr6Prog :
    (swapAddr6Prog (fields pkt)).run pkt.data = ((), (swapAddr6 pkt).data) := by
  simp only [swapAddr6Prog, Prog.run_bind, Prog.run_bytes, Prog.run_store, Prog.after_mk]
  rfl

theorem run_icmp6AnswerProg (dmac : Mac) :
    (icmp6AnswerProg dmac (fields pkt)).run pkt.data = ((), (icmp6Answer dmac pkt).data) := by
  have htype : ∀ t, pkt.data ((fields pkt).offset .icmp) = t ↔ pkt.data (pkt.header .icmp) = t :=
    fun _ => Iff.rfl
  unfold icmp6AnswerProg icmp6Answer
  simp only [Prog.run_bind, Prog.run_store, Prog.run_byte, Prog.after_mk, Prog.run_ite,
    run_writeCksumProg, run_ndAdvertProg, Prog.run_pure, htype]
  split_ifs <;> rfl

theorem run_onIcmpV6Prog (dmac : Mac) :
    (onIcmpV6Prog dmac (fields pkt)).run pkt.data = ((), (onIcmpV6 dmac pkt).data) := by
  simp only [onIcmpV6Prog, Prog.run_bind, run_swapAddr6Prog, Prog.after_mk]
  exact run_icmp6AnswerProg (swapAddr6 pkt) dmac

theorem run_onIcmpProg (dmac : Mac) :
    (onIcmpProg dmac (fields pkt)).run pkt.data =
      ((onIcmp dmac pkt).1, (onIcmp dmac pkt).2.data) := by
  unfold onIcmpProg onIcmp
  simp only [Prog.run_bind, run_swapMacProg, Prog.after_mk, run_chkEthertypeProg, Prog.run_ite]
  have hv4 := run_onIcmpV4Prog (swapMac pkt)
  have hv6 := run_onIcmpV6Prog (swapMac pkt) dmac
  split_ifs
  · exact congrArg (Prog.after Prog.run fun _ => pure needSend) hv4
  · exact congrArg (Prog.after Prog.run fun _ => pure needSend) hv6

theorem len_icmp6Answer (dmac : Mac) : (icmp6Answer dmac pkt).len = pkt.len := by
  unfold icmp6Answer
  simp only
  split_ifs <;> rfl

theorem len_onIcmp (dmac : Mac) : (onIcmp dmac pkt).2.len = pkt.len := by
  unfold onIcmp
  simp only
  split_ifs
  · rfl
  · exact len_icmp6Answer (swapAddr6 (swapMac pkt)) dmac

/-- The rest of `onUdp`. -/
def route {σ : Type} (recv : Packet → σ → Nat × Packet × σ) (pkt : Packet) (db : σ) :
    Nat × Packet × σ :=
  let oct3 := dstOct3 pkt
  if oct3 = externalIpOct3 then
    if pkt.len > headerLen then
      let h := pkt.payload
      if Header.bodylen pkt.data h + headerLen = pkt.len then
        let hash := hash32 pkt.data (h + headerLen) (Header.keylen pkt.data h)
        let addr := internalAddr (pkt.data.le32 (ipDst pkt)) hash
        (needSend, pkt.writeAt (ipDst pkt) (Mem.le32Bytes addr), db)
      else (0, pkt, db)
    else (0, pkt, db)
  else if oct3 = internalIpOct3 then recv pkt db
  else (0, pkt, db)

theorem onUdp_eq {σ : Type} (recv : Packet → σ → Nat × Packet × σ) (db : σ) :
    onUdp recv pkt db = route recv (swapMac pkt) db := rfl

theorem run_routeProg {σ : Type} (srv : Server σ) (db : σ) :
    (routeProg srv (fields pkt) db).run pkt.data =
      (((route (onRecieve srv) pkt db).1, (route (onRecieve srv) pkt db).2.1.len,
        (route (onRecieve srv) pkt db).2.2), (route (onRecieve srv) pkt db).2.1.data) := by
  have hdst : (fields pkt).offset .ip + 16 = ipDst pkt := rfl
  have hpay : (fields pkt).offset .payload = pkt.payload := rfl
  have hlen : (fields pkt).len = pkt.len := rfl
  unfold routeProg route dstOct3 Header.bodylen Header.keylen
  simp only [Prog.run_bind, Prog.run_le32, Prog.run_be32, Prog.run_be16, run_hash32Prog,
    Prog.run_store, Prog.after_mk, Prog.run_ite, Prog.run_pure,
    run_onRecieveProg, hdst, hpay, hlen]
  split_ifs <;> rfl

theorem run_onUdpProg {σ : Type} (srv : Server σ) (db : σ) :
    (onUdpProg srv (fields pkt) db).run pkt.data =
      (((onUdp (onRecieve srv) pkt db).1, (onUdp (onRecieve srv) pkt db).2.1.len,
        (onUdp (onRecieve srv) pkt db).2.2), (onUdp (onRecieve srv) pkt db).2.1.data) := by
  simp only [onUdpProg, Prog.run_bind, run_swapMacProg, Prog.after_mk]
  exact run_routeProg (swapMac pkt) srv db

theorem run_onFrameProg {σ : Type} (nm : Netmap σ) (len : Nat) (db : σ) :
    (onFrameProg nm len db).run m =
      (((onPacket nm (Packet.ofFrame m len) db).1, (onPacket nm (Packet.ofFrame m len) db).2.1.len,
        (onPacket nm (Packet.ofFrame m len) db).2.2),
        (onPacket nm (Packet.ofFrame m len) db).2.1.data) := by
  have htype : (fields (Packet.ofFrame m len)).type = (Packet.ofFrame m len).type := rfl
  have hdata : (Packet.ofFrame m len).data = m := rfl
  have hudp := run_onUdpProg (Packet.ofFrame m len) nm.server db
  have harp := run_onArpProg (Packet.ofFrame m len) nm.dmac
  have hicmp := run_onIcmpProg (Packet.ofFrame m len) nm.dmac
  rw [hdata] at hudp harp hicmp
  unfold onFrameProg onPacket
  simp only [Prog.run_bind, run_ofFrameProg, Prog.after_mk, htype]
  cases (Packet.ofFrame m len).type with
  | udp =>
      exact hudp
  | arp =>
      exact (Prog.run_bind m _ _).trans (congrArg (Prog.after Prog.run _) harp)
  | icmp =>
      have hlen := len_onIcmp (Packet.ofFrame m len) nm.dmac
      simp only [Prog.run_bind, hicmp, Prog.after_mk, Prog.run_pure, hlen]
      rfl
  | dc =>
      rfl
  | ether =>
      rfl
  | ip =>
      rfl
  | payload =>
      rfl

end Run

end Arch
end NmMemcached
