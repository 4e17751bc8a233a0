import NmMemcached.Arch.Accesses

/-!
# Extents — the bytes that each handler needs

For the constructor and each handler, when all that it reads and writes is in the first `n` bytes
of the buffer.  The offsets come from the frame: its tags, its version nibble and its `ip_hl`; the
checksum ranges over what `Length()` leaves behind the headers, in words.
-/

namespace NmMemcached
namespace Arch

open Lib Base Net Server

/-! ## The constructor -/

section Constructor

variable (m : Mem) {n : Nat}

/-- The bytes the constructor looks at. -/
def frameReach : Nat :=
  let ip := Packet.etherLen + Packet.vlanLen m
  if Packet.chkEthertype m Packet.ethertypeIp then ip + 10
  else if Packet.chkEthertype m Packet.ethertypeIpv6 then
    if m (ip + 6) = Packet.ipprotoIcmpv6 then ip + 8 else ip + 7
  else ip + 1

theorem within_vlanLenProg (h : Packet.etherLen + Packet.vlanLen m ≤ n) :
    vlanLenProg.Within n m := by
  unfold vlanLenProg
  simp only [Prog.within_bind, Prog.within_be16, Prog.run_be16, Prog.after_mk, Prog.within_ite,
    Prog.within_pure]
  unfold Packet.vlanLen Packet.etherLen at h
  split_ifs at h ⊢ <;> simp only [and_true] <;> omega

theorem within_chkEthertypeProg (h : Packet.etherLen + Packet.vlanLen m ≤ n) (t : Nat) :
    (chkEthertypeProg t).Within n m := by
  unfold chkEthertypeProg
  simp only [Prog.within_bind, Prog.within_be16, Prog.run_be16, Prog.after_mk, Prog.within_ite,
    Prog.within_pure]
  unfold Packet.vlanLen Packet.etherLen at h
  split_ifs at h ⊢ <;> simp only [and_true] <;> omega

theorem within_frameTypeProg (h : Packet.etherLen + Packet.vlanLen m + 1 ≤ n) :
    (frameTypeProg (Packet.etherLen + Packet.vlanLen m)).Within n m ↔ frameReach m ≤ n := by
  have hle : Packet.etherLen + Packet.vlanLen m ≤ n := Nat.le_of_succ_le h
  have hchk : ∀ t, (chkEthertypeProg t).Within n m ↔ True := fun t =>
    iff_true_intro (within_chkEthertypeProg m hle t)
  unfold frameTypeProg frameReach
  simp only [Prog.within_bind, hchk, run_chkEthertypeProg, Prog.after_mk, Prog.within_ite,
    Prog.within_byte, Prog.run_byte, Prog.within_pure, true_and]
  split_ifs <;> simp only [and_true, true_iff] <;> omega

theorem within_ofFrameProg (len : Nat) : (ofFrameProg len).Within n m ↔ frameReach m ≤ n := by
  have hreach : Packet.etherLen + Packet.vlanLen m + 1 ≤ frameReach m := by
    unfold frameReach
    simp only
    split_ifs <;> omega
  unfold ofFrameProg
  simp only [Prog.within_bind, run_vlanLenProg, Prog.after_mk, Prog.within_byte, Prog.run_byte,
    run_frameTypeProg, Prog.within_pure, and_true]
  constructor
  · rintro ⟨_, hip, htype⟩
    exact (within_frameTypeProg m hip).1 htype
  · intro h
    have hip : Packet.etherLen + Packet.vlanLen m + 1 ≤ n := Nat.le_trans hreach h
    exact ⟨within_vlanLenProg m (Nat.le_of_succ_le hip), hip, (within_frameTypeProg m hip).2 h⟩

end Constructor

/-! ## The handlers -/

section Handlers

variable {n : Nat} (pkt : Packet)

theorem within_swapMacProg (m : Mem) :
    (swapMacProg (fields pkt)).Within n m ↔ pkt.header .ether + 12 ≤ n := by
  have heh : (fields pkt).offset .ether = pkt.header .ether := rfl
  simp only [swapMacProg, Prog.within_bind, Prog.within_bytes, Prog.run_bytes, Prog.after_mk,
    Prog.within_store, Prog.run_store, Mem.length_read, heh]
  omega

theorem within_onArpProg (dmac : Mac) :
    (onArpProg dmac (fields pkt)).Within n pkt.data ↔
      pkt.header .ether + 12 ≤ n ∧ pkt.header .arp + 28 ≤ n := by
  have heh : (fields pkt).offset .ether = pkt.header .ether := rfl
  have harp : (fields pkt).offset .arp = pkt.header .arp := rfl
  have hhead : (Mem.be16Bytes 1 ++ Mem.be16Bytes Packet.ethertypeIp ++ [6, 4] ++
    Mem.be16Bytes 2).length = 8 := rfl
  simp only [onArpProg, Prog.within_bind, within_swapMacProg, run_swapMacProg, Prog.within_bytes,
    Prog.run_bytes, Prog.after_mk, Prog.within_store, Prog.run_store, Prog.within_load,
    Prog.run_load, Prog.within_pure, Mem.length_read, dmac.length_bytes, hhead, heh, harp,
    and_true]
  omega

/-- The bytes of a checksum over `len` bytes from `data` on are within the first `n`. -/
def CksumWithin (n data len : Nat) : Prop :=
  len % 65536 = 0 ∨ data + len % 65536 + len % 65536 % 2 ≤ n

theorem within_writeCksumProg (m : Mem) (off data len : Nat) :
    (writeCksumProg off data len).Within n m ↔ off + 2 ≤ n ∧ CksumWithin n data len := by
  have hsum : ∀ sum, (Mem.be16Bytes (wrapsum sum)).length = 2 := fun _ => rfl
  simp only [writeCksumProg, Prog.within_bind, Prog.within_store, Prog.run_store, Prog.after_mk,
    within_checkSumProg, run_checkSumProg, hsum, CksumWithin, List.length_cons, List.length_nil]
  omega

theorem within_onIcmpV4Prog :
    (onIcmpV4Prog (fields pkt)).Within n pkt.data ↔
      pkt.header .ip + 20 ≤ n ∧ pkt.header .icmp + 4 ≤ n ∧
        CksumWithin n (pkt.header .icmp) (icmpLen pkt) := by
  have hip : (fields pkt).offset .ip = pkt.header .ip := rfl
  have hicmp : (fields pkt).offset .icmp = pkt.header .icmp := rfl
  have hlen : (fields pkt).icmpLen = icmpLen pkt := rfl
  have hhead : CksumWithin n (pkt.header .ip) 20 ↔ pkt.header .ip + 20 ≤ n := by
    unfold CksumWithin
    omega
  simp only [onIcmpV4Prog, Prog.within_bind, Prog.within_bytes, Prog.run_bytes, Prog.after_mk,
    Prog.within_store, Prog.run_store, within_writeCksumProg, run_writeCksumProg, Mem.length_read,
    hip, hicmp, hlen, hhead, List.length_cons, List.length_nil]
  unfold CksumWithin
  omega

theorem within_ndAdvertProg (dmac : Mac) (m : Mem) :
    (ndAdvertProg dmac (fields pkt)).Within n m ↔
      pkt.header .icmp + 32 ≤ n ∧ CksumWithin n (pkt.header .icmp) (icmpLen pkt) := by
  have hicmp : (fields pkt).offset .icmp = pkt.header .icmp := rfl
  have hlen : (fields pkt).icmpLen = icmpLen pkt := rfl
  simp only [ndAdvertProg, Prog.within_bind, Prog.within_bytes, Prog.run_bytes, Prog.after_mk,
    Prog.within_store, Prog.run_store, within_writeCksumProg, run_writeCksumProg,
    dmac.length_bytes, hicmp, hlen, List.length_cons, List.length_nil]
  unfold CksumWithin
  omega

theorem within_icmp6AnswerProg (dmac : Mac) :
    (icmp6AnswerProg dmac (fields pkt)).Within n pkt.data ↔
      pkt.header .icmp + 1 ≤ n ∧
        (pkt.data (pkt.header .icmp) = icmp6EchoRequest →
          pkt.header .icmp + 4 ≤ n ∧ CksumWithin n (pkt.header .icmp) (icmpLen pkt)) ∧
        (pkt.data (pkt.header .icmp) = ndNeighborSolicit →
          pkt.header .icmp + 32 ≤ n ∧ CksumWithin n (pkt.header .icmp) (icmpLen pkt)) := by
  have hicmp : (fields pkt).offset .icmp = pkt.header .icmp := rfl
  have hlen : (fields pkt).icmpLen = icmpLen pkt := rfl
  have hne : icmp6EchoRequest ≠ ndNeighborSolicit := by decide
  simp only [icmp6AnswerProg, Prog.within_bind, Prog.within_byte, Prog.run_byte, Prog.after_mk,
    Prog.within_ite, Prog.within_store, Prog.run_store, within_writeCksumProg,
    within_ndAdvertProg, Prog.within_pure, hicmp, hlen, List.length_cons, List.length_nil]
  by_cases hecho : pkt.data (pkt.header .icmp) = icmp6EchoRequest
  · simp only [hecho, if_true, true_implies, hne, false_implies, and_true]
    unfold CksumWithin
    omega
  · simp only [hecho, if_false, false_implies, true_and]
    split_ifs <;> simp_all

theorem within_onIcmpV6Prog (dmac : Mac) :
    (onIcmpV6Prog dmac (fields pkt)).Within n pkt.data ↔
      pkt.header .ip + 40 ≤ n ∧
        (icmp6AnswerProg dmac (fields (swapAddr6 pkt))).Within n (swapAddr6 pkt).data := by
  have hip : (fields pkt).offset .ip = pkt.header .ip := rfl
  have hswap : (swapAddr6Prog (fields pkt)).Within n pkt.data ↔ pkt.header .ip + 40 ≤ n := by
    simp only [swapAddr6Prog, Prog.within_bind, Prog.within_bytes, Prog.run_bytes, Prog.after_mk,
      Prog.within_store, Prog.run_store, Mem.length_read, hip]
    omega
  simp only [onIcmpV6Prog, Prog.within_bind, hswap, run_swapAddr6Prog, Prog.after_mk]
  rfl

theorem within_onIcmpProg_iff (dmac : Mac) :
    (onIcmpProg dmac (fields pkt)).Within n pkt.data ↔
      pkt.header .ether + 12 ≤ n ∧
        (chkEthertypeProg Packet.ethertypeIp).Within n (swapMac pkt).data ∧
        if Packet.chkEthertype (swapMac pkt).data Packet.ethertypeIp then
          (onIcmpV4Prog (fields (swapMac pkt))).Within n (swapMac pkt).data
        else (onIcmpV6Prog dmac (fields (swapMac pkt))).Within n (swapMac pkt).data := by
  simp only [onIcmpProg, Prog.within_bind, within_swapMacProg, run_swapMacProg, Prog.after_mk,
    run_chkEthertypeProg, Prog.within_ite]
  simp only [Prog.after, Prog.within_pure, and_true]
  rfl

theorem within_routeProg {σ : Type} (srv : Server σ) (db : σ) :
    (routeProg srv (fields pkt) db).Within n pkt.data ↔
      ipDst pkt + 4 ≤ n ∧
        (dstOct3 pkt = externalIpOct3 → headerLen < pkt.len →
          pkt.payload + 12 ≤ n ∧ (Header.bodylen pkt.data pkt.payload + headerLen = pkt.len →
            Header.keylen pkt.data pkt.payload = 0 ∨
              pkt.payload + headerLen + Header.keylen pkt.data pkt.payload ≤ n)) ∧
        (dstOct3 pkt = internalIpOct3 →
          (onRecieveProg srv pkt.payload pkt.len db).Within n pkt.data) := by
  have hdst : (fields pkt).offset .ip + 16 = ipDst pkt := rfl
  have hpay : (fields pkt).offset .payload = pkt.payload := rfl
  have hlen : (fields pkt).len = pkt.len := rfl
  have hoct : (pkt.data.le32 (ipDst pkt) >>> 8 &&& 0xFF#32).setWidth 8 = dstOct3 pkt := rfl
  have hbody : pkt.data.be32 (pkt.payload + 8) = Header.bodylen pkt.data pkt.payload := rfl
  have hkey : pkt.data.be16 (pkt.payload + 2) = Header.keylen pkt.data pkt.payload := rfl
  have hne : internalIpOct3 ≠ externalIpOct3 := by decide
  simp only [routeProg, Prog.within_bind, Prog.within_le32, Prog.run_le32, Prog.after_mk,
    Prog.within_ite, Prog.within_be32, Prog.run_be32, Prog.within_be16, Prog.run_be16,
    within_hash32Prog, run_hash32Prog, Prog.within_store, Prog.run_store, Prog.within_pure,
    Mem.length_le32Bytes, hdst, hpay, hlen, hoct, hbody, hkey, and_true]
  by_cases hext : dstOct3 pkt = externalIpOct3
  · simp only [hext, if_true, true_implies, hne.symm, false_implies, and_true]
    split_ifs with hlong hfull
    · omega
    · simp only [and_true]
      omega
    · simp only [and_true]
      omega
  · by_cases hint : dstOct3 pkt = internalIpOct3
    · simp only [hint, hne, if_false, if_true, true_implies, false_implies, true_and]
    · simp only [hext, hint, if_false, false_implies, and_true]

end Handlers

end Arch
end NmMemcached
