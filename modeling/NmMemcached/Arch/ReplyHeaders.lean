import NmMemcached.Arch.Accesses

/-!
# ReplyHeaders — how an ARP or ICMP reply parses

The frame classification looks at the ethertype and at a few bytes of the IP header.  `OnArp` and
`OnIcmp` write behind those bytes, so their replies are of the type of the frame they answer.

The exceptions are messages that begin inside their own IP header: with an `ip_hl` of 2 the reply
clears the time to live (`TtlCleared`), and with an `ip_hl` of 1 in an IPv6 header its checksum
replaces the next header and the hop limit (`NextReplaced`).
-/

namespace NmMemcached
namespace Arch

open Lib Base Net

/-! ## What the handlers leave of the headers -/

section Handlers

variable (pkt : Packet) {a : Nat}

theorem keeps_swapMacProg (m : Mem) (ha : pkt.header .ether + 12 ≤ a) :
    (swapMacProg (fields pkt)).Keeps a m := by
  have heh : (fields pkt).offset .ether = pkt.header .ether := rfl
  simp only [swapMacProg, Prog.keeps_bind, Prog.keeps_bytes, Prog.run_bytes, Prog.after_mk,
    Prog.keeps_store, Prog.run_store, Mem.length_read, heh, true_and]
  omega

theorem keeps_onArpProg (dmac : Mac) (hlo : pkt.header .ether + 12 ≤ a)
    (hhi : a < pkt.header .arp) : (onArpProg dmac (fields pkt)).Keeps a pkt.data := by
  have heh : (fields pkt).offset .ether = pkt.header .ether := rfl
  have harp : (fields pkt).offset .arp = pkt.header .arp := rfl
  have hmac := keeps_swapMacProg pkt pkt.data hlo
  simp only [onArpProg, Prog.keeps_bind, hmac, run_swapMacProg, Prog.after_mk, Prog.keeps_store,
    Prog.run_store, Prog.keeps_load, Prog.run_load, Prog.keeps_bytes, Prog.run_bytes,
    Prog.keeps_pure, Mem.length_read, heh, harp, true_and, and_true]
  omega

theorem keeps_writeCksumProg (m : Mem) (off data len : Nat) :
    (writeCksumProg off data len).Keeps a m ↔ a < off ∨ off + 2 ≤ a := by
  have hsum : ∀ sum, (Mem.be16Bytes (wrapsum sum)).length = 2 := fun _ => rfl
  simp only [writeCksumProg, Prog.keeps_bind, Prog.keeps_store, Prog.run_store, Prog.after_mk,
    keeps_checkSumProg, run_checkSumProg, hsum, true_and, List.length_cons, List.length_nil]
  omega

theorem keeps_onIcmpV4Prog (hhi : a < pkt.header .ip + 10) (hicmp : a ≠ pkt.header .icmp)
    (hcks : a < pkt.header .icmp + 2 ∨ pkt.header .icmp + 4 ≤ a) :
    (onIcmpV4Prog (fields pkt)).Keeps a pkt.data := by
  have hip : (fields pkt).offset .ip = pkt.header .ip := rfl
  have hoff : (fields pkt).offset .icmp = pkt.header .icmp := rfl
  simp only [onIcmpV4Prog, Prog.keeps_bind, Prog.keeps_bytes, Prog.run_bytes, Prog.after_mk,
    Prog.keeps_store, Prog.run_store, keeps_writeCksumProg, run_writeCksumProg, Mem.length_read,
    hip, hoff, true_and, List.length_cons, List.length_nil]
  omega

/-- The answers write the first eight bytes of the message and the option of an advertisement. -/
theorem keeps_icmp6AnswerProg (dmac : Mac) (m : Mem)
    (ha : a < pkt.header .icmp ∨ (pkt.header .icmp + 8 ≤ a ∧ a < pkt.header .icmp + 24)) :
    (icmp6AnswerProg dmac (fields pkt)).Keeps a m := by
  have hoff : (fields pkt).offset .icmp = pkt.header .icmp := rfl
  simp only [icmp6AnswerProg, ndAdvertProg, Prog.keeps_bind, Prog.keeps_byte, Prog.run_byte,
    Prog.after_mk, Prog.keeps_ite, Prog.keeps_store, Prog.run_store, keeps_writeCksumProg,
    run_writeCksumProg, Prog.keeps_bytes, Prog.run_bytes, Prog.keeps_pure, dmac.length_bytes,
    hoff, true_and, List.length_cons, List.length_nil]
  split_ifs <;> omega

/-- The ICMPv6 reply when its checksum is taken. -/
def cleared6 : Mem :=
  let icmp := pkt.header .icmp
  if pkt.data icmp = icmp6EchoRequest then
    (pkt.data.write icmp [icmp6EchoReply]).write (icmp + 2) [0, 0]
  else
    (((pkt.data.write (icmp + 4) [0x60, 0, 0, 0]).write icmp [ndNeighborAdvert]).write
      (icmp + 1) [0]).write (icmp + 2) [0, 0]

def cksum6 : Nat := wrapsum (checkSum (cleared6 pkt) (pkt.header .icmp) (icmpLen pkt) 0)

theorem be16Bytes_write (m : Mem) (off n : Nat) :
    m.write off (Mem.be16Bytes n) off = UInt8.ofNat (n / 256) ∧
      m.write off (Mem.be16Bytes n) (off + 1) = UInt8.ofNat n := by
  have hzero : 0 < (Mem.be16Bytes n).length := Nat.zero_lt_two
  have hone : 1 < (Mem.be16Bytes n).length := Nat.one_lt_two
  exact ⟨Mem.write_add hzero, Mem.write_add hone⟩

/-- The checksum field of a reply. -/
theorem cksum_icmp6Answer (dmac : Mac)
    (h : pkt.data (pkt.header .icmp) = icmp6EchoRequest ∨
      pkt.data (pkt.header .icmp) = ndNeighborSolicit) :
    (icmp6Answer dmac pkt).data (pkt.header .icmp + 2) = UInt8.ofNat (cksum6 pkt / 256) ∧
      (icmp6Answer dmac pkt).data (pkt.header .icmp + 3) = UInt8.ofNat (cksum6 pkt) := by
  have hne : ndNeighborSolicit ≠ icmp6EchoRequest := by decide
  rcases h with h | h
  · have hdata : (icmp6Answer dmac pkt).data = (cleared6 pkt).write (pkt.header .icmp + 2)
        (Mem.be16Bytes (cksum6 pkt)) := by
      simp only [icmp6Answer, cksum6, cleared6, h, if_true]
      rfl
    rw [hdata]
    exact be16Bytes_write _ _ _
  · have hdata : (icmp6Answer dmac pkt).data = ((((cleared6 pkt).write (pkt.header .icmp + 2)
        (Mem.be16Bytes (cksum6 pkt))).write (pkt.header .icmp + 24) [2]).write
          (pkt.header .icmp + 25) [1]).write (pkt.header .icmp + 26) dmac.bytes := by
      simp only [icmp6Answer, cksum6, cleared6, h, hne, if_false, if_true]
      rfl
    rw [hdata]
    have hfront : ∀ i < pkt.header .icmp + 24, ∀ m : Mem,
        (((m.write (pkt.header .icmp + 24) [2]).write (pkt.header .icmp + 25) [1]).write
          (pkt.header .icmp + 26) dmac.bytes) i = m i := by
      intro i hi m
      rw [Mem.write_of_lt (by omega), Mem.write_of_lt (by omega), Mem.write_of_lt (by omega)]
    rw [hfront _ (by omega), hfront _ (by omega)]
    exact be16Bytes_write _ _ _

end Handlers

/-! ## How the replies parse -/

section Parse

variable {m : Mem} (n : Nat) (dmac : Mac)

theorem frameType_arp_iff : Packet.frameType m = .arp ↔
    Packet.chkEthertype m Packet.ethertypeIp = false ∧
      Packet.chkEthertype m Packet.ethertypeIpv6 = false ∧
      Packet.chkEthertype m Packet.ethertypeArp = true := by
  unfold Packet.frameType
  simp only
  split_ifs <;> simp_all

theorem icmp_of_v4 (h : Packet.frameType m = .icmp)
    (hip : Packet.chkEthertype m Packet.ethertypeIp = true) :
    m (Packet.frameOffset m .ip + 9) = Packet.ipprotoIcmp ∧
      m (Packet.frameOffset m .ip + 8) ≠ 0 := by
  unfold Packet.frameType at h
  simp only [hip, if_true] at h
  split_ifs at h with hudp hicmp
  exact hicmp

theorem icmp_of_v6 (h : Packet.frameType m = .icmp)
    (hip : Packet.chkEthertype m Packet.ethertypeIp = false) :
    Packet.chkEthertype m Packet.ethertypeIpv6 = true ∧
      m (Packet.frameOffset m .ip + 6) = Packet.ipprotoIcmpv6 ∧
      m (Packet.frameOffset m .ip + 7) ≠ 0 := by
  unfold Packet.frameType at h
  simp only [hip, Bool.false_eq_true, if_false] at h
  split_ifs at h with hv6 hicmp
  exact ⟨hv6, hicmp⟩

/-- An ARP reply is an ARP frame. -/
theorem frameType_onArp (h : Packet.frameType m = .arp) :
    Packet.frameType (onArp dmac (Packet.ofFrame m n)).2.data = .arp := by
  have hsame : ∀ i, 12 ≤ i → i < Packet.etherLen + Packet.vlanLen m →
      (onArp dmac (Packet.ofFrame m n)).2.data i = m i := by
    intro i hlo hhi
    have hether : (Packet.ofFrame m n).header .ether + 12 ≤ i := hlo
    have hkeeps := Prog.run_of_keeps (keeps_onArpProg (Packet.ofFrame m n) dmac hether hhi)
    rw [run_onArpProg] at hkeeps
    exact hkeeps
  have hethertype := (ethertype_congr hsame).2
  rw [frameType_arp_iff] at h ⊢
  simpa only [hethertype] using h

theorem onIcmp_of_v4 (hip : Packet.chkEthertype m Packet.ethertypeIp = true) :
    (onIcmp dmac (Packet.ofFrame m n)).2 = onIcmpV4 (swapMac (Packet.ofFrame m n)) := by
  have hsame := (ethertype_congr fun i hlo _ => data_swapMac_of_le m n (i := i) hlo).2
  unfold onIcmp
  simp only [hsame, hip, if_true]

theorem onIcmp_of_v6 (hip : Packet.chkEthertype m Packet.ethertypeIp = false) :
    (onIcmp dmac (Packet.ofFrame m n)).2 =
      icmp6Answer dmac (swapAddr6 (swapMac (Packet.ofFrame m n))) := by
  have hsame := (ethertype_congr fun i hlo _ => data_swapMac_of_le m n (i := i) hlo).2
  unfold onIcmp
  simp only [hsame, hip, Bool.false_eq_true, if_false]
  exact onIcmpV6_eq _ dmac

/-! ### IPv4 -/

/-- The message begins at the time to live: a header of two words. -/
structure TtlCleared (m : Mem) : Prop where
  ethertype : Packet.chkEthertype m Packet.ethertypeIp = true
  first : m (Packet.frameOffset m .ip) = 0x42

/-- Where the message begins. -/
theorem icmp_eq : Packet.frameOffset m .icmp = Packet.frameOffset m .ip + Packet.ipvLen m := rfl

theorem ipvLen_mod : Packet.ipvLen m % 4 = 0 := by
  unfold Packet.ipvLen
  split_ifs <;> omega

/-- `ip_hl` and the version share a byte. -/
theorem ipvLen_eq_iff {k : Nat} (hk : k < 10) :
    Packet.ipvLen m = k * 4 ↔ m (Packet.frameOffset m .ip) = UInt8.ofNat (64 + k) := by
  have hip : Packet.frameOffset m .ip = Packet.etherLen + Packet.vlanLen m := rfl
  have hnat : (UInt8.ofNat (64 + k)).toNat = 64 + k := by
    rw [UInt8.toNat_ofNat']
    omega
  rw [hip, ← UInt8.toNat_inj, hnat]
  unfold Packet.ipvLen
  split_ifs <;> omega

/-- `ICMP_ECHOREPLY`, for every type. -/
theorem type_onIcmpV4 (pkt : Packet) : (onIcmpV4 pkt).data (pkt.header .icmp) = 0 := by
  have hdata : ∃ (m : Mem) (bs : List UInt8), (onIcmpV4 pkt).data =
      ((m.write (pkt.header .icmp) [0]).write (pkt.header .icmp + 2) [0, 0]).write
        (pkt.header .icmp + 2) bs := ⟨_, _, rfl⟩
  rcases hdata with ⟨m, bs, hdata⟩
  have hzero : 0 < [(0 : UInt8)].length := Nat.one_pos
  rw [hdata, Mem.write_of_lt (by omega), Mem.write_of_lt (by omega)]
  exact Mem.write_add hzero

/-- The reply differs in the addresses, the checksums and the type. -/
theorem apply_onIcmpV4 (hip : Packet.chkEthertype m Packet.ethertypeIp = true) {a : Nat}
    (hlo : 12 ≤ a) (hhi : a < Packet.frameOffset m .ip + 10)
    (hicmp : a ≠ Packet.frameOffset m .icmp)
    (hcks : a < Packet.frameOffset m .icmp + 2 ∨ Packet.frameOffset m .icmp + 4 ≤ a) :
    (onIcmp dmac (Packet.ofFrame m n)).2.data a = m a := by
  have hkeeps := Prog.run_of_keeps
    (keeps_onIcmpV4Prog (swapMac (Packet.ofFrame m n)) hhi hicmp hcks)
  rw [run_onIcmpV4Prog] at hkeeps
  rw [onIcmp_of_v4 n dmac hip]
  exact hkeeps.trans (data_swapMac_of_le m n hlo)

theorem ethertype_onIcmp_of_v4 (hip : Packet.chkEthertype m Packet.ethertypeIp = true) :
    Packet.frameOffset (onIcmp dmac (Packet.ofFrame m n)).2.data .ip = Packet.frameOffset m .ip ∧
      ∀ t, Packet.chkEthertype (onIcmp dmac (Packet.ofFrame m n)).2.data t =
        Packet.chkEthertype m t := by
  have hicmp := icmp_eq (m := m)
  have hsame := @ethertype_congr m _ fun i hlo hhi => by
    have hfront : i < Packet.frameOffset m .ip := hhi
    exact apply_onIcmpV4 n dmac hip hlo (by omega) (by omega) (by omega)
  exact ⟨congrArg (Packet.etherLen + ·) hsame.1, hsame.2⟩

theorem frameType_of_v4 (hip : Packet.chkEthertype m Packet.ethertypeIp = true) :
    Packet.frameType m =
      if m (Packet.frameOffset m .ip + 9) = Packet.ipprotoUdp then .udp
      else if m (Packet.frameOffset m .ip + 9) = Packet.ipprotoIcmp ∧
          m (Packet.frameOffset m .ip + 8) ≠ 0 then .icmp
      else .dc := by
  unfold Packet.frameType
  simp only [hip, if_true]
  rfl

theorem message_onIcmp_of_v4 (hip : Packet.chkEthertype m Packet.ethertypeIp = true) :
    (onIcmp dmac (Packet.ofFrame m n)).2.data (Packet.frameOffset m .icmp) = 0 := by
  rw [onIcmp_of_v4 n dmac hip]
  exact type_onIcmpV4 (swapMac (Packet.ofFrame m n))

/-- An ICMP reply is an ICMP frame, unless its type byte is the time to live. -/
theorem frameType_onIcmp_of_v4 (h : Packet.frameType m = .icmp)
    (hip : Packet.chkEthertype m Packet.ethertypeIp = true) :
    Packet.frameType (onIcmp dmac (Packet.ofFrame m n)).2.data =
      if m (Packet.frameOffset m .ip) = 0x42 then .dc else .icmp := by
  have hge := etherLen_le_ip m
  have hicmp := icmp_eq (m := m)
  have hwords := ipvLen_mod (m := m)
  have hmessage := icmp_of_v4 h hip
  have hproto : (onIcmp dmac (Packet.ofFrame m n)).2.data (Packet.frameOffset m .ip + 9) =
      Packet.ipprotoIcmp := by
    rw [apply_onIcmpV4 n dmac hip (by omega) (by omega) (by omega) (by omega)]
    exact hmessage.1
  have hne : Packet.ipprotoIcmp ≠ Packet.ipprotoUdp := by decide
  have hfirst := ipvLen_eq_iff (m := m) (show 2 < 10 by decide)
  rcases ethertype_onIcmp_of_v4 n dmac hip with ⟨hoff, hethertype⟩
  rw [frameType_of_v4 (by rw [hethertype, hip]), hoff, hproto]
  simp only [hne, if_false, true_and]
  by_cases htwo : m (Packet.frameOffset m .ip) = 0x42
  · have hlen : Packet.ipvLen m = 2 * 4 := hfirst.2 htwo
    have hat : Packet.frameOffset m .icmp = Packet.frameOffset m .ip + 8 := by omega
    have hzero := message_onIcmp_of_v4 n dmac hip
    rw [hat] at hzero
    simp only [htwo, if_true, hzero, ne_eq, not_true_eq_false, if_false]
  · have hlen : Packet.ipvLen m ≠ 2 * 4 := fun hlen => htwo (hfirst.1 hlen)
    have hkept := apply_onIcmpV4 (a := Packet.frameOffset m .ip + 8) n dmac hip (by omega)
      (by omega) (by omega) (by omega)
    simp only [htwo, if_false, hkept, hmessage.2, ne_eq, not_false_eq_true, if_true]

/-- The first byte of the header is kept, or it is the type of the message. -/
theorem not_ttlCleared_onIcmp (hip : Packet.chkEthertype m Packet.ethertypeIp = true)
    (hnot : ¬ TtlCleared m) : ¬ TtlCleared (onIcmp dmac (Packet.ofFrame m n)).2.data := by
  intro httl
  have hge := etherLen_le_ip m
  have hicmp := icmp_eq (m := m)
  have hbyte := httl.first
  rw [(ethertype_onIcmp_of_v4 n dmac hip).1] at hbyte
  by_cases hat : Packet.frameOffset m .ip = Packet.frameOffset m .icmp
  · rw [hat, message_onIcmp_of_v4 n dmac hip] at hbyte
    exact absurd hbyte (by decide)
  · rw [apply_onIcmpV4 n dmac hip (by omega) (by omega) hat (by omega)] at hbyte
    exact hnot ⟨hip, hbyte⟩

/-! ### IPv6 -/

/-- The message begins at the length field: an IPv6 header with version 4 and one word, and a type
that is answered. -/
structure NextReplaced (m : Mem) : Prop where
  ethertype : Packet.chkEthertype m Packet.ethertypeIp = false
  first : m (Packet.frameOffset m .ip) = 0x41
  message : m (Packet.frameOffset m .icmp) = icmp6EchoRequest ∨
    m (Packet.frameOffset m .icmp) = ndNeighborSolicit

/-- The checksum of the reply to a frame. -/
def replyCksum (m : Mem) (n : Nat) : Nat := cksum6 (swapAddr6 (swapMac (Packet.ofFrame m n)))

/-- A byte that the answer does not write is as the addresses left it. -/
theorem apply_icmp6Answer {a : Nat} (ha : a < Packet.frameOffset m .icmp ∨
      (Packet.frameOffset m .icmp + 8 ≤ a ∧ a < Packet.frameOffset m .icmp + 24)) :
    (icmp6Answer dmac (swapAddr6 (swapMac (Packet.ofFrame m n)))).data a =
      (swapAddr6 (swapMac (Packet.ofFrame m n))).data a := by
  have hkeeps := Prog.run_of_keeps (keeps_icmp6AnswerProg
    (swapAddr6 (swapMac (Packet.ofFrame m n))) dmac
    (swapAddr6 (swapMac (Packet.ofFrame m n))).data ha)
  rw [run_icmp6AnswerProg] at hkeeps
  exact hkeeps

theorem icmp6Answer_of_other {pkt : Packet}
    (hecho : pkt.data (pkt.header .icmp) ≠ icmp6EchoRequest)
    (hsolicit : pkt.data (pkt.header .icmp) ≠ ndNeighborSolicit) :
    icmp6Answer dmac pkt = pkt := by
  simp only [icmp6Answer, hecho, hsolicit, if_false]

theorem apply_swapAddr6 {a : Nat} (hlo : 12 ≤ a)
    (hout : a < Packet.frameOffset m .ip + 8 ∨ Packet.frameOffset m .ip + 40 ≤ a) :
    (swapAddr6 (swapMac (Packet.ofFrame m n))).data a = m a := by
  have hheader : (swapMac (Packet.ofFrame m n)).header .ip = Packet.frameOffset m .ip := rfl
  rw [data_swapAddr6, hheader, if_neg (by omega), if_neg (by omega)]
  exact data_swapMac_of_le m n hlo

/-- Any other reply leaves the front of the IP header. -/
theorem apply_onIcmpV6 (hip : Packet.chkEthertype m Packet.ethertypeIp = false)
    (hnot : ¬ NextReplaced m) {a : Nat} (hlo : 12 ≤ a) (hhi : a < Packet.frameOffset m .ip + 8) :
    (onIcmp dmac (Packet.ofFrame m n)).2.data a = m a := by
  have hge := etherLen_le_ip m
  have hicmp := icmp_eq (m := m)
  have hwords := ipvLen_mod (m := m)
  have hheader : (swapAddr6 (swapMac (Packet.ofFrame m n))).header .icmp =
      Packet.frameOffset m .icmp := rfl
  rw [onIcmp_of_v6 n dmac hip]
  by_cases hbehind : a < Packet.frameOffset m .icmp
  · rw [apply_icmp6Answer n dmac (Or.inl hbehind)]
    exact apply_swapAddr6 n hlo (Or.inl hhi)
  · -- The message begins in the first word of the header, or in the second.
    have htype : m (Packet.frameOffset m .icmp) ≠ icmp6EchoRequest ∧
        m (Packet.frameOffset m .icmp) ≠ ndNeighborSolicit := by
      by_cases hone : Packet.ipvLen m = 1 * 4
      · have hfirst := (ipvLen_eq_iff (show 1 < 10 by decide)).1 hone
        exact ⟨fun h => hnot ⟨hip, hfirst, Or.inl h⟩, fun h => hnot ⟨hip, hfirst, Or.inr h⟩⟩
      · have hzero : Packet.ipvLen m = 0 * 4 := by omega
        have hfirst := (ipvLen_eq_iff (show 0 < 10 by decide)).1 hzero
        have hat : Packet.frameOffset m .icmp = Packet.frameOffset m .ip := by omega
        rw [hat, hfirst]
        exact ⟨by decide, by decide⟩
    have hbyte : (swapAddr6 (swapMac (Packet.ofFrame m n))).data (Packet.frameOffset m .icmp) =
        m (Packet.frameOffset m .icmp) := apply_swapAddr6 n (by omega) (by omega)
    rw [icmp6Answer_of_other dmac (by rw [hheader, hbyte]; exact htype.1)
      (by rw [hheader, hbyte]; exact htype.2)]
    exact apply_swapAddr6 n hlo (Or.inl hhi)

theorem NextReplaced.icmp_eq (h : NextReplaced m) :
    Packet.frameOffset m .icmp = Packet.frameOffset m .ip + 4 := by
  have hlen : Packet.ipvLen m = 1 * 4 := (ipvLen_eq_iff (show 1 < 10 by decide)).2 h.first
  rw [Arch.icmp_eq, hlen]

/-- Such a reply leaves the first word of the header. -/
theorem apply_of_nextReplaced (h : NextReplaced m) {a : Nat} (hlo : 12 ≤ a)
    (hhi : a < Packet.frameOffset m .ip + 4) :
    (onIcmp dmac (Packet.ofFrame m n)).2.data a = m a := by
  have hat := h.icmp_eq
  rw [onIcmp_of_v6 n dmac h.ethertype, apply_icmp6Answer n dmac (Or.inl (by omega))]
  exact apply_swapAddr6 n hlo (Or.inl (by omega))

/-- The checksum is where the next header and the hop limit were. -/
theorem cksum_of_nextReplaced (h : NextReplaced m) :
    (onIcmp dmac (Packet.ofFrame m n)).2.data (Packet.frameOffset m .ip + 6) =
        UInt8.ofNat (replyCksum m n / 256) ∧
      (onIcmp dmac (Packet.ofFrame m n)).2.data (Packet.frameOffset m .ip + 7) =
        UInt8.ofNat (replyCksum m n) := by
  have hge := etherLen_le_ip m
  have hat := h.icmp_eq
  have hheader : (swapAddr6 (swapMac (Packet.ofFrame m n))).header .icmp =
      Packet.frameOffset m .icmp := rfl
  have hbyte : (swapAddr6 (swapMac (Packet.ofFrame m n))).data (Packet.frameOffset m .icmp) =
      m (Packet.frameOffset m .icmp) := apply_swapAddr6 n (by omega) (Or.inl (by omega))
  have hcks := cksum_icmp6Answer (swapAddr6 (swapMac (Packet.ofFrame m n))) dmac
    (by rw [hheader, hbyte]; exact h.message)
  rw [hheader, hat] at hcks
  rw [onIcmp_of_v6 n dmac h.ethertype]
  exact hcks

/-- Where the source address was is the destination address. -/
theorem source_of_nextReplaced (h : NextReplaced m) {a : Nat}
    (hlo : Packet.frameOffset m .ip + 12 ≤ a) (hhi : a < Packet.frameOffset m .ip + 24) :
    (onIcmp dmac (Packet.ofFrame m n)).2.data a = m (a + 16) := by
  have hge := etherLen_le_ip m
  have hat := h.icmp_eq
  have hip : (swapMac (Packet.ofFrame m n)).header .ip = Packet.frameOffset m .ip := rfl
  rw [onIcmp_of_v6 n dmac h.ethertype, apply_icmp6Answer n dmac (Or.inr (by omega)),
    data_swapAddr6, hip, if_pos (by omega)]
  exact data_swapMac_of_le m n (by omega)

theorem frameType_of_v6 (hip : Packet.chkEthertype m Packet.ethertypeIp = false)
    (hv6 : Packet.chkEthertype m Packet.ethertypeIpv6 = true) :
    Packet.frameType m =
      if m (Packet.frameOffset m .ip + 6) = Packet.ipprotoIcmpv6 ∧
          m (Packet.frameOffset m .ip + 7) ≠ 0 then .icmp
      else if m (Packet.frameOffset m .ip + 6) = Packet.ipprotoUdp then .udp
      else .dc := by
  unfold Packet.frameType
  simp only [hip, hv6, Bool.false_eq_true, if_false, if_true]
  rfl

theorem ethertype_onIcmp_of_v6 (hip : Packet.chkEthertype m Packet.ethertypeIp = false)
    (hnot : ¬ NextReplaced m) :
    Packet.frameOffset (onIcmp dmac (Packet.ofFrame m n)).2.data .ip = Packet.frameOffset m .ip ∧
      ∀ t, Packet.chkEthertype (onIcmp dmac (Packet.ofFrame m n)).2.data t =
        Packet.chkEthertype m t := by
  have hsame := @ethertype_congr m _ fun i hlo hhi =>
    apply_onIcmpV6 n dmac hip hnot hlo (Nat.lt_of_lt_of_le hhi (Nat.le_add_right _ 8))
  exact ⟨congrArg (Packet.etherLen + ·) hsame.1, hsame.2⟩

/-- An ICMPv6 reply is an ICMPv6 frame, unless it replaced the next header. -/
theorem frameType_onIcmp_of_v6 (h : Packet.frameType m = .icmp)
    (hip : Packet.chkEthertype m Packet.ethertypeIp = false) (hnot : ¬ NextReplaced m) :
    Packet.frameType (onIcmp dmac (Packet.ofFrame m n)).2.data = .icmp := by
  have hge := etherLen_le_ip m
  have hmessage := icmp_of_v6 h hip
  rcases ethertype_onIcmp_of_v6 n dmac hip hnot with ⟨hoff, hethertype⟩
  rw [frameType_of_v6 (by rw [hethertype, hip]) (by rw [hethertype]; exact hmessage.1), hoff,
    apply_onIcmpV6 n dmac hip hnot (by omega) (by omega),
    apply_onIcmpV6 n dmac hip hnot (by omega) (by omega), if_pos hmessage.2]

/-- What decides whether the next header is replaced is in the part that is left. -/
theorem not_nextReplaced_onIcmp (hip : Packet.chkEthertype m Packet.ethertypeIp = false)
    (hnot : ¬ NextReplaced m) : ¬ NextReplaced (onIcmp dmac (Packet.ofFrame m n)).2.data := by
  intro hnext
  have hge := etherLen_le_ip m
  have hat : ∀ {d : Mem}, d (Packet.frameOffset d .ip) = 0x41 →
      Packet.frameOffset d .icmp = Packet.frameOffset d .ip + 4 := by
    intro d hd
    rw [icmp_eq, (ipvLen_eq_iff (show 1 < 10 by decide)).2 hd]
  have hoff := (ethertype_onIcmp_of_v6 n dmac hip hnot).1
  have hfirst := hnext.first
  have hmessage := hnext.message
  rw [hat hfirst, hoff, apply_onIcmpV6 n dmac hip hnot (by omega) (by omega)] at hmessage
  rw [hoff, apply_onIcmpV6 n dmac hip hnot (by omega) (by omega)] at hfirst
  refine hnot ⟨hip, hfirst, ?_⟩
  rw [hat hfirst]
  exact hmessage

end Parse

end Arch
end NmMemcached
