import NmMemcached.Arch.ReplyHeaders
import NmMemcached.Base.Checksum

/-!
# IcmpReplies — what `OnIcmp` leaves in the buffer

For IPv4 the addresses change places, the checksum of the first twenty bytes of the IP header is
set, and then type and checksum of the message.  For IPv6 the addresses change places; an echo
request gets another type and a checksum, and a solicitation becomes an advertisement, whose
option is written last.
-/

namespace NmMemcached
namespace Arch

open Lib Base Net OnesComplement

/-! ## IPv4 -/

section V4

variable (pkt : Packet) {a : Nat}

/-- The buffer with its new IP header. -/
def readdressed4 : Mem :=
  let ip := pkt.header .ip
  let swapped := (pkt.data.write (ip + 16) (pkt.data.read (ip + 12) 4)).write (ip + 12)
    (pkt.data.read (ip + 16) 4)
  setCksum swapped (ip + 10) ip 20

theorem data_onIcmpV4 :
    (onIcmpV4 pkt).data = setCksum ((readdressed4 pkt).write (pkt.header .icmp) [0])
      (pkt.header .icmp + 2) (pkt.header .icmp) (icmpLen pkt) := rfl

theorem readdressed4_of_out (h : a < pkt.header .ip + 10 ∨ pkt.header .ip + 20 ≤ a) :
    readdressed4 pkt a = pkt.data a := by
  rw [readdressed4, setCksum_of_out (by omega),
    Mem.write_of_disjoint (by rw [Mem.length_read]; omega),
    Mem.write_of_disjoint (by rw [Mem.length_read]; omega)]

/-- The checksum of a header without options is right. -/
theorem ones_readdressed4 :
    wordSum (readdressed4 pkt) (pkt.header .ip) 10 ≠ 0 ∧
      65535 ∣ wordSum (readdressed4 pkt) (pkt.header .ip) 10 := by
  have hten : (20 % 65536 + 1) / 2 = 10 := by decide
  have hones := ones_setCksum (m := (pkt.data.write (pkt.header .ip + 16)
    (pkt.data.read (pkt.header .ip + 12) 4)).write (pkt.header .ip + 12)
    (pkt.data.read (pkt.header .ip + 16) 4)) (j := 5)
    (show pkt.header .ip + 10 = pkt.header .ip + 2 * 5 from rfl)
    (show 5 < (20 % 65536 + 1) / 2 by decide)
  rw [hten] at hones
  exact hones

/-- The message is written behind the header. -/
theorem onIcmpV4_of_lt (h : a < pkt.header .icmp) :
    (onIcmpV4 pkt).data a = readdressed4 pkt a := by
  rw [data_onIcmpV4, setCksum_of_out (by omega), Mem.write_of_lt h]

end V4

section V4Frame

variable {m : Mem} (n : Nat) (dmac : Mac)
  (hip : Packet.chkEthertype m Packet.ethertypeIp = true)
include hip

/-- In front of the message a reply differs in the addresses and the checksum of the header. -/
theorem onIcmp_apply_of_v4 {i : Nat} (hlo : 12 ≤ i) (hhi : i < Packet.frameOffset m .icmp)
    (hout : i < Packet.frameOffset m .ip + 10 ∨ Packet.frameOffset m .ip + 20 ≤ i) :
    (onIcmp dmac (Packet.ofFrame m n)).2.data i = m i := by
  rw [onIcmp_of_v4 n dmac hip]
  calc
    (onIcmpV4 (swapMac (Packet.ofFrame m n))).data i
        = readdressed4 (swapMac (Packet.ofFrame m n)) i := onIcmpV4_of_lt _ hhi
    _ = (swapMac (Packet.ofFrame m n)).data i := readdressed4_of_out _ hout
    _ = m i := data_swapMac_of_le m n hlo

/-- The first twenty bytes of its header are all ones. -/
theorem ones_onIcmp_of_v4 (h : Packet.frameOffset m .ip + 20 ≤ Packet.frameOffset m .icmp) :
    wordSum (onIcmp dmac (Packet.ofFrame m n)).2.data (Packet.frameOffset m .ip) 10 ≠ 0 ∧
      65535 ∣ wordSum (onIcmp dmac (Packet.ofFrame m n)).2.data (Packet.frameOffset m .ip) 10 := by
  have hsame : wordSum (onIcmp dmac (Packet.ofFrame m n)).2.data (Packet.frameOffset m .ip) 10 =
      wordSum (readdressed4 (swapMac (Packet.ofFrame m n))) (Packet.frameOffset m .ip) 10 := by
    refine wordSum_congr ?_
    intro i hi
    have hlt : Packet.frameOffset m .ip + i < (swapMac (Packet.ofFrame m n)).header .icmp :=
      Nat.lt_of_lt_of_le (by omega) h
    rw [onIcmp_of_v4 n dmac hip]
    exact onIcmpV4_of_lt _ hlt
  rw [hsame]
  exact ones_readdressed4 (swapMac (Packet.ofFrame m n))

end V4Frame

/-! ## IPv6 -/

section V6

variable (dmac : Mac) {pkt : Packet}

theorem data_icmp6Answer_echo (h : pkt.data (pkt.header .icmp) = icmp6EchoRequest) :
    (icmp6Answer dmac pkt).data = setCksum (pkt.data.write (pkt.header .icmp) [icmp6EchoReply])
      (pkt.header .icmp + 2) (pkt.header .icmp) (icmpLen pkt) := by
  simp only [icmp6Answer, h, if_true]
  rfl

/-- The advertisement when its checksum is taken, but for the checksum. -/
def advert (pkt : Packet) : Mem :=
  ((pkt.data.write (pkt.header .icmp + 4) [0x60, 0, 0, 0]).write (pkt.header .icmp)
    [ndNeighborAdvert]).write (pkt.header .icmp + 1) [0]

theorem advert_of_out {a : Nat} (h : a < pkt.header .icmp ∨ pkt.header .icmp + 8 ≤ a) :
    advert pkt a = pkt.data a := by
  rw [advert, Mem.write_of_disjoint (by simp only [List.length_singleton]; omega),
    Mem.write_of_disjoint (by simp only [List.length_singleton]; omega),
    Mem.write_of_disjoint (by simp only [List.length_cons, List.length_nil]; omega)]

/-- The option of the advertisement. -/
def linkOption (dmac : Mac) : List UInt8 := [2, 1] ++ dmac.bytes

theorem length_linkOption : (linkOption dmac).length = 8 := by
  rw [linkOption, List.length_append, dmac.length_bytes]
  rfl

theorem data_icmp6Answer_solicit (h : pkt.data (pkt.header .icmp) = ndNeighborSolicit) :
    (icmp6Answer dmac pkt).data =
      (setCksum (advert pkt) (pkt.header .icmp + 2) (pkt.header .icmp) (icmpLen pkt)).write
        (pkt.header .icmp + 24) (linkOption dmac) := by
  have hne : ndNeighborSolicit ≠ icmp6EchoRequest := by decide
  have hdata : (ndAdvert dmac pkt).data =
      (((setCksum (advert pkt) (pkt.header .icmp + 2) (pkt.header .icmp) (icmpLen pkt)).write
        (pkt.header .icmp + 24) [2]).write (pkt.header .icmp + 25) [1]).write
          (pkt.header .icmp + 26) dmac.bytes := rfl
  have hpair : ∀ (m : Mem) (off : Nat), (m.write off [2]).write (off + 1) [1] =
      m.write off [2, 1] := fun m off => (Mem.write_append m off [2] [1]).symm
  simp only [icmp6Answer, h, hne, if_false, if_true]
  rw [hdata, hpair, linkOption, Mem.write_append]
  rfl

end V6

end Arch
end NmMemcached
