import NmMemcached.Arch.Bounds
import NmMemcached.Arch.HeaderChecksum
import NmMemcached.Net.Wire

/-!
# IcmpChecksum — the ICMP checksum of what `OnIcmp` replies

The checksum of a message is over the message as the IP header delimits it, and for ICMPv6 over a
pseudo-header too.  `OnIcmp` takes it over the rest of the frame: over padding, and over the byte
behind an odd length.  It does not know the pseudo-header, and the option of an advertisement is
written when the checksum is set already.  `messageVerifies_onIcmp_iff` says what must add up by
chance for a reply to be accepted.
-/

namespace NmMemcached
namespace Arch

open Lib Base Net OnesComplement

/-! ## Messages and their checksums -/

/-- Where the message begins. -/
def messageOff (m : Mem) (tags : Nat) : Nat := Packet.layer3 tags + Packet.ipHeaderLen m tags

/-- Its length, from the total length of an IPv4 packet or the payload length of an IPv6 packet. -/
def messageLen (m : Mem) (tags : Nat) : Nat :=
  if Packet.ethertypeOf m tags = Packet.ethertypeIp then
    m.be16 (Packet.layer3 tags + 2) - Packet.ipHeaderLen m tags
  else
    m.be16 (Packet.layer3 tags + 4)

/-- The IPv6 pseudo-header: both addresses, the length and the next header. -/
def pseudoHeader (m : Mem) (tags : Nat) : List Nat :=
  if Packet.ethertypeOf m tags = Packet.ethertypeIp then []
  else words m (Packet.layer3 tags + 8) 16 ++ [messageLen m tags, Packet.ipprotoIcmpv6.toNat]

/-- The checksum in the message verifies. -/
def MessageVerifies (m : Mem) (tags : Nat) : Prop :=
  sum 65536 (pseudoHeader m tags ++
    messageWords m (messageOff m tags) (messageLen m tags)) = 0xFFFF

/-- The plain sum of the pseudo-header. -/
def pseudoSum (m : Mem) (tags : Nat) : Nat :=
  if Packet.ethertypeOf m tags = Packet.ethertypeIp then 0
  else wordSum m (Packet.layer3 tags + 8) 16 + (messageLen m tags + 58)

theorem messageVerifies_iff (m : Mem) (tags : Nat) :
    MessageVerifies m tags ↔
      pseudoSum m tags + messageSum m (messageOff m tags) (messageLen m tags) ≠ 0 ∧
        65535 ∣ pseudoSum m tags + messageSum m (messageOff m tags) (messageLen m tags) := by
  have hlt : ∀ w ∈ pseudoHeader m tags ++ messageWords m (messageOff m tags) (messageLen m tags),
      w < 65536 := by
    intro w hw
    rcases List.mem_append.1 hw with hpseudo | hmessage
    · unfold pseudoHeader at hpseudo
      split at hpseudo
      · exact absurd hpseudo List.not_mem_nil
      · rename_i hv6
        rcases List.mem_append.1 hpseudo with haddr | htail
        · exact words_lt m _ _ w haddr
        · rcases List.mem_pair.1 htail with rfl | rfl
          · rw [messageLen, if_neg hv6]
            exact be16_lt m _
          · decide
    · exact messageWords_lt m _ _ w hmessage
  have hpseudo : (pseudoHeader m tags).sum = pseudoSum m tags := by
    unfold pseudoHeader pseudoSum
    split
    · rfl
    · rw [List.sum_append, List.sum_pair]
      rfl
  rw [MessageVerifies, messageSum, ← hpseudo, ← List.sum_append]
  exact sum_eq_ones_iff (by decide) hlt

/-! ## Requests -/

def icmpEchoRequest : UInt8 := 8

/-- A complete IPv4 packet with an echo request. -/
structure EchoRequest (m : Mem) (len tags : Nat) : Prop where
  ethertype : Packet.ethertypeOf m tags = Packet.ethertypeIp
  packet : Packet.IsIpv4 m len (Packet.layer3 tags)
  whole : m.be16 (Packet.layer3 tags + 6) % 16384 = 0
  protocol : m (Packet.layer3 tags + 9) = Packet.ipprotoIcmp
  type : m (messageOff m tags) = icmpEchoRequest
  len_le : 8 ≤ messageLen m tags

/-- A complete ICMPv6 message. -/
structure Icmp6Message (m : Mem) (len tags : Nat) : Prop where
  ethertype : Packet.ethertypeOf m tags = Packet.ethertypeIpv6
  packet : Packet.IsIpv6 m len (Packet.layer3 tags)
  next : m (Packet.layer3 tags + 6) = Packet.ipprotoIcmpv6

structure EchoRequest6 (m : Mem) (len tags : Nat) : Prop extends Icmp6Message m len tags where
  type : m (messageOff m tags) = icmp6EchoRequest
  len_le : 8 ≤ messageLen m tags

/-- A neighbour solicitation with a source link-layer address among its options. -/
structure Solicitation (m : Mem) (len tags : Nat) : Prop extends Icmp6Message m len tags where
  type : m (messageOff m tags) = ndNeighborSolicit
  option : ∃ k, 24 + 8 * k + 8 ≤ messageLen m tags ∧ m (messageOff m tags + (24 + 8 * k)) = 1 ∧
    m (messageOff m tags + (25 + 8 * k)) = 1

/-- The requests that are to be answered, behind up to two tags. -/
structure IcmpRequest (m : Mem) (len tags : Nat) : Prop where
  tags_le : tags ≤ 2
  stacked : ∀ i < tags, m.be16 (12 + 4 * i) = Packet.ethertypeVlan
  kind : EchoRequest m len tags ∨ EchoRequest6 m len tags ∨ Solicitation m len tags

/-! ## When a reply verifies -/

/-- The words of the option that an advertisement gets. -/
def optionSum (dmac : Mac) : Nat := wordSum (Mem.write (fun _ => 0) 0 (linkOption dmac)) 0 4

/-- What the checksum takes in behind the message: the byte behind an odd length, and padding. -/
def behindSum (m : Mem) (len tags : Nat) : Nat :=
  excess m (messageOff m tags) (messageLen m tags) (len - messageOff m tags)

/-- The message without its type and its checksum. -/
def keptSum (m : Mem) (tags : Nat) : Nat :=
  (m (messageOff m tags + 1)).toNat +
    messageSum m (messageOff m tags + 4) (messageLen m tags - 4)

/-- What `CheckSum` took in and what it left out cancel. -/
def ReplyVerifies (dmac : Mac) (m : Mem) (len tags : Nat) : Prop :=
  let ip := Packet.layer3 tags
  if Packet.ethertypeOf m tags = Packet.ethertypeIp then
    65535 ∣ behindSum m len tags ∧ (behindSum m len tags = 0 ∨ keptSum m tags ≠ 0)
  else if Packet.checkedEthertype m = Packet.ethertypeIp then
    -- Taken for IPv4: a word of the source address is replaced by a checksum.
    wordSum m (ip + 20) 10 + (messageLen m tags + 58) ≡
      behindSum m len tags + wordSum m ip 4 [MOD 65535]
  else if m (messageOff m tags) = icmp6EchoRequest then
    pseudoSum m tags ≡ behindSum m len tags [MOD 65535]
  else
    pseudoSum m tags + optionSum dmac ≡
      behindSum m len tags + wordSum m (messageOff m tags + 24) 4 [MOD 65535]

section Request

variable {m : Mem} {len tags : Nat}

theorem IcmpRequest.ethertype (h : IcmpRequest m len tags) :
    Packet.ethertypeOf m tags = Packet.ethertypeIp ∨
      Packet.ethertypeOf m tags = Packet.ethertypeIpv6 := by
  rcases h.kind with hecho | hecho | hsolicit
  · exact Or.inl hecho.ethertype
  · exact Or.inr hecho.ethertype
  · exact Or.inr hsolicit.ethertype

theorem IcmpRequest.onWire (h : IcmpRequest m len tags) : Packet.OnWire m len tags := by
  refine ⟨h.tags_le, h.stacked, ?_⟩
  rcases h.kind with hecho | hecho | hsolicit
  · exact Or.inl ⟨hecho.ethertype, hecho.packet⟩
  · exact Or.inr (Or.inl ⟨hecho.ethertype, hecho.packet⟩)
  · exact Or.inr (Or.inl ⟨hsolicit.ethertype, hsolicit.packet⟩)

theorem IcmpRequest.offsets (h : IcmpRequest m len tags) :
    Packet.frameOffset m .ip = Packet.layer3 tags ∧
      Packet.frameOffset m .icmp = messageOff m tags := by
  rcases h.onWire.offsets with ⟨hip, _, htransport⟩
  refine ⟨hip, (htransport ?_).2.1⟩
  rcases h.ethertype with he | he <;> rw [he] <;> decide

theorem messageOff_of_v6 (he : Packet.ethertypeOf m tags = Packet.ethertypeIpv6) :
    messageOff m tags = Packet.layer3 tags + 40 ∧
      messageLen m tags = m.be16 (Packet.layer3 tags + 4) := by
  have hne : ¬ Packet.ethertypeOf m tags = Packet.ethertypeIp := by
    rw [he]
    decide
  rw [messageOff, messageLen, Packet.ipHeaderLen, if_neg hne, if_neg hne]
  exact ⟨rfl, rfl⟩

/-- The message lies behind the addresses and in the frame. -/
theorem IcmpRequest.fits (h : IcmpRequest m len tags) :
    Packet.layer3 tags + 20 ≤ messageOff m tags ∧ 8 ≤ messageLen m tags ∧
      messageOff m tags + messageLen m tags ≤ len := by
  rcases h.kind with hecho | hecho | hsolicit
  · have hwords := hecho.packet.headerLen
    have hheader := hecho.packet.header_le
    have hfits := hecho.packet.fits
    refine ⟨?_, hecho.len_le, ?_⟩
    · rw [messageOff, Packet.ipHeaderLen, if_pos hecho.ethertype]
      omega
    · rw [messageOff, messageLen, if_pos hecho.ethertype, Packet.ipHeaderLen,
        if_pos hecho.ethertype]
      omega
  · rcases messageOff_of_v6 hecho.ethertype with ⟨hoff, hmsgLen⟩
    have hfits := hecho.packet.fits
    exact ⟨by omega, hecho.len_le, by omega⟩
  · rcases messageOff_of_v6 hsolicit.ethertype with ⟨hoff, hmsgLen⟩
    rcases hsolicit.option with ⟨k, hk, _⟩
    have hfits := hsolicit.packet.fits
    exact ⟨by omega, by omega, by omega⟩

/-- The rest of the frame, over which `OnIcmp` takes the checksum. -/
theorem IcmpRequest.icmpLen (h : IcmpRequest m len tags) (hlen : len < 65536) :
    icmpLen (swapMac (Packet.ofFrame m len)) = len - messageOff m tags := by
  have hfits := h.fits
  have hicmp := h.offsets.2
  rw [icmpLen_swapMac, icmpLen_ofFrame (by omega) (by omega), hicmp]

/-- A message that got its checksum in the place of the request, with what was taken in behind
it. -/
theorem IcmpRequest.dvd_setCksum (h : IcmpRequest m len tags) (hlen : len < 65536) {d : Mem}
    (hd : ∀ i, messageOff m tags + messageLen m tags ≤ i → d i = m i) :
    65535 ∣ messageSum (setCksum d (messageOff m tags + 2) (messageOff m tags)
      (len - messageOff m tags)) (messageOff m tags) (messageLen m tags) +
        behindSum m len tags := by
  rcases h.fits with ⟨_, hmsgLen, hfits⟩
  have hbehind : excess d (messageOff m tags) (messageLen m tags) (len - messageOff m tags) =
      behindSum m len tags := excess_congr fun i hi => hd _ (by omega)
  rw [← hbehind]
  exact dvd_messageSum_setCksum (by omega) (by omega) (by omega)

/-- A reply that begins like the request is delimited like it. -/
theorem messageOff_congr {d : Mem}
    (h : ∀ i, 12 ≤ i → i < Packet.layer3 tags + 8 → d i = m i) :
    Packet.ethertypeOf d tags = Packet.ethertypeOf m tags ∧
      messageOff d tags = messageOff m tags ∧ messageLen d tags = messageLen m tags := by
  have hlayer : Packet.layer3 tags = 14 + 4 * tags := rfl
  have hword : ∀ i, 12 ≤ i → i + 2 ≤ Packet.layer3 tags + 8 → d.be16 i = m.be16 i := by
    intro i hlo hhi
    rw [Mem.be16, Mem.be16, h i hlo (by omega), h (i + 1) (by omega) (by omega)]
  have hethertype : Packet.ethertypeOf d tags = Packet.ethertypeOf m tags :=
    hword _ (by omega) (by omega)
  have hheader : Packet.ipHeaderLen d tags = Packet.ipHeaderLen m tags := by
    rw [Packet.ipHeaderLen, Packet.ipHeaderLen, hethertype, h _ (by omega) (by omega)]
  refine ⟨hethertype, ?_, ?_⟩
  · rw [messageOff, messageOff, hheader]
  · rw [messageLen, messageLen, hethertype, hheader, hword _ (by omega) (by omega),
      hword _ (by omega) (by omega)]

/-- For ICMPv6 it is enough that the sums cancel. -/
theorem messageVerifies_iff_modEq {d : Mem} {behind extra : Nat}
    (he : Packet.ethertypeOf d tags = Packet.ethertypeIpv6)
    (hsum : messageSum d (messageOff d tags) (messageLen d tags) + behind ≡ extra [MOD 65535]) :
    MessageVerifies d tags ↔ pseudoSum d tags + extra ≡ behind [MOD 65535] := by
  -- The next header is a part of the sum, so it is not zero.
  have hpos : pseudoSum d tags ≠ 0 := by
    have hne : ¬ Packet.ethertypeOf d tags = Packet.ethertypeIp := by
      rw [he]
      decide
    rw [pseudoSum, if_neg hne]
    omega
  rw [messageVerifies_iff, ← dvd_add_iff_modEq (B := 65536) hsum]
  exact and_iff_right (by omega)

/-! ## IPv4 -/

section V4

variable (h : IcmpRequest m len tags) (hlen : len < 65536) (dmac : Mac)
  (hip : Packet.chkEthertype m Packet.ethertypeIp = true)
include h hip

/-- The first words of the IP header stay, and so does what is behind the first twenty bytes. -/
theorem onIcmp_of_header {i : Nat} (hlo : 12 ≤ i) (hhi : i < messageOff m tags)
    (hout : i < Packet.layer3 tags + 10 ∨ Packet.layer3 tags + 20 ≤ i) :
    (onIcmp dmac (Packet.ofFrame m len)).2.data i = m i :=
  onIcmp_apply_of_v4 len dmac hip hlo (by rwa [h.offsets.2]) (by rwa [h.offsets.1])

include hlen

/-- The message of the reply: type 0, the code and the rest as they came, and a checksum over the
rest of the frame. -/
theorem messageSum_onIcmp_of_v4 :
    messageSum (onIcmp dmac (Packet.ofFrame m len)).2.data (messageOff m tags)
        (messageLen m tags) =
      keptSum m tags + (65535 - norm 65536 (keptSum m tags + behindSum m len tags)) := by
  have hlayer : Packet.layer3 tags = 14 + 4 * tags := rfl
  have hheader : (swapMac (Packet.ofFrame m len)).header .ip = Packet.layer3 tags := h.offsets.1
  have hicmp : (swapMac (Packet.ofFrame m len)).header .icmp = messageOff m tags := h.offsets.2
  rcases h.fits with ⟨hoff, hmsgLen, hfits⟩
  have hdata := data_onIcmpV4 (swapMac (Packet.ofFrame m len))
  rw [hicmp, h.icmpLen hlen] at hdata
  have hkeep : ∀ i, messageOff m tags < i →
      (readdressed4 (swapMac (Packet.ofFrame m len))).write (messageOff m tags) [0] i = m i := by
    intro i hi
    rw [Mem.write_of_le hi, readdressed4_of_out _ (by rw [hheader]; omega)]
    exact data_swapMac_of_le m len (by omega)
  -- Of the first word the type is cleared and the code is kept.
  have hfirst : ((readdressed4 (swapMac (Packet.ofFrame m len))).write (messageOff m tags)
      [0]).be16 (messageOff m tags) = (m (messageOff m tags + 1)).toNat := by
    have hzero : (readdressed4 (swapMac (Packet.ofFrame m len))).write (messageOff m tags) [0]
        (messageOff m tags) = 0 := Mem.write_add (show 0 < [(0 : UInt8)].length from Nat.one_pos)
    rw [Mem.be16, hzero, hkeep _ (Nat.lt_succ_self _)]
    simp
  rw [onIcmp_of_v4 len dmac hip, hdata, messageSum_setCksum (by omega) (by omega) (by omega),
    hfirst, messageSum_congr fun i _ => hkeep _ (by omega),
    excess_congr fun i hi => hkeep _ (by omega), keptSum, behindSum]

/-- An echo reply verifies when nothing counts that is behind the message. -/
theorem messageVerifies_of_echo (he : Packet.ethertypeOf m tags = Packet.ethertypeIp) :
    MessageVerifies (onIcmp dmac (Packet.ofFrame m len)).2.data tags ↔
      65535 ∣ behindSum m len tags ∧ (behindSum m len tags = 0 ∨ keptSum m tags ≠ 0) := by
  have hfits := h.fits
  have hsum := messageSum_onIcmp_of_v4 h hlen dmac hip
  have hfront : ∀ i, 12 ≤ i → i < Packet.layer3 tags + 8 →
      (onIcmp dmac (Packet.ofFrame m len)).2.data i = m i := fun i hlo hhi =>
    onIcmp_of_header h dmac hip hlo (by omega) (Or.inl (by omega))
  rcases messageOff_congr hfront with ⟨hether, hoff, hmsgLen⟩
  rw [messageVerifies_iff, hoff, hmsgLen, hsum, pseudoSum, hether, if_pos he, Nat.zero_add]
  exact ones_of_excess_iff (B := 65536) (by decide) _ _

omit hlen in
/-- An IPv6 packet that is taken for IPv4: the first twenty bytes of its header add up, with a word
of the source address in the place of a checksum. -/
theorem pseudoSum_of_misread (he : Packet.ethertypeOf m tags = Packet.ethertypeIpv6) :
    pseudoSum (onIcmp dmac (Packet.ofFrame m len)).2.data tags +
        wordSum m (Packet.layer3 tags) 4 ≡
      wordSum m (Packet.layer3 tags + 20) 10 + (messageLen m tags + 58) [MOD 65535] := by
  have hlayer : Packet.layer3 tags = 14 + 4 * tags := rfl
  have hforty := (messageOff_of_v6 he).1
  have hne : ¬ Packet.ethertypeOf m tags = Packet.ethertypeIp := by
    rw [he]
    decide
  have hkeep := fun i => onIcmp_of_header h dmac hip (i := i)
  have hones := (ones_onIcmp_of_v4 len dmac hip (by rw [h.offsets.1, h.offsets.2]; omega)).2
  rw [h.offsets.1] at hones
  generalize (onIcmp dmac (Packet.ofFrame m len)).2.data = d at hkeep hones ⊢
  have hfront : ∀ i, 12 ≤ i → i < Packet.layer3 tags + 8 → d i = m i :=
    fun i hlo hhi => hkeep i hlo (by omega) (Or.inl (by omega))
  rcases messageOff_congr hfront with ⟨hether, _, hmsgLen⟩
  -- The header in two ways: ten words that add up, and the words of the pseudo-header.
  have hfirst : wordSum d (Packet.layer3 tags) 4 = wordSum m (Packet.layer3 tags) 4 :=
    wordSum_congr fun i _ => hkeep _ (by omega) (by omega) (Or.inl (by omega))
  have hlast : wordSum d (Packet.layer3 tags + 20) 10 = wordSum m (Packet.layer3 tags + 20) 10 :=
    wordSum_congr fun i _ => hkeep _ (by omega) (by omega) (Or.inr (by omega))
  have hten : wordSum d (Packet.layer3 tags) 10 =
      wordSum d (Packet.layer3 tags) 4 + wordSum d (Packet.layer3 tags + 8) 6 :=
    wordSum_add d (Packet.layer3 tags) 4 6
  have haddr : wordSum d (Packet.layer3 tags + 8) 16 =
      wordSum d (Packet.layer3 tags + 8) 6 + wordSum d (Packet.layer3 tags + 20) 10 :=
    wordSum_add d (Packet.layer3 tags + 8) 6 10
  have hpseudo : pseudoSum d tags + wordSum m (Packet.layer3 tags) 4 =
      wordSum d (Packet.layer3 tags) 10 +
        (wordSum m (Packet.layer3 tags + 20) 10 + (messageLen m tags + 58)) := by
    rw [pseudoSum, hether, if_neg hne, hmsgLen]
    omega
  have hadd := (Nat.modEq_zero_iff_dvd.2 hones).add_right
    (wordSum m (Packet.layer3 tags + 20) 10 + (messageLen m tags + 58))
  rw [Nat.zero_add] at hadd
  rwa [hpseudo]

theorem messageVerifies_of_misread (he : Packet.ethertypeOf m tags = Packet.ethertypeIpv6) :
    MessageVerifies (onIcmp dmac (Packet.ofFrame m len)).2.data tags ↔
      wordSum m (Packet.layer3 tags + 20) 10 + (messageLen m tags + 58) ≡
        behindSum m len tags + wordSum m (Packet.layer3 tags) 4 [MOD 65535] := by
  have hfits := h.fits
  have hmessage := messageSum_onIcmp_of_v4 h hlen dmac hip
  have hpseudo := pseudoSum_of_misread h dmac hip he
  have hfront : ∀ i, 12 ≤ i → i < Packet.layer3 tags + 8 →
      (onIcmp dmac (Packet.ofFrame m len)).2.data i = m i := fun i hlo hhi =>
    onIcmp_of_header h dmac hip hlo (by omega) (Or.inl (by omega))
  rcases messageOff_congr hfront with ⟨hether, hoff, hmsgLen⟩
  have hsum : messageSum (onIcmp dmac (Packet.ofFrame m len)).2.data
      (messageOff (onIcmp dmac (Packet.ofFrame m len)).2.data tags)
      (messageLen (onIcmp dmac (Packet.ofFrame m len)).2.data tags) + behindSum m len tags ≡
        0 [MOD 65535] := by
    rw [hoff, hmsgLen, hmessage, Nat.add_right_comm]
    exact Nat.modEq_zero_iff_dvd.2 (dvd_add_complement (B := 65536) (by decide) _).2
  rw [messageVerifies_iff_modEq (hether.trans he) hsum, Nat.add_zero]
  constructor
  · intro hmod
    exact hpseudo.symm.trans (hmod.add_right _)
  · intro hmod
    exact (hpseudo.trans hmod).add_right_cancel' _

end V4

/-! ## IPv6 -/

section V6

variable (h : IcmpRequest m len tags) (hlen : len < 65536) (dmac : Mac)
  (hip : Packet.chkEthertype m Packet.ethertypeIp = false)
  (he : Packet.ethertypeOf m tags = Packet.ethertypeIpv6)
include h

/-- The packet with its addresses exchanged. -/
theorem readdressed6_apply {i : Nat} (hlo : 12 ≤ i)
    (hout : i < Packet.layer3 tags + 8 ∨ Packet.layer3 tags + 40 ≤ i) :
    (swapAddr6 (swapMac (Packet.ofFrame m len))).data i = m i :=
  apply_swapAddr6 len hlo (by rwa [h.offsets.1])

include hip he

/-- The reply has the pseudo-header of the request. -/
theorem pseudoSum_onIcmp :
    messageOff (onIcmp dmac (Packet.ofFrame m len)).2.data tags = messageOff m tags ∧
      messageLen (onIcmp dmac (Packet.ofFrame m len)).2.data tags = messageLen m tags ∧
      Packet.ethertypeOf (onIcmp dmac (Packet.ofFrame m len)).2.data tags =
        Packet.ethertypeIpv6 ∧
      pseudoSum (onIcmp dmac (Packet.ofFrame m len)).2.data tags = pseudoSum m tags := by
  have hlayer : Packet.layer3 tags = 14 + 4 * tags := rfl
  have hforty := (messageOff_of_v6 he).1
  have hheader : (swapMac (Packet.ofFrame m len)).header .ip = Packet.layer3 tags := h.offsets.1
  have hne : ¬ Packet.ethertypeOf m tags = Packet.ethertypeIp := by
    rw [he]
    decide
  have hfront : ∀ i < messageOff m tags, (onIcmp dmac (Packet.ofFrame m len)).2.data i =
      (swapAddr6 (swapMac (Packet.ofFrame m len))).data i := by
    intro i hi
    rw [onIcmp_of_v6 len dmac hip]
    exact apply_icmp6Answer len dmac (Or.inl (by rwa [h.offsets.2]))
  have hsame : ∀ i, 12 ≤ i → i < Packet.layer3 tags + 8 →
      (onIcmp dmac (Packet.ofFrame m len)).2.data i = m i := fun i hlo hhi =>
    (hfront i (by omega)).trans (readdressed6_apply h hlo (Or.inl hhi))
  rcases messageOff_congr hsame with ⟨hether, hoff, hmsgLen⟩
  refine ⟨hoff, hmsgLen, hether.trans he, ?_⟩
  -- The addresses have changed places, and a sum does not see that.
  have hdst : wordSum (onIcmp dmac (Packet.ofFrame m len)).2.data (Packet.layer3 tags + 8) 8 =
      wordSum m (Packet.layer3 tags + 24) 8 := by
    refine wordSum_congr ?_
    intro i hi
    rw [hfront _ (by omega), data_swapAddr6, hheader, if_pos (by omega)]
    exact (data_swapMac_of_le m len (by omega)).trans (congrArg m (by omega))
  have hsrc : wordSum (onIcmp dmac (Packet.ofFrame m len)).2.data
      (Packet.layer3 tags + 24) 8 = wordSum m (Packet.layer3 tags + 8) 8 := by
    refine wordSum_congr ?_
    intro i hi
    rw [hfront _ (by omega), data_swapAddr6, hheader, if_neg (by omega), if_pos (by omega)]
    exact (data_swapMac_of_le m len (by omega)).trans (congrArg m (by omega))
  have hsplit : ∀ d : Mem, wordSum d (Packet.layer3 tags + 8) 16 =
      wordSum d (Packet.layer3 tags + 8) 8 + wordSum d (Packet.layer3 tags + 24) 8 :=
    fun d => wordSum_add d (Packet.layer3 tags + 8) 8 8
  rw [pseudoSum, pseudoSum, hether, if_neg hne, if_neg hne, hmsgLen, hsplit, hsplit m, hdst, hsrc,
    Nat.add_comm (wordSum m (Packet.layer3 tags + 24) 8)]

omit hip in
/-- Where the answer begins, and what is behind the addresses. -/
theorem message_readdressed6 :
    (swapAddr6 (swapMac (Packet.ofFrame m len))).header .icmp = messageOff m tags ∧
      ∀ i, messageOff m tags ≤ i → (swapAddr6 (swapMac (Packet.ofFrame m len))).data i = m i := by
  have hlayer : Packet.layer3 tags = 14 + 4 * tags := rfl
  have hforty := (messageOff_of_v6 he).1
  exact ⟨h.offsets.2, fun i hi => readdressed6_apply h (by omega) (Or.inr (by omega))⟩

include hlen

/-- An echo reply has no pseudo-header in its checksum. -/
theorem messageVerifies_of_echo6 (htype : m (messageOff m tags) = icmp6EchoRequest) :
    MessageVerifies (onIcmp dmac (Packet.ofFrame m len)).2.data tags ↔
      pseudoSum m tags ≡ behindSum m len tags [MOD 65535] := by
  have hfits := h.fits
  rcases message_readdressed6 h he with ⟨hicmp, hsame⟩
  rcases pseudoSum_onIcmp h dmac hip he with ⟨hoff, hmsgLen, hether, hpseudo⟩
  have hfirst : (swapAddr6 (swapMac (Packet.ofFrame m len))).data
      ((swapAddr6 (swapMac (Packet.ofFrame m len))).header .icmp) = icmp6EchoRequest := by
    rw [hicmp, hsame _ (Nat.le_refl _)]
    exact htype
  have hdata := data_icmp6Answer_echo dmac hfirst
  rw [hicmp, icmpLen_swapAddr6, h.icmpLen hlen] at hdata
  have hsum : messageSum (onIcmp dmac (Packet.ofFrame m len)).2.data
      (messageOff (onIcmp dmac (Packet.ofFrame m len)).2.data tags)
      (messageLen (onIcmp dmac (Packet.ofFrame m len)).2.data tags) + behindSum m len tags ≡
        0 [MOD 65535] := by
    rw [hoff, hmsgLen, onIcmp_of_v6 len dmac hip, hdata]
    refine Nat.modEq_zero_iff_dvd.2 (h.dvd_setCksum hlen ?_)
    intro i hi
    rw [Mem.write_of_le (by rw [List.length_singleton]; omega)]
    exact hsame i (by omega)
  rw [messageVerifies_iff_modEq hether hsum, hpseudo, Nat.add_zero]

/-- The option is written over an advertisement that is complete with its checksum. -/
theorem messageSum_onIcmp_of_solicit (hoption : 32 ≤ messageLen m tags)
    (htype : m (messageOff m tags) = ndNeighborSolicit) :
    messageSum (onIcmp dmac (Packet.ofFrame m len)).2.data (messageOff m tags)
        (messageLen m tags) +
      (behindSum m len tags + wordSum m (messageOff m tags + 24) 4) ≡
        optionSum dmac [MOD 65535] := by
  rcases message_readdressed6 h he with ⟨hicmp, hsame⟩
  have hfirst : (swapAddr6 (swapMac (Packet.ofFrame m len))).data
      ((swapAddr6 (swapMac (Packet.ofFrame m len))).header .icmp) = ndNeighborSolicit := by
    rw [hicmp, hsame _ (Nat.le_refl _)]
    exact htype
  have hdata := data_icmp6Answer_solicit dmac hfirst
  have hadvert : ∀ i, messageOff m tags + 8 ≤ i →
      advert (swapAddr6 (swapMac (Packet.ofFrame m len))) i = m i := by
    intro i hi
    rw [advert_of_out (by rw [hicmp]; omega)]
    exact hsame i (by omega)
  -- Up to here the option is that of the solicitation.
  have hdvd := h.dvd_setCksum hlen fun i hi => hadvert i (by omega)
  rw [hicmp, icmpLen_swapAddr6, h.icmpLen hlen] at hdata
  generalize hset : setCksum (advert (swapAddr6 (swapMac (Packet.ofFrame m len))))
    (messageOff m tags + 2) (messageOff m tags) (len - messageOff m tags) = d at hdata hdvd
  have hwindow : messageSum (d.write (messageOff m tags + 24) (linkOption dmac))
        (messageOff m tags) (messageLen m tags) + wordSum d (messageOff m tags + 24) 4 =
      messageSum d (messageOff m tags) (messageLen m tags) +
        wordSum (d.write (messageOff m tags + 24) (linkOption dmac))
          (messageOff m tags + 24) 4 := by
    refine messageSum_of_window (j := 12) (k := 4) (by omega) ?_
    intro i hi
    exact Mem.write_of_disjoint (by rw [length_linkOption]; omega)
  have hnew : wordSum (d.write (messageOff m tags + 24) (linkOption dmac))
      (messageOff m tags + 24) 4 = optionSum dmac := by
    refine wordSum_congr ?_
    intro i hi
    have hlt : i < (linkOption dmac).length := by
      rw [length_linkOption]
      exact hi
    rw [Mem.write_add hlt, Mem.write_add hlt]
  have hold : wordSum d (messageOff m tags + 24) 4 = wordSum m (messageOff m tags + 24) 4 := by
    refine wordSum_congr ?_
    intro i hi
    rw [← hset, setCksum_of_out (by omega)]
    exact hadvert _ (by omega)
  rw [hnew, hold] at hwindow
  rw [onIcmp_of_v6 len dmac hip, hdata, Nat.add_left_comm, hwindow, ← Nat.add_assoc,
    Nat.add_comm (behindSum m len tags)]
  have hzero := (Nat.modEq_zero_iff_dvd.2 hdvd).add_right (optionSum dmac)
  rwa [Nat.zero_add] at hzero

/-- An advertisement has the option of the solicitation in its checksum too. -/
theorem messageVerifies_of_solicit (hoption : 32 ≤ messageLen m tags)
    (htype : m (messageOff m tags) = ndNeighborSolicit) :
    MessageVerifies (onIcmp dmac (Packet.ofFrame m len)).2.data tags ↔
      pseudoSum m tags + optionSum dmac ≡
        behindSum m len tags + wordSum m (messageOff m tags + 24) 4 [MOD 65535] := by
  rcases pseudoSum_onIcmp h dmac hip he with ⟨hoff, hmsgLen, hether, hpseudo⟩
  have hsum : messageSum (onIcmp dmac (Packet.ofFrame m len)).2.data
      (messageOff (onIcmp dmac (Packet.ofFrame m len)).2.data tags)
      (messageLen (onIcmp dmac (Packet.ofFrame m len)).2.data tags) +
        (behindSum m len tags + wordSum m (messageOff m tags + 24) 4) ≡
          optionSum dmac [MOD 65535] := by
    rw [hoff, hmsgLen]
    exact messageSum_onIcmp_of_solicit h hlen dmac hip he hoption htype
  rw [messageVerifies_iff_modEq hether hsum, hpseudo]

end V6

/-- The reply to a request carries a valid checksum exactly when what `CheckSum` took in behind
the message, and what it did not take in of pseudo-header and option, cancel. -/
theorem messageVerifies_onIcmp_iff (h : IcmpRequest m len tags) (hlen : len < 65536)
    (htype : Packet.frameType m = .icmp) (dmac : Mac) :
    MessageVerifies (onIcmp dmac (Packet.ofFrame m len)).2.data tags ↔
      ReplyVerifies dmac m len tags := by
  have hword := Packet.chkEthertype_eq m Packet.ethertypeIp
  have hne : ¬ Packet.ethertypeIpv6 = Packet.ethertypeIp := by decide
  by_cases hip : Packet.checkedEthertype m = Packet.ethertypeIp
  · rw [decide_eq_true hip] at hword
    rcases h.ethertype with he | he
    · rw [ReplyVerifies, if_pos he]
      exact messageVerifies_of_echo h hlen dmac hword he
    · rw [ReplyVerifies, he, if_neg hne, if_pos hip]
      exact messageVerifies_of_misread h hlen dmac hword he
  · rw [decide_eq_false hip] at hword
    rcases h.kind with hecho | hecho | hsolicit
    · -- Taken for IPv6, a fragment offset is in the place of the hop limit.
      have hmessage := icmp_of_v6 htype hword
      rw [h.offsets.1] at hmessage
      have hbyte : (m (Packet.layer3 tags + 6)).toNat = 58 := by
        rw [hmessage.2.1]
        rfl
      have hlow := (m (Packet.layer3 tags + 6 + 1)).toNat_lt
      have hwhole := hecho.whole
      rw [Mem.be16, hbyte] at hwhole
      omega
    · rw [ReplyVerifies, hecho.ethertype, if_neg hne, if_neg hip, if_pos hecho.type]
      exact messageVerifies_of_echo6 h hlen dmac hword hecho.ethertype hecho.type
    · have hother : ¬ m (messageOff m tags) = icmp6EchoRequest := by
        rw [hsolicit.type]
        decide
      rcases hsolicit.option with ⟨k, hk, _⟩
      rw [ReplyVerifies, hsolicit.ethertype, if_neg hne, if_neg hip, if_neg hother]
      exact messageVerifies_of_solicit h hlen dmac hword hsolicit.ethertype (by omega)
        hsolicit.type

end Request

/-- The reply to an echo request of even length, without padding. -/
theorem messageVerifies_echoFrame :
    MessageVerifies (onIcmp demoNetmap.dmac (Packet.ofFrame echoFrame 42)).2.data 0 := by
  have hrequest : IcmpRequest echoFrame 42 0 :=
    ⟨by decide, by decide, Or.inl
      ⟨by decide, ⟨by decide, by decide, by decide, by decide⟩, by decide, by decide, by decide,
        by decide⟩⟩
  have hicmp : Packet.frameType echoFrame = .icmp := by decide
  have hv4 : Packet.ethertypeOf echoFrame 0 = Packet.ethertypeIp := by decide
  have hnone : behindSum echoFrame 42 0 = 0 := by decide
  refine (messageVerifies_onIcmp_iff hrequest (by decide) hicmp demoNetmap.dmac).2 ?_
  rw [ReplyVerifies, if_pos hv4, hnone]
  exact ⟨Nat.dvd_zero _, Or.inl rfl⟩

/-- An ICMPv6 echo request from fd00::1 to fd00::2. -/
def echoFrame6 : Mem :=
  Mem.write (fun _ => 0) 0
    ([2, 0, 0, 0, 0, 1, 2, 0, 0, 0, 0, 2, 0x86, 0xdd] ++
      [0x60, 0, 0, 0, 0, 8, Packet.ipprotoIcmpv6, 64] ++
      [0xfd, 0, 0, 0, 0, 0, 0, 0, 0, 0, 0, 0, 0, 0, 0, 1] ++
      [0xfd, 0, 0, 0, 0, 0, 0, 0, 0, 0, 0, 0, 0, 0, 0, 2] ++
      [icmp6EchoRequest, 0, 0x85, 0xb6, 0, 1, 0, 1])

/-- Its reply has a checksum without the pseudo-header. -/
theorem echoFrame6_not_messageVerifies :
    IcmpRequest echoFrame6 62 0 ∧ MessageVerifies echoFrame6 0 ∧
      Packet.frameType echoFrame6 = .icmp ∧
      (∀ dmac, ¬ MessageVerifies (onIcmp dmac (Packet.ofFrame echoFrame6 62)).2.data 0) ∧
      ¬ ∀ (m : Mem) (len tags : Nat) (dmac : Mac), IcmpRequest m len tags → len < 65536 →
        Packet.frameType m = .icmp →
        MessageVerifies (onIcmp dmac (Packet.ofFrame m len)).2.data tags := by
  have hrequest : IcmpRequest echoFrame6 62 0 :=
    ⟨by decide, by decide, Or.inr (Or.inl
      ⟨⟨by decide, ⟨by decide, by decide⟩, by decide⟩, by decide, by decide⟩)⟩
  have hicmp : Packet.frameType echoFrame6 = .icmp := by decide
  have hverifies : MessageVerifies echoFrame6 0 := by
    rw [messageVerifies_iff]
    decide
  have hword : Packet.chkEthertype echoFrame6 Packet.ethertypeIp = false := by decide
  have hbad : ∀ dmac, ¬ MessageVerifies (onIcmp dmac (Packet.ofFrame echoFrame6 62)).2.data 0 := by
    intro dmac
    rw [messageVerifies_of_echo6 hrequest (by decide) dmac hword (by decide) (by decide)]
    decide
  refine ⟨hrequest, hverifies, hicmp, hbad, fun hall => ?_⟩
  exact hbad demoNetmap.dmac (hall _ _ _ _ hrequest (by decide) hicmp)

end Arch
end NmMemcached
