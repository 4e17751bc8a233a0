import NmMemcached.Net.Packet

/-!
# Wire — the parser against the format of the frames

A frame has up to two 802.1Q tags of four bytes; the ethertype stands right before the layer-3
header, at 12 when there is no tag and four bytes further for each tag.  The parser decodes the
depth twice: `LEN_VLAN` for the offsets, which are right for every depth, and `CHK_ETHERTYPE` for
the type.  Behind two tags the latter looks two bytes too early, at the control word of the second
tag, so the type is right only when that word reads like the ethertype (`classified_iff`).
-/

namespace NmMemcached
namespace Net

open Lib

namespace Packet

/-! ## The format -/

/-- Where the layer-3 header starts. -/
def layer3 (tags : Nat) : Nat := 14 + 4 * tags

/-- The ethertype right before it. -/
def ethertypeOf (data : Mem) (tags : Nat) : Nat := data.be16 (12 + 4 * tags)

structure IsIpv4 (data : Mem) (len ip : Nat) : Prop where
  version : (data ip).toNat / 16 = 4
  headerLen : 5 ≤ (data ip).toNat % 16
  header_le : (data ip).toNat % 16 * 4 ≤ data.be16 (ip + 2)
  fits : ip + data.be16 (ip + 2) ≤ len

structure IsIpv6 (data : Mem) (len ip : Nat) : Prop where
  version : (data ip).toNat / 16 = 6
  fits : ip + 40 + data.be16 (ip + 4) ≤ len

/-- A frame with this many tags and a complete ARP, IPv4 or IPv6 packet. -/
structure OnWire (data : Mem) (len tags : Nat) : Prop where
  tags_le : tags ≤ 2
  stacked : ∀ i < tags, data.be16 (12 + 4 * i) = ethertypeVlan
  carries : (ethertypeOf data tags = ethertypeIp ∧ IsIpv4 data len (layer3 tags)) ∨
    (ethertypeOf data tags = ethertypeIpv6 ∧ IsIpv6 data len (layer3 tags)) ∨
    (ethertypeOf data tags = ethertypeArp ∧ layer3 tags + 28 ≤ len)

/-- Read as an IPv4 or IPv6 header, as the ethertype says, the packet carries UDP. -/
def ReadsUdp (data : Mem) (ip ethertype : Nat) : Prop :=
  (ethertype = ethertypeIp ∧ data (ip + 9) = ipprotoUdp) ∨
    (ethertype = ethertypeIpv6 ∧ data (ip + 6) = ipprotoUdp)

/-- The packet carries ICMP and may still be forwarded. -/
def ReadsIcmp (data : Mem) (ip ethertype : Nat) : Prop :=
  (ethertype = ethertypeIp ∧ data (ip + 9) = ipprotoIcmp ∧ data (ip + 8) ≠ 0) ∨
    (ethertype = ethertypeIpv6 ∧ data (ip + 6) = ipprotoIcmpv6 ∧ data (ip + 7) ≠ 0)

/-- The length of the IP header that the ethertype announces. -/
def ipHeaderLen (data : Mem) (tags : Nat) : Nat :=
  if ethertypeOf data tags = ethertypeIp then (data (layer3 tags)).toNat % 16 * 4 else 40

/-- Type and offsets are those of the format; an ARP packet has no transport header. -/
structure Classified (pkt : Packet) (tags : Nat) : Prop where
  udp : pkt.type = .udp ↔ ReadsUdp pkt.data (layer3 tags) (ethertypeOf pkt.data tags)
  icmp : pkt.type = .icmp ↔ ReadsIcmp pkt.data (layer3 tags) (ethertypeOf pkt.data tags)
  arp : pkt.type = .arp ↔ ethertypeOf pkt.data tags = ethertypeArp
  dc : pkt.type = .udp ∨ pkt.type = .icmp ∨ pkt.type = .arp ∨ pkt.type = .dc
  ip_offset : pkt.header .ip = layer3 tags
  arp_offset : pkt.header .arp = layer3 tags
  transport : ethertypeOf pkt.data tags ≠ ethertypeArp →
    pkt.header .udp = layer3 tags + ipHeaderLen pkt.data tags ∧
      pkt.header .icmp = layer3 tags + ipHeaderLen pkt.data tags ∧
      pkt.header .payload = layer3 tags + ipHeaderLen pkt.data tags + 8

/-! ## The parser -/

/-- The word `CHK_ETHERTYPE` compares. -/
def checkedEthertype (data : Mem) : Nat :=
  if data.be16 12 = ethertypeVlan then
    if data.be16 16 = ethertypeVlan then data.be16 18 else data.be16 16
  else
    data.be16 12

theorem chkEthertype_eq (data : Mem) (t : Nat) :
    chkEthertype data t = decide (checkedEthertype data = t) := by
  unfold chkEthertype checkedEthertype
  split
  · split <;> rfl
  · rfl

/-- The types the parser gives, by the word it compares. -/
theorem frameType_iff (data : Mem) :
    (frameType data = .udp ↔
      ReadsUdp data (etherLen + vlanLen data) (checkedEthertype data)) ∧
    (frameType data = .icmp ↔
      ReadsIcmp data (etherLen + vlanLen data) (checkedEthertype data)) ∧
    (frameType data = .arp ↔ checkedEthertype data = ethertypeArp) ∧
    (frameType data = .udp ∨ frameType data = .icmp ∨ frameType data = .arp ∨
      frameType data = .dc) := by
  have h46 : ethertypeIp ≠ ethertypeIpv6 := by decide
  have h4a : ethertypeIp ≠ ethertypeArp := by decide
  have h6a : ethertypeIpv6 ≠ ethertypeArp := by decide
  have hicmp : ipprotoIcmp ≠ ipprotoUdp := by decide
  have hicmp6 : ipprotoUdp ≠ ipprotoIcmpv6 := by decide
  simp only [frameType, chkEthertype_eq, ReadsUdp, ReadsIcmp, decide_eq_true_iff]
  generalize checkedEthertype data = word
  generalize etherLen + vlanLen data = ip
  by_cases hv4 : word = ethertypeIp
  · subst hv4
    by_cases hudp : data (ip + 9) = ipprotoUdp
    · simp [h46, h4a, hudp, hicmp.symm]
    · by_cases hping : data (ip + 9) = ipprotoIcmp ∧ data (ip + 8) ≠ 0
      · simp [h46, h4a, hping, hicmp]
      · simp [h46, h4a, hudp, hping]
  · by_cases hv6 : word = ethertypeIpv6
    · subst hv6
      by_cases hping : data (ip + 6) = ipprotoIcmpv6 ∧ data (ip + 7) ≠ 0
      · simp [h46.symm, h6a, hping, hicmp6.symm]
      · by_cases hudp : data (ip + 6) = ipprotoUdp
        · simp [h46.symm, h6a, hudp, hicmp6]
        · simp [h46.symm, h6a, hudp, hping]
    · by_cases harp : word = ethertypeArp
      · subst harp
        simp [h4a.symm, h6a.symm]
      · simp [hv4, hv6, harp]

/-! ## Frames on the wire -/

section Depth

variable {data : Mem} {tags : Nat}

/-- The depth that the offsets are computed from. -/
theorem vlanLen_of_stacked (htags : tags ≤ 2)
    (hstacked : ∀ i < tags, data.be16 (12 + 4 * i) = ethertypeVlan)
    (hlast : ethertypeOf data tags ≠ ethertypeVlan) : vlanLen data = 4 * tags := by
  unfold ethertypeOf at hlast
  rcases (by omega : tags = 0 ∨ tags = 1 ∨ tags = 2) with rfl | rfl | rfl
  · simp [vlanLen, hlast]
  · have h₀ := hstacked 0 (by decide)
    simp [vlanLen, h₀, hlast]
  · have h₀ := hstacked 0 (by decide)
    have h₁ := hstacked 1 (by decide)
    simp [vlanLen, h₀, h₁]

/-- The word the type is computed from is the ethertype, but behind two tags. -/
theorem checkedEthertype_of_stacked (htags : tags ≤ 2)
    (hstacked : ∀ i < tags, data.be16 (12 + 4 * i) = ethertypeVlan)
    (hlast : ethertypeOf data tags ≠ ethertypeVlan) :
    checkedEthertype data = if tags = 2 then data.be16 18 else ethertypeOf data tags := by
  unfold ethertypeOf at hlast ⊢
  rcases (by omega : tags = 0 ∨ tags = 1 ∨ tags = 2) with rfl | rfl | rfl
  · simp [checkedEthertype, hlast]
  · have h₀ := hstacked 0 (by decide)
    simp [checkedEthertype, h₀, hlast]
  · have h₀ := hstacked 0 (by decide)
    have h₁ := hstacked 1 (by decide)
    simp [checkedEthertype, h₀, h₁]

end Depth

section OnWire

variable {data : Mem} {len tags : Nat}

theorem OnWire.ethertype_ne (h : OnWire data len tags) :
    ethertypeOf data tags ≠ ethertypeVlan := by
  rcases h.carries with ⟨he, _⟩ | ⟨he, _⟩ | ⟨he, _⟩ <;> rw [he] <;> decide

theorem OnWire.vlanLen (h : OnWire data len tags) : vlanLen data = 4 * tags :=
  vlanLen_of_stacked h.tags_le h.stacked h.ethertype_ne

theorem OnWire.checkedEthertype (h : OnWire data len tags) :
    checkedEthertype data = if tags = 2 then data.be16 18 else ethertypeOf data tags :=
  checkedEthertype_of_stacked h.tags_le h.stacked h.ethertype_ne

/-- The offsets of the headers are those of the format, for every depth. -/
theorem OnWire.offsets (h : OnWire data len tags) :
    frameOffset data .ip = layer3 tags ∧ frameOffset data .arp = layer3 tags ∧
      (ethertypeOf data tags ≠ ethertypeArp →
        frameOffset data .udp = layer3 tags + ipHeaderLen data tags ∧
        frameOffset data .icmp = layer3 tags + ipHeaderLen data tags ∧
        frameOffset data .payload = layer3 tags + ipHeaderLen data tags + 8) := by
  have hip : etherLen + Packet.vlanLen data = layer3 tags := by
    rw [h.vlanLen, layer3, etherLen]
  refine ⟨hip, hip, ?_⟩
  intro hnot
  have hipv : ipvLen data = ipHeaderLen data tags := by
    rw [ipvLen, hip, ipHeaderLen]
    rcases h.carries with ⟨he, hv4⟩ | ⟨he, hv6⟩ | ⟨he, _⟩
    · rw [if_pos hv4.version, if_pos he]
    · have hne : ¬ (data (layer3 tags)).toNat / 16 = 4 := by
        rw [hv6.version]
        decide
      have hne' : ¬ ethertypeOf data tags = ethertypeIp := by
        rw [he]
        decide
      rw [if_neg hne, if_neg hne']
    · exact absurd he hnot
  refine ⟨?_, ?_, ?_⟩ <;> simp only [frameOffset, hip, hipv]

/-- The control word of the second tag, taken for an ethertype, reads as the ethertype does. -/
def ControlReadsAlike (data : Mem) : Prop :=
  (ReadsUdp data (layer3 2) (data.be16 18) ↔ ReadsUdp data (layer3 2) (ethertypeOf data 2)) ∧
    (ReadsIcmp data (layer3 2) (data.be16 18) ↔ ReadsIcmp data (layer3 2) (ethertypeOf data 2)) ∧
    (data.be16 18 = ethertypeArp ↔ ethertypeOf data 2 = ethertypeArp)

/-- A frame is classified by its format exactly when it has at most one tag, or the control word
of its second tag reads like its ethertype. -/
theorem classified_iff (h : OnWire data len tags) :
    Classified (ofFrame data len) tags ↔ tags ≤ 1 ∨ ControlReadsAlike data := by
  rcases h.offsets with ⟨hip, harp, htransport⟩
  have hstart : etherLen + Packet.vlanLen data = layer3 tags := hip
  rcases frameType_iff data with ⟨hudp, hicmp, harpType, hdc⟩
  rw [hstart] at hudp hicmp
  have hword := h.checkedEthertype
  by_cases htwo : tags = 2
  · subst htwo
    rw [if_pos rfl] at hword
    rw [hword] at hudp hicmp harpType
    constructor
    · intro hclass
      exact Or.inr ⟨hudp.symm.trans hclass.udp, hicmp.symm.trans hclass.icmp,
        harpType.symm.trans hclass.arp⟩
    · rintro (hle | ⟨hreadUdp, hreadIcmp, hreadArp⟩)
      · exact absurd hle (by decide)
      · exact ⟨hudp.trans hreadUdp, hicmp.trans hreadIcmp, harpType.trans hreadArp, hdc, hip, harp,
          htransport⟩
  · rw [if_neg htwo] at hword
    rw [hword] at hudp hicmp harpType
    have htags := h.tags_le
    exact iff_of_true ⟨hudp, hicmp, harpType, hdc, hip, harp, htransport⟩ (Or.inl (by omega))

end OnWire

/-- A UDP datagram without payload in an IPv4 packet, behind tags for VLAN 0. -/
def taggedFrame (tags : Nat) : Mem :=
  Mem.write (fun _ => 0) 0
    ([2, 0, 0, 0, 0, 1, 2, 0, 0, 0, 0, 2] ++ (List.replicate tags [0x81, 0, 0, 0]).flatten ++
      [0x08, 0x00, 0x45, 0, 0, 28, 0, 0, 0, 0, 64, ipprotoUdp, 0, 0, 10, 0, 0, 2, 10, 0x80, 0, 1] ++
      [0x30, 0, 0x2b, 0xcb, 0, 8, 0, 0])

theorem classified_one_tag : Classified (ofFrame (taggedFrame 1) 46) 1 := by
  have hwire : OnWire (taggedFrame 1) 46 1 :=
    ⟨by decide, by decide, Or.inl ⟨by decide, by decide, by decide, by decide, by decide⟩⟩
  exact (classified_iff hwire).2 (Or.inl (by decide))

/-- Behind two tags the datagram gets the type `DC`. -/
theorem two_tags_not_classified :
    OnWire (taggedFrame 2) 50 2 ∧ ReadsUdp (taggedFrame 2) 22 (ethertypeOf (taggedFrame 2) 2) ∧
      (ofFrame (taggedFrame 2) 50).type = .dc ∧
      ¬ ∀ (data : Mem) (len tags : Nat), OnWire data len tags →
        Classified (ofFrame data len) tags := by
  have hwire : OnWire (taggedFrame 2) 50 2 :=
    ⟨by decide, by decide, Or.inl ⟨by decide, by decide, by decide, by decide, by decide⟩⟩
  have hudp : ReadsUdp (taggedFrame 2) 22 (ethertypeOf (taggedFrame 2) 2) :=
    Or.inl ⟨by decide, by decide⟩
  have hword : checkedEthertype (taggedFrame 2) = 0 := by decide
  have hframe : frameType (taggedFrame 2) = .dc := by
    simp [frameType, chkEthertype_eq, hword, ethertypeIp, ethertypeIpv6, ethertypeArp]
  have hofFrame : ∀ data len, (ofFrame data len).type = frameType data := fun _ _ => rfl
  have htype : (ofFrame (taggedFrame 2) 50).type = .dc := (hofFrame _ _).trans hframe
  refine ⟨hwire, hudp, htype, ?_⟩
  intro hall
  have hclass := (hall _ _ _ hwire).udp.2 hudp
  rw [htype] at hclass
  exact absurd hclass (by decide)

end Packet

end Net
end NmMemcached
