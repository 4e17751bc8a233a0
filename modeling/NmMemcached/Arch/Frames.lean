import NmMemcached.Arch.Netmap
import NmMemcached.Server.Replies

/-!
# Frames — what the frame handlers leave of a frame

The headers of a frame lie in front of its payload.  `SwapMac` rewrites the first twelve bytes;
everything the parser looks at lies behind them and in front of the addresses of the IP header
(`ofFrame_congr`), so a frame whose destination was rewritten parses as before.

`IsIpv4Udp` are the frames with an IPv4 header and a UDP header behind up to two VLAN tags.
-/

namespace NmMemcached
namespace Arch

open Lib Base Net Server

/-! ## SwapMac -/

@[simp] theorem payload_swapMac (pkt : Packet) : (swapMac pkt).payload = pkt.payload := rfl

@[simp] theorem len_swapMac (pkt : Packet) : (swapMac pkt).len = pkt.len := rfl

@[simp] theorem header_swapMac (pkt : Packet) (id : PacketId) :
    (swapMac pkt).header id = pkt.header id := rfl

@[simp] theorem header_ofFrame (data : Mem) (len : Nat) (id : PacketId) :
    (Packet.ofFrame data len).header id = Packet.frameOffset data id := rfl

theorem data_swapMac (data : Mem) (len : Nat) :
    (swapMac (Packet.ofFrame data len)).data =
      (data.write 0 (data.read 6 6)).write 6 (data.read 0 6) := rfl

@[simp] theorem type_ofFrame (data : Mem) (len : Nat) :
    (Packet.ofFrame data len).type = Packet.frameType data := rfl

/-- Behind the two addresses nothing changes. -/
theorem data_swapMac_of_le (data : Mem) (len : Nat) {i : Nat} (h : 12 ≤ i) :
    (swapMac (Packet.ofFrame data len)).data i = data i := by
  have hfirst : 0 + (data.read 6 6).length ≤ i := by
    rw [Mem.length_read]
    omega
  have hsecond : 6 + (data.read 0 6).length ≤ i := by
    rw [Mem.length_read]
    omega
  rw [data_swapMac, Mem.write_of_le hsecond, Mem.write_of_le hfirst]

theorem read_dhost_swapMac (data : Mem) (len : Nat) :
    (swapMac (Packet.ofFrame data len)).data.read 0 6 = data.read 6 6 := by
  have happart : 0 + 6 ≤ 6 ∨ 6 + (data.read 0 6).length ≤ 0 := Or.inl (by decide)
  rw [data_swapMac, Mem.read_write_of_disjoint happart]
  exact Mem.read_write_of_length (Mem.length_read data 6 6)

theorem read_shost_swapMac (data : Mem) (len : Nat) :
    (swapMac (Packet.ofFrame data len)).data.read 6 6 = data.read 0 6 := by
  rw [data_swapMac]
  exact Mem.read_write_of_length (Mem.length_read data 0 6)

/-! ## The routing octet -/

theorem getLsbD_octet (x : BitVec 32) {i : Nat} (hi : i < 8) :
    ((x >>> 8 &&& 0xFF#32).setWidth 8).getLsbD i = x.getLsbD (8 + i) := by
  have hmask : ∀ i < 8, (0xFF#32).getLsbD i = true := by decide
  rw [BitVec.getLsbD_setWidth, BitVec.getLsbD_and, BitVec.getLsbD_ushiftRight, hmask i hi]
  simp [hi]

/-- The octet the source masks out of the address is its second byte in memory. -/
theorem octet_le32 (m : Mem) (off : Nat) :
    (m.le32 off >>> 8 &&& 0xFF#32).setWidth 8 = (m (off + 1)).toBitVec := by
  apply BitVec.eq_of_getLsbD_eq
  intro i hi
  have hnot : ¬ 8 + i < 8 := by omega
  have hsub : 8 + i - 8 = i := by omega
  have hbyte : ∀ b₃ b₂ b₁ b₀ : BitVec 8,
      (b₃ ++ b₂ ++ b₁ ++ b₀).getLsbD (8 + i) = b₁.getLsbD i := by
    intro b₃ b₂ b₁ b₀
    rw [BitVec.getLsbD_append, if_neg hnot, hsub, BitVec.getLsbD_append, if_pos hi]
  rw [getLsbD_octet _ hi]
  exact hbyte _ _ _ _

/-- The rewritten address carries the octet of the hash. -/
theorem octet_internalAddr (addr hash : BitVec 32) :
    (internalAddr addr hash >>> 8 &&& 0xFF#32).setWidth 8 = internalOct3 hash := by
  apply BitVec.eq_of_getLsbD_eq
  intro i hi
  have hclear : ∀ i < 8, (0xFFFF00FF#32).getLsbD (8 + i) = false := by decide
  have hlt : 8 + i < 32 := by omega
  have hwide : i < 32 := by omega
  rw [getLsbD_octet _ hi, internalAddr, BitVec.getLsbD_or, BitVec.getLsbD_and, hclear i hi,
    BitVec.getLsbD_shiftLeft, BitVec.getLsbD_setWidth]
  simp [hlt, hwide]

/-- The other bytes of the address are kept. -/
theorem extractLsb'_internalAddr (addr hash : BitVec 32) {k : Nat}
    (hmask : ∀ i < 8, (0xFFFF00FF#32).getLsbD (k + i) = true) (hout : k = 0 ∨ 16 ≤ k) :
    (internalAddr addr hash).extractLsb' k 8 = addr.extractLsb' k 8 := by
  apply BitVec.eq_of_getLsbD_eq
  intro i hi
  have hoct : ((internalOct3 hash).setWidth 32 <<< 8).getLsbD (k + i) = false := by
    rw [BitVec.getLsbD_shiftLeft, BitVec.getLsbD_setWidth]
    rcases hout with h | h
    · simp [show k + i < 8 by omega]
    · have hwide : 8 ≤ k + i - 8 := by omega
      simp [BitVec.getLsbD_of_ge _ _ hwide]
  rw [BitVec.getLsbD_extractLsb', BitVec.getLsbD_extractLsb', internalAddr, BitVec.getLsbD_or,
    BitVec.getLsbD_and, hmask i hi, hoct, Bool.and_true, Bool.or_false]

theorem extractLsb'_le32 (m : Mem) (off : Nat) :
    (m.le32 off).extractLsb' 0 8 = (m off).toBitVec ∧
      (m.le32 off).extractLsb' 16 8 = (m (off + 2)).toBitVec ∧
      (m.le32 off).extractLsb' 24 8 = (m (off + 3)).toBitVec := by
  refine ⟨?_, ?_, ?_⟩
  all_goals
    apply BitVec.eq_of_getLsbD_eq
    intro i hi
    simp only [Mem.le32, BitVec.getLsbD_extractLsb', BitVec.getLsbD_append]
  · simp [hi]
  · have h₀ : ¬ 16 + i < 8 := by omega
    have h₁ : ¬ 16 + i - 8 < 8 := by omega
    have h₂ : 16 + i - 8 - 8 = i := by omega
    simp [hi, h₀, h₁, h₂]
  · have h₀ : ¬ 24 + i < 8 := by omega
    have h₁ : ¬ 24 + i - 8 < 8 := by omega
    have h₂ : ¬ 24 + i - 8 - 8 < 8 := by omega
    have h₃ : 24 + i - 8 - 8 - 8 = i := by omega
    simp [hi, h₀, h₁, h₂, h₃]

/-- In memory the rewritten address has one new byte. -/
theorem le32Bytes_internalAddr (m : Mem) (off : Nat) (hash : BitVec 32) :
    Mem.le32Bytes (internalAddr (m.le32 off) hash) =
      [m off, ⟨internalOct3 hash⟩, m (off + 2), m (off + 3)] := by
  have hoct : (internalAddr (m.le32 off) hash).extractLsb' 8 8 = internalOct3 hash := by
    rw [← octet_internalAddr (m.le32 off) hash]
    apply BitVec.eq_of_getLsbD_eq
    intro i hi
    rw [getLsbD_octet _ hi, BitVec.getLsbD_extractLsb']
    simp [hi]
  rcases extractLsb'_le32 m off with ⟨h₀, h₂, h₃⟩
  rw [Mem.le32Bytes, extractLsb'_internalAddr _ _ (by decide) (Or.inl rfl), hoct,
    extractLsb'_internalAddr _ _ (by decide) (Or.inr (by decide)),
    extractLsb'_internalAddr _ _ (by decide) (Or.inr (by decide)), h₀, h₂, h₃]

/-- Of the twelve octets the sender uses, the receiver's own is the one of residue zero. -/
theorem internalOct3_eq_iff (hash : BitVec 32) :
    internalOct3 hash = internalIpOct3 ↔ hash.toNat % usecoreCount = 0 := by
  -- Twelve residues, so the octet does not overflow.
  have hmask : ∀ n < 12, ((128 + n) % 256 &&& 255 = 128 ↔ n = 0) := by decide
  have hcase := hmask (hash.toNat % 12) (Nat.mod_lt _ (by decide))
  rw [← BitVec.toNat_inj]
  simpa [internalOct3, internalIpOct3, usecoreCount] using hcase

theorem dstOct3_eq (pkt : Packet) : dstOct3 pkt = (pkt.data (ipDst pkt + 1)).toBitVec :=
  octet_le32 pkt.data (ipDst pkt)

/-! ## Parsing -/

/-- The tags and the ethertype lie in front of the IP header. -/
theorem ethertype_congr {data data' : Mem}
    (h : ∀ i, 12 ≤ i → i < Packet.etherLen + Packet.vlanLen data → data' i = data i) :
    Packet.vlanLen data' = Packet.vlanLen data ∧
      ∀ t, Packet.chkEthertype data' t = Packet.chkEthertype data t := by
  have hword : ∀ i, 12 ≤ i → i + 2 ≤ Packet.etherLen + Packet.vlanLen data →
      data'.be16 i = data.be16 i := by
    intro i hlo hhi
    have h₀ : data' i = data i := h i hlo (by omega)
    have h₁ : data' (i + 1) = data (i + 1) := h (i + 1) (by omega) (by omega)
    simp [Mem.be16, h₀, h₁]
  have houter : data'.be16 12 = data.be16 12 := hword 12 (by decide) (Nat.le_add_right 14 _)
  by_cases hone : data.be16 12 = Packet.ethertypeVlan
  · have hle : 18 ≤ Packet.etherLen + Packet.vlanLen data := by
      simp only [Packet.vlanLen, hone, if_true, Packet.etherLen]
      split_ifs <;> omega
    have hinner : data'.be16 16 = data.be16 16 := hword 16 (by decide) hle
    by_cases htwo : data.be16 16 = Packet.ethertypeVlan
    · have hvlan : Packet.vlanLen data = 8 := by simp [Packet.vlanLen, hone, htwo]
      have hlast : data'.be16 18 = data.be16 18 := by
        refine hword 18 (by decide) ?_
        rw [hvlan]
        decide
      simp [Packet.vlanLen, Packet.chkEthertype, houter, hinner, hlast]
    · simp [Packet.vlanLen, Packet.chkEthertype, houter, hinner, htwo]
  · simp [Packet.vlanLen, Packet.chkEthertype, houter, hone]

/-- The offsets depend on the tags and the first byte of the IP header. -/
theorem frameOffset_congr {data data' : Mem}
    (h : ∀ i, 12 ≤ i → i ≤ Packet.etherLen + Packet.vlanLen data → data' i = data i) :
    Packet.ipvLen data' = Packet.ipvLen data ∧
      Packet.frameOffset data' = Packet.frameOffset data := by
  have hvlan : Packet.vlanLen data' = Packet.vlanLen data :=
    (ethertype_congr fun i hlo hhi => h i hlo (Nat.le_of_lt hhi)).1
  have hversion : data' (Packet.etherLen + Packet.vlanLen data) =
      data (Packet.etherLen + Packet.vlanLen data) := by
    refine h _ ?_ (Nat.le_refl _)
    unfold Packet.etherLen
    omega
  have hipv : Packet.ipvLen data' = Packet.ipvLen data := by
    simp [Packet.ipvLen, hvlan, hversion]
  refine ⟨hipv, ?_⟩
  funext id
  cases id <;> simp [Packet.frameOffset, hvlan, hipv]

/-- Bytes that parse alike: the parser reads from the ethertype up to the addresses of the IP
header. -/
theorem ofFrame_congr {data data' : Mem}
    (h : ∀ i, 12 ≤ i → i < Packet.etherLen + Packet.vlanLen data + 12 → data' i = data i) :
    Packet.vlanLen data' = Packet.vlanLen data ∧ Packet.ipvLen data' = Packet.ipvLen data ∧
      Packet.frameOffset data' = Packet.frameOffset data ∧
      Packet.frameType data' = Packet.frameType data := by
  rcases ethertype_congr fun i hlo hhi =>
    h i hlo (Nat.lt_of_lt_of_le hhi (Nat.le_add_right _ 12)) with ⟨hvlan, htype⟩
  rcases frameOffset_congr fun i hlo hhi => h i hlo (by omega) with ⟨hipv, hoff⟩
  -- The first bytes of the IP header: version, protocol and time to live.
  have hip : ∀ j < 12, data' (Packet.etherLen + Packet.vlanLen data + j) =
      data (Packet.etherLen + Packet.vlanLen data + j) := by
    intro j hj
    refine h _ ?_ ?_
    · unfold Packet.etherLen
      omega
    · omega
  refine ⟨hvlan, hipv, hoff, ?_⟩
  simp [Packet.frameType, htype, hvlan, hip 6, hip 7, hip 8, hip 9]

/-- An Ethernet frame with an IPv4 header and a UDP header, behind no, one or two VLAN tags. -/
structure IsIpv4Udp (data : Mem) : Prop where
  ethertype : Packet.chkEthertype data Packet.ethertypeIp = true
  version : (data (Packet.frameOffset data .ip)).toNat / 16 = 4
  headerLen : 5 ≤ (data (Packet.frameOffset data .ip)).toNat % 16
  protocol : data (Packet.frameOffset data .ip + 9) = Packet.ipprotoUdp

theorem IsIpv4Udp.type {data : Mem} (h : IsIpv4Udp data) : Packet.frameType data = .udp := by
  have hproto : data (Packet.etherLen + Packet.vlanLen data + 9) = Packet.ipprotoUdp := h.protocol
  simp [Packet.frameType, h.ethertype, hproto]

/-- The payload lies behind the IP header, options included, and the UDP header. -/
theorem IsIpv4Udp.payload {data : Mem} (h : IsIpv4Udp data) :
    Packet.frameOffset data .payload = Packet.frameOffset data .ip +
        (data (Packet.frameOffset data .ip)).toNat % 16 * 4 + 8 ∧
      Packet.frameOffset data .ip + 28 ≤ Packet.frameOffset data .payload := by
  have hversion : (data (Packet.etherLen + Packet.vlanLen data)).toNat / 16 = 4 := h.version
  have hlen := h.headerLen
  have hpay : Packet.frameOffset data .payload = Packet.frameOffset data .ip +
      (data (Packet.frameOffset data .ip)).toNat % 16 * 4 + 8 := by
    simp only [Packet.frameOffset, Packet.ipvLen, hversion, if_true]
  refine ⟨hpay, ?_⟩
  rw [hpay]
  omega

theorem etherLen_le_ip (data : Mem) : 14 ≤ Packet.frameOffset data .ip :=
  Nat.le_add_right 14 (Packet.vlanLen data)

theorem header_lt_payload (data : Mem) : 22 ≤ Packet.frameOffset data .payload := by
  simp only [Packet.frameOffset, Packet.etherLen]
  omega

theorem dstOct3_swapMac (data : Mem) (len : Nat) :
    dstOct3 (swapMac (Packet.ofFrame data len)) = dstOct3 (Packet.ofFrame data len) := by
  have hip := etherLen_le_ip data
  have hle : 12 ≤ ipDst (Packet.ofFrame data len) + 1 := by
    rw [ipDst, header_ofFrame]
    omega
  have hbyte := data_swapMac_of_le data len hle
  rw [dstOct3_eq, dstOct3_eq]
  exact congrArg UInt8.toBitVec hbyte

/-! ## Building frames -/

/-- The headers of an untagged frame to 10.`oct`.0.1, without IP options. -/
def frameHead (oct : UInt8) : List UInt8 :=
  [2, 0, 0, 0, 0, 1, 2, 0, 0, 0, 0, 2, 0x08, 0x00] ++
    [0x45, 0, 0, 0, 0, 0, 0, 0, 64, Packet.ipprotoUdp, 0, 0, 10, 0, 0, 2, 10, oct, 0, 1] ++
    [0x30, 0, 0x2b, 0xcb, 0, 0, 0, 0]

/-- A buffer with a frame that carries these bytes. -/
def frameMem (oct : UInt8) (bs : List UInt8) : Mem :=
  Mem.write (fun _ => 0) 0 (frameHead oct ++ bs)

section Built

variable (oct : UInt8) (bs : List UInt8)

theorem frameMem_apply {i : Nat} {b : UInt8} (h : (frameHead oct)[i]? = some b) :
    frameMem oct bs i = b := by
  rcases List.getElem?_eq_some_iff.1 h with ⟨hi, hb⟩
  have hlt : i < (frameHead oct ++ bs).length := by
    rw [List.length_append]
    exact Nat.lt_add_right _ hi
  have hget : Mem.write (fun _ => 0) 0 (frameHead oct ++ bs) (0 + i) = (frameHead oct ++ bs)[i] :=
    Mem.write_add hlt
  rw [Nat.zero_add, List.getElem_append_left hi, hb] at hget
  exact hget

theorem frameMem_of_le {i : Nat} (h : 42 + bs.length ≤ i) : frameMem oct bs i = 0 := by
  refine Mem.write_of_le ?_
  rw [List.length_append, Nat.zero_add]
  exact h

theorem parse_frameMem :
    Packet.vlanLen (frameMem oct bs) = 0 ∧ IsIpv4Udp (frameMem oct bs) ∧
      Packet.frameOffset (frameMem oct bs) .payload = 42 := by
  have h12 : frameMem oct bs 12 = 0x08 := frameMem_apply oct bs rfl
  have h13 : frameMem oct bs 13 = 0x00 := frameMem_apply oct bs rfl
  have h14 : frameMem oct bs 14 = 0x45 := frameMem_apply oct bs rfl
  have h23 : frameMem oct bs 23 = Packet.ipprotoUdp := frameMem_apply oct bs rfl
  have hvlan : Packet.vlanLen (frameMem oct bs) = 0 := by
    simp [Packet.vlanLen, Mem.be16, h12, h13, Packet.ethertypeVlan]
  have hip : Packet.frameOffset (frameMem oct bs) .ip = 14 := by
    simp [Packet.frameOffset, hvlan, Packet.etherLen]
  have hframe : IsIpv4Udp (frameMem oct bs) := by
    refine ⟨?_, ?_, ?_, ?_⟩
    · simp [Packet.chkEthertype, Mem.be16, h12, h13, Packet.ethertypeVlan, Packet.ethertypeIp]
    · rw [hip, h14]
      decide
    · rw [hip, h14]
      decide
    · rw [hip, h23]
  refine ⟨hvlan, hframe, ?_⟩
  rw [hframe.payload.1, hip, h14]
  decide

theorem read_frameMem : (frameMem oct bs).read 42 bs.length = bs := by
  have hread := Mem.read_write_self (fun _ => 0) 0 (frameHead oct ++ bs)
  have hcut : (frameMem oct bs).read 0 (frameHead oct ++ bs).length =
      frameHead oct ++ bs ++ [] := by
    rw [List.append_nil]
    exact hread
  have hpart := Mem.read_of_read_append (frameHead oct) bs [] hcut
  rwa [Nat.zero_add] at hpart

/-- The front of the payload. -/
theorem read_frameMem_append (as : List UInt8) :
    (frameMem oct (as ++ bs)).read 42 as.length = as :=
  Mem.read_of_read_append [] as bs (read_frameMem oct (as ++ bs))

theorem dstOct3_frameMem (len : Nat) :
    dstOct3 (Packet.ofFrame (frameMem oct bs) len) = oct.toBitVec := by
  have hip : Packet.frameOffset (frameMem oct bs) .ip = 14 := by
    simp [Packet.frameOffset, (parse_frameMem oct bs).1, Packet.etherLen]
  have h31 : frameMem oct bs 31 = oct := frameMem_apply oct bs rfl
  have hdst : ipDst (Packet.ofFrame (frameMem oct bs) len) + 1 = 31 := by
    rw [ipDst, header_ofFrame, hip]
  rw [dstOct3_eq, hdst]
  exact congrArg UInt8.toBitVec h31

end Built

end Arch
end NmMemcached
