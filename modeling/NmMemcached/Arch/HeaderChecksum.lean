import NmMemcached.Arch.Decision
import NmMemcached.Arch.IcmpReplies
import NmMemcached.Arch.Reflection
import NmMemcached.Net.Wire
import NmMemcached.Server.Framing

/-!
# HeaderChecksum — the IPv4 header of what `ProcessRing` sends

A frame comes in with a valid header checksum.  `OnUdp` replaces an octet of the destination and
leaves the checksum, so no forwarded frame has a valid header; an answer of the server keeps its
header, but the frame is as long as the response alone and mostly ends inside the header.
`OnIcmp` takes the checksum over twenty bytes, so options that do not add up to zero are missing
in it, and it sets none when the control word of a second tag has made it take the packet for
IPv6 (`validHeader_sent_iff`).
-/

namespace NmMemcached
namespace Arch

open Lib Base Net Server OnesComplement

/-! ## Headers -/

/-- An IPv4 header behind up to two tags. -/
structure HasHeader (m : Mem) (tags : Nat) : Prop where
  tags_le : tags ≤ 2
  stacked : ∀ i < tags, m.be16 (12 + 4 * i) = Packet.ethertypeVlan
  ethertype : Packet.ethertypeOf m tags = Packet.ethertypeIp
  version : (m (Packet.layer3 tags)).toNat / 16 = 4
  words_le : 5 ≤ (m (Packet.layer3 tags)).toNat % 16

/-- The number of its 16-bit words, from `ip_hl`. -/
def headerWords (m : Mem) (tags : Nat) : Nat := (m (Packet.layer3 tags)).toNat % 16 * 2

def headerEnd (m : Mem) (tags : Nat) : Nat := Packet.layer3 tags + 2 * headerWords m tags

/-- The one's-complement sum over the whole header. -/
def headerSum (m : Mem) (tags : Nat) : Nat :=
  sum 65536 (words m (Packet.layer3 tags) (headerWords m tags))

/-- The whole header is in the frame, and its checksum is valid. -/
structure ValidHeader (f : Frame) (tags : Nat) : Prop extends HasHeader f.data tags where
  fits : headerEnd f.data tags ≤ f.len
  sum : headerSum f.data tags = 0xFFFF

section Header

variable {m m' : Mem} {tags : Nat}

theorem HasHeader.vlanLen (h : HasHeader m tags) : Packet.vlanLen m = 4 * tags :=
  Packet.vlanLen_of_stacked h.tags_le h.stacked (by rw [h.ethertype]; decide)

theorem HasHeader.offsets (h : HasHeader m tags) :
    Packet.frameOffset m .ip = Packet.layer3 tags ∧
      Packet.frameOffset m .icmp = headerEnd m tags ∧
      Packet.frameOffset m .payload = headerEnd m tags + 8 := by
  have hip : Packet.etherLen + Packet.vlanLen m = Packet.layer3 tags := by
    rw [h.vlanLen, Packet.layer3, Packet.etherLen]
  have hipv : Packet.ipvLen m = 2 * headerWords m tags := by
    rw [Packet.ipvLen, hip, if_pos h.version, headerWords]
    omega
  refine ⟨hip, ?_, ?_⟩ <;> simp only [Packet.frameOffset, hip, hipv, headerEnd]

theorem HasHeader.ten_le (h : HasHeader m tags) : 10 ≤ headerWords m tags := by
  have hwords := h.words_le
  unfold headerWords
  omega

/-- The header as far as the byte with `ip_hl`. -/
theorem HasHeader.congr (h : HasHeader m tags)
    (hsame : ∀ i, 12 ≤ i → i ≤ Packet.layer3 tags → m' i = m i) :
    HasHeader m' tags ∧ headerWords m' tags = headerWords m tags := by
  have hlayer : Packet.layer3 tags = 14 + 4 * tags := rfl
  have hfirst := hsame (Packet.layer3 tags) (by omega) (Nat.le_refl _)
  have hword : ∀ i ≤ tags, m'.be16 (12 + 4 * i) = m.be16 (12 + 4 * i) := by
    intro i hi
    rw [Mem.be16, Mem.be16, hsame _ (by omega) (by omega), hsame _ (by omega) (by omega)]
  refine ⟨⟨h.tags_le, ?_, ?_, ?_, ?_⟩, ?_⟩
  · intro i hi
    exact (hword i (Nat.le_of_lt hi)).trans (h.stacked i hi)
  · exact (hword tags (Nat.le_refl tags)).trans h.ethertype
  · rw [hfirst]
    exact h.version
  · rw [hfirst]
    exact h.words_le
  · rw [headerWords, headerWords, hfirst]

theorem headerSum_iff (m : Mem) (tags : Nat) :
    headerSum m tags = 0xFFFF ↔
      wordSum m (Packet.layer3 tags) (headerWords m tags) ≠ 0 ∧
        65535 ∣ wordSum m (Packet.layer3 tags) (headerWords m tags) :=
  sum_words_iff m _ _

/-- A frame that begins as one with a header has a valid one when it is long enough and the sum
is right. -/
theorem validHeader_iff {f g : Frame} (h : HasHeader f.data tags)
    (hsame : ∀ i, 12 ≤ i → i ≤ Packet.layer3 tags → g.data i = f.data i) :
    ValidHeader g tags ↔ headerSum g.data tags = 0xFFFF ∧ headerEnd f.data tags ≤ g.len := by
  rcases h.congr hsame with ⟨hheader, hwords⟩
  have hend : headerEnd g.data tags = headerEnd f.data tags := by
    rw [headerEnd, headerEnd, hwords]
  constructor
  · intro hvalid
    exact ⟨hvalid.sum, hend ▸ hvalid.fits⟩
  · rintro ⟨hsum, hfits⟩
    exact ⟨hheader, hend ▸ hfits, hsum⟩

end Header

/-! ## When a header stays valid -/

/-- The buffer with the two addresses of an IPv6 header exchanged. -/
def exchange6 (m : Mem) (ip : Nat) : Mem := fun a =>
  if ip + 8 ≤ a ∧ a < ip + 24 then m (a + 16)
  else if ip + 24 ≤ a ∧ a < ip + 40 then m (a - 16)
  else m a

/-- No octet of the header is replaced without the checksum, and the checksum is over all of
what counts. -/
def SumKept (m : Mem) (tags : Nat) : Prop :=
  let ip := Packet.layer3 tags
  match Packet.frameType m with
  | .udp => m (ip + 17) ≠ 0x10
  | .icmp =>
      if Packet.checkedEthertype m = Packet.ethertypeIp then
        65535 ∣ wordSum m (ip + 20) (headerWords m tags - 10)
      else
        sum 65536 (words (exchange6 m ip) ip (headerWords m tags)) = 0xFFFF
  | _ => False

/-- The frame that is sent does not end inside the header. -/
def LengthKept {σ : Type} (srv : Server σ) (f : Frame) (tags : Nat) : Prop :=
  match Packet.frameType f.data with
  | .udp =>
      f.data (Packet.layer3 tags + 17) = 0x10 ∨
        (Header.opcode f.data (headerEnd f.data tags + 8) = opcodeGet ∧
          ∃ it, foundItem srv (keyId (Header.key f.data (headerEnd f.data tags + 8))) = some it ∧
            headerEnd f.data tags ≤ headerLen + 4 + it.datalen.toNat)
  | .icmp => f.len ≤ 2048
  | _ => False

section Sent

variable {σ : Type} {nm : Netmap σ} {f g : Frame} {db : σ} {tags : Nat}

/-! ### UDP -/

/-- The request of an answer, and the answer. -/
theorem answer_of_sent (h : sent nm f db = some g) (htype : Packet.frameType f.data = .udp)
    (hforwards : ¬ Forwards f.data (checkedLen f.len)) :
    let pkt := swapMac (Packet.ofFrame f.data (checkedLen f.len))
    dstOct3 (Packet.ofFrame f.data f.len) = internalIpOct3 ∧ Accepted pkt ∧
      g.data = (onRecieve nm.server pkt db).2.1.data ∧ g.len = answerLen nm.server pkt := by
  refine answer_of_reply ⟨h, fun hforwarded => ?_⟩ htype
  rcases (answered_of_udp_iff nm db htype).1 (answered_of_sent nm h) with hext | ⟨hint, _⟩
  · exact hforwards hext
  · exact absurd (hint.symm.trans hforwarded.2) (by decide)

/-- One octet more or less: the sum of a forwarded header is never right. -/
theorem headerSum_forwarded {m : Mem} (h : HasHeader m tags) (hsum : headerSum m tags = 0xFFFF)
    (len : Nat) (hext : m (Packet.layer3 tags + 17) = 0x10) :
    headerSum (forwarded m len) tags ≠ 0xFFFF := by
  have hlayer : Packet.layer3 tags = 14 + 4 * tags := rfl
  have hten := h.ten_le
  have hkeep : ∀ i, 12 ≤ i → i ≠ Packet.layer3 tags + 17 → forwarded m len i = m i :=
    fun i hlo hne => forwarded_apply_of_ne m len hlo (by rwa [h.offsets.1])
  have hdst := forwarded_dst m len
  rw [h.offsets.1] at hdst
  generalize hoct : internalOct3 (keyHash m) = oct at hdst
  have hwords : headerWords (forwarded m len) tags = headerWords m tags :=
    (h.congr fun i hlo hhi => hkeep i hlo (by omega)).2
  -- The word of the octet is the only one that differs.
  have hword : 8 < headerWords m tags := by omega
  have hone := wordSum_of_one_word hword fun i _ hlo hhi =>
    hkeep (Packet.layer3 tags + i) (by omega) (by omega)
  have hne : oct.toNat ≠ 16 := by
    intro heq
    have hsame : internalOct3 (keyHash m) = externalIpOct3 := by
      rw [hoct, ← BitVec.toNat_inj, heq]
      rfl
    exact internalOct3_ne_external _ hsame
  have hlt := oct.isLt
  have hold : m.be16 (Packet.layer3 tags + 2 * 8) =
      (m (Packet.layer3 tags + 16)).toNat * 256 + 16 := by
    rw [Mem.be16, Nat.add_assoc, hext]
    rfl
  have hnew : (forwarded m len).be16 (Packet.layer3 tags + 2 * 8) =
      (m (Packet.layer3 tags + 16)).toNat * 256 + oct.toNat := by
    rw [Mem.be16, Nat.add_assoc, hdst, hkeep _ (by omega) (by omega)]
    rfl
  have hvalid := (headerSum_iff m tags).1 hsum
  -- Two multiples of 65535 would be less than 256 apart.
  rw [Ne, headerSum_iff, hwords]
  rintro ⟨_, hdvd⟩
  omega

/-- The header of an answer is that of the request. -/
theorem headerSum_congr {m m' : Mem} (h : HasHeader m tags)
    (hsame : ∀ i, 12 ≤ i → i < headerEnd m tags → m' i = m i) :
    headerSum m' tags = headerSum m tags := by
  have hlayer : Packet.layer3 tags = 14 + 4 * tags := rfl
  have hend : headerEnd m tags = Packet.layer3 tags + 2 * headerWords m tags := rfl
  have hten := h.ten_le
  have hwords : headerWords m' tags = headerWords m tags :=
    (h.congr fun i hlo hhi => hsame i hlo (by omega)).2
  rw [headerSum, headerSum, hwords]
  refine congrArg (sum 65536) (List.map_congr_left ?_)
  intro i hi
  have hlt := List.mem_range.1 hi
  rw [Mem.be16, Mem.be16, hsame _ (by omega) (by omega), hsame _ (by omega) (by omega)]

/-! ### ICMP -/

/-- The first twenty bytes of the header of a reply are all ones, so the options decide. -/
theorem headerSum_onIcmp_of_v4 {m : Mem} (h : HasHeader m tags) (n : Nat) (dmac : Mac)
    (hip : Packet.chkEthertype m Packet.ethertypeIp = true) :
    (∀ i, 12 ≤ i → i ≤ Packet.layer3 tags →
      (onIcmp dmac (Packet.ofFrame m n)).2.data i = m i) ∧
    (headerSum (onIcmp dmac (Packet.ofFrame m n)).2.data tags = 0xFFFF ↔
      65535 ∣ wordSum m (Packet.layer3 tags + 20) (headerWords m tags - 10)) := by
  have hlayer : Packet.layer3 tags = 14 + 4 * tags := rfl
  have hend : headerEnd m tags = Packet.layer3 tags + 2 * headerWords m tags := rfl
  have hten := h.ten_le
  have hkeep := fun i => onIcmp_apply_of_v4 (i := i) n dmac hip
  have hones := ones_onIcmp_of_v4 n dmac hip (by rw [h.offsets.1, h.offsets.2.1]; omega)
  rw [h.offsets.1, h.offsets.2.1] at hkeep
  rw [h.offsets.1] at hones
  have hsame : ∀ i, 12 ≤ i → i ≤ Packet.layer3 tags →
      (onIcmp dmac (Packet.ofFrame m n)).2.data i = m i :=
    fun i hlo hhi => hkeep i hlo (by omega) (Or.inl (by omega))
  have hoptions : wordSum (onIcmp dmac (Packet.ofFrame m n)).2.data
      (Packet.layer3 tags + 20) (headerWords m tags - 10) =
        wordSum m (Packet.layer3 tags + 20) (headerWords m tags - 10) :=
    wordSum_congr fun i hi => hkeep _ (by omega) (by omega) (Or.inr (by omega))
  have hsplit : wordSum (onIcmp dmac (Packet.ofFrame m n)).2.data (Packet.layer3 tags)
      (10 + (headerWords m tags - 10)) =
        wordSum (onIcmp dmac (Packet.ofFrame m n)).2.data (Packet.layer3 tags) 10 +
          wordSum (onIcmp dmac (Packet.ofFrame m n)).2.data (Packet.layer3 tags + 20)
            (headerWords m tags - 10) := wordSum_add _ _ 10 _
  rw [Nat.add_sub_cancel' hten, hoptions] at hsplit
  have hpos := hones.1
  refine ⟨hsame, ?_⟩
  -- A multiple that is not zero stays so with another multiple added.
  rw [headerSum_iff, (h.congr hsame).2, hsplit, Nat.dvd_add_right hones.2]
  exact and_iff_right (by omega)

/-- Taken for IPv6: sixteen bytes from 8 on and from 24 on change places. -/
theorem headerSum_onIcmp_of_v6 {m : Mem} (h : HasHeader m tags) (n : Nat) (dmac : Mac)
    (hip : Packet.chkEthertype m Packet.ethertypeIp = false) :
    (∀ i, 12 ≤ i → i ≤ Packet.layer3 tags →
      (onIcmp dmac (Packet.ofFrame m n)).2.data i = m i) ∧
    headerSum (onIcmp dmac (Packet.ofFrame m n)).2.data tags =
      sum 65536 (words (exchange6 m (Packet.layer3 tags)) (Packet.layer3 tags)
        (headerWords m tags)) := by
  have hlayer : Packet.layer3 tags = 14 + 4 * tags := rfl
  have hend : headerEnd m tags = Packet.layer3 tags + 2 * headerWords m tags := rfl
  have hten := h.ten_le
  have hheader : (swapMac (Packet.ofFrame m n)).header .ip = Packet.layer3 tags := h.offsets.1
  have hfront : ∀ i, 12 ≤ i → i < headerEnd m tags →
      (onIcmp dmac (Packet.ofFrame m n)).2.data i = exchange6 m (Packet.layer3 tags) i := by
    intro i hlo hhi
    rw [onIcmp_of_v6 n dmac hip, apply_icmp6Answer n dmac (Or.inl (by rwa [h.offsets.2.1])),
      data_swapAddr6, hheader, exchange6]
    split_ifs
    · exact data_swapMac_of_le m n (by omega)
    · exact data_swapMac_of_le m n (by omega)
    · exact data_swapMac_of_le m n hlo
  have hsame : ∀ i, 12 ≤ i → i ≤ Packet.layer3 tags →
      (onIcmp dmac (Packet.ofFrame m n)).2.data i = m i := by
    intro i hlo hhi
    rw [hfront i hlo (by omega), exchange6, if_neg (by omega), if_neg (by omega)]
  refine ⟨hsame, ?_⟩
  rw [headerSum, (h.congr hsame).2]
  refine congrArg (sum 65536) (List.map_congr_left ?_)
  intro i hi
  have hlt := List.mem_range.1 hi
  rw [Mem.be16, Mem.be16, hfront _ (by omega) (by omega), hfront _ (by omega) (by omega)]

/-! ### Every frame -/

/-- What a sent frame has of the header it came in with. -/
structure HeaderOf {σ : Type} (srv : Server σ) (f g : Frame) (tags : Nat) : Prop where
  front : ∀ i, 12 ≤ i → i ≤ Packet.layer3 tags → g.data i = f.data i
  sum : headerSum g.data tags = 0xFFFF ↔ SumKept f.data tags
  len : headerEnd f.data tags ≤ g.len ↔ LengthKept srv f tags

theorem headerOf_forwarded (hf : ValidHeader f tags) (hg : sent nm f db = some g)
    (htype : Packet.frameType f.data = .udp) (hforwards : Forwards f.data (checkedLen f.len)) :
    HeaderOf nm.server f g tags := by
  have hext : f.data (Packet.layer3 tags + 17) = 0x10 := by
    have hbyte := (dstOct3_eq_iff externalIpOct3).1 hforwards.1
    rwa [hf.offsets.1] at hbyte
  rcases forwarded_of_sent nm hg htype hforwards with ⟨hdata, hlen⟩
  refine ⟨?_, ?_, ?_⟩
  · intro i hlo hhi
    rw [hdata]
    exact forwarded_apply _ _ hlo (by rw [hf.offsets.1]; omega)
  · have hbad := headerSum_forwarded hf.toHasHeader hf.sum (checkedLen f.len) hext
    simp only [SumKept, htype, hext, ne_eq, not_true_eq_false, iff_false]
    rwa [hdata]
  · simp only [LengthKept, htype, hext, true_or, iff_true]
    rw [hlen]
    exact hf.fits

theorem headerOf_answer (hf : ValidHeader f tags) (hg : sent nm f db = some g)
    (htype : Packet.frameType f.data = .udp) (hforwards : ¬ Forwards f.data (checkedLen f.len)) :
    HeaderOf nm.server f g tags := by
  have hlayer : Packet.layer3 tags = 14 + 4 * tags := rfl
  have hend : headerEnd f.data tags = Packet.layer3 tags + 2 * headerWords f.data tags := rfl
  have hten := hf.ten_le
  rcases answer_of_sent hg htype hforwards with ⟨hint, hacc, hdata, hlen⟩
  -- The response is written from the payload on, behind the header.
  have hfront := (onRecieve_of_accepted nm.server db hacc).2.front
  have hpay : (swapMac (Packet.ofFrame f.data (checkedLen f.len))).payload =
      headerEnd f.data tags + 8 := hf.offsets.2.2
  have hkeep : ∀ i, 12 ≤ i → i < headerEnd f.data tags → g.data i = f.data i := by
    intro i hlo hhi
    rw [hdata, hfront i (by omega)]
    exact data_swapMac_of_le _ _ hlo
  have hoct : f.data (Packet.layer3 tags + 17) ≠ 0x10 := by
    have hbyte := (dstOct3_eq_iff internalIpOct3).1 hint
    rw [hf.offsets.1] at hbyte
    rw [hbyte]
    decide
  rcases request_swapMac (m := f.data) (checkedLen f.len) with ⟨hopcode, hkey⟩
  rw [hf.offsets.2.2] at hopcode hkey
  refine ⟨fun i hlo hhi => hkeep i hlo (by omega), ?_, ?_⟩
  · simp only [SumKept, htype, ne_eq, hoct, not_false_eq_true, iff_true]
    rw [headerSum_congr hf.toHasHeader hkeep]
    exact hf.sum
  · simp only [LengthKept, htype, hoct, false_or]
    rw [hlen, answerLen, requestKey, hpay, hopcode, hkey]
    have hhead : headerLen = 24 := rfl
    -- The header ends at 34 at least; only the answer with an item can be that long.
    by_cases hget : Header.opcode f.data (headerEnd f.data tags + 8) = opcodeGet
    · rw [if_pos hget]
      cases foundItem nm.server (keyId (Header.key f.data (headerEnd f.data tags + 8))) with
      | none =>
          have hnot : notfound.length = 9 := rfl
          simp only [reduceCtorEq, false_and, exists_false, and_false, iff_false]
          omega
      | some it =>
          simp only [hget, true_and, Option.some.injEq, exists_eq_left']
    · rw [if_neg hget]
      simp only [hget, false_and, iff_false]
      omega

theorem headerOf_icmp (hf : ValidHeader f tags) (hg : sent nm f db = some g)
    (htype : Packet.frameType f.data = .icmp) : HeaderOf nm.server f g tags := by
  have hlayer : Packet.layer3 tags = 14 + 4 * tags := rfl
  have hend : headerEnd f.data tags = Packet.layer3 tags + 2 * headerWords f.data tags := rfl
  have hfits := hf.fits
  have hreply : (onPacket nm (Packet.ofFrame f.data (checkedLen f.len)) db).2.1 =
      (onIcmp nm.dmac (Packet.ofFrame f.data (checkedLen f.len))).2 := by
    simp only [onPacket, type_ofFrame, htype]
  rcases reply_eq nm hg with ⟨hdata, hlen⟩
  rw [hreply] at hdata hlen
  have hwhole : headerEnd f.data tags ≤ g.len ↔ LengthKept nm.server f tags := by
    have hsent : g.len = checkedLen f.len := by
      rw [hlen, len_onIcmp]
      exact Nat.mod_eq_of_lt (Nat.lt_of_le_of_lt (checkedLen_le f.len) (by decide))
    simp only [LengthKept, htype]
    -- A longer frame was flagged with length zero, and is sent with it.
    rw [hsent, checkedLen]
    split_ifs <;> omega
  have hword := Packet.chkEthertype_eq f.data Packet.ethertypeIp
  by_cases hip : Packet.checkedEthertype f.data = Packet.ethertypeIp
  · rw [decide_eq_true hip] at hword
    rcases headerSum_onIcmp_of_v4 hf.toHasHeader (checkedLen f.len) nm.dmac hword with
      ⟨hsame, hsum⟩
    refine ⟨by rwa [hdata], ?_, hwhole⟩
    simp only [SumKept, htype, hip, if_true]
    rw [hdata]
    exact hsum
  · rw [decide_eq_false hip] at hword
    rcases headerSum_onIcmp_of_v6 hf.toHasHeader (checkedLen f.len) nm.dmac hword with
      ⟨hsame, hsum⟩
    refine ⟨by rwa [hdata], ?_, hwhole⟩
    simp only [SumKept, htype, hip, if_false]
    rw [hdata, hsum]

theorem headerOf_sent (hf : ValidHeader f tags) (hg : sent nm f db = some g)
    (htype : Packet.frameType f.data = .udp ∨ Packet.frameType f.data = .icmp) :
    HeaderOf nm.server f g tags := by
  rcases htype with hudp | hicmp
  · by_cases hforwards : Forwards f.data (checkedLen f.len)
    · exact headerOf_forwarded hf hg hudp hforwards
    · exact headerOf_answer hf hg hudp hforwards
  · exact headerOf_icmp hf hg hicmp

/-- The header of a sent frame is valid exactly when its sum is kept and the frame does not end
inside it; the sum alone, where the header is in the buffer, is right exactly when it is kept. -/
theorem validHeader_sent_iff (hf : ValidHeader f tags) (hg : sent nm f db = some g)
    (htype : Packet.frameType f.data = .udp ∨ Packet.frameType f.data = .icmp) :
    (ValidHeader g tags ↔ SumKept f.data tags ∧ LengthKept nm.server f tags) ∧
      (headerSum g.data tags = 0xFFFF ↔ SumKept f.data tags) := by
  have hheader := headerOf_sent hf hg htype
  refine ⟨?_, hheader.sum⟩
  rw [validHeader_iff hf.toHasHeader hheader.front, hheader.sum, hheader.len]

end Sent

/-- An untagged frame with an IPv4 packet from 10.0.0.2 to 10.`oct`.0.1. -/
def ipv4Frame (total proto : UInt8) (cksum : List UInt8) (oct : UInt8) (bs : List UInt8) : Mem :=
  Mem.write (fun _ => 0) 0
    ([2, 0, 0, 0, 0, 1, 2, 0, 0, 0, 0, 2, 0x08, 0x00] ++
      [0x45, 0, 0, total, 0, 0, 0, 0, 64, proto] ++ cksum ++ [10, 0, 0, 2, 10, oct, 0, 1] ++ bs)

/-- An echo request. -/
def echoFrame : Mem :=
  ipv4Frame 28 Packet.ipprotoIcmp [0x66, 0x5f] 0x80 [8, 0, 0xf7, 0xfd, 0, 1, 0, 1]

/-- A GET of key 5 for the external address. -/
def routedGet : Mem :=
  ipv4Frame 56 Packet.ipprotoUdp [0x66, 0xa3] 0x10
    ([0x30, 0, 0x2b, 0xcb, 0, 36, 0, 0] ++ requestHead opcodeGet 0 46 ++ Mem.be32Bytes 5)

theorem exists_sent {f : Frame} (h : AnsweredFrame f.data f.len demoNetmap ()) :
    ∃ g, sent demoNetmap f () = some g := by
  cases hsent : sent demoNetmap f () with
  | none =>
      exact absurd h ((sent_eq_none_iff demoNetmap).1 hsent)
  | some g =>
      exact ⟨g, rfl⟩

theorem validHeader_echoFrame :
    ∃ g, sent demoNetmap { data := echoFrame, len := 42 } () = some g ∧ ValidHeader g 0 := by
  have hvalid : ValidHeader { data := echoFrame, len := 42 } 0 :=
    ⟨⟨by decide, by decide, by decide, by decide, by decide⟩, by decide, by decide⟩
  have hicmp : Packet.frameType echoFrame = .icmp := by decide
  have hword : Packet.checkedEthertype echoFrame = Packet.ethertypeIp := by decide
  rcases exists_sent (f := { data := echoFrame, len := 42 }) (answered_of_icmp demoNetmap () hicmp)
    with ⟨g, hg⟩
  refine ⟨g, hg, (validHeader_sent_iff hvalid hg (Or.inr hicmp)).1.2 ⟨?_, ?_⟩⟩
  · -- No options, so nothing is missing in the checksum.
    have hwords : headerWords echoFrame 0 - 10 = 0 := by decide
    simp only [SumKept, hicmp, hword, if_true, hwords, wordSum_zero]
    exact Nat.dvd_zero _
  · simp only [LengthKept, hicmp]
    decide

/-- The forwarded frame has the checksum of another destination. -/
theorem routedGet_not_validHeader :
    ValidHeader { data := routedGet, len := 70 } 0 ∧
      (∃ g, sent demoNetmap { data := routedGet, len := 70 } () = some g ∧
        headerSum g.data 0 ≠ 0xFFFF) ∧
      ¬ ∀ (f g : Frame) (tags : Nat), ValidHeader f tags → sent demoNetmap f () = some g →
        Packet.frameType f.data = .udp ∨ Packet.frameType f.data = .icmp →
        headerSum g.data tags = 0xFFFF := by
  have hvalid : ValidHeader { data := routedGet, len := 70 } 0 :=
    ⟨⟨by decide, by decide, by decide, by decide, by decide⟩, by decide, by decide⟩
  have hudp : Packet.frameType routedGet = .udp := by decide
  have hforwards : Forwards routedGet 70 := by decide
  rcases exists_sent (f := { data := routedGet, len := 70 })
    ((answered_of_udp_iff demoNetmap () hudp).2 (Or.inl hforwards)) with ⟨g, hg⟩
  have hbad : headerSum g.data 0 ≠ 0xFFFF := by
    rw [Ne, (headerOf_sent hvalid hg (Or.inl hudp)).sum]
    simp only [SumKept, hudp, not_not]
    decide
  exact ⟨hvalid, ⟨g, hg, hbad⟩, fun hall => hbad (hall _ g 0 hvalid hg (Or.inl hudp))⟩

end Arch
end NmMemcached
