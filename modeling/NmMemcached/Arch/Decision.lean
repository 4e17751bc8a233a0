import NmMemcached.Arch.Routing

/-!
# Decision — what `OnUdp` decides on

`OnUdp` sends a frame on to an internal address, hands it to the server, or drops it.  `decision`
is the choice as a function of the frame, and `takes_iff` says that it is the choice the code
makes.  Two frames that differ in their source address are treated alike under IPv4, but under
IPv6 the octet that is read and rewritten is one of the source address (`sourceBlind_iff`).
-/

namespace NmMemcached
namespace Arch

open Lib Base Net Server

/-! ## The choice -/

inductive Decision
  | forward (addr : BitVec 32)
  | dispatch
  | drop
  deriving DecidableEq

/-- What follows on a decision, for a frame whose hardware addresses were exchanged. -/
def Decision.run {σ : Type*} (recv : Packet → σ → Nat × Packet × σ) (pkt : Packet) (db : σ) :
    Decision → Nat × Packet × σ
  | .forward addr => (needSend, pkt.writeAt (ipDst pkt) (Mem.le32Bytes addr), db)
  | .dispatch => recv pkt db
  | .drop => (0, pkt, db)

/-- The tests a frame passes to be sent on. -/
def Forwards (data : Mem) (len : Nat) : Prop :=
  dstOct3 (Packet.ofFrame data len) = externalIpOct3 ∧ headerLen < len ∧
    Header.bodylen data (Packet.frameOffset data .payload) + headerLen = len

instance (data : Mem) (len : Nat) : Decidable (Forwards data len) :=
  inferInstanceAs (Decidable (_ ∧ _ ∧ _))

/-- The address a frame is sent on to. -/
def target (data : Mem) : BitVec 32 :=
  internalAddr (data.le32 (Packet.frameOffset data .ip + 16)) (keyHash data)

def decision (data : Mem) (len : Nat) : Decision :=
  if Forwards data len then .forward (target data)
  else if dstOct3 (Packet.ofFrame data len) = internalIpOct3 then .dispatch
  else .drop

/-- `SwapMac` does not touch what the tests look at. -/
theorem bodylen_swapMac (data : Mem) (len : Nat) :
    Header.bodylen (swapMac (Packet.ofFrame data len)).data (Packet.frameOffset data .payload) =
      Header.bodylen data (Packet.frameOffset data .payload) := by
  have hpay := header_lt_payload data
  exact bodylen_congr fun i _ => data_swapMac_of_le data len (by omega)

theorem le32_swapMac (data : Mem) (len : Nat) :
    (swapMac (Packet.ofFrame data len)).data.le32 (Packet.frameOffset data .ip + 16) =
      data.le32 (Packet.frameOffset data .ip + 16) := by
  have hip := etherLen_le_ip data
  exact Mem.le32_congr (Mem.read_congr fun i _ => data_swapMac_of_le data len (by omega))

theorem onUdp_eq_run {σ : Type*} (recv : Packet → σ → Nat × Packet × σ) (data : Mem) (len : Nat)
    (db : σ) :
    onUdp recv (Packet.ofFrame data len) db =
      (decision data len).run recv (swapMac (Packet.ofFrame data len)) db := by
  have hunfold : onUdp recv (Packet.ofFrame data len) db =
      if dstOct3 (swapMac (Packet.ofFrame data len)) = externalIpOct3 then
        if len > headerLen then
          if Header.bodylen (swapMac (Packet.ofFrame data len)).data
              (Packet.frameOffset data .payload) + headerLen = len then
            (Decision.forward (internalAddr
              ((swapMac (Packet.ofFrame data len)).data.le32 (Packet.frameOffset data .ip + 16))
              (hash32 (swapMac (Packet.ofFrame data len)).data
                (Packet.frameOffset data .payload + headerLen)
                (Header.keylen (swapMac (Packet.ofFrame data len)).data
                  (Packet.frameOffset data .payload))))).run recv
              (swapMac (Packet.ofFrame data len)) db
          else Decision.drop.run recv (swapMac (Packet.ofFrame data len)) db
        else Decision.drop.run recv (swapMac (Packet.ofFrame data len)) db
      else if dstOct3 (swapMac (Packet.ofFrame data len)) = internalIpOct3 then
        Decision.dispatch.run recv (swapMac (Packet.ofFrame data len)) db
      else Decision.drop.run recv (swapMac (Packet.ofFrame data len)) db := rfl
  rw [hunfold, dstOct3_swapMac, bodylen_swapMac, keyHash_swapMac, le32_swapMac, decision, target]
  -- An external frame is not internal, so a failed test on its length drops it.
  have hne : externalIpOct3 ≠ internalIpOct3 := by decide
  by_cases hext : dstOct3 (Packet.ofFrame data len) = externalIpOct3
  · by_cases hfit : headerLen < len ∧
      Header.bodylen data (Packet.frameOffset data .payload) + headerLen = len
    · have hfwd : Forwards data len := ⟨hext, hfit⟩
      rw [if_pos hext, if_pos hfit.1, if_pos hfit.2, if_pos hfwd]
    · have hno : ¬ Forwards data len := fun h => hfit h.2
      rw [if_pos hext, if_neg hno, hext, if_neg hne]
      by_cases hlen : headerLen < len
      · rw [if_pos hlen, if_neg fun hbody => hfit ⟨hlen, hbody⟩]
      · rw [if_neg hlen]
  · have hno : ¬ Forwards data len := fun h => hext h.1
    rw [if_neg hext, if_neg hno]
    by_cases hint : dstOct3 (Packet.ofFrame data len) = internalIpOct3
    · rw [if_pos hint, if_pos hint]
    · rw [if_neg hint, if_neg hint]

/-- Whatever the server and the database are, the frame takes this branch. -/
def Takes (data : Mem) (len : Nat) (d : Decision) : Prop :=
  ∀ (σ : Type) (recv : Packet → σ → Nat × Packet × σ) (db : σ),
    onUdp recv (Packet.ofFrame data len) db =
      d.run recv (swapMac (Packet.ofFrame data len)) db

/-- A server that returns neither 0 nor `NEED_SEND` tells the three branches apart. -/
theorem Decision.run_inj {pkt : Packet} {d d' : Decision}
    (h : d.run (fun p (db : Unit) => (2, p, db)) pkt () =
      d'.run (fun p (db : Unit) => (2, p, db)) pkt ()) : d = d' := by
  have hret := congrArg Prod.fst h
  have haddr := congrArg (fun r => r.2.1.data.le32 (ipDst pkt)) h
  cases d <;> cases d'
  case forward.forward a b =>
    have ha : a = b :=
      ((Mem.le32_write_le32Bytes _ _ a).symm.trans haddr).trans (Mem.le32_write_le32Bytes _ _ b)
    rw [ha]
  case dispatch.dispatch =>
    rfl
  case drop.drop =>
    rfl
  all_goals exact absurd hret (by simp [Decision.run, needSend])

theorem takes_iff (data : Mem) (len : Nat) (d : Decision) :
    Takes data len d ↔ d = decision data len := by
  constructor
  · intro htakes
    exact Decision.run_inj ((htakes Unit _ ()).symm.trans (onUdp_eq_run _ data len ()))
  · rintro rfl σ recv db
    exact onUdp_eq_run recv data len db

theorem internalOct3_inj {h h' : BitVec 32} :
    internalOct3 h = internalOct3 h' ↔ h.toNat % usecoreCount = h'.toNat % usecoreCount := by
  have hmask : ∀ a < 12, ∀ b < 12, ((128 + a) % 256 &&& 255 = (128 + b) % 256 &&& 255 ↔ a = b) := by
    decide
  have hcase := hmask (h.toNat % 12) (Nat.mod_lt _ (by decide)) (h'.toNat % 12)
    (Nat.mod_lt _ (by decide))
  rw [← BitVec.toNat_inj]
  simpa [internalOct3, internalIpOct3, usecoreCount] using hcase

/-- For one destination the new address is decided by the residue of the hash. -/
theorem internalAddr_inj {addr h h' : BitVec 32} :
    internalAddr addr h = internalAddr addr h' ↔
      h.toNat % usecoreCount = h'.toNat % usecoreCount := by
  constructor
  · intro haddr
    rw [← internalOct3_inj, ← octet_internalAddr addr h, haddr, octet_internalAddr]
  · intro hres
    rw [internalAddr, internalOct3_inj.2 hres, internalAddr]

/-! ## Two frames with different sources -/

/-- The ethertype in front of the layer-3 header.  Behind two tags it is not the word that
`CHK_ETHERTYPE` looks at. -/
def layer3Type (data : Mem) : Nat := data.be16 (Packet.frameOffset data .ip - 2)

/-- The bytes of the layer-3 source address. -/
def InSource (data : Mem) (i : Nat) : Prop :=
  if layer3Type data = Packet.ethertypeIp then
    Packet.frameOffset data .ip + 12 ≤ i ∧ i < Packet.frameOffset data .ip + 16
  else if layer3Type data = Packet.ethertypeIpv6 then
    Packet.frameOffset data .ip + 8 ≤ i ∧ i < Packet.frameOffset data .ip + 24
  else
    False

/-- The bytes of the layer-3 destination address. -/
def InDestination (data : Mem) (i : Nat) : Prop :=
  if layer3Type data = Packet.ethertypeIp then
    Packet.frameOffset data .ip + 16 ≤ i ∧ i < Packet.frameOffset data .ip + 20
  else if layer3Type data = Packet.ethertypeIpv6 then
    Packet.frameOffset data .ip + 24 ≤ i ∧ i < Packet.frameOffset data .ip + 40
  else
    False

/-- A frame that is sent on keeps its layer-3 bytes but for the destination. -/
def KeepsLayer3 (data : Mem) (len : Nat) : Prop :=
  ∀ addr, Takes data len (.forward addr) →
    ∀ i, Packet.frameOffset data .ip ≤ i → ¬ InDestination data i →
      (swapMac (Packet.ofFrame data len)).data.write (Packet.frameOffset data .ip + 16)
        (Mem.le32Bytes addr) i = data i

/-- Neither the branch nor what is sent on depends on the source. -/
structure SourceBlind (m m' : Mem) (len : Nat) : Prop where
  branch : ∃ d, Takes m len d ∧ Takes m' len d
  keeps : KeepsLayer3 m len
  keeps' : KeepsLayer3 m' len

/-- Under IPv4, a frame that is sent on with a header length of 4 bytes has the key length in its
source address, and the two hashes must agree.  Under IPv6 the octet that decides is in the source
address: neither frame may be sent on, and both or neither go to the server. -/
def DestinationOnly (m m' : Mem) (len : Nat) : Prop :=
  if layer3Type m = Packet.ethertypeIp then
    Packet.ipvLen m = 4 → Forwards m len →
      (keyHash m).toNat % usecoreCount = (keyHash m').toNat % usecoreCount
  else
    ¬ Forwards m len ∧ ¬ Forwards m' len ∧
      (dstOct3 (Packet.ofFrame m len) = internalIpOct3 ↔
        dstOct3 (Packet.ofFrame m' len) = internalIpOct3)

theorem takes_forward_iff (data : Mem) (len : Nat) (addr : BitVec 32) :
    Takes data len (.forward addr) ↔ Forwards data len ∧ addr = target data := by
  rw [takes_iff, decision]
  by_cases hfwd : Forwards data len
  · simp [hfwd]
  · rw [if_neg hfwd]
    split <;> simp [hfwd]

theorem keepsLayer3_iff (data : Mem) (len : Nat) :
    KeepsLayer3 data len ↔ (Forwards data len → ∀ i, Packet.frameOffset data .ip ≤ i →
      ¬ InDestination data i → forwarded data len i = data i) := by
  have hout : (swapMac (Packet.ofFrame data len)).data.write (Packet.frameOffset data .ip + 16)
      (Mem.le32Bytes (target data)) = forwarded data len := by
    rw [forwarded, le32_swapMac, target]
  constructor
  · intro h hfwd
    rw [← hout]
    exact h (target data) ((takes_forward_iff data len _).2 ⟨hfwd, rfl⟩)
  · intro h addr htakes
    rcases (takes_forward_iff data len addr).1 htakes with ⟨hfwd, rfl⟩
    rw [hout]
    exact h hfwd

theorem sameBranch_iff (m m' : Mem) (len : Nat) :
    (∃ d, Takes m len d ∧ Takes m' len d) ↔ decision m len = decision m' len := by
  constructor
  · rintro ⟨d, h, h'⟩
    rw [← (takes_iff m len d).1 h, (takes_iff m' len d).1 h']
  · intro h
    exact ⟨decision m len, (takes_iff _ _ _).2 rfl, (takes_iff _ _ _).2 h⟩

section Pair

variable {m m' : Mem} {len : Nat}

/-- Both sources lie behind the first eight bytes of the header, so the frames parse alike. -/
theorem parse_of_differ (h : ∀ i, ¬ InSource m i → m' i = m i) :
    Packet.frameOffset m' = Packet.frameOffset m ∧ layer3Type m' = layer3Type m := by
  have hip : Packet.frameOffset m .ip = Packet.etherLen + Packet.vlanLen m := rfl
  have hsame : ∀ i, i ≤ Packet.etherLen + Packet.vlanLen m → m' i = m i := by
    intro i hhi
    refine h i ?_
    unfold InSource
    split_ifs
    · omega
    · omega
    · exact not_false
  have hoff := (frameOffset_congr fun i _ hhi => hsame i hhi).2
  have hfront := etherLen_le_ip m
  refine ⟨hoff, ?_⟩
  rw [layer3Type, layer3Type, hoff, Mem.be16, Mem.be16, hsame _ (by omega), hsame _ (by omega)]

theorem ipvLen_mod_four (data : Mem) : Packet.ipvLen data % 4 = 0 := by
  unfold Packet.ipvLen
  split
  · exact Nat.mul_mod_left _ 4
  · rfl

section V4

variable (hv4 : layer3Type m = Packet.ethertypeIp)
include hv4

theorem keepsLayer3_v4 (len : Nat) : KeepsLayer3 m len := by
  refine (keepsLayer3_iff m len).2 ?_
  intro _ i hi hout
  rw [InDestination, if_pos hv4] at hout
  have hip := etherLen_le_ip m
  exact forwarded_apply m len (by omega) (by omega)

variable (h : ∀ i, ¬ InSource m i → m' i = m i)
include h

theorem same_v4 {i : Nat}
    (hi : i < Packet.frameOffset m .ip + 12 ∨ Packet.frameOffset m .ip + 16 ≤ i) :
    m' i = m i := by
  refine h i ?_
  rw [InSource, if_pos hv4]
  omega

/-- The key length is in the source only behind a header of 4 bytes. -/
theorem keyHash_v4 (hne : Packet.ipvLen m ≠ 4) : keyHash m' = keyHash m := by
  have hoff := (parse_of_differ h).1
  have hpay : Packet.frameOffset m .payload =
      Packet.frameOffset m .ip + Packet.ipvLen m + 8 := rfl
  have hfour := ipvLen_mod_four m
  have hkeylen : Header.keylen m' (Packet.frameOffset m .payload) =
      Header.keylen m (Packet.frameOffset m .payload) := by
    rw [Header.keylen, Header.keylen, Mem.be16, Mem.be16, same_v4 hv4 h (by omega),
      same_v4 hv4 h (by omega)]
  rw [keyHash, keyHash, hoff, hkeylen]
  exact hash32_congr fun i _ => same_v4 hv4 h (by unfold headerLen; omega)

/-- The octet and the body length of the decision are outside of the source. -/
theorem decision_v4 : decision m len = decision m' len ↔ (Forwards m len →
    (keyHash m).toNat % usecoreCount = (keyHash m').toNat % usecoreCount) := by
  have hoff := (parse_of_differ h).1
  have hpay : Packet.frameOffset m .payload =
      Packet.frameOffset m .ip + Packet.ipvLen m + 8 := rfl
  have hdst : dstOct3 (Packet.ofFrame m' len) = dstOct3 (Packet.ofFrame m len) := by
    have hbyte : m' (Packet.frameOffset m .ip + 16 + 1) = m (Packet.frameOffset m .ip + 16 + 1) :=
      same_v4 hv4 h (by omega)
    rw [dstOct3_eq, dstOct3_eq, ipDst, ipDst, header_ofFrame, header_ofFrame, hoff]
    exact congrArg UInt8.toBitVec hbyte
  have hbody : Header.bodylen m' (Packet.frameOffset m .payload) =
      Header.bodylen m (Packet.frameOffset m .payload) :=
    Mem.be32_congr (Mem.read_congr fun i _ => same_v4 hv4 h (by omega))
  have hfwd : Forwards m' len ↔ Forwards m len := by
    rw [Forwards, Forwards, hdst, hoff, hbody]
  have htarget : target m = target m' ↔
      (keyHash m).toNat % usecoreCount = (keyHash m').toNat % usecoreCount := by
    have haddr : m'.le32 (Packet.frameOffset m .ip + 16) =
        m.le32 (Packet.frameOffset m .ip + 16) :=
      Mem.le32_congr (Mem.read_congr fun i _ => same_v4 hv4 h (by omega))
    rw [target, target, hoff, haddr, internalAddr_inj]
  rw [decision, decision, hdst, ← htarget]
  by_cases hm : Forwards m len
  · rw [if_pos hm, if_pos (hfwd.2 hm), Decision.forward.injEq]
    simp [hm]
  · rw [if_neg hm, if_neg fun h' => hm (hfwd.1 h')]
    simp [hm]

/-- IPv4: the source is outside of what `OnUdp` reads, unless the header has 4 bytes. -/
theorem sourceBlind_v4 : SourceBlind m m' len ↔ DestinationOnly m m' len := by
  have hv4' : layer3Type m' = Packet.ethertypeIp := (parse_of_differ h).2.trans hv4
  have hbranch : decision m len = decision m' len ↔ (Forwards m len →
      (keyHash m).toNat % usecoreCount = (keyHash m').toNat % usecoreCount) := decision_v4 hv4 h
  rw [DestinationOnly, if_pos hv4]
  constructor
  · intro hblind _
    exact hbranch.1 ((sameBranch_iff m m' len).1 hblind.branch)
  · intro hcond
    refine ⟨(sameBranch_iff m m' len).2 (hbranch.2 ?_), keepsLayer3_v4 hv4 len,
      keepsLayer3_v4 hv4' len⟩
    intro hm
    by_cases hlen : Packet.ipvLen m = 4
    · exact hcond hlen hm
    · rw [keyHash_v4 hv4 h hlen]

end V4

/-- IPv6: the octet of the decision is in the source, and sending a frame on rewrites it.  A frame
with another ethertype has no source, and keeps its bytes only if it is not sent on. -/
theorem sourceBlind_v6 (hv6 : layer3Type m ≠ Packet.ethertypeIp)
    (h : ∀ i, ¬ InSource m i → m' i = m i) :
    SourceBlind m m' len ↔ DestinationOnly m m' len := by
  rcases parse_of_differ h with ⟨hoff, htype⟩
  have hkeeps : ∀ data : Mem, layer3Type data ≠ Packet.ethertypeIp →
      (KeepsLayer3 data len ↔ ¬ Forwards data len) := by
    intro data hno
    rw [keepsLayer3_iff]
    constructor
    · intro hall hfwd
      have hout : ¬ InDestination data (Packet.frameOffset data .ip + 16 + 1) := by
        rw [InDestination, if_neg hno]
        split_ifs
        · omega
        · exact not_false
      have hbyte := congrArg UInt8.toBitVec (hall hfwd _ (by omega) hout)
      have hnew := dstOct3_forwarded data len len
      have hold := hfwd.1
      rw [dstOct3_eq, ipDst, header_ofFrame] at hnew hold
      rw [frameOffset_forwarded] at hnew
      exact internalOct3_ne_external _ (hnew.symm.trans (hbyte.trans hold))
    · exact fun hno hfwd => absurd hfwd hno
  rw [DestinationOnly, if_neg hv6]
  have hbranch : ¬ Forwards m len → ¬ Forwards m' len → (decision m len = decision m' len ↔
      (dstOct3 (Packet.ofFrame m len) = internalIpOct3 ↔
        dstOct3 (Packet.ofFrame m' len) = internalIpOct3)) := by
    intro hm hm'
    rw [decision, decision, if_neg hm, if_neg hm']
    by_cases hi : dstOct3 (Packet.ofFrame m len) = internalIpOct3 <;>
      by_cases hi' : dstOct3 (Packet.ofFrame m' len) = internalIpOct3 <;> simp [hi, hi']
  constructor
  · intro hblind
    have hm := (hkeeps m hv6).1 hblind.keeps
    have hm' := (hkeeps m' (htype.symm ▸ hv6)).1 hblind.keeps'
    exact ⟨hm, hm', (hbranch hm hm').1 ((sameBranch_iff m m' len).1 hblind.branch)⟩
  · rintro ⟨hm, hm', hsame⟩
    exact ⟨(sameBranch_iff m m' len).2 ((hbranch hm hm').2 hsame), (hkeeps m hv6).2 hm,
      (hkeeps m' (htype.symm ▸ hv6)).2 hm'⟩

/-- Two frames that are equal but for their layer-3 source address take the same branch with the
same target, and what is sent on changes the destination only, exactly under this condition. -/
theorem sourceBlind_iff (h : ∀ i, ¬ InSource m i → m' i = m i) :
    SourceBlind m m' len ↔ DestinationOnly m m' len := by
  by_cases hv4 : layer3Type m = Packet.ethertypeIp
  · exact sourceBlind_v4 hv4 h
  · exact sourceBlind_v6 hv4 h

end Pair

/-- The GET of key 5, from two senders. -/
theorem sourceBlind_externalGet_5 :
    SourceBlind (externalGet [0, 0, 0, 5])
      ((externalGet [0, 0, 0, 5]).write 26 [192, 168, 0, 7]) 70 := by
  have hvlan : Packet.vlanLen (externalGet [0, 0, 0, 5]) = 0 := (parse_frameMem 0x10 _).1
  have hframe : IsIpv4Udp (externalGet [0, 0, 0, 5]) := (parse_frameMem 0x10 _).2.1
  have hip : Packet.frameOffset (externalGet [0, 0, 0, 5]) .ip = 14 := by
    simp [Packet.frameOffset, hvlan, Packet.etherLen]
  have htype : layer3Type (externalGet [0, 0, 0, 5]) = Packet.ethertypeIp := by
    have h12 : externalGet [0, 0, 0, 5] 12 = 0x08 := frameMem_apply 0x10 _ rfl
    have h13 : externalGet [0, 0, 0, 5] 13 = 0x00 := frameMem_apply 0x10 _ rfl
    simp [layer3Type, hip, Mem.be16, h12, h13, Packet.ethertypeIp]
  refine (sourceBlind_iff ?_).2 ?_
  · intro i hi
    rw [InSource, if_pos htype, hip] at hi
    exact Mem.write_of_disjoint (by simp; omega)
  · rw [DestinationOnly, if_pos htype]
    intro hfour
    have hpay := hframe.payload.2
    have hoff : Packet.frameOffset (externalGet [0, 0, 0, 5]) .payload =
      Packet.frameOffset (externalGet [0, 0, 0, 5]) .ip +
        Packet.ipvLen (externalGet [0, 0, 0, 5]) + 8 := rfl
    omega

/-- An IPv6 frame with a UDP header, with this byte at the tenth place of its source address. -/
def frame6 (oct : UInt8) : Mem :=
  (Mem.write (fun _ => 0) 0
    ([2, 0, 0, 0, 0, 1, 2, 0, 0, 0, 0, 2, 0x86, 0xdd] ++
      [0x60, 0, 0, 0, 0, 8, Packet.ipprotoUdp, 64] ++
      [0xfd, 0, 0, 0, 0, 0, 0, 0, 0, 0, 0, 0, 0, 0, 0, 1] ++
      [0xfd, 0, 0, 0, 0, 0, 0, 0, 0, 0, 0, 0, 0, 0, 0, 2] ++
      [0x30, 0, 0x2b, 0xcb, 0, 8, 0, 0])).write 31 [oct]

/-- Two IPv6 frames that differ in one byte of their source address: one goes to the server, the
other is dropped. -/
theorem frame6_not_sourceBlind :
    Packet.frameType (frame6 0x80) = .udp ∧ Packet.frameType (frame6 0) = .udp ∧
      (∀ i, ¬ InSource (frame6 0x80) i → frame6 0 i = frame6 0x80 i) ∧
      Takes (frame6 0x80) 62 .dispatch ∧ Takes (frame6 0) 62 .drop ∧
      ¬ SourceBlind (frame6 0x80) (frame6 0) 62 := by
  have hdispatch : decision (frame6 0x80) 62 = .dispatch := by decide
  have hdrop : decision (frame6 0) 62 = .drop := by decide
  refine ⟨by decide, by decide, ?_, (takes_iff _ _ _).2 hdispatch.symm,
    (takes_iff _ _ _).2 hdrop.symm, ?_⟩
  · intro i hi
    have hv6 : layer3Type (frame6 0x80) = Packet.ethertypeIpv6 := by decide
    have hip : Packet.frameOffset (frame6 0x80) .ip = 14 := by decide
    rw [InSource, hv6, if_neg (by decide), if_pos rfl, hip] at hi
    have hout : i < 31 ∨ 31 + 1 ≤ i := by omega
    have hkeep : ∀ (m : Mem) (b : UInt8), m.write 31 [b] i = m i :=
      fun _ _ => Mem.write_of_disjoint hout
    rw [frame6, frame6, hkeep, hkeep]
  · intro hblind
    have hsame := (sameBranch_iff _ _ _).1 hblind.branch
    rw [hdispatch, hdrop] at hsame
    exact absurd hsame (by decide)

end Arch
end NmMemcached
