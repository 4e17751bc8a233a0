import NmMemcached.Arch.Arrivals
import NmMemcached.Server.Framing

/-!
# Reflection — replies that are answered again

`ProcessRing` turns a frame into its reply in place and sends it back.  What keeps two instances
from answering each other's replies for ever is only that a reply does not look like a request.
For a memcached response that is so, because its magic is another one; but the response goes out
with the length of the response alone, and one that ends in front of its magic looks like whatever
the buffer of the receiver held.  An ARP reply and an ICMP reply have the type of the frame they
answer, and no handler looks at the operation, or at the ICMP type, before it answers
(`silent_iff`).

So an ARP or ICMP exchange of two instances has no end (`exchange_of_reflected`), unless the
message begins inside its own IP header and the reply destroys what it is recognised by.
-/

namespace NmMemcached
namespace Arch

open Lib Base Net Server

/-- The external branch of `OnUdp` sends a frame on, it does not reply to it. -/
def Forwarded (f : Frame) : Prop :=
  Packet.frameType f.data = .udp ∧ dstOct3 (Packet.ofFrame f.data f.len) = externalIpOct3

def RepliesWith {σ : Type} (nm : Netmap σ) (f : Frame) (db : σ) (g : Frame) : Prop :=
  sent nm f db = some g ∧ ¬ Forwarded f

/-! ## Frames that nobody answers -/

section Frames

variable {g : Frame}

theorem vlanLen_cases (m : Mem) :
    Packet.vlanLen m = 0 ∨ Packet.vlanLen m = 4 ∨ Packet.vlanLen m = 8 := by
  unfold Packet.vlanLen
  split_ifs <;> simp

theorem payload_le (m : Mem) : Packet.frameOffset m .payload ≤ 90 := by
  have hpay : Packet.frameOffset m .payload =
      Packet.etherLen + Packet.vlanLen m + Packet.ipvLen m + 8 := rfl
  have hether : Packet.etherLen = 14 := rfl
  have htags := vlanLen_cases m
  have hwords : Packet.ipvLen m ≤ 60 := by
    unfold Packet.ipvLen
    split_ifs <;> omega
  omega

/-- A response: the end of the frame decides. -/
theorem silent_iff_of_response (htype : Packet.frameType g.data = .udp)
    (hoct : g.data (Packet.frameOffset g.data .ip + 17) = 0x80)
    (hpay : Packet.frameOffset g.data .ip + 20 ≤ Packet.frameOffset g.data .payload)
    (hmagic : Header.magic g.data (Packet.frameOffset g.data .payload) = magicResponse)
    (hlen : headerLen ≤ g.len) :
    Silent g ↔ protoOffset g.data < g.len ∧
      (g.len ≤ headerLen ∨ Packet.frameOffset g.data .payload < g.len) := by
  have hip : Packet.frameOffset g.data .ip = 14 + Packet.vlanLen g.data := rfl
  have hhead : headerLen = 24 := rfl
  have htags := vlanLen_cases g.data
  have hle := payload_le g.data
  constructor
  · intro hsilent
    have hnone := silent_iff_forall.1 hsilent
    have hlate : g.len ≤ headerLen ∨ Packet.frameOffset g.data .payload < g.len := by
      by_contra hnot
      rcases exists_request htype hoct hpay (n := g.len) (by omega) (by omega) (by omega) with
        ⟨d, hd, hanswered⟩
      exact hnone d hd hanswered
    refine ⟨?_, hlate⟩
    by_contra hnot
    -- A frame that ends right behind the time to live is too long for an untagged one.
    have hshort : g.len ≤ Packet.frameOffset g.data .ip + 8 := by
      unfold protoOffset at hnot
      split_ifs at hnot <;> omega
    rcases exists_icmp_of_udp htype (Nat.not_lt.1 hnot) hshort with ⟨d, hd, hicmp⟩
    exact hnone d hd (answerable_of_icmp hicmp)
  · rintro ⟨hproto, hend⟩
    refine silent_iff_forall.2 fun d hd => ?_
    have hudp := udp_of_extends hd htype hproto
    have hin : Packet.frameOffset g.data .ip < g.len := by
      unfold protoOffset at hproto
      split_ifs at hproto <;> omega
    have hoffset := offset_of_extends hd hin
    rcases hend with hshort | hlate
    · refine not_answerable_of_short (Or.inl hudp) ?_
      rwa [checkedLen_of_le (by omega)]
    · have hbyte := hd (Packet.frameOffset g.data .ip + 17) (by omega)
      have hfirst := hd (Packet.frameOffset g.data .payload) hlate
      unfold Answerable
      rw [hudp]
      simp only [dstOct3_eq_iff, hoffset, hbyte, hoct]
      rintro (⟨hext, _⟩ | ⟨_, hrequest⟩)
      · exact absurd hext (by decide)
      · have hrequested : d (Packet.frameOffset d .payload) = magicRequest :=
          (accepted_iff.1 hrequest).1
        rw [hoffset, hfirst] at hrequested
        exact absurd (hmagic.symm.trans hrequested) (by decide)

/-- A frame for an external address behind a time to live of zero. -/
theorem exists_forwarded {m : Mem} {n : Nat}
    (hip : Packet.chkEthertype m Packet.ethertypeIp = true)
    (hfirst : m (Packet.frameOffset m .ip) = 0x42) (hn : n = Packet.frameOffset m .ip + 9)
    (hlong : headerLen < n) : ∃ d, Extends m n d ∧ Answerable d n := by
  have hle := payload_le m
  have hlen : Packet.ipvLen m = 2 * 4 := (ipvLen_eq_iff (show 2 < 10 by decide)).2 hfirst
  have hpay : Packet.frameOffset m .payload =
      Packet.frameOffset m .ip + Packet.ipvLen m + 8 := rfl
  have hhead : headerLen = 24 := rfl
  -- From the protocol byte up to the body length.
  generalize hbytes : [Packet.ipprotoUdp, 0, 0, 0, 0, 0, 0, 0, 0x10, 0, 0, 0, 0, 0, 0] ++
    Mem.be32Bytes (n - headerLen) = bytes
  have hfront := extends_write_front m (Packet.frameOffset m .ip + 9) bytes
  have hsame := ethertype_of_extends hfront (Nat.le_add_right _ 9)
  have hoffset := offset_of_extends hfront (by omega)
  have hread : (m.write (Packet.frameOffset m .ip + 9) bytes).read (Packet.frameOffset m .ip + 9)
      bytes.length = bytes := Mem.read_write_self _ _ _
  generalize m.write (Packet.frameOffset m .ip + 9) bytes = d at hfront hsame hoffset hread
  subst hbytes
  have hproto : d (Packet.frameOffset m .ip + 9) = Packet.ipprotoUdp :=
    Mem.apply_of_read hread (show 0 < _ by simp)
  have hoct : d (Packet.frameOffset m .ip + 9 + 8) = 0x10 :=
    Mem.apply_of_read hread (show 8 < _ by simp)
  have hbody : d.be32 (Packet.frameOffset m .ip + 9 + 15) = n - headerLen := by
    refine Mem.be32_of_read ?_ (by omega)
    exact Mem.read_of_read_append [Packet.ipprotoUdp, 0, 0, 0, 0, 0, 0, 0, 0x10, 0, 0, 0, 0, 0, 0]
      (Mem.be32Bytes (n - headerLen)) [] (by simpa using hread)
  have hudp : Packet.frameType d = .udp := by
    rw [frameType_of_v4 (by rw [hsame.2, hip]), hsame.1, hproto, if_pos rfl]
  refine ⟨d, fun i hi => hfront i (by omega), ?_⟩
  rw [Answerable, hudp]
  refine Or.inl ⟨(dstOct3_eq_iff _).2 ?_, ?_, ?_⟩
  · rw [hoffset]
    exact hoct
  · rwa [checkedLen_of_le (by omega)]
  · have hat : Packet.frameOffset m .payload + 8 = Packet.frameOffset m .ip + 9 + 15 := by omega
    rw [hoffset, Header.bodylen, hat, hbody, checkedLen_of_le (by omega)]
    omega

/-- An ICMP reply without a time to live, in a header of two words. -/
theorem silent_iff_of_cleared (hle : g.len ≤ 2048)
    (hip : Packet.chkEthertype g.data Packet.ethertypeIp = true)
    (hfirst : g.data (Packet.frameOffset g.data .ip) = 0x42)
    (httl : g.data (Packet.frameOffset g.data .ip + 8) = 0)
    (hproto : g.data (Packet.frameOffset g.data .ip + 9) = Packet.ipprotoIcmp) :
    Silent g ↔ Packet.frameOffset g.data .ip + 9 ≤ g.len ∧
      (Packet.frameOffset g.data .ip + 9 < g.len ∨ g.len ≤ headerLen) := by
  have hne : Packet.ipprotoIcmp ≠ Packet.ipprotoUdp := by decide
  constructor
  · intro hsilent
    have hnone := silent_iff_forall.1 hsilent
    have hfits : Packet.frameOffset g.data .ip + 9 ≤ g.len := by
      by_contra hshort
      rcases exists_icmp_of_v4 (n := g.len) hip (by omega) (Or.inl (by omega)) with ⟨d, hd, hicmp⟩
      exact hnone d hd (answerable_of_icmp hicmp)
    refine ⟨hfits, ?_⟩
    by_contra hnot
    rcases exists_forwarded (n := g.len) hip hfirst (by omega) (by omega) with ⟨d, hd, hanswered⟩
    exact hnone d hd hanswered
  · rintro ⟨hfits, hend⟩
    refine silent_iff_forall.2 fun d hd => ?_
    have hsame := ethertype_of_extends hd (by omega)
    have hdead : d (Packet.frameOffset g.data .ip + 8) = 0 := (hd _ (by omega)).trans httl
    have htype : Packet.frameType d =
        if d (Packet.frameOffset g.data .ip + 9) = Packet.ipprotoUdp then .udp else .dc := by
      rw [frameType_of_v4 (by rw [hsame.2, hip]), hsame.1, hdead]
      simp
    rcases hend with hproto' | hshort
    · rw [hd _ hproto', hproto, if_neg hne] at htype
      rw [Answerable, htype]
      exact id
    · refine not_answerable_of_short ?_ ?_
      · rw [htype]
        split_ifs <;> simp
      · rwa [checkedLen_of_le hle]

/-- The fields of a UDP or ICMPv6 frame in a header of one word, for a buffer that carries it. -/
theorem answerable_iff_of_header {d : Mem} {len : Nat}
    (hip : Packet.chkEthertype d Packet.ethertypeIp = false)
    (hv6 : Packet.chkEthertype d Packet.ethertypeIpv6 = true)
    (hfirst : d (Packet.frameOffset d .ip) = 0x41) :
    Answerable d len ↔
      (d (Packet.frameOffset d .ip + 6) = Packet.ipprotoIcmpv6 ∧
        d (Packet.frameOffset d .ip + 7) ≠ 0) ∨
      (d (Packet.frameOffset d .ip + 6) = Packet.ipprotoUdp ∧
        d (Packet.frameOffset d .ip + 17) = 0x10 ∧ headerLen < checkedLen len ∧
        d.be32 (Packet.frameOffset d .ip + 20) + headerLen = checkedLen len) := by
  have hne : Packet.ipprotoUdp ≠ Packet.ipprotoIcmpv6 := by decide
  have htype := frameType_of_v6 hip hv6
  have hlen : Packet.ipvLen d = 1 * 4 := (ipvLen_eq_iff (show 1 < 10 by decide)).2 hfirst
  have hpay : Packet.frameOffset d .payload = Packet.frameOffset d .ip + 12 := by
    have hsum : Packet.frameOffset d .payload =
        Packet.frameOffset d .ip + Packet.ipvLen d + 8 := rfl
    omega
  -- The octet of the destination is the data type of the request.
  have hrefused : ¬ (dstOct3 (Packet.ofFrame d len) = internalIpOct3 ∧
      Accepted (Packet.ofFrame d (checkedLen len))) := by
    rintro ⟨hoct, hacc⟩
    have htag : d (Packet.frameOffset d .payload + 5) = 0 := (accepted_iff.1 hacc).2.1
    rw [hpay, Nat.add_assoc] at htag
    have hbyte := (dstOct3_eq_iff internalIpOct3).1 hoct
    exact absurd (hbyte.symm.trans htag) (by decide)
  have hbody : Header.bodylen d (Packet.frameOffset d .payload) =
      d.be32 (Packet.frameOffset d .ip + 20) := by rw [hpay]; rfl
  rw [dstOct3_eq_iff] at hrefused
  unfold Answerable
  rw [htype]
  by_cases hicmp : d (Packet.frameOffset d .ip + 6) = Packet.ipprotoIcmpv6 ∧
      d (Packet.frameOffset d .ip + 7) ≠ 0
  · rw [if_pos hicmp]
    exact iff_of_true trivial (Or.inl hicmp)
  · rw [if_neg hicmp]
    by_cases hudp : d (Packet.frameOffset d .ip + 6) = Packet.ipprotoUdp
    · rw [if_pos hudp]
      simp only [hrefused, or_false, hbody, dstOct3_eq_iff, hudp, hne, false_and, false_or,
        true_and]
      rfl
    · rw [if_neg hudp]
      refine iff_of_false not_false ?_
      rintro (h | ⟨h, _⟩)
      · exact hicmp h
      · exact hudp h

/-- A header of one word that ends within the first `n` bytes of a frame or behind them, and that no
bytes behind them make one that is answered. -/
structure NextClosed (ip n : Nat) (next hops oct : UInt8) (body : List UInt8) : Prop where
  inside : ip + 6 < n
  icmp : next = Packet.ipprotoIcmpv6 → ip + 7 < n ∧ hops = 0
  udp : next = Packet.ipprotoUdp → headerLen < n → (ip + 17 < n → oct = 0x10) →
    ¬ ∀ j < 4, ip + 20 + j < n → body[j]? = (Mem.be32Bytes (n - headerLen))[j]?

theorem getElem?_read (m : Mem) (off : Nat) {n j : Nat} (hj : j < n) :
    (m.read off n)[j]? = some (m (off + j)) := by
  rw [List.getElem?_eq_getElem (by simpa using hj), Mem.getElem_read]

/-- The octet of an external address and a body length, where the frame leaves room for them. -/
theorem exists_external {m : Mem} {ip n : Nat} (hat : Packet.frameOffset m .ip = ip)
    (hip : Packet.chkEthertype m Packet.ethertypeIp = false)
    (hv6 : Packet.chkEthertype m Packet.ethertypeIpv6 = true) (hfirst : m ip = 0x41)
    (hnext : m (ip + 6) = Packet.ipprotoUdp) (hlong : headerLen < n) (hle : n ≤ 2048)
    (hoct : ip + 17 < n → m (ip + 17) = 0x10)
    (hbody : ∀ j < 4, ip + 20 + j < n →
      (m.read (ip + 20) 4)[j]? = (Mem.be32Bytes (n - headerLen))[j]?) :
    ∃ d, Extends m n d ∧ Answerable d n := by
  have hone : Extends m n (m.write (ip + 17) [0x10]) := by
    refine extends_write fun j hj hin => ?_
    have hzero : j = 0 := by
      simp only [List.length_cons, List.length_nil] at hj
      omega
    subst hzero
    exact congrArg some (hoct hin).symm
  have hfront : Extends m (ip + 17) (m.write (ip + 17) [0x10]) := extends_write_front _ _ _
  have hbyte : m.write (ip + 17) [0x10] (ip + 17) = 0x10 :=
    Mem.write_add (show 0 < [(0x10 : UInt8)].length from Nat.one_pos)
  have hkept : ∀ j, m.write (ip + 17) [0x10] (ip + 20 + j) = m (ip + 20 + j) :=
    fun j => Mem.write_of_le (by simp only [List.length_cons, List.length_nil]; omega)
  generalize m.write (ip + 17) [0x10] = c at hone hfront hbyte hkept
  have htwo : Extends c n (c.write (ip + 20) (Mem.be32Bytes (n - headerLen))) := by
    refine extends_write fun j hj hin => ?_
    rw [hkept, ← hbody j hj hin]
    exact getElem?_read m (ip + 20) hj
  have hlast : Extends c (ip + 20) (c.write (ip + 20) (Mem.be32Bytes (n - headerLen))) :=
    extends_write_front _ _ _
  have hfield := Mem.be32_write_be32Bytes c (ip + 20) (n := n - headerLen) (by omega)
  generalize c.write (ip + 20) (Mem.be32Bytes (n - headerLen)) = d at htwo hlast hfield
  have hd : Extends m (ip + 17) d := hfront.trans fun i hi => hlast i (by omega)
  have hsame := ethertype_of_extends hd (by omega)
  rw [hat] at hsame
  refine ⟨d, hone.trans htwo, ?_⟩
  rw [answerable_iff_of_header (by rw [hsame.2, hip]) (by rw [hsame.2, hv6])
    (by rw [hsame.1, hd ip (by omega), hfirst]), hsame.1]
  refine Or.inr ⟨?_, ?_, ?_, ?_⟩
  · rw [hd (ip + 6) (by omega), hnext]
  · rw [hlast (ip + 17) (by omega), hbyte]
  · rwa [checkedLen_of_le hle]
  · rw [hfield, checkedLen_of_le hle]
    omega

/-- An ICMPv6 reply with another next header, in a header of one word. -/
theorem silent_iff_of_header {ip : Nat} (hat : Packet.frameOffset g.data .ip = ip)
    (hle : g.len ≤ 2048) (hip : Packet.chkEthertype g.data Packet.ethertypeIp = false)
    (hv6 : Packet.chkEthertype g.data Packet.ethertypeIpv6 = true) (hfirst : g.data ip = 0x41) :
    Silent g ↔ NextClosed ip g.len (g.data (ip + 6)) (g.data (ip + 7)) (g.data (ip + 17))
      (g.data.read (ip + 20) 4) := by
  constructor
  · intro hsilent
    have hnone := silent_iff_forall.1 hsilent
    have hmessage : g.len ≤ ip + 7 → (ip + 6 < g.len → g.data (ip + 6) = Packet.ipprotoIcmpv6) →
        False := by
      intro hshort hnext
      rcases exists_icmp_of_v6 (n := g.len) hip hv6 (by rwa [hat]) (by rwa [hat]) with
        ⟨d, hd, hicmp⟩
      exact hnone d hd (answerable_of_icmp hicmp)
    refine ⟨?_, ?_, ?_⟩
    · by_contra hshort
      exact hmessage (by omega) fun hin => absurd hin hshort
    · intro hnext
      refine ⟨?_, ?_⟩
      · by_contra hshort
        exact hmessage (by omega) fun _ => hnext
      · by_contra hlive
        refine hnone g.data (extends_self _ _) (answerable_of_icmp ?_)
        rw [frameType_of_v6 hip hv6, hat, if_pos ⟨hnext, hlive⟩]
    · intro hnext hlong hoct hbody
      rcases exists_external hat hip hv6 hfirst hnext hlong hle hoct hbody with ⟨d, hd, hanswered⟩
      exact hnone d hd hanswered
  · intro hclosed
    have hin := hclosed.inside
    refine silent_iff_forall.2 fun d hd => ?_
    have hsame := ethertype_of_extends hd (by omega)
    rw [hat] at hsame
    rw [answerable_iff_of_header (by rw [hsame.2, hip]) (by rw [hsame.2, hv6])
      (by rw [hsame.1, hd ip (by omega), hfirst]), hsame.1, hd (ip + 6) hin, checkedLen_of_le hle]
    rintro (⟨hnext, hlive⟩ | ⟨hnext, hoct, hlong, hbody⟩)
    · rcases hclosed.icmp hnext with ⟨hhops, hzero⟩
      exact hlive ((hd (ip + 7) hhops).trans hzero)
    · refine hclosed.udp hnext hlong (fun hroom => (hd (ip + 17) hroom).symm.trans hoct) ?_
      intro j hj hroom
      have hlen : g.len - headerLen = d.be32 (ip + 20) := by omega
      rw [hlen, Mem.be32Bytes_be32, getElem?_read _ _ hj, getElem?_read _ _ hj, hd _ hroom]

end Frames

/-! ## Replies that end an exchange -/

/-- The checksum of the reply does not leave the next header of a frame that is answered or sent
on. -/
def NextHarmless (m : Mem) (n : Nat) : Prop :=
  let ip := Packet.frameOffset m .ip
  NextClosed ip n (UInt8.ofNat (replyCksum m n / 256)) (UInt8.ofNat (replyCksum m n)) (m (ip + 33))
    (m.read (ip + 36) 4)

/-- The cleared time to live goes over the wire, with the protocol behind it unless the frame is
too short for a request. -/
def TtlHarmless (m : Mem) (n : Nat) : Prop :=
  let ip := Packet.frameOffset m .ip
  ip + 9 ≤ n ∧ (ip + 9 < n ∨ n ≤ headerLen)

/-- The requests whose answers nobody takes for anything else: a SET without tags, and a GET that
finds an item long enough to take the answer behind the headers that it has in front of it. -/
def QuietAnswer {σ : Type} (srv : Server σ) (m : Mem) : Prop :=
  let p := Packet.frameOffset m .payload
  (Header.opcode m p = opcodeSet ∧ Packet.vlanLen m = 0) ∨
    (Header.opcode m p = opcodeGet ∧
      ∃ it, foundItem srv (keyId (Header.key m p)) = some it ∧
        p < headerLen + 4 + it.datalen.toNat)

/-- The frames whose replies nobody answers. -/
def Quiet {σ : Type} (srv : Server σ) (f : Frame) : Prop :=
  match Packet.frameType f.data with
  | .udp => QuietAnswer srv f.data
  | .icmp => (TtlCleared f.data ∧ TtlHarmless f.data (checkedLen f.len)) ∨
      (NextReplaced f.data ∧ NextHarmless f.data (checkedLen f.len))
  | _ => False

section Replies

variable {σ : Type} {nm : Netmap σ} {f g : Frame} {db : σ}

theorem not_silent_of_arp (h : sent nm f db = some g) (htype : Packet.frameType f.data = .arp) :
    ¬ Silent g := by
  have hreply : (onPacket nm (Packet.ofFrame f.data (checkedLen f.len)) db).2.1 =
      (onArp nm.dmac (Packet.ofFrame f.data (checkedLen f.len))).2 := by
    simp only [onPacket, type_ofFrame, htype]
  refine not_silent_of_answerable (answerable_of_arp ?_)
  rw [(reply_eq nm h).1, hreply]
  exact frameType_onArp (checkedLen f.len) nm.dmac htype

/-! ### ICMP -/

theorem reply_of_icmp (h : sent nm f db = some g) (htype : Packet.frameType f.data = .icmp) :
    g.data = (onIcmp nm.dmac (Packet.ofFrame f.data (checkedLen f.len))).2.data ∧
      g.len = checkedLen f.len := by
  have hreply : (onPacket nm (Packet.ofFrame f.data (checkedLen f.len)) db).2.1 =
      (onIcmp nm.dmac (Packet.ofFrame f.data (checkedLen f.len))).2 := by
    simp only [onPacket, type_ofFrame, htype]
  rcases reply_eq nm h with ⟨hdata, hlen⟩
  rw [hreply] at hdata hlen
  refine ⟨hdata, ?_⟩
  rw [hlen, len_onIcmp]
  exact Nat.mod_eq_of_lt (Nat.lt_of_le_of_lt (checkedLen_le f.len) (by decide))

theorem silent_iff_of_ttlCleared (h : sent nm f db = some g)
    (htype : Packet.frameType f.data = .icmp) (hcleared : TtlCleared f.data) :
    Silent g ↔ TtlHarmless f.data (checkedLen f.len) := by
  have hge := etherLen_le_ip f.data
  have hip := hcleared.ethertype
  have hwords : Packet.ipvLen f.data = 2 * 4 :=
    (ipvLen_eq_iff (show 2 < 10 by decide)).2 hcleared.first
  have hicmp : Packet.frameOffset f.data .icmp = Packet.frameOffset f.data .ip + 8 := by
    rw [icmp_eq, hwords]
  rcases reply_of_icmp h htype with ⟨hdata, hlen⟩
  have hsame := ethertype_onIcmp_of_v4 (checkedLen f.len) nm.dmac hip
  have hkept : ∀ a, 12 ≤ a → a < Packet.frameOffset f.data .ip + 10 →
      a ≠ Packet.frameOffset f.data .ip + 8 → g.data a = f.data a := by
    intro a hlo hhi hne
    rw [hdata]
    exact apply_onIcmpV4 _ nm.dmac hip hlo hhi (by rwa [hicmp]) (by omega)
  have hzero : g.data (Packet.frameOffset f.data .ip + 8) = 0 := by
    rw [hdata, ← hicmp]
    exact message_onIcmp_of_v4 _ nm.dmac hip
  rw [← hdata] at hsame
  rw [silent_iff_of_cleared (by rw [hlen]; exact checkedLen_le _) (by rw [hsame.2, hip])
    (by rw [hsame.1, hkept _ (by omega) (by omega) (by omega)]; exact hcleared.first)
    (by rw [hsame.1, hzero])
    (by rw [hsame.1, hkept _ (by omega) (by omega) (by omega)]; exact (icmp_of_v4 htype hip).1),
    hsame.1, hlen]
  rfl

theorem silent_iff_of_nextReplaced (h : sent nm f db = some g)
    (htype : Packet.frameType f.data = .icmp) (hnext : NextReplaced f.data) :
    Silent g ↔ NextHarmless f.data (checkedLen f.len) := by
  have hge := etherLen_le_ip f.data
  rcases reply_of_icmp h htype with ⟨hdata, hlen⟩
  have hmessage := icmp_of_v6 htype hnext.ethertype
  have hcks := cksum_of_nextReplaced (checkedLen f.len) nm.dmac hnext
  have hfront : ∀ a, 12 ≤ a → a < Packet.frameOffset f.data .ip + 4 → g.data a = f.data a := by
    intro a hlo hhi
    rw [hdata]
    exact apply_of_nextReplaced (checkedLen f.len) nm.dmac hnext hlo hhi
  have hsource : ∀ a, Packet.frameOffset f.data .ip + 12 ≤ a →
      a < Packet.frameOffset f.data .ip + 24 → g.data a = f.data (a + 16) := by
    intro a hlo hhi
    rw [hdata]
    exact source_of_nextReplaced (checkedLen f.len) nm.dmac hnext hlo hhi
  rw [← hdata] at hcks
  have hsame := @ethertype_congr f.data g.data fun i hlo hhi =>
    hfront i hlo (Nat.lt_of_lt_of_le hhi (Nat.le_add_right _ 4))
  have hat : Packet.frameOffset g.data .ip = Packet.frameOffset f.data .ip :=
    congrArg (Packet.etherLen + ·) hsame.1
  have hbody : g.data.read (Packet.frameOffset f.data .ip + 20) 4 =
      f.data.read (Packet.frameOffset f.data .ip + 36) 4 := by
    refine Mem.read_congr fun i hi => ?_
    rw [hsource _ (by omega) (by omega)]
    exact congrArg f.data (by omega)
  rw [silent_iff_of_header hat (by rw [hlen]; exact checkedLen_le _)
    (by rw [hsame.2, hnext.ethertype]) (by rw [hsame.2]; exact hmessage.1)
    (by rw [hfront _ (by omega) (by omega)]; exact hnext.first), hcks.1, hcks.2,
    hsource (Packet.frameOffset f.data .ip + 17) (by omega) (by omega), hbody, hlen]
  rfl

theorem silent_iff_of_icmp (h : sent nm f db = some g) (htype : Packet.frameType f.data = .icmp) :
    Silent g ↔ (TtlCleared f.data ∧ TtlHarmless f.data (checkedLen f.len)) ∨
      (NextReplaced f.data ∧ NextHarmless f.data (checkedLen f.len)) := by
  have hdata := (reply_of_icmp h htype).1
  by_cases hip : Packet.chkEthertype f.data Packet.ethertypeIp = true
  · have hnext : ¬ NextReplaced f.data := fun hnext =>
      absurd (hip.symm.trans hnext.ethertype) (by decide)
    by_cases hcleared : TtlCleared f.data
    · rw [silent_iff_of_ttlCleared h htype hcleared]
      simp only [hcleared, hnext, true_and, false_and, or_false]
    · have hparse := frameType_onIcmp_of_v4 (checkedLen f.len) nm.dmac htype hip
      rw [if_neg fun hfirst => hcleared ⟨hip, hfirst⟩, ← hdata] at hparse
      simp only [hcleared, hnext, false_and, or_false, iff_false]
      exact not_silent_of_answerable (answerable_of_icmp hparse)
  · have hv6 : Packet.chkEthertype f.data Packet.ethertypeIp = false := Bool.eq_false_iff.2 hip
    have hcleared : ¬ TtlCleared f.data := fun hcleared => hip hcleared.ethertype
    by_cases hnext : NextReplaced f.data
    · rw [silent_iff_of_nextReplaced h htype hnext]
      simp only [hcleared, hnext, true_and, false_and, false_or]
    · have hparse := frameType_onIcmp_of_v6 (checkedLen f.len) nm.dmac htype hv6 hnext
      rw [← hdata] at hparse
      simp only [hcleared, hnext, false_and, or_false, iff_false]
      exact not_silent_of_answerable (answerable_of_icmp hparse)

/-! ### Responses -/

/-- An accepted request begins behind the addresses of its IP header: in front of them the octet
of the address would be a byte of the request that has another value. -/
theorem ip_le_payload {m : Mem} {len n : Nat}
    (hoct : dstOct3 (Packet.ofFrame m len) = internalIpOct3)
    (hacc : Accepted (Packet.ofFrame m n)) (hn : n ≤ 2048) :
    Packet.frameOffset m .ip + 20 ≤ Packet.frameOffset m .payload := by
  have hbyte : m (Packet.frameOffset m .ip + 17) = 0x80 := (dstOct3_eq_iff internalIpOct3).1 hoct
  have hpay : Packet.frameOffset m .payload =
      Packet.frameOffset m .ip + Packet.ipvLen m + 8 := rfl
  have hwords := ipvLen_mod (m := m)
  rcases accepted_iff.1 hacc with ⟨_, htype, hlen, _, hparts⟩
  by_contra hshort
  have hcases : Packet.ipvLen m = 0 ∨ Packet.ipvLen m = 4 ∨ Packet.ipvLen m = 8 := by omega
  rcases hcases with h | h | h
  · -- The octet is in the body length.
    have hbody : body (Packet.ofFrame m n) = m.be32 (Packet.frameOffset m .payload + 8) := rfl
    have hat : Packet.frameOffset m .payload + 8 + 1 = Packet.frameOffset m .ip + 17 := by omega
    have hlarge : 128 * 65536 ≤ m.be32 (Packet.frameOffset m .payload + 8) := by
      unfold Mem.be32 Mem.be16
      rw [hat, hbyte]
      have hval : (0x80 : UInt8).toNat = 128 := rfl
      omega
    have hlen' : n = headerLen + body (Packet.ofFrame m n) := hlen
    omega
  · have hat : Packet.frameOffset m .payload + 5 = Packet.frameOffset m .ip + 17 := by omega
    have htag : m (Packet.frameOffset m .payload + 5) = 0 := htype
    rw [hat, hbyte] at htag
    exact absurd htag (by decide)
  · have hat : Packet.frameOffset m .payload + 1 = Packet.frameOffset m .ip + 17 := by omega
    have hop : m (Packet.frameOffset m .payload + 1) = opcodeGet ∨
        m (Packet.frameOffset m .payload + 1) = opcodeSet := hparts.imp And.left And.left
    rw [hat, hbyte] at hop
    exact absurd hop (by decide)

/-- The request of a response, and the response. -/
theorem answer_of_reply (h : RepliesWith nm f db g) (htype : Packet.frameType f.data = .udp) :
    let pkt := swapMac (Packet.ofFrame f.data (checkedLen f.len))
    dstOct3 (Packet.ofFrame f.data f.len) = internalIpOct3 ∧ Accepted pkt ∧
      g.data = (onRecieve nm.server pkt db).2.1.data ∧ g.len = answerLen nm.server pkt := by
  -- The external branch does not reply, so the server has answered.
  rcases (answered_of_udp_iff nm db htype).1 (answered_of_sent nm h.1) with ⟨hoct, _⟩ | ⟨hoct, hacc⟩
  · exact absurd ⟨htype, hoct⟩ h.2
  · have hacc' := (accepted_swapMac_iff (checkedLen f.len)).2 hacc
    have hcall : onPacket nm (Packet.ofFrame f.data (checkedLen f.len)) db =
        onRecieve nm.server (swapMac (Packet.ofFrame f.data (checkedLen f.len))) db := by
      have hne : internalIpOct3 ≠ externalIpOct3 := by decide
      have hoct' : dstOct3 (swapMac (Packet.ofFrame f.data (checkedLen f.len))) =
          internalIpOct3 := (dstOct3_swapMac f.data _).trans hoct
      simp only [onPacket, type_ofFrame, htype, onUdp, hoct', hne, if_false, if_true]
    have hanswer := (onRecieve_of_accepted nm.server db hacc').2
    rcases reply_eq nm h.1 with ⟨hdata, hlen⟩
    rw [hcall] at hdata hlen
    refine ⟨hoct, hacc', hdata, ?_⟩
    rw [← len_onRecieve nm.server hacc' db, hlen]
    exact Nat.mod_eq_of_lt hanswer.len_lt

/-- A response has another magic, and the headers in front of it are those of the request. -/
theorem response_of_reply (h : RepliesWith nm f db g) (htype : Packet.frameType f.data = .udp) :
    Packet.frameOffset g.data = Packet.frameOffset f.data ∧
      Packet.frameType g.data = .udp ∧ g.data (Packet.frameOffset f.data .ip + 17) = 0x80 ∧
      Packet.frameOffset f.data .ip + 20 ≤ Packet.frameOffset f.data .payload ∧
      Header.magic g.data (Packet.frameOffset f.data .payload) = magicResponse := by
  have hge := etherLen_le_ip f.data
  rcases answer_of_reply h htype with ⟨hoct, hacc, hdata, _⟩
  have hle := ip_le_payload hoct ((accepted_swapMac_iff _).1 hacc) (checkedLen_le f.len)
  have hanswer := (onRecieve_of_accepted nm.server db hacc).2
  have hfront : ∀ i, 12 ≤ i → i < Packet.frameOffset f.data .payload → g.data i = f.data i := by
    intro i hlo hhi
    rw [hdata]
    exact (hanswer.front i hhi).trans (data_swapMac_of_le f.data _ hlo)
  have hsame := @ofFrame_congr f.data g.data fun i hlo hhi => hfront i hlo (by
    have hip : i < Packet.frameOffset f.data .ip + 12 := hhi
    omega)
  refine ⟨hsame.2.2.1, hsame.2.2.2.trans htype, ?_, hle, ?_⟩
  · rw [hfront _ (by omega) (by omega)]
    exact (dstOct3_eq_iff internalIpOct3).1 hoct
  · rw [hdata]
    exact magic_onRecieve nm.server db hacc

theorem silent_iff_of_udp (h : RepliesWith nm f db g) (htype : Packet.frameType f.data = .udp) :
    Silent g ↔ QuietAnswer nm.server f.data := by
  have hhead : headerLen = 24 := rfl
  have hip : Packet.frameOffset f.data .ip = 14 + Packet.vlanLen f.data := rfl
  have htags := vlanLen_cases f.data
  rcases answer_of_reply h htype with ⟨_, hacc, _, hlen⟩
  rcases response_of_reply h htype with ⟨hoffset, hudp, hoct, hpay, hmagic⟩
  have hproto : Packet.frameOffset f.data .ip + 6 ≤ protoOffset g.data ∧
      protoOffset g.data ≤ Packet.frameOffset f.data .ip + 9 := by
    unfold protoOffset
    rw [hoffset]
    split_ifs <;> omega
  rcases request_swapMac (m := f.data) (checkedLen f.len) with ⟨hopcode, hkey⟩
  have hat : (swapMac (Packet.ofFrame f.data (checkedLen f.len))).payload =
      Packet.frameOffset f.data .payload := rfl
  rw [answerLen, requestKey, hat, hopcode, hkey] at hlen
  have hlong : headerLen ≤ g.len := by
    rw [hlen]
    split_ifs
    · split <;> omega
    · exact Nat.le_refl _
  rw [silent_iff_of_response hudp (by rw [hoffset, hoct]) (by rw [hoffset]; exact hpay)
    (by rw [hoffset]; exact hmagic) hlong, hoffset]
  have hparts := ((validateHeader_iff _ _ _).1 hacc.1).1.2.2
  rw [hat, hopcode] at hparts
  have hne : opcodeGet ≠ opcodeSet := by decide
  unfold QuietAnswer
  simp only
  rcases hparts with ⟨hget, _⟩ | ⟨hset, _⟩
  · rw [if_pos hget] at hlen
    simp only [hget, hne, false_and, false_or, true_and]
    cases hitem : foundItem nm.server
        (keyId (Header.key f.data (Packet.frameOffset f.data .payload))) with
    | none =>
        -- The headers are longer than the nine bytes of the text.
        have hnot : notfound.length = 9 := rfl
        simp only [hitem] at hlen
        simp only [reduceCtorEq, false_and, exists_false, iff_false]
        omega
    | some it =>
        simp only [hitem] at hlen
        simp only [Option.some.injEq, exists_eq_left']
        omega
  · rw [if_neg (by rw [hset]; exact hne.symm)] at hlen
    simp only [hset, true_and, hne.symm, false_and, or_false]
    have hlast : protoOffset g.data < 24 ↔ Packet.vlanLen f.data = 0 := by omega
    rw [hlen, hhead, hlast]
    simp

theorem silent_iff_quiet (h : RepliesWith nm f db g) : Silent g ↔ Quiet nm.server f := by
  rcases @frameType_cases f.data with htype | htype | htype | htype
  · simp only [Quiet, htype]
    exact silent_iff_of_udp h htype
  · simp only [Quiet, htype, iff_false]
    exact not_silent_of_arp h.1 htype
  · simp only [Quiet, htype]
    exact silent_iff_of_icmp h.1 htype
  · have hnone := (sent_eq_none_iff nm).2 (not_answered_of_dc nm db htype)
    exact absurd (h.1.symm.trans hnone) (Option.some_ne_none g)

end Replies

/-- What follows on a frame that `a` has in front of it, when `a` and `b` answer each other. -/
inductive Exchange {σ : Type} : Netmap σ → Netmap σ → Frame → List Frame → Prop
  | stop (a b : Netmap σ) (f : Frame) : Exchange a b f []
  | reply {a b : Netmap σ} {f g : Frame} {gs : List Frame} (db : σ) (buf : Mem)
      (h : RepliesWith a f db g) (rest : Exchange b a (g.inBuffer buf) gs) :
      Exchange a b f (g :: gs)

/-- A reply that nobody answers is the last. -/
theorem Exchange.length_le_of_silent {σ : Type} {a b : Netmap σ} {f : Frame} {gs : List Frame}
    (h : Exchange a b f gs) (hsilent : ∀ db g, RepliesWith a f db g → Silent g) :
    gs.length ≤ 1 := by
  cases h with
  | stop =>
      exact Nat.zero_le 1
  | reply db buf hreply rest =>
      cases rest with
      | stop =>
          exact Nat.le_refl 1
      | reply db' _ hagain _ =>
          have hnone := hsilent db _ hreply σ b db' buf
          exact absurd (hagain.1.symm.trans hnone) (Option.some_ne_none _)

/-- Nobody sends anything for the reply to a frame, whatever buffer the reply comes to, exactly
when the frame is a SET without tags, a GET with an answer longer than its headers, or an ICMP
message whose reply has lost its time to live or its next header; and such a frame causes one
reply at most. -/
theorem silent_iff {σ : Type} {nm : Netmap σ} {f g : Frame} {db : σ}
    (h : RepliesWith nm f db g) :
    (Silent g ↔ Quiet nm.server f) ∧
      (Quiet nm.server f → ∀ (b : Netmap σ) (gs : List Frame), Exchange nm b f gs →
        gs.length ≤ 1) := by
  refine ⟨silent_iff_quiet h, ?_⟩
  intro hquiet b gs hexchange
  exact hexchange.length_le_of_silent fun db' g' hreply => (silent_iff_quiet hreply).2 hquiet

theorem exists_reply {σ : Type} {nm : Netmap σ} {f : Frame} {db : σ}
    (hanswered : AnsweredFrame f.data f.len nm db) (hown : ¬ Forwarded f) :
    ∃ g, RepliesWith nm f db g := by
  cases hsent : sent nm f db with
  | none =>
      exact absurd hanswered ((sent_eq_none_iff nm).1 hsent)
  | some g =>
      exact ⟨g, hsent, hown⟩

/-- The response to a SET request. -/
theorem silent_internalSet :
    ∃ g, RepliesWith demoNetmap { data := internalSet, len := 79 } () g ∧ Silent g ∧
      ∀ (b : Netmap Unit) (gs : List Frame),
        Exchange demoNetmap b { data := internalSet, len := 79 } gs → gs.length ≤ 1 := by
  rcases parse_frameMem 0x80 (requestHead opcodeSet 8 55 ++ (zeros 8 ++ Mem.be32Bytes 5 ++ [0xaa]))
    with ⟨hvlan, hframe, hpay⟩
  have hudp : Packet.frameType internalSet = .udp := hframe.type
  have hoct : dstOct3 (Packet.ofFrame internalSet 79) = internalIpOct3 :=
    dstOct3_frameMem 0x80 _ 79
  have hown : ¬ Forwarded { data := internalSet, len := 79 } := by
    rintro ⟨_, hext⟩
    exact absurd (hoct.symm.trans hext) (by decide)
  have hanswered : AnsweredFrame internalSet 79 demoNetmap () :=
    (answered_of_udp_iff demoNetmap () hudp).2
      (Or.inr ⟨hoct, (accepted_swapMac_iff 79).1 accepted_internalSet⟩)
  have hread : internalSet.read 42 headerLen = requestHead opcodeSet 8 55 :=
    read_frameMem_append 0x80 _ (requestHead opcodeSet 8 55)
  have hopcode : Header.opcode internalSet 42 = opcodeSet :=
    (fields_of_requestHead hread (by decide)).2.1
  have hquiet : Quiet demoNetmap.server { data := internalSet, len := 79 } := by
    simp only [Quiet, hudp, QuietAnswer]
    have hat : Packet.frameOffset internalSet .payload = 42 := hpay
    rw [hat]
    exact Or.inl ⟨hopcode, hvlan⟩
  rcases exists_reply (f := { data := internalSet, len := 79 }) hanswered hown with ⟨g, hg⟩
  exact ⟨g, hg, (silent_iff hg).1.2 hquiet, (silent_iff hg).2 hquiet⟩

/-! ## Exchanges without an end -/

/-- A frame of a kind that its own reply has. -/
def Reflected (m : Mem) : Prop :=
  Packet.frameType m = .arp ∨
    (Packet.frameType m = .icmp ∧ ¬ TtlCleared m ∧ ¬ NextReplaced m)

/-- The reply has it again. -/
theorem exists_reply_of_reflected {σ : Type} (nm : Netmap σ) {f : Frame} (db : σ)
    (h : Reflected f.data) : ∃ g, RepliesWith nm f db g ∧ Reflected g.data := by
  rcases h with harp | ⟨hicmp, httl, hnext⟩
  · have hown : ¬ Forwarded f := fun hforward =>
      absurd (harp.symm.trans hforward.1) (by decide)
    rcases exists_reply (answered_of_arp nm db harp) hown with ⟨g, hg⟩
    have hreply : (onPacket nm (Packet.ofFrame f.data (checkedLen f.len)) db).2.1 =
        (onArp nm.dmac (Packet.ofFrame f.data (checkedLen f.len))).2 := by
      simp only [onPacket, type_ofFrame, harp]
    refine ⟨g, hg, Or.inl ?_⟩
    rw [(reply_eq nm hg.1).1, hreply]
    exact frameType_onArp _ nm.dmac harp
  · have hown : ¬ Forwarded f := fun hforward =>
      absurd (hicmp.symm.trans hforward.1) (by decide)
    rcases exists_reply (answered_of_icmp nm db hicmp) hown with ⟨g, hg⟩
    have hreply : (onPacket nm (Packet.ofFrame f.data (checkedLen f.len)) db).2.1 =
        (onIcmp nm.dmac (Packet.ofFrame f.data (checkedLen f.len))).2 := by
      simp only [onPacket, type_ofFrame, hicmp]
    refine ⟨g, hg, Or.inr ?_⟩
    rw [(reply_eq nm hg.1).1, hreply]
    by_cases hip : Packet.chkEthertype f.data Packet.ethertypeIp = true
    · have hparse := frameType_onIcmp_of_v4 (checkedLen f.len) nm.dmac hicmp hip
      rw [if_neg fun hfirst => httl ⟨hip, hfirst⟩] at hparse
      refine ⟨hparse, not_ttlCleared_onIcmp _ nm.dmac hip httl, fun hreplaced => ?_⟩
      have hether := (ethertype_onIcmp_of_v4 (checkedLen f.len) nm.dmac hip).2 Packet.ethertypeIp
      exact absurd ((hether.trans hip).symm.trans hreplaced.ethertype) (by decide)
    · have hv6 : Packet.chkEthertype f.data Packet.ethertypeIp = false := Bool.eq_false_iff.2 hip
      refine ⟨frameType_onIcmp_of_v6 _ nm.dmac hicmp hv6 hnext, fun hcleared => ?_,
        not_nextReplaced_onIcmp _ nm.dmac hv6 hnext⟩
      have hether := (ethertype_onIcmp_of_v6 (checkedLen f.len) nm.dmac hv6 hnext).2
        Packet.ethertypeIp
      exact hip (hether.symm.trans hcleared.ethertype)

/-- Two instances answer each other for as long as they run. -/
theorem exchange_of_reflected {σ : Type} (db : σ) (k : Nat) :
    ∀ (a b : Netmap σ) (f : Frame), Reflected f.data →
      ∃ gs, Exchange a b f gs ∧ gs.length = k := by
  induction k with
  | zero =>
      intro a b f _
      exact ⟨[], .stop a b f, rfl⟩
  | succ k ih =>
      intro a b f h
      rcases exists_reply_of_reflected a db h with ⟨g, hg, hreflected⟩
      rcases ih b a g hreflected with ⟨gs, hexchange, hlength⟩
      have hself : g.inBuffer g.data = g := inBuffer_of_extends (extends_self _ _)
      exact ⟨g :: gs, .reply db g.data hg (by rwa [hself]), congrArg Nat.succ hlength⟩

/-- A UDP frame that ends in front of its protocol byte is a message in a buffer that held one.  Its
header is longer than those of the exceptions. -/
theorem exists_reflected {g : Frame} (hudp : Packet.frameType g.data = .udp)
    (hin : Packet.frameOffset g.data .ip < g.len)
    (hshort : g.len ≤ Packet.frameOffset g.data .ip + 6) (hwords : 12 ≤ Packet.ipvLen g.data) :
    ∃ d, Extends g.data g.len d ∧ Reflected d := by
  have hlong : ∀ {d : Mem} {j : Nat}, Extends g.data g.len d → j < 3 →
      d (Packet.frameOffset d .ip) ≠ UInt8.ofNat (64 + j) := by
    intro d j hd hj hfirst
    rw [offset_of_extends hd hin, hd _ hin] at hfirst
    have hfew := (ipvLen_eq_iff (by omega)).2 hfirst
    omega
  have hproto : g.len ≤ protoOffset g.data := by
    unfold protoOffset
    split_ifs <;> omega
  rcases exists_icmp_of_udp hudp hproto (by omega) with ⟨d, hd, hicmp⟩
  exact ⟨d, hd, Or.inr ⟨hicmp, fun h => hlong hd (show 2 < 3 by decide) h.first,
    fun h => hlong hd (show 1 < 3 by decide) h.first⟩⟩

/-- The answer to a SET with a tag has 24 bytes, and its IP header begins at 18 or at 22.  In a
buffer that held an ICMP message it is one, and is answered for ever. -/
theorem exchange_of_taggedSet {σ : Type} {a b : Netmap σ} {f g : Frame} {db : σ}
    (hg : RepliesWith a f db g) (htype : Packet.frameType f.data = .udp)
    (hset : Header.opcode f.data (Packet.frameOffset f.data .payload) = opcodeSet)
    (htag : Packet.vlanLen f.data ≠ 0) (k : Nat) : ∃ gs, Exchange a b f gs ∧ gs.length = k := by
  have hip : Packet.frameOffset f.data .ip = 14 + Packet.vlanLen f.data := rfl
  have htags := vlanLen_cases f.data
  have hne : opcodeSet ≠ opcodeGet := by decide
  rcases answer_of_reply hg htype with ⟨_, _, _, hlen⟩
  rcases response_of_reply hg htype with ⟨hoffset, hudp, _, hpay, _⟩
  have hshort : g.len = 24 := by
    have hat : (swapMac (Packet.ofFrame f.data (checkedLen f.len))).payload =
        Packet.frameOffset f.data .payload := rfl
    rw [hlen, answerLen, hat, (request_swapMac (m := f.data) (checkedLen f.len)).1, hset,
      if_neg hne]
    rfl
  have hwords : 12 ≤ Packet.ipvLen g.data := by
    have hsum : Packet.frameOffset g.data .payload =
        Packet.frameOffset g.data .ip + Packet.ipvLen g.data + 8 := rfl
    rw [hoffset] at hsum
    omega
  rcases exists_reflected hudp (by rw [hoffset]; omega) (by rw [hoffset]; omega) hwords with
    ⟨d, hd, hreflected⟩
  cases k with
  | zero =>
      exact ⟨[], .stop a b f, rfl⟩
  | succ k =>
      rcases exchange_of_reflected db k b a { data := d, len := g.len } hreflected with
        ⟨gs, hexchange, hlength⟩
      exact ⟨g :: gs, .reply db d hg (by rwa [inBuffer_of_extends hd]), congrArg Nat.succ hlength⟩

/-- A SET for key 5 with a tag in front of its header. -/
def taggedSet : Frame where
  data := Mem.write (fun _ => 0) 0 ([2, 0, 0, 0, 0, 1, 2, 0, 0, 0, 0, 2, 0x81, 0x00, 0, 1] ++
    [0x08, 0x00, 0x45, 0, 0, 0, 0, 0, 0, 0, 64, Packet.ipprotoUdp, 0, 0, 10, 0, 0, 2] ++
    [10, 0x80, 0, 1, 0x30, 0, 0x2b, 0xcb, 0, 0, 0, 0] ++ requestHead opcodeSet 8 59 ++
    zeros 8 ++ Mem.be32Bytes 5 ++ [0xaa])
  len := 83

example (k : Nat) : ∃ gs, Exchange demoNetmap demoNetmap taggedSet gs ∧ gs.length = k := by
  have hanswered : (sent demoNetmap taggedSet ()).isSome = true := by decide +kernel
  have hown : ¬ Forwarded taggedSet := fun h => absurd h.2 (by decide)
  rcases Option.isSome_iff_exists.1 hanswered with ⟨g, hg⟩
  exact exchange_of_taggedSet ⟨hg, hown⟩ (by decide) (by decide) (by decide) k

/-- An ARP request for the server's address, as it comes from the wire. -/
theorem not_silent_arpFrame :
    (∃ g, RepliesWith demoNetmap { data := arpFrame, len := 60 } () g ∧ ¬ Silent g) ∧
      (∀ k, ∃ gs, Exchange demoNetmap demoNetmap { data := arpFrame, len := 60 } gs ∧
        gs.length = k) ∧
      ¬ ∀ f g, RepliesWith demoNetmap f () g → Silent g := by
  have harp : Reflected arpFrame := Or.inl frameType_arpFrame
  rcases exists_reply_of_reflected (f := { data := arpFrame, len := 60 }) demoNetmap () harp with
    ⟨g, hg, _⟩
  have hloud : ¬ Silent g := not_silent_of_arp hg.1 frameType_arpFrame
  refine ⟨⟨g, hg, hloud⟩, fun k => exchange_of_reflected () k _ _ _ harp, ?_⟩
  intro hall
  exact hloud (hall _ g hg)

end Arch
end NmMemcached
