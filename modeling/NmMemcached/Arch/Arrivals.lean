import NmMemcached.Arch.Bounds
import NmMemcached.Arch.Decision
import NmMemcached.Arch.ReplyHeaders

/-!
# Arrivals — a frame in the buffer of the instance it gets to

Of a frame that is sent, only the bytes of its length go over the wire.  They come to lie in front
of what the buffer of the receiver held before, and the handlers look at the length late or not at
all: where a header reaches behind the end of the frame, the old bytes are read for it.

So nobody answers a frame only if nobody does for any bytes behind it (`silent_iff_forall`).  A
frame that ends in front of the protocol byte of its IP header is taken for an ICMP message, if the
buffer held one (`exists_icmp_of_v4`, `exists_icmp_of_v6`); and one that ends in front of its
payload is taken for a SET (`exists_request`).
-/

namespace NmMemcached
namespace Arch

open Lib Base Net Server

/-! ## Frames -/

/-- A buffer and the length in its slot. -/
@[ext]
structure Frame where
  data : Mem
  len : Nat

/-- A frame in a buffer that held `buf`. -/
def Frame.inBuffer (buf : Mem) (g : Frame) : Frame :=
  { data := fun i => if i < g.len then g.data i else buf i
    len := g.len }

section Sent

variable {σ : Type} (nm : Netmap σ)

/-- What a turn on `f` leaves in the buffer it sends from, and the length it sends, if it sends
anything. -/
def sent (f : Frame) (db : σ) : Option Frame :=
  let res := onPacket nm (Packet.ofFrame f.data (checkedLen f.len)) db
  if res.1 &&& needSend ≠ 0 then some { data := res.2.1.data, len := res.2.1.len % 65536 } else none

/-- The frame in the rx slot of a turn. -/
def rxFrame (st : RingLoop σ) : Frame :=
  { data := st.buf (st.rx.slot st.rxCur).bufIdx
    len := (st.rx.slot st.rxCur).len }

/-- What a turn sends is what it leaves in the tx slot. -/
theorem queued_of_sent {st : RingLoop σ} {g : Frame} (h : sent nm (rxFrame st) st.db = some g) :
    queuedFrame nm st = g.data ∧ (queuedSlot nm st).len = g.len := by
  have hframe : Packet.ofFrame (rxFrame st).data (checkedLen (rxFrame st).len) = st.frame :=
    (frame_eq st).symm
  unfold sent at h
  simp only [hframe] at h
  split_ifs at h with hsend
  have hg := Option.some.inj h
  have hqueued := queued_of_ret nm st hsend
  rw [← hg]
  exact ⟨hqueued.2, hqueued.1⟩

theorem sent_eq_none_iff {f : Frame} {db : σ} :
    sent nm f db = none ↔ ¬ AnsweredFrame f.data f.len nm db := by
  unfold sent AnsweredFrame
  simp only
  split_ifs with h
  · simp [h]
  · simp [h]

theorem reply_eq {f g : Frame} {db : σ} (h : sent nm f db = some g) :
    g.data = (onPacket nm (Packet.ofFrame f.data (checkedLen f.len)) db).2.1.data ∧
      g.len = (onPacket nm (Packet.ofFrame f.data (checkedLen f.len)) db).2.1.len % 65536 := by
  unfold sent at h
  simp only at h
  split_ifs at h
  rw [← Option.some.inj h]
  exact ⟨rfl, rfl⟩

theorem answered_of_sent {f g : Frame} {db : σ} (h : sent nm f db = some g) :
    AnsweredFrame f.data f.len nm db := by
  by_contra hno
  exact Option.some_ne_none g (h.symm.trans ((sent_eq_none_iff nm).2 hno))

end Sent

/-- No instance sends anything for `f`, whatever the frame found in the buffer. -/
def Silent (f : Frame) : Prop :=
  ∀ (σ : Type) (nm : Netmap σ) (db : σ) (buf : Mem), sent nm (f.inBuffer buf) db = none

/-! ## Which frames are answered -/

/-- No instance's table or database matters. -/
def Answerable (m : Mem) (n : Nat) : Prop :=
  match Packet.frameType m with
  | .arp => True
  | .icmp => True
  | .udp =>
      (dstOct3 (Packet.ofFrame m n) = externalIpOct3 ∧ headerLen < checkedLen n ∧
        Header.bodylen m (Packet.frameOffset m .payload) + headerLen = checkedLen n) ∨
      (dstOct3 (Packet.ofFrame m n) = internalIpOct3 ∧
        Accepted (Packet.ofFrame m (checkedLen n)))
  | _ => False

theorem checkedLen_le (n : Nat) : checkedLen n ≤ 2048 := by
  unfold checkedLen
  split_ifs <;> omega

theorem checkedLen_of_le {n : Nat} (h : n ≤ 2048) : checkedLen n = n := if_neg (by omega)

/-- What the external branch sends is the frame, with another octet in its destination. -/
theorem forwarded_of_sent {σ : Type} (nm : Netmap σ) {f g : Frame} {db : σ}
    (h : sent nm f db = some g) (htype : Packet.frameType f.data = .udp)
    (hforwards : Forwards f.data (checkedLen f.len)) :
    g.data = forwarded f.data (checkedLen f.len) ∧ g.len = f.len := by
  have hle := checkedLen_le f.len
  have hchecked := (checkedLen_of_pos (Nat.lt_of_le_of_lt (Nat.zero_le _) hforwards.2.1)).1
  have hreply : onPacket nm (Packet.ofFrame f.data (checkedLen f.len)) db =
      onUdp (onRecieve nm.server) (Packet.ofFrame f.data (checkedLen f.len)) db := by
    simp only [onPacket, type_ofFrame, htype]
  have hrun := onUdp_eq_run (onRecieve nm.server) f.data (checkedLen f.len) db
  rw [decision, if_pos hforwards] at hrun
  have hlen : (onUdp (onRecieve nm.server) (Packet.ofFrame f.data (checkedLen f.len)) db).2.1.len =
      checkedLen f.len := congrArg (fun r => r.2.1.len) hrun
  rcases reply_eq nm h with ⟨hdata, hsent⟩
  rw [hreply] at hdata hsent
  refine ⟨hdata.trans (onUdp_external _ hforwards.1 (congrArg Prod.fst hrun)), ?_⟩
  rw [hsent, hlen, Nat.mod_eq_of_lt (by omega), hchecked]

section Answerable

variable {m : Mem} {n : Nat}

theorem answered_iff {σ : Type} (nm : Netmap σ) (db : σ) :
    AnsweredFrame m n nm db ↔ Answerable m n := by
  unfold Answerable
  rcases @frameType_cases m with h | h | h | h
  · simp only [h]
    exact answered_of_udp_iff nm db h
  · simp only [h, iff_true]
    exact answered_of_arp nm db h
  · simp only [h, iff_true]
    exact answered_of_icmp nm db h
  · simp only [h, iff_false]
    exact not_answered_of_dc nm db h

theorem answerable_of_arp (h : Packet.frameType m = .arp) : Answerable m n := by
  rw [Answerable, h]
  trivial

theorem answerable_of_icmp (h : Packet.frameType m = .icmp) : Answerable m n := by
  rw [Answerable, h]
  trivial

/-- The destination octet, as a byte of the frame. -/
theorem dstOct3_eq_iff (b : BitVec 8) :
    dstOct3 (Packet.ofFrame m n) = b ↔ m (Packet.frameOffset m .ip + 17) = ⟨b⟩ := by
  rw [dstOct3_eq]
  constructor
  · intro h
    exact UInt8.toBitVec_inj.1 h
  · intro h
    exact congrArg UInt8.toBitVec h

/-- No request is as short as its own header. -/
theorem not_answerable_of_short (htype : Packet.frameType m = .udp ∨ Packet.frameType m = .dc)
    (hshort : checkedLen n ≤ headerLen) : ¬ Answerable m n := by
  unfold Answerable
  rcases htype with h | h
  · rw [h]
    rintro (⟨_, hlong, _⟩ | ⟨_, hacc⟩)
    · exact absurd hlong (Nat.not_lt.2 hshort)
    · rcases accepted_iff.1 hacc with ⟨_, _, hlen, _, hparts⟩
      have hlen' : checkedLen n = headerLen + body (Packet.ofFrame m (checkedLen n)) := hlen
      rcases hparts with ⟨_, _, hbody⟩ | ⟨_, _, hbody⟩ <;> omega
  · rw [h]
    exact id

end Answerable

/-! ## Bytes behind a frame -/

/-- `d` has the first `n` bytes of `m`. -/
def Extends (m : Mem) (n : Nat) (d : Mem) : Prop := ∀ i < n, d i = m i

theorem extends_self (m : Mem) (n : Nat) : Extends m n m := fun _ _ => rfl

theorem Extends.trans {m d e : Mem} {n : Nat} (h : Extends m n d) (h' : Extends d n e) :
    Extends m n e :=
  fun i hi => (h' i hi).trans (h i hi)

/-- Bytes may be written behind the end, and where they are the same. -/
theorem extends_write {m : Mem} {n off : Nat} {bs : List UInt8}
    (h : ∀ j < bs.length, off + j < n → bs[j]? = some (m (off + j))) :
    Extends m n (m.write off bs) := by
  intro i hi
  by_cases hin : off ≤ i ∧ i < off + bs.length
  · have hj : i - off < bs.length := by omega
    have hat : off + (i - off) = i := by omega
    have hbyte := h (i - off) hj (by omega)
    rw [List.getElem?_eq_getElem hj, Option.some.injEq] at hbyte
    calc
      m.write off bs i = m.write off bs (off + (i - off)) := by rw [hat]
      _ = bs[i - off] := Mem.write_add hj
      _ = m i := by rw [hbyte, hat]
  · exact Mem.write_of_disjoint (by omega)

theorem inBuffer_of_extends {g : Frame} {d : Mem} (h : Extends g.data g.len d) :
    g.inBuffer d = { data := d, len := g.len } := by
  unfold Frame.inBuffer
  congr 1
  funext i
  split_ifs with hi
  · exact (h i hi).symm
  · rfl

theorem extends_inBuffer (g : Frame) (buf : Mem) : Extends g.data g.len (g.inBuffer buf).data :=
  fun _ hi => if_pos hi

/-- A frame that nobody answers. -/
theorem silent_iff_forall {g : Frame} :
    Silent g ↔ ∀ d, Extends g.data g.len d → ¬ Answerable d g.len := by
  constructor
  · intro h d hd
    have hnone := h Unit demoNetmap () d
    rw [inBuffer_of_extends hd, sent_eq_none_iff] at hnone
    rw [← answered_iff demoNetmap ()]
    exact hnone
  · intro h σ nm db buf
    rw [sent_eq_none_iff, answered_iff]
    exact h _ (extends_inBuffer g buf)

theorem not_silent_of_answerable {g : Frame} (h : Answerable g.data g.len) : ¬ Silent g :=
  fun hsilent => silent_iff_forall.1 hsilent g.data (extends_self _ _) h

/-! ### Headers -/

section Headers

variable {m d : Mem} {n : Nat}

/-- The tags and the ethertype are in front of the IP header. -/
theorem ethertype_of_extends (h : Extends m n d) (hn : Packet.frameOffset m .ip ≤ n) :
    Packet.frameOffset d .ip = Packet.frameOffset m .ip ∧
      ∀ t, Packet.chkEthertype d t = Packet.chkEthertype m t := by
  have hsame := @ethertype_congr m d fun i _ hhi => h i (Nat.lt_of_lt_of_le hhi hn)
  exact ⟨congrArg (Packet.etherLen + ·) hsame.1, hsame.2⟩

/-- The first byte of the IP header says where it ends. -/
theorem offset_of_extends (h : Extends m n d) (hn : Packet.frameOffset m .ip < n) :
    Packet.frameOffset d = Packet.frameOffset m :=
  (@frameOffset_congr m d fun i _ hhi => h i (Nat.lt_of_le_of_lt hhi hn)).2

theorem extends_write_front (m : Mem) (off : Nat) (bs : List UInt8) :
    Extends m off (m.write off bs) :=
  fun _ hi => Mem.write_of_lt hi

/-- The byte of the IP header that names the protocol. -/
def protoOffset (m : Mem) : Nat :=
  if Packet.chkEthertype m Packet.ethertypeIp then Packet.frameOffset m .ip + 9
  else Packet.frameOffset m .ip + 6

theorem udp_of_extends (h : Extends m n d) (hm : Packet.frameType m = .udp)
    (hn : protoOffset m < n) : Packet.frameType d = .udp := by
  have hne : Packet.ipprotoUdp ≠ Packet.ipprotoIcmpv6 := by decide
  have hsame := ethertype_of_extends h (by
    unfold protoOffset at hn
    split_ifs at hn <;> omega)
  cases hip : Packet.chkEthertype m Packet.ethertypeIp with
  | true =>
      have hat : protoOffset m = Packet.frameOffset m .ip + 9 := if_pos hip
      rw [hat] at hn
      rw [frameType_of_v4 hip] at hm
      rw [frameType_of_v4 (by rw [hsame.2, hip]), hsame.1, h _ hn]
      split_ifs at hm with hudp
      rw [if_pos hudp]
  | false =>
      have hat : protoOffset m = Packet.frameOffset m .ip + 6 := by simp [protoOffset, hip]
      rw [hat] at hn
      cases hv6 : Packet.chkEthertype m Packet.ethertypeIpv6 with
      | true =>
          rw [frameType_of_v6 hip hv6] at hm
          rw [frameType_of_v6 (by rw [hsame.2, hip]) (by rw [hsame.2, hv6]), hsame.1, h _ hn]
          split_ifs at hm with hicmp hudp
          rw [hudp]
          simp only [hne, false_and, if_false, if_true]
      | false =>
          simp only [Packet.frameType, hip, hv6, Bool.false_eq_true, if_false] at hm
          split_ifs at hm

/-! ### What the buffer can make of a frame -/

/-- An ICMP message under IPv4, unless the end of the frame is behind a cleared time to live. -/
theorem exists_icmp_of_v4 (hip : Packet.chkEthertype m Packet.ethertypeIp = true)
    (hn : n ≤ Packet.frameOffset m .ip + 9)
    (httl : n ≤ Packet.frameOffset m .ip + 8 ∨ m (Packet.frameOffset m .ip + 8) ≠ 0) :
    ∃ d, Extends m n d ∧ Packet.frameType d = .icmp := by
  have hne : Packet.ipprotoIcmp ≠ Packet.ipprotoUdp := by decide
  generalize hold : m (Packet.frameOffset m .ip + 8) = old at httl
  have hlive : (if old = 0 then 64 else old) ≠ 0 := by
    split_ifs with hzero
    · decide
    · exact hzero
  generalize hnew : (if old = 0 then 64 else old) = new at hlive
  refine ⟨m.write (Packet.frameOffset m .ip + 8) [new, Packet.ipprotoIcmp], ?_, ?_⟩
  · refine extends_write fun j hj hin => ?_
    have hzero : j = 0 := by
      simp only [List.length_cons, List.length_nil] at hj
      omega
    subst hzero
    have hkept : old ≠ 0 := by
      rcases httl with hshort | hkept
      · omega
      · exact hkept
    rw [← hnew, if_neg hkept, ← hold]
    rfl
  · have hsame := ethertype_of_extends
      (extends_write_front m (Packet.frameOffset m .ip + 8) [new, Packet.ipprotoIcmp])
      (Nat.le_add_right _ 8)
    have hwrite : ∀ j (hj : j < 2), m.write (Packet.frameOffset m .ip + 8)
        [new, Packet.ipprotoIcmp] (Packet.frameOffset m .ip + 8 + j) =
          [new, Packet.ipprotoIcmp][j] := fun j hj => Mem.write_add hj
    have hproto := hwrite 1 (by decide)
    have hlive' := hwrite 0 (by decide)
    rw [Nat.add_assoc] at hproto
    rw [frameType_of_v4 (by rw [hsame.2, hip]), hsame.1, hproto, hlive']
    simp [hne, hlive]

/-- An ICMPv6 message. -/
theorem exists_icmp_of_v6 (hip : Packet.chkEthertype m Packet.ethertypeIp = false)
    (hv6 : Packet.chkEthertype m Packet.ethertypeIpv6 = true)
    (hn : n ≤ Packet.frameOffset m .ip + 7)
    (hnext : Packet.frameOffset m .ip + 6 < n →
      m (Packet.frameOffset m .ip + 6) = Packet.ipprotoIcmpv6) :
    ∃ d, Extends m n d ∧ Packet.frameType d = .icmp := by
  refine ⟨m.write (Packet.frameOffset m .ip + 6) [Packet.ipprotoIcmpv6, 64], ?_, ?_⟩
  · refine extends_write fun j hj hin => ?_
    have hzero : j = 0 := by
      simp only [List.length_cons, List.length_nil] at hj
      omega
    subst hzero
    rw [Nat.add_zero, hnext hin]
    rfl
  · have hsame := ethertype_of_extends
      (extends_write_front m (Packet.frameOffset m .ip + 6) [Packet.ipprotoIcmpv6, 64])
      (Nat.le_add_right _ 6)
    have hwrite : ∀ j (hj : j < 2), m.write (Packet.frameOffset m .ip + 6)
        [Packet.ipprotoIcmpv6, 64] (Packet.frameOffset m .ip + 6 + j) =
          [Packet.ipprotoIcmpv6, 64][j] := fun j hj => Mem.write_add hj
    have hproto := hwrite 0 (by decide)
    have hhop := hwrite 1 (by decide)
    rw [Nat.add_assoc] at hhop
    rw [Nat.add_zero] at hproto
    rw [frameType_of_v6 (by rw [hsame.2, hip]) (by rw [hsame.2, hv6]), hsame.1, hproto, hhop]
    simp

/-- A UDP frame that ends in front of its protocol byte. -/
theorem exists_icmp_of_udp (htype : Packet.frameType m = .udp) (hn : n ≤ protoOffset m)
    (hshort : n ≤ Packet.frameOffset m .ip + 8) :
    ∃ d, Extends m n d ∧ Packet.frameType d = .icmp := by
  cases hip : Packet.chkEthertype m Packet.ethertypeIp with
  | true =>
      exact exists_icmp_of_v4 hip (by omega) (Or.inl hshort)
  | false =>
      have hat : protoOffset m = Packet.frameOffset m .ip + 6 := by simp [protoOffset, hip]
      have hv6 : Packet.chkEthertype m Packet.ethertypeIpv6 = true := by
        by_contra hother
        simp only [Packet.frameType, hip, Bool.eq_false_iff.2 hother, Bool.false_eq_true,
          if_false] at htype
        split_ifs at htype
      exact exists_icmp_of_v6 hip hv6 (by omega) (fun hin => by omega)

/-- A SET behind the headers of a UDP frame for a server. -/
theorem exists_request (htype : Packet.frameType m = .udp)
    (hoct : m (Packet.frameOffset m .ip + 17) = 0x80)
    (hpay : Packet.frameOffset m .ip + 20 ≤ Packet.frameOffset m .payload) (hlong : headerLen < n)
    (hn : n ≤ Packet.frameOffset m .payload) (hle : n ≤ 2048) :
    ∃ d, Extends m n d ∧ Answerable d n := by
  have hfront := extends_write_front m (Packet.frameOffset m .payload)
    (requestHead opcodeSet 8 (n - headerLen))
  have hread : (m.write (Packet.frameOffset m .payload)
      (requestHead opcodeSet 8 (n - headerLen))).read (Packet.frameOffset m .payload) headerLen =
        requestHead opcodeSet 8 (n - headerLen) := Mem.read_write_of_length rfl
  have hsame := @ofFrame_congr m (m.write (Packet.frameOffset m .payload)
    (requestHead opcodeSet 8 (n - headerLen))) fun i _ hhi => hfront i (by
      have hip : i < Packet.frameOffset m .ip + 12 := hhi
      omega)
  have hbyte := hfront (Packet.frameOffset m .ip + 17) (by omega)
  generalize m.write (Packet.frameOffset m .payload)
    (requestHead opcodeSet 8 (n - headerLen)) = d at hfront hread hsame hbyte
  refine ⟨d, fun i hi => hfront i (by omega), ?_⟩
  have hacc : Accepted (Packet.ofFrame d (checkedLen n)) := by
    have hlen : n - headerLen + headerLen = checkedLen n := by
      rw [checkedLen_of_le hle]
      omega
    have hpayload : (Packet.ofFrame d (checkedLen n)).payload =
        Packet.frameOffset m .payload := congrFun hsame.2.2.1 .payload
    have hvalid := validateHeader_set hread (by omega) (by decide) (by omega)
    rw [hlen] at hvalid
    refine ⟨?_, ?_⟩ <;> rw [hpayload]
    · exact hvalid
    · exact (fields_of_requestHead hread (by omega)).2.2.1
  rw [Answerable, hsame.2.2.2, htype]
  refine Or.inr ⟨(dstOct3_eq_iff _).2 ?_, hacc⟩
  rw [hsame.2.2.1, hbyte, hoct]
  rfl

end Headers

end Arch
end NmMemcached
