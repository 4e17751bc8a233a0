import NmMemcached.Arch.Answer
import NmMemcached.Arch.Extents

/-!
# Bounds — frames that are handled within their own bytes

No handler looks at the length of a frame before it reads or writes a header.  `frameSafe_iff`
says for which frames that goes well: the headers that the frame claims to have, the range of the
checksum and the key that is hashed have to end within the length of the slot.

Three kinds of frames never do.  A frame with a wrong length is handled as one of length zero, and
answered if it is ARP or ICMP.  A message of odd length has its checksum taken over one byte more.
A request that the server answers counts the headers in front of it as its own bytes.
-/

namespace NmMemcached
namespace Arch

open Lib Base Net Server

/-! ## Frames -/

/-- A slot with a wrong length is handled as an empty frame. -/
def checkedLen (n : Nat) : Nat := if n > 2048 then 0 else n

/-- The frame of a turn is the buffer of its slot with this length. -/
theorem frame_eq {σ : Type} (st : RingLoop σ) :
    st.frame = Packet.ofFrame (st.buf (st.rx.slot st.rxCur).bufIdx)
      (checkedLen (st.rx.slot st.rxCur).len) := by
  simp only [RingLoop.frame, checkLen, checkedLen]
  split_ifs <;> rfl

section Frame

variable (m : Mem) (n : Nat)

/-- The length below which a frame does not hold the headers of its type. -/
def shortest : Nat :=
  match Packet.frameType m with
  | .arp => Packet.frameOffset m .arp + 28
  | .icmp => Packet.frameOffset m .icmp + 8
  | .udp => Packet.frameOffset m .payload + headerLen
  | _ => 0

variable {σ : Type} (nm : Netmap σ) (db : σ)

/-- A frame in a slot of length `n` is answered. -/
def AnsweredFrame : Prop := (onPacket nm (Packet.ofFrame m (checkedLen n)) db).1 &&& needSend ≠ 0

structure FrameSafe : Prop where
  /-- Every read and every write is in the first `n` bytes. -/
  inside : (onFrameProg nm (checkedLen n) db).Within n m
  short : n < shortest m → ¬ AnsweredFrame m n nm db
  flagged : 2048 < n → ¬ AnsweredFrame m n nm db
  /-- `Length() - hlen` is not negative. -/
  noUnderflow : Packet.frameType m = .icmp →
    Packet.etherLen + Packet.vlanLen m + Packet.ipvLen m ≤ checkedLen n

/-! ## The lengths that are enough -/

structure ArpFits : Prop where
  right : n ≤ 2048
  header : Packet.frameOffset m .arp + 28 ≤ n

/-- The type byte of an ICMPv6 message.  It is read when the addresses have changed places, and a
message may begin inside them. -/
def icmp6Type : UInt8 :=
  let ip := Packet.frameOffset m .ip
  let icmp := Packet.frameOffset m .icmp
  if ip + 8 ≤ icmp ∧ icmp < ip + 24 then m (icmp + 16)
  else if ip + 24 ≤ icmp ∧ icmp < ip + 40 then m (icmp - 16)
  else m icmp

/-- The message is as long as the words of its checksum. -/
def EvenMessage : Prop := (n - Packet.frameOffset m .icmp) % 2 = 0

structure IcmpFits : Prop where
  right : n ≤ 2048
  header : Packet.frameOffset m .icmp + 8 ≤ n
  v4 : Packet.chkEthertype m Packet.ethertypeIp = true →
    Packet.frameOffset m .ip + 20 ≤ n ∧ EvenMessage m n
  v6 : Packet.chkEthertype m Packet.ethertypeIp = false → Packet.frameOffset m .ip + 40 ≤ n ∧
    (icmp6Type m = icmp6EchoRequest → EvenMessage m n) ∧
    (icmp6Type m = ndNeighborSolicit →
      EvenMessage m n ∧ Packet.frameOffset m .icmp + 32 ≤ n)

structure UdpFits : Prop where
  ip : Packet.frameOffset m .ip + 20 ≤ n
  /-- A frame that is hashed and sent on holds its key. -/
  external : dstOct3 (Packet.ofFrame m n) = externalIpOct3 → headerLen < n → n ≤ 2048 →
    Packet.frameOffset m .payload + 12 ≤ n ∧
      (Header.bodylen m (Packet.frameOffset m .payload) + headerLen = n →
        Packet.frameOffset m .payload + headerLen +
          Header.keylen m (Packet.frameOffset m .payload) ≤ n)
  /-- A frame for the server holds what the validator reads, and is refused. -/
  internal : dstOct3 (Packet.ofFrame m n) = internalIpOct3 →
    Packet.frameOffset m .payload + headerReach m (Packet.frameOffset m .payload) ≤ n ∧
      ¬ (n ≤ 2048 ∧ Accepted (Packet.ofFrame m n))

def FrameFits : Prop :=
  match Packet.frameType m with
  | .arp => ArpFits m n
  | .icmp => IcmpFits m n
  | .udp => UdpFits m n
  | _ => frameReach m ≤ n

/-! ## What is answered -/

variable {m n}

theorem not_answered_of_ret (h : (onPacket nm (Packet.ofFrame m (checkedLen n)) db).1 = 0) :
    ¬ AnsweredFrame m n nm db := by
  intro hanswered
  apply hanswered
  rw [h]
  decide

theorem answered_of_ret (h : (onPacket nm (Packet.ofFrame m (checkedLen n)) db).1 = needSend) :
    AnsweredFrame m n nm db := by
  unfold AnsweredFrame
  rw [h]
  decide

theorem answered_of_arp (h : Packet.frameType m = .arp) : AnsweredFrame m n nm db := by
  apply answered_of_ret
  simp only [onPacket, type_ofFrame, h]
  rfl

theorem ret_onIcmp (dmac : Mac) (pkt : Packet) : (onIcmp dmac pkt).1 = needSend := by
  unfold onIcmp
  simp only
  split_ifs <;> rfl

theorem answered_of_icmp (h : Packet.frameType m = .icmp) : AnsweredFrame m n nm db := by
  apply answered_of_ret
  simp only [onPacket, type_ofFrame, h, ret_onIcmp]

variable {nm db}

/-- What is answered is as long as it has to be. -/
theorem FrameSafe.length (hsafe : FrameSafe m n nm db) (h : AnsweredFrame m n nm db) :
    n ≤ 2048 ∧ shortest m ≤ n :=
  ⟨Nat.le_of_not_lt fun hlong => hsafe.flagged hlong h,
    Nat.le_of_not_lt fun hshort => hsafe.short hshort h⟩

theorem FrameSafe.of_length (hinside : (onFrameProg nm (checkedLen n) db).Within n m)
    (hlength : AnsweredFrame m n nm db → n ≤ 2048 ∧ shortest m ≤ n)
    (hicmp : Packet.frameType m = .icmp → Packet.frameOffset m .icmp ≤ checkedLen n) :
    FrameSafe m n nm db := by
  refine ⟨hinside, ?_, ?_, hicmp⟩
  · intro hshort h
    exact absurd (hlength h).2 (Nat.not_le_of_lt hshort)
  · intro hlong h
    exact absurd (hlength h).1 (Nat.not_le_of_lt hlong)

variable (nm db)

/-! ## The bounds of each type -/

theorem frameReach_le : frameReach m ≤ Packet.frameOffset m .ip + 10 := by
  unfold frameReach Packet.frameOffset
  simp only
  split_ifs <;> omega

theorem within_onFrameProg (len : Nat) :
    (onFrameProg nm len db).Within n m ↔ frameReach m ≤ n ∧
      match Packet.frameType m with
      | .udp => (onUdpProg nm.server (fields (Packet.ofFrame m len)) db).Within n m
      | .arp => (onArpProg nm.dmac (fields (Packet.ofFrame m len))).Within n m
      | .icmp => (onIcmpProg nm.dmac (fields (Packet.ofFrame m len))).Within n m
      | _ => True := by
  have htype : (fields (Packet.ofFrame m len)).type = Packet.frameType m := rfl
  have hicmp := run_onIcmpProg (Packet.ofFrame m len) nm.dmac
  have harp := run_onArpProg (Packet.ofFrame m len) nm.dmac
  have hdata : (Packet.ofFrame m len).data = m := rfl
  rw [hdata] at hicmp harp
  simp only [onFrameProg, Prog.within_bind, within_ofFrameProg, run_ofFrameProg, Prog.after_mk,
    htype]
  cases Packet.frameType m <;>
    simp only [Prog.within_bind, hicmp, harp, Prog.after_mk, Prog.within_pure, and_true]

theorem frameSafe_iff_of_arp (h : Packet.frameType m = .arp) :
    FrameSafe m n nm db ↔ ArpFits m n := by
  have hdata : (Packet.ofFrame m (checkedLen n)).data = m := rfl
  have hbound := @within_onArpProg n (Packet.ofFrame m (checkedLen n)) nm.dmac
  have hreach := @frameReach_le m
  have hanswered := answered_of_arp (n := n) nm db h
  have hether : (Packet.ofFrame m (checkedLen n)).header .ether = 0 := rfl
  have harp : (Packet.ofFrame m (checkedLen n)).header .arp = Packet.frameOffset m .arp := rfl
  have hip : Packet.frameOffset m .arp = Packet.frameOffset m .ip := rfl
  rw [hdata, hether, harp] at hbound
  constructor
  · intro hsafe
    refine ⟨(hsafe.length hanswered).1, ?_⟩
    have hinside := ((within_onFrameProg nm db _).1 hsafe.inside).2
    simp only [h] at hinside
    exact (hbound.1 hinside).2
  · intro hfits
    have hheader := hfits.header
    refine .of_length ((within_onFrameProg nm db _).2 ⟨by omega, ?_⟩) ?_ ?_
    · simp only [h]
      exact hbound.2 ⟨by omega, hheader⟩
    · intro _
      simp only [shortest, h]
      exact ⟨hfits.right, hheader⟩
    · intro hicmp
      exact absurd (h.symm.trans hicmp) (by decide)

/-! ### ICMP -/

theorem icmpLen_ofFrame (hle : Packet.frameOffset m .icmp ≤ n) (hn : n < 4294967296) :
    icmpLen (Packet.ofFrame m n) = n - Packet.frameOffset m .icmp := by
  have hlen : icmpLen (Packet.ofFrame m n) =
      (BitVec.ofNat 32 n - BitVec.ofNat 32 (Packet.frameOffset m .icmp)).toNat := rfl
  rw [hlen, BitVec.toNat_sub, BitVec.toNat_ofNat, BitVec.toNat_ofNat]
  omega

/-- An odd range would take one byte from behind the frame. -/
theorem cksumWithin_iff (hle : Packet.frameOffset m .icmp + 4 ≤ n) (hn : n ≤ 2048) :
    CksumWithin n (Packet.frameOffset m .icmp) (n - Packet.frameOffset m .icmp) ↔
      EvenMessage m n := by
  unfold CksumWithin EvenMessage
  omega

theorem icmp6Type_eq (len : Nat) :
    (swapAddr6 (swapMac (Packet.ofFrame m len))).data (Packet.frameOffset m .icmp) =
      icmp6Type m := by
  have hip := etherLen_le_ip m
  have hicmp : 14 ≤ Packet.frameOffset m .icmp :=
    Nat.le_trans hip (Nat.le_add_right _ (Packet.ipvLen m))
  have hheader : (swapMac (Packet.ofFrame m len)).header .ip = Packet.frameOffset m .ip := rfl
  have hbyte : ∀ a, 12 ≤ a → (swapMac (Packet.ofFrame m len)).data a = m a :=
    fun a ha => data_swapMac_of_le m len ha
  rw [data_swapAddr6, hheader]
  unfold icmp6Type
  simp only
  split_ifs
  · exact hbyte _ (by omega)
  · exact hbyte _ (by omega)
  · exact hbyte _ (by omega)

theorem icmpLen_swapMac (pkt : Packet) : icmpLen (swapMac pkt) = icmpLen pkt := by
  unfold icmpLen
  rfl

theorem icmpLen_swapAddr6 (pkt : Packet) : icmpLen (swapAddr6 pkt) = icmpLen pkt := by
  unfold icmpLen
  rfl

theorem within_onIcmpProg (dmac : Mac) (hn : n ≤ 2048)
    (hle : Packet.frameOffset m .icmp + 8 ≤ n) :
    (onIcmpProg dmac (fields (Packet.ofFrame m n))).Within n m ↔
      if Packet.chkEthertype m Packet.ethertypeIp then
        Packet.frameOffset m .ip + 20 ≤ n ∧ EvenMessage m n
      else
        Packet.frameOffset m .ip + 40 ≤ n ∧ (icmp6Type m = icmp6EchoRequest → EvenMessage m n) ∧
          (icmp6Type m = ndNeighborSolicit →
            EvenMessage m n ∧ Packet.frameOffset m .icmp + 32 ≤ n) := by
  have hip : (swapMac (Packet.ofFrame m n)).header .ip = Packet.frameOffset m .ip := rfl
  have hicmp : (swapMac (Packet.ofFrame m n)).header .icmp = Packet.frameOffset m .icmp := rfl
  have hicmp' : (swapAddr6 (swapMac (Packet.ofFrame m n))).header .icmp =
      Packet.frameOffset m .icmp := rfl
  have hlen := icmpLen_ofFrame (Nat.le_trans (Nat.le_add_right _ 8) hle) (by omega)
  have hcks := cksumWithin_iff (Nat.le_trans (Nat.add_le_add_left (by decide) _) hle) hn
  -- `SwapMac` changes nothing the tests look at.
  have hsame := ethertype_congr fun i hlo _ => data_swapMac_of_le m n (i := i) hlo
  have hge := etherLen_le_ip m
  have hmac : (Packet.ofFrame m n).header .ether + 12 ≤ n := by
    have hzero : (Packet.ofFrame m n).header .ether = 0 := rfl
    have hbehind : Packet.frameOffset m .ip ≤ Packet.frameOffset m .icmp := Nat.le_add_right _ _
    omega
  have hchk : (chkEthertypeProg Packet.ethertypeIp).Within n
      (swapMac (Packet.ofFrame m n)).data := by
    refine within_chkEthertypeProg _ ?_ _
    rw [hsame.1]
    exact Nat.le_trans (Nat.le_add_right _ _) (Nat.le_trans (Nat.le_add_right _ 8) hle)
  refine (within_onIcmpProg_iff (Packet.ofFrame m n) dmac).trans ?_
  rw [hsame.2]
  simp only [hmac, hchk, true_and]
  split_ifs
  · rw [within_onIcmpV4Prog, hip, hicmp, icmpLen_swapMac, hlen, hcks]
    exact ⟨fun h => ⟨h.1, h.2.2⟩, fun h => ⟨h.1, by omega, h.2⟩⟩
  · rw [within_onIcmpV6Prog, within_icmp6AnswerProg, hip, hicmp', icmpLen_swapAddr6,
      icmpLen_swapMac, hlen, hcks, icmp6Type_eq]
    constructor
    · rintro ⟨h40, _, hecho, hsolicit⟩
      exact ⟨h40, fun h => (hecho h).2, fun h => ⟨(hsolicit h).2, (hsolicit h).1⟩⟩
    · rintro ⟨h40, hecho, hsolicit⟩
      exact ⟨h40, by omega, fun h => ⟨by omega, hecho h⟩,
        fun h => ⟨(hsolicit h).2, (hsolicit h).1⟩⟩

theorem frameSafe_iff_of_icmp (h : Packet.frameType m = .icmp) :
    FrameSafe m n nm db ↔ IcmpFits m n := by
  have hreach := @frameReach_le m
  have hanswered := answered_of_icmp (n := n) nm db h
  constructor
  · intro hsafe
    have hright := (hsafe.length hanswered).1
    have hheader := (hsafe.length hanswered).2
    simp only [shortest, h] at hheader
    have hcheck : checkedLen n = n := if_neg (Nat.not_lt.2 hright)
    have hinside := ((within_onFrameProg nm db _).1 hsafe.inside).2
    simp only [h, hcheck] at hinside
    have hbound := (within_onIcmpProg nm.dmac hright hheader).1 hinside
    refine ⟨hright, hheader, ?_, ?_⟩
    · intro hv4
      simpa only [hv4, if_true] using hbound
    · intro hv6
      simpa only [hv6, Bool.false_eq_true, if_false] using hbound
  · intro hfits
    have hheader := hfits.header
    have hcheck : checkedLen n = n := if_neg (Nat.not_lt.2 hfits.right)
    have hbound : (onIcmpProg nm.dmac (fields (Packet.ofFrame m n))).Within n m := by
      refine (within_onIcmpProg nm.dmac hfits.right hheader).2 ?_
      split_ifs with hv4
      · exact hfits.v4 hv4
      · exact hfits.v6 (Bool.not_eq_true _ ▸ hv4)
    have hip : Packet.frameOffset m .ip + 20 ≤ n := by
      by_cases hv4 : Packet.chkEthertype m Packet.ethertypeIp = true
      · exact (hfits.v4 hv4).1
      · have hv6 := (hfits.v6 (Bool.eq_false_iff.2 hv4)).1
        omega
    refine .of_length ((within_onFrameProg nm db _).2 ⟨by omega, ?_⟩) ?_ ?_
    · simp only [h, hcheck]
      exact hbound
    · intro _
      simp only [shortest, h]
      exact ⟨hfits.right, hheader⟩
    · intro _
      rw [hcheck]
      exact Nat.le_trans (Nat.le_add_right _ 8) hheader

/-! ### UDP -/

theorem payload_swapMac_apply (len i : Nat) :
    (swapMac (Packet.ofFrame m len)).data (Packet.frameOffset m .payload + i) =
      m (Packet.frameOffset m .payload + i) := by
  have hpay := header_lt_payload m
  exact data_swapMac_of_le m len (by omega)

/-- What the server takes out of the request is what came in. -/
theorem request_swapMac (len : Nat) :
    Header.opcode (swapMac (Packet.ofFrame m len)).data (Packet.frameOffset m .payload) =
        Header.opcode m (Packet.frameOffset m .payload) ∧
      Header.key (swapMac (Packet.ofFrame m len)).data (Packet.frameOffset m .payload) =
        Header.key m (Packet.frameOffset m .payload) := by
  have hextlen : Header.extlen (swapMac (Packet.ofFrame m len)).data
      (Packet.frameOffset m .payload) = Header.extlen m (Packet.frameOffset m .payload) :=
    payload_swapMac_apply len 4
  refine ⟨payload_swapMac_apply len 1, ?_⟩
  rw [Header.key, Header.key, hextlen, Nat.add_assoc]
  refine Mem.be32_congr (Mem.read_congr ?_)
  intro i _
  rw [Nat.add_assoc]
  exact payload_swapMac_apply len _

theorem accepted_swapMac_iff (len : Nat) :
    Accepted (swapMac (Packet.ofFrame m len)) ↔ Accepted (Packet.ofFrame m len) := by
  have hsame : ∀ i < headerLen, (swapMac (Packet.ofFrame m len)).data
      ((swapMac (Packet.ofFrame m len)).payload + i) =
        (Packet.ofFrame m len).data ((Packet.ofFrame m len).payload + i) :=
    fun i _ => payload_swapMac_apply len i
  unfold Accepted
  rw [validateHeader_iff, validateHeader_iff, headerOk_congr hsame, bodylen_congr hsame,
    keylen_congr hsame]
  rfl

/-- An accepted request has the length of its header at least. -/
theorem headerLen_le_of_accepted {pkt : Packet} (h : Accepted pkt) : headerLen ≤ pkt.len := by
  have hlen := (accepted_iff.1 h).2.2.1
  rw [hlen]
  exact Nat.le_add_right _ _

theorem checkedLen_of_pos (h : 0 < checkedLen n) : checkedLen n = n ∧ n ≤ 2048 := by
  unfold checkedLen at h ⊢
  split_ifs at h ⊢
  · omega
  · exact ⟨rfl, by omega⟩

theorem within_onUdpProg {σ : Type} (srv : Server σ) (db : σ) (pkt : Packet) :
    (onUdpProg srv (fields pkt) db).Within n pkt.data ↔ pkt.header .ether + 12 ≤ n ∧
      (routeProg srv (fields (swapMac pkt)) db).Within n (swapMac pkt).data := by
  simp only [onUdpProg, Prog.within_bind, within_swapMacProg, run_swapMacProg, Prog.after_mk]
  rfl

/-- The bounds of a UDP frame handled as one of `len` bytes. -/
theorem within_onUdpProg_ofFrame {σ : Type} (srv : Server σ) (db : σ) (len : Nat) :
    (onUdpProg srv (fields (Packet.ofFrame m len)) db).Within n m ↔
      Packet.frameOffset m .ip + 20 ≤ n ∧
        (dstOct3 (Packet.ofFrame m n) = externalIpOct3 → headerLen < len →
          Packet.frameOffset m .payload + 12 ≤ n ∧
            (Header.bodylen m (Packet.frameOffset m .payload) + headerLen = len →
              Header.keylen m (Packet.frameOffset m .payload) = 0 ∨
                Packet.frameOffset m .payload + headerLen +
                  Header.keylen m (Packet.frameOffset m .payload) ≤ n)) ∧
        (dstOct3 (Packet.ofFrame m n) = internalIpOct3 →
          (onRecieveProg srv (swapMac (Packet.ofFrame m len)).payload len db).Within n
            (swapMac (Packet.ofFrame m len)).data) := by
  have hsame : ∀ i < headerLen, (swapMac (Packet.ofFrame m len)).data
      (Packet.frameOffset m .payload + i) = m (Packet.frameOffset m .payload + i) :=
    fun i _ => payload_swapMac_apply len i
  have hoct : dstOct3 (swapMac (Packet.ofFrame m len)) = dstOct3 (Packet.ofFrame m n) :=
    dstOct3_swapMac m len
  have hdst : ipDst (swapMac (Packet.ofFrame m len)) = Packet.frameOffset m .ip + 16 := rfl
  have hlen : (swapMac (Packet.ofFrame m len)).len = len := rfl
  have hpay : (swapMac (Packet.ofFrame m len)).payload = Packet.frameOffset m .payload := rfl
  have hether : (Packet.ofFrame m len).header .ether = 0 := rfl
  have hge := etherLen_le_ip m
  refine (within_onUdpProg srv db (Packet.ofFrame m len)).trans ?_
  rw [within_routeProg, hoct, hdst, hlen, hpay, bodylen_congr hsame, keylen_congr hsame, hether]
  constructor
  · rintro ⟨_, hip, hrest⟩
    exact ⟨by omega, hrest⟩
  · rintro ⟨hip, hrest⟩
    exact ⟨by omega, by omega, hrest⟩

/-- The UDP frames that are sent on or answered. -/
theorem answered_of_udp_iff (h : Packet.frameType m = .udp) :
    AnsweredFrame m n nm db ↔
      (dstOct3 (Packet.ofFrame m n) = externalIpOct3 ∧ headerLen < checkedLen n ∧
        Header.bodylen m (Packet.frameOffset m .payload) + headerLen = checkedLen n) ∨
      (dstOct3 (Packet.ofFrame m n) = internalIpOct3 ∧
        Accepted (Packet.ofFrame m (checkedLen n))) := by
  have hcall : onPacket nm (Packet.ofFrame m (checkedLen n)) db =
      route (onRecieve nm.server) (swapMac (Packet.ofFrame m (checkedLen n))) db := by
    simp only [onPacket, type_ofFrame, h, onUdp_eq]
  have hsame : ∀ i < headerLen, (swapMac (Packet.ofFrame m (checkedLen n))).data
      (Packet.frameOffset m .payload + i) = m (Packet.frameOffset m .payload + i) :=
    fun i _ => payload_swapMac_apply _ i
  have hoct : dstOct3 (swapMac (Packet.ofFrame m (checkedLen n))) = dstOct3 (Packet.ofFrame m n) :=
    dstOct3_swapMac m _
  have hlen : (swapMac (Packet.ofFrame m (checkedLen n))).len = checkedLen n := rfl
  have hpay : (swapMac (Packet.ofFrame m (checkedLen n))).payload =
      Packet.frameOffset m .payload := rfl
  have hne : internalIpOct3 ≠ externalIpOct3 := by decide
  have hyes : needSend &&& needSend ≠ 0 := by decide
  have hno : ¬ (0 &&& needSend ≠ 0) := by decide
  unfold AnsweredFrame
  rw [hcall]
  unfold route
  simp only [hoct, hlen, hpay, bodylen_congr hsame]
  by_cases hext : dstOct3 (Packet.ofFrame m n) = externalIpOct3
  · simp only [hext, if_true, hne.symm, false_and, or_false, true_and]
    split_ifs with hlong hfull
    · exact iff_of_true hyes ⟨hlong, hfull⟩
    · exact iff_of_false hno fun hboth => hfull hboth.2
    · exact iff_of_false hno fun hboth => hlong hboth.1
  · by_cases hint : dstOct3 (Packet.ofFrame m n) = internalIpOct3
    · simp only [hint, hne, if_false, if_true, false_and, false_or, true_and]
      rw [← accepted_swapMac_iff]
      by_cases hacc : Accepted (swapMac (Packet.ofFrame m (checkedLen n)))
      · rw [(onRecieve_of_accepted nm.server db hacc).1]
        exact iff_of_true hyes hacc
      · rw [onRecieve_of_not_accepted nm.server _ db hacc]
        exact iff_of_false hno hacc
    · simp only [hext, hint, if_false, false_and, or_false]
      exact iff_of_false hno not_false

/-- An accepted request has a positive length, so the length was not flagged. -/
theorem unflagged_of_accepted (h : Accepted (Packet.ofFrame m (checkedLen n))) :
    checkedLen n = n ∧ n ≤ 2048 :=
  checkedLen_of_pos (Nat.lt_of_lt_of_le (by decide) (headerLen_le_of_accepted h))

theorem UdpFits.not_accepted (hfits : UdpFits m n)
    (hoct : dstOct3 (Packet.ofFrame m n) = internalIpOct3) :
    ¬ Accepted (Packet.ofFrame m (checkedLen n)) := by
  intro hacc
  have hright := unflagged_of_accepted hacc
  rw [hright.1] at hacc
  exact (hfits.internal hoct).2 ⟨hright.2, hacc⟩

variable {nm db}

/-- A frame that fits and is sent on holds its headers. -/
theorem UdpFits.of_answered (hfits : UdpFits m n) (h : Packet.frameType m = .udp)
    (hanswered : AnsweredFrame m n nm db) : n ≤ 2048 ∧ shortest m ≤ n := by
  rcases (answered_of_udp_iff nm db h).1 hanswered with ⟨hoct, hlong, hfull⟩ | ⟨hoct, hacc⟩
  · have hright := checkedLen_of_pos (Nat.lt_of_le_of_lt (Nat.zero_le _) hlong)
    rw [hright.1] at hlong hfull
    have hkey := (hfits.external hoct hlong hright.2).2 hfull
    refine ⟨hright.2, ?_⟩
    simp only [shortest, h]
    exact Nat.le_trans (Nat.le_add_right _ _) hkey
  · exact absurd hacc (hfits.not_accepted hoct)

variable (nm db)

theorem headerReach_swapMac (len : Nat) :
    headerReach (swapMac (Packet.ofFrame m len)).data (Packet.frameOffset m .payload) =
      headerReach m (Packet.frameOffset m .payload) :=
  headerReach_congr fun i _ => payload_swapMac_apply len i

/-- A request for the server is handled in its own bytes only if it is refused. -/
theorem within_onRecieveProg_swapMac_iff :
    (onRecieveProg nm.server (swapMac (Packet.ofFrame m (checkedLen n))).payload (checkedLen n)
        db).Within n (swapMac (Packet.ofFrame m (checkedLen n))).data ↔
      Packet.frameOffset m .payload + headerReach m (Packet.frameOffset m .payload) ≤ n ∧
        ¬ (n ≤ 2048 ∧ Accepted (Packet.ofFrame m n)) := by
  have hpay : (swapMac (Packet.ofFrame m (checkedLen n))).payload =
      Packet.frameOffset m .payload := rfl
  have hpos : 0 < Packet.frameOffset m .payload :=
    Nat.lt_of_lt_of_le (by decide) (header_lt_payload m)
  by_cases hacc : Accepted (swapMac (Packet.ofFrame m (checkedLen n)))
  · have hrequest := (accepted_swapMac_iff _).1 hacc
    have hright := unflagged_of_accepted hrequest
    have hlen : (swapMac (Packet.ofFrame m (checkedLen n))).len = n := hright.1
    have hfull := not_within_of_accepted nm.server db hacc hpos (hlen.symm ▸ hright.2)
    rw [hlen] at hfull
    rw [hright.1] at hfull hrequest ⊢
    exact iff_of_false hfull fun hfits => hfits.2 ⟨hright.2, hrequest⟩
  · refine (within_onRecieveProg_of_not_accepted nm.server db hacc).trans ?_
    rw [hpay, headerReach_swapMac]
    refine (and_iff_left ?_).symm
    rintro ⟨hright, hrequest⟩
    have hcheck : checkedLen n = n := if_neg (Nat.not_lt.2 hright)
    rw [hcheck, accepted_swapMac_iff] at hacc
    exact hacc hrequest

theorem UdpFits.of_safe (h : Packet.frameType m = .udp) (hsafe : FrameSafe m n nm db) :
    UdpFits m n := by
  have hinside := ((within_onFrameProg nm db _).1 hsafe.inside).2
  simp only [h] at hinside
  rcases (within_onUdpProg_ofFrame nm.server db (checkedLen n)).1 hinside with ⟨hip, hext, hint⟩
  refine ⟨hip, ?_, fun hoct => (within_onRecieveProg_swapMac_iff nm db).1 (hint hoct)⟩
  intro hoct hlong hright
  have hcheck : checkedLen n = n := if_neg (Nat.not_lt.2 hright)
  rw [hcheck] at hext
  refine ⟨(hext hoct hlong).1, ?_⟩
  intro hfull
  -- The frame is sent on, so it is no shorter than its headers.
  have hheader := (hsafe.length ((answered_of_udp_iff nm db h).2
    (Or.inl ⟨hoct, by rwa [hcheck], by rwa [hcheck]⟩))).2
  simp only [shortest, h] at hheader
  have hkey := (hext hoct hlong).2 hfull
  omega

theorem frameSafe_iff_of_udp (h : Packet.frameType m = .udp) :
    FrameSafe m n nm db ↔ UdpFits m n := by
  have hreach := @frameReach_le m
  constructor
  · exact UdpFits.of_safe nm db h
  · intro hfits
    have hip := hfits.ip
    refine .of_length ((within_onFrameProg nm db _).2 ⟨by omega, ?_⟩) ?_ ?_
    · simp only [h]
      refine (within_onUdpProg_ofFrame nm.server db (checkedLen n)).2 ⟨hip, ?_, ?_⟩
      · intro hoct hlong
        have hright := checkedLen_of_pos (Nat.lt_of_le_of_lt (Nat.zero_le _) hlong)
        rw [hright.1] at hlong ⊢
        have hkey := hfits.external hoct hlong hright.2
        exact ⟨hkey.1, fun hfull => Or.inr (hkey.2 hfull)⟩
      · intro hoct
        exact (within_onRecieveProg_swapMac_iff nm db).2 (hfits.internal hoct)
    · exact hfits.of_answered h
    · intro hicmp
      exact absurd (h.symm.trans hicmp) (by decide)

/-! ### The others -/

/-- The types the constructor gives to frames. -/
theorem frameType_cases :
    Packet.frameType m = .udp ∨ Packet.frameType m = .arp ∨ Packet.frameType m = .icmp ∨
      Packet.frameType m = .dc := by
  unfold Packet.frameType
  simp only
  split_ifs <;> simp

theorem not_answered_of_dc (h : Packet.frameType m = .dc) : ¬ AnsweredFrame m n nm db := by
  apply not_answered_of_ret
  simp only [onPacket, type_ofFrame, h]

theorem frameSafe_iff_of_dc (h : Packet.frameType m = .dc) :
    FrameSafe m n nm db ↔ frameReach m ≤ n := by
  have hnot := not_answered_of_dc (n := n) nm db h
  have hinside := within_onFrameProg (m := m) (n := n) nm db (checkedLen n)
  simp only [h, and_true] at hinside
  constructor
  · intro hsafe
    exact hinside.1 hsafe.inside
  · intro hreach
    refine .of_length (hinside.2 hreach) (fun hanswered => absurd hanswered hnot) ?_
    intro hicmp
    exact absurd (h.symm.trans hicmp) (by decide)

variable (m n)

/-- A frame is handled within its own bytes, and answered only if it is as long as it has to be,
exactly when the headers, the checksum and the key it asks for end within its slot. -/
theorem frameSafe_iff : FrameSafe m n nm db ↔ FrameFits m n := by
  unfold FrameFits
  rcases @frameType_cases m with h | h | h | h
  · simp only [h]
    exact frameSafe_iff_of_udp nm db h
  · simp only [h]
    exact frameSafe_iff_of_arp nm db h
  · simp only [h]
    exact frameSafe_iff_of_icmp nm db h
  · simp only [h]
    exact frameSafe_iff_of_dc nm db h

/-! ## What the bounds are good for -/

variable {m n nm db}

/-- Two buffers with the same frame in front are handled alike, whatever lies behind it. -/
theorem FrameSafe.congr (h : FrameSafe m n nm db) {m' : Mem} (hm : ∀ i < n, m i = m' i) :
    (onPacket nm (Packet.ofFrame m' (checkedLen n)) db).1 =
        (onPacket nm (Packet.ofFrame m (checkedLen n)) db).1 ∧
      (onPacket nm (Packet.ofFrame m' (checkedLen n)) db).2.2 =
        (onPacket nm (Packet.ofFrame m (checkedLen n)) db).2.2 ∧
      ∀ i < n, (onPacket nm (Packet.ofFrame m' (checkedLen n)) db).2.1.data i =
        (onPacket nm (Packet.ofFrame m (checkedLen n)) db).2.1.data i := by
  have hsame : ∀ x ∈ (onFrameProg nm (checkedLen n) db).accesses m, ∀ a ∈ x.region,
      m a = m' a := by
    intro x hx a ha
    have hin := (Region.mem_iff.1 (h.inside x hx a ha)).2
    exact hm a (by simpa using hin)
  have hrun := Prog.run_congr hsame
  rw [run_onFrameProg, run_onFrameProg] at hrun
  simp only [Prod.mk.injEq] at hrun
  refine ⟨hrun.1.1, hrun.1.2.2, ?_⟩
  intro i hi
  exact hrun.2 i (hm i hi)

/-- The turn leaves the buffer behind the frame as it was. -/
theorem FrameSafe.behind {st : RingLoop σ}
    (h : FrameSafe (st.buf (st.rx.slot st.rxCur).bufIdx) (st.rx.slot st.rxCur).len nm st.db)
    {a : Nat} (ha : (st.rx.slot st.rxCur).len ≤ a) :
    (ringTurn nm st).buf (st.rx.slot st.rxCur).bufIdx a =
      st.buf (st.rx.slot st.rxCur).bufIdx a := by
  have hidx : (checkLen (st.rx.slot st.rxCur)).bufIdx = (st.rx.slot st.rxCur).bufIdx := by
    unfold checkLen
    split_ifs <;> rfl
  have hbuf : (ringTurn nm st).buf = Function.update st.buf (st.rx.slot st.rxCur).bufIdx
      (onPacket nm st.frame st.db).2.1.data := by
    unfold ringTurn
    simp only [hidx]
    split_ifs <;> rfl
  have hkeeps : (onFrameProg nm (checkedLen (st.rx.slot st.rxCur).len) st.db).Keeps a
      (st.buf (st.rx.slot st.rxCur).bufIdx) := by
    intro x hx r hr hmem
    have hin := h.inside x hx a (hr ▸ hmem)
    rw [Region.mem_iff] at hin
    simp only at hin
    omega
  have hframe := Prog.run_of_keeps hkeeps
  rw [run_onFrameProg, ← frame_eq] at hframe
  rw [hbuf, Function.update_self]
  exact hframe

end Frame

/-! ## Frames that are not -/

/-- A SET request for the server, complete and of the right length, whose key and value the server
reads, and an ARP request cut off at 20 bytes and one in a slot of 3000. -/
theorem not_frameSafe :
    ¬ FrameSafe internalSet 79 demoNetmap () ∧ ¬ FrameSafe arpFrame 20 demoNetmap () ∧
      ¬ FrameSafe arpFrame 3000 demoNetmap () ∧
      ¬ ∀ m n, n ≤ 65535 → FrameSafe m n demoNetmap () := by
  have hudp : Packet.frameType internalSet = .udp := (parse_frameMem 0x80 _).2.1.type
  have hset : ¬ FrameSafe internalSet 79 demoNetmap () := by
    intro hsafe
    have hfits := (frameSafe_iff_of_udp demoNetmap () hudp).1 hsafe
    exact (hfits.internal (dstOct3_frameMem 0x80 _ 79)).2
      ⟨by decide, (accepted_swapMac_iff 79).1 accepted_internalSet⟩
  have harp : ∀ n, FrameSafe arpFrame n demoNetmap () → ArpFits arpFrame n :=
    fun n => (frameSafe_iff_of_arp demoNetmap () frameType_arpFrame).1
  have hip : Packet.frameOffset arpFrame .arp = 14 := by decide
  refine ⟨hset, ?_, ?_, ?_⟩
  · intro hsafe
    have hheader := (harp 20 hsafe).header
    rw [hip] at hheader
    exact absurd hheader (by decide)
  · intro hsafe
    exact absurd (harp 3000 hsafe).right (by decide)
  · intro hall
    exact hset (hall _ _ (by decide))

end Arch
end NmMemcached
