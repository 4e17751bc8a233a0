import NmMemcached.Arch.Frames
import NmMemcached.Server.Requests

/-!
# Answer — what `ProcessRing` queues for a request to an internal address

An answer is built in the buffer of the request by three layers: `SwapMac` exchanges the hardware
addresses, `OnRecieve` builds a response from the payload on and sets the length of the packet to
the length of the response, and `Send` puts that length into the tx slot.  Nobody touches the IP
header and the UDP header (`queued_answer`).

So the length of the tx slot is that of the response without the headers in front of it, and no
answer is a frame that can be delivered (`not_deliverable`).
-/

namespace NmMemcached
namespace Arch

open Lib Base Net Server

section Turn

universe u

variable {σ : Type u} (nm : Netmap σ) (st : RingLoop σ)

/-- The tx slot that a sending turn fills. -/
def queuedSlot : NetmapSlot := (ringTurn nm st).tx.slot st.txCur

/-- The frame in that slot. -/
def queuedFrame : Mem := (ringTurn nm st).buf (queuedSlot nm st).bufIdx

/-- `Send` queues the packet as the handler left it. -/
theorem queued_of_ret (hsend : (onPacket nm st.frame st.db).1 &&& needSend ≠ 0) :
    (queuedSlot nm st).len = (onPacket nm st.frame st.db).2.1.len % 65536 ∧
      queuedFrame nm st = (onPacket nm st.frame st.db).2.1.data := by
  have hslot : queuedSlot nm st = (send (checkLen (st.rx.slot st.rxCur)) (st.tx.slot st.txCur)
      (onPacket nm st.frame st.db).2.1).2 := by
    simp only [queuedSlot, ringTurn, hsend, if_true, ne_eq, not_false_eq_true,
      NetmapRing.setSlot, Function.update_self]
  have hbuf : (ringTurn nm st).buf = Function.update st.buf
      (checkLen (st.rx.slot st.rxCur)).bufIdx (onPacket nm st.frame st.db).2.1.data := by
    simp only [ringTurn, hsend, if_true, ne_eq, not_false_eq_true]
  refine ⟨by rw [hslot]; rfl, ?_⟩
  rw [queuedFrame, hbuf, hslot]
  exact Function.update_self _ _ _

theorem queued_of_sends (h : (onPacket nm st.frame st.db).1 = needSend) :
    (queuedSlot nm st).len = (onPacket nm st.frame st.db).2.1.len % 65536 ∧
      queuedFrame nm st = (onPacket nm st.frame st.db).2.1.data := by
  apply queued_of_ret
  rw [h]
  decide

/-- A frame for the server of this instance, which answers it. -/
structure AnsweredRequest : Prop where
  udp : st.frame.type = .udp
  internal : dstOct3 st.frame = internalIpOct3
  answered : (onRecieve nm.server (swapMac st.frame) st.db).1 ≠ 0

variable {nm st}

theorem onPacket_internal (hudp : st.frame.type = .udp)
    (hint : dstOct3 st.frame = internalIpOct3) :
    onPacket nm st.frame st.db = onRecieve nm.server (swapMac st.frame) st.db := by
  have hoct : dstOct3 (swapMac st.frame) = internalIpOct3 :=
    (dstOct3_swapMac _ _).trans hint
  have hne : internalIpOct3 ≠ externalIpOct3 := by decide
  have hcall : onPacket nm st.frame st.db = onUdp (onRecieve nm.server) st.frame st.db := by
    simp only [onPacket, hudp]
  rw [hcall]
  simp only [onUdp, hoct, hne, if_false, if_true]

/-- The queued answer: hardware addresses swapped, all other headers as they came, a response
behind them, and the length of that response. -/
theorem queued_answer (h : AnsweredRequest nm st) :
    (queuedFrame nm st).read 0 6 = st.frame.data.read 6 6 ∧
      (queuedFrame nm st).read 6 6 = st.frame.data.read 0 6 ∧
      (∀ i, 12 ≤ i → i < st.frame.payload → queuedFrame nm st i = st.frame.data i) ∧
      (queuedSlot nm st).len = headerLen + Header.bodylen (queuedFrame nm st) st.frame.payload := by
  have hacc := (onRecieve_answers_iff nm.server (swapMac st.frame) st.db).1 h.answered
  rcases onRecieve_of_accepted nm.server st.db hacc with ⟨hret, hanswer⟩
  have hcall : onPacket nm st.frame st.db = onRecieve nm.server (swapMac st.frame) st.db :=
    onPacket_internal h.udp h.internal
  have hsends : (onPacket nm st.frame st.db).1 = needSend := by rw [hcall, hret]
  rcases queued_of_sends nm st hsends with ⟨hlen, hdata⟩
  rw [hcall] at hlen hdata
  have hpay := header_lt_payload st.frame.data
  -- `OnRecieve` writes from the payload on; in front of it `SwapMac` was the last.
  have hfront : ∀ i < st.frame.payload, queuedFrame nm st i = (swapMac st.frame).data i := by
    intro i hi
    rw [hdata]
    exact hanswer.front i hi
  have hmac : ∀ off, off + 6 ≤ 12 →
      (queuedFrame nm st).read off 6 = (swapMac st.frame).data.read off 6 := by
    intro off hoff
    apply Mem.read_congr
    intro i hi
    exact hfront _ (Nat.lt_of_lt_of_le (by omega) hpay)
  refine ⟨?_, ?_, ?_, ?_⟩
  · rw [hmac 0 (by decide)]
    exact read_dhost_swapMac _ _
  · rw [hmac 6 (by decide)]
    exact read_shost_swapMac _ _
  · intro i hlo hhi
    rw [hfront i hhi]
    exact data_swapMac_of_le _ _ hlo
  · rw [hlen, Nat.mod_eq_of_lt hanswer.len_lt, hanswer.len, hanswer.payload, ← hdata]
    rfl

/-- A response frame that gets back to the client: addresses and ports swapped, and every length
that of the response. -/
structure Deliverable (req out : Mem) (len : Nat) : Prop where
  dhost : out.read 0 6 = req.read 6 6
  shost : out.read 6 6 = req.read 0 6
  ipSrc : out.read (Packet.frameOffset req .ip + 12) 4 =
    req.read (Packet.frameOffset req .ip + 16) 4
  ipDst : out.read (Packet.frameOffset req .ip + 16) 4 =
    req.read (Packet.frameOffset req .ip + 12) 4
  udpSrc : out.read (Packet.frameOffset req .udp) 2 =
    req.read (Packet.frameOffset req .udp + 2) 2
  udpDst : out.read (Packet.frameOffset req .udp + 2) 2 =
    req.read (Packet.frameOffset req .udp) 2
  slotLen : len = Packet.frameOffset req .payload + headerLen +
    Header.bodylen out (Packet.frameOffset req .payload)
  ipLen : Packet.frameOffset req .ip + out.be16 (Packet.frameOffset req .ip + 2) =
    Packet.frameOffset req .payload + headerLen +
      Header.bodylen out (Packet.frameOffset req .payload)
  udpLen : Packet.frameOffset req .udp + out.be16 (Packet.frameOffset req .udp + 4) =
    Packet.frameOffset req .payload + headerLen +
      Header.bodylen out (Packet.frameOffset req .payload)

theorem not_deliverable_of_short {req out : Mem} {len : Nat}
    (h : len = headerLen + Header.bodylen out (Packet.frameOffset req .payload)) :
    ¬ Deliverable req out len := by
  intro hdel
  -- The payload has at least 22 bytes in front of it.
  have hpay := header_lt_payload req
  have hlen := hdel.slotLen
  omega

/-- No answer that `ProcessRing` queues is a deliverable frame. -/
theorem not_deliverable (h : AnsweredRequest nm st) :
    ¬ Deliverable st.frame.data (queuedFrame nm st) (queuedSlot nm st).len :=
  not_deliverable_of_short (queued_answer h).2.2.2

end Turn

/-! ## A SET that is answered -/

section OneFrame

universe u

variable {σ : Type u}

/-- A loop state with one frame in its rx slot. -/
def oneFrame (data : Mem) (len : Nat) (db : σ) : RingLoop σ :=
  { rx := { numSlots := 2, head := 0, cur := 0, tail := 1, flags := 0,
            slot := fun i => { bufIdx := 2 + i, len := len, flags := 0 } }
    tx := { numSlots := 2, head := 0, cur := 0, tail := 1, flags := 0,
            slot := fun i => { bufIdx := 4 + i, len := 0, flags := 0 } }
    buf := Function.update (fun _ _ => 0) 2 data
    db := db
    rxCur := 0
    txCur := 0
    processCount := 0 }

theorem frame_oneFrame (data : Mem) {len : Nat} (h : len ≤ 2048) (db : σ) :
    (oneFrame data len db).frame = Packet.ofFrame data len := by
  have hlen : ¬ 2048 < len := Nat.not_lt.2 h
  simp [RingLoop.frame, oneFrame, checkLen, hlen]

/-- The frame of a SET to an internal address; its body length counts the whole frame. -/
def internalSet : Mem :=
  frameMem 0x80 (requestHead opcodeSet 8 55 ++ (zeros 8 ++ Mem.be32Bytes 5 ++ [0xaa]))

theorem accepted_internalSet : Accepted (swapMac (Packet.ofFrame internalSet 79)) := by
  have hpay : Packet.frameOffset internalSet .payload = 42 := (parse_frameMem 0x80 _).2.2
  have hread : internalSet.read 42 headerLen = requestHead opcodeSet 8 55 :=
    read_frameMem_append 0x80 _ (requestHead opcodeSet 8 55)
  have hsame : ∀ i, (swapMac (Packet.ofFrame internalSet 79)).data (42 + i) =
      internalSet (42 + i) := by
    intro i
    exact data_swapMac_of_le internalSet 79 (by omega)
  have hhead : (swapMac (Packet.ofFrame internalSet 79)).data.read 42 headerLen =
      requestHead opcodeSet 8 55 := by
    rw [← hread]
    exact Mem.read_congr fun i _ => hsame i
  have hvalid := validateHeader_set hhead (by decide) (by decide) (by decide)
  have hkeylen := (fields_of_requestHead hhead (by decide)).2.2.1
  have hoff : (swapMac (Packet.ofFrame internalSet 79)).payload = 42 := hpay
  refine ⟨?_, ?_⟩
  · rw [hoff]
    exact hvalid
  · rw [hoff]
    exact hkeylen

theorem answered_internalSet (nm : Netmap σ) (db : σ) :
    AnsweredRequest nm (oneFrame internalSet 79 db) := by
  have hframe := frame_oneFrame internalSet (by decide : 79 ≤ 2048) db
  have hudp : IsIpv4Udp internalSet := (parse_frameMem 0x80 _).2.1
  refine ⟨?_, ?_, ?_⟩
  · rw [hframe, type_ofFrame, hudp.type]
  · rw [hframe]
    exact dstOct3_frameMem 0x80 _ 79
  · rw [hframe]
    exact (onRecieve_answers_iff _ _ _).2 accepted_internalSet

/-- An instance whose database takes every statement. -/
def demoNetmap : Netmap Unit :=
  { dmac := { bytes := [2, 0, 0, 0, 0, 1], length_bytes := rfl }
    server := { lookupValue := Table.LookupTable.clear, behind := fun _ _ => 0,
                mysqlQuery := fun _ _ => (0, ()) } }

/-- Who has 10.128.0.1? -/
def arpFrame : Mem :=
  Mem.write (fun _ => 0) 0 ([255, 255, 255, 255, 255, 255, 2, 0, 0, 0, 0, 2, 0x08, 0x06] ++
    [0, 1, 0x08, 0x00, 6, 4, 0, 1, 2, 0, 0, 0, 0, 2, 10, 128, 0, 2] ++
      [0, 0, 0, 0, 0, 0, 10, 128, 0, 1])

theorem frameType_arpFrame : Packet.frameType arpFrame = .arp := by decide

theorem not_deliverable_internalSet :
    ¬ Deliverable (oneFrame internalSet 79 ()).frame.data
      (queuedFrame demoNetmap (oneFrame internalSet 79 ()))
      (queuedSlot demoNetmap (oneFrame internalSet 79 ())).len :=
  not_deliverable (answered_internalSet demoNetmap ())

/-- The request is answered, and its answer is queued with the length of the bare response. -/
theorem internalSet_answer_too_short :
    AnsweredRequest demoNetmap (oneFrame internalSet 79 ()) ∧
      (queuedSlot demoNetmap (oneFrame internalSet 79 ())).len =
        headerLen + Header.bodylen (queuedFrame demoNetmap (oneFrame internalSet 79 ()))
          (oneFrame internalSet 79 ()).frame.payload ∧
      ¬ Deliverable (oneFrame internalSet 79 ()).frame.data
        (queuedFrame demoNetmap (oneFrame internalSet 79 ()))
        (queuedSlot demoNetmap (oneFrame internalSet 79 ())).len := by
  have hanswered := answered_internalSet demoNetmap ()
  have hlen := (queued_answer hanswered).2.2.2
  exact ⟨hanswered, hlen, not_deliverable_of_short hlen⟩

end OneFrame

end Arch
end NmMemcached
