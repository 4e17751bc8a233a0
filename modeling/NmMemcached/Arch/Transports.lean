import NmMemcached.Arch.Answer
import NmMemcached.Arch.Receive

/-!
# Transports — the same request over the socket and over netmap

`validate_header` compares the length a header claims with the length of the packet.  For a
datagram that is the number of bytes read, which `OnRecv` takes from the header itself; for a frame
it is the length of the whole frame.  So the socket answers a request that fits into its datagram
(`SocketAccepts`), and netmap one whose header counts the frame headers too (`NetmapAccepts`): no
payload is both, and the transports agree on exactly those that are neither
(`transports_agree_iff`).
-/

namespace NmMemcached
namespace Arch

open Lib Base Net Server

/-! ## What the transports accept -/

/-- A header the server answers when its length is right. -/
def RequestOk (m : Mem) (p : Nat) : Prop :=
  HeaderOk m p ∧ Header.keylen m p = 4

def SocketAccepts (m : List UInt8) : Prop :=
  headerLen ≤ m.length ∧ RequestOk (bytesMem m) 0 ∧
    headerLen + Header.bodylen (bytesMem m) 0 ≤ m.length

/-- A payload below the header length is read together with the bytes behind it in the buffer of
the frame, which is why this takes the buffer. -/
def NetmapAccepts (data : Mem) (m : List UInt8) : Prop :=
  RequestOk data 42 ∧ Header.bodylen data 42 + headerLen = 42 + m.length ∧ 42 + m.length ≤ 2048

theorem requestOk_congr {m m' : Mem} {p p' : Nat}
    (h : ∀ i < headerLen, m (p + i) = m' (p' + i)) : RequestOk m p ↔ RequestOk m' p' := by
  rw [RequestOk, RequestOk, headerOk_congr h, keylen_congr h]

theorem accepted_iff_requestOk (pkt : Packet) :
    Accepted pkt ↔ RequestOk pkt.data pkt.payload ∧
      Header.bodylen pkt.data pkt.payload + headerLen = pkt.len := by
  rw [Accepted, validateHeader_iff, RequestOk]
  constructor
  · rintro ⟨⟨hok, hlen⟩, hkey⟩
    exact ⟨⟨hok, hkey⟩, hlen⟩
  · rintro ⟨⟨hok, hkey⟩, hlen⟩
    exact ⟨⟨hok, hlen⟩, hkey⟩

/-! ## The netmap path -/

/-- An untagged frame without IP options that carries `m` to an internal address. -/
structure CarriesPayload (data : Mem) (m : List UInt8) : Prop where
  frame : IsIpv4Udp data
  untagged : Packet.vlanLen data = 0
  noOptions : (data (Packet.frameOffset data .ip)).toNat % 16 = 5
  internal : data (Packet.frameOffset data .ip + 17) = 0x80
  payload : data.read 42 m.length = m

section Netmap

universe u

variable {σ : Type u} {st : RingLoop σ} {m : List UInt8}

/-- What a turn of `ProcessRing` does with its frame: the payload of the frame it queues. -/
def turnOutcome (nm : Netmap σ) (st : RingLoop σ) : Outcome :=
  if (onPacket nm st.frame st.db).1 &&& needSend ≠ 0 then
    .answered ((queuedFrame nm st).read st.frame.payload (queuedSlot nm st).len)
  else
    .dropped

theorem CarriesPayload.payload_eq {data : Mem} (h : CarriesPayload data m) :
    Packet.frameOffset data .payload = 42 := by
  have hip : Packet.frameOffset data .ip = 14 := by
    simp [Packet.frameOffset, Packet.etherLen, h.untagged]
  rw [h.frame.payload.1, h.noOptions, hip]

theorem CarriesPayload.dst {data : Mem} (h : CarriesPayload data m) (len : Nat) :
    dstOct3 (Packet.ofFrame data len) = internalIpOct3 := by
  rw [dstOct3_eq]
  exact congrArg UInt8.toBitVec h.internal

/-- The server answers the frame when its header counts the whole frame. -/
theorem accepted_frame_iff {data : Mem} (h : CarriesPayload data m) (len : Nat) :
    Accepted (swapMac (Packet.ofFrame data len)) ↔
      RequestOk data 42 ∧ Header.bodylen data 42 + headerLen = len := by
  have hoff : (swapMac (Packet.ofFrame data len)).payload = 42 := h.payload_eq
  have hsame : ∀ i < headerLen, (swapMac (Packet.ofFrame data len)).data (42 + i) =
      data (42 + i) := by
    intro i _
    exact data_swapMac_of_le data len (by omega)
  rw [accepted_iff_requestOk, hoff, requestOk_congr hsame, bodylen_congr hsame]
  rfl

theorem turnOutcome_dropped_iff (nm : Netmap σ) (hframe : CarriesPayload st.frame.data m)
    (hlen : (st.rx.slot st.rxCur).len = 42 + m.length) :
    turnOutcome nm st = .dropped ↔ ¬ NetmapAccepts st.frame.data m := by
  have hudp : st.frame.type = .udp := hframe.frame.type
  have hcall : onPacket nm st.frame st.db = onRecieve nm.server (swapMac st.frame) st.db :=
    onPacket_internal hudp (hframe.dst _)
  have hacc : Accepted (swapMac st.frame) ↔ RequestOk st.frame.data 42 ∧
      Header.bodylen st.frame.data 42 + headerLen = st.frame.len :=
    accepted_frame_iff hframe _
  have hlength : st.frame.len = if 42 + m.length > 2048 then 0 else 42 + m.length := by
    unfold RingLoop.frame checkLen
    rw [hlen]
    split <;> simp [Packet.ofFrame, hlen]
  -- A slot length above 2048 is set to zero, and no header claims a length of zero.
  have hnetmap : Accepted (swapMac st.frame) ↔ NetmapAccepts st.frame.data m := by
    rw [hacc, hlength, NetmapAccepts]
    by_cases hlong : 42 + m.length > 2048
    · have hnot : ¬ 42 + m.length ≤ 2048 := Nat.not_le.2 hlong
      simp [hlong, hnot, headerLen]
    · have hle : 42 + m.length ≤ 2048 := Nat.le_of_not_lt hlong
      simp [hlong, hle]
  rw [← hnetmap, turnOutcome, hcall]
  by_cases haccept : Accepted (swapMac st.frame)
  · have hret := (onRecieve_of_accepted nm.server st.db haccept).1
    simp [hret, haccept, needSend]
  · have hret := onRecieve_of_not_accepted nm.server _ st.db haccept
    simp [hret, haccept]

theorem turnOutcome_ne_overrun (nm : Netmap σ) : turnOutcome nm st ≠ .overrun := by
  unfold turnOutcome
  split <;> simp

end Netmap

/-! ## The socket path -/

section Socket

universe u

variable {σ : Type u} (srv : Server σ) (rbuf : Mem) (sa : SockAddr) (rest : List Datagram) (db : σ)

/-- A datagram below the header length is thrown away. -/
theorem onRecv_of_short {d : Datagram} (h : d.bytes.length < headerLen) :
    (onRecv srv rbuf sa (d :: rest) db).outcome = .dropped := by
  simp [onRecv, recvPeek, h]

/-- The outcome for a datagram with a header, by the length the header asks for. -/
theorem onRecv_of_header {d : Datagram} (h : headerLen ≤ d.bytes.length) :
    (onRecv srv rbuf sa (d :: rest) db).outcome =
      if nmmcBufferSize < min (wanted d.bytes) d.bytes.length then .overrun
      else if d.bytes.length < wanted d.bytes then .dropped
      else Outcome.ofHandled (onRecieve srv (packetFrom rbuf d) db) := by
  rw [onRecv_cons, if_neg (Nat.not_lt.2 h)]
  split
  · rfl
  · split
    · rfl
    · -- `OnRecv` validates first; a header that fails would not be answered by `OnRecieve` either.
      split
      · rename_i hvalid
        have hnot : ¬ Accepted (packetFrom rbuf d) := by
          intro hacc
          have hacc' : validateHeader (filledBuf rbuf d.bytes) 0 (wanted d.bytes) = true := hacc.1
          rw [validateHeader_filledBuf rbuf h, hvalid] at hacc'
          exact Bool.false_ne_true hacc'
        rw [onRecieve_of_not_accepted srv _ db hnot]
        rfl
      · rfl

theorem onRecv_overrun {d : Datagram} (h : Overruns d.bytes) :
    (onRecv srv rbuf sa (d :: rest) db).outcome = .overrun := by
  rw [onRecv_of_header srv rbuf sa rest db h.1]
  exact if_pos h.2

theorem onRecv_dropped_iff {d : Datagram} :
    (onRecv srv rbuf sa (d :: rest) db).outcome = .dropped ↔
      ¬ Overruns d.bytes ∧ ¬ SocketAccepts d.bytes := by
  -- The exits of `OnRecv` in order: no header, too long for `rbuf`, cut off, not accepted.
  by_cases hheader : headerLen ≤ d.bytes.length
  · rw [onRecv_of_header srv rbuf sa rest db hheader]
    by_cases hover : nmmcBufferSize < min (wanted d.bytes) d.bytes.length
    · have hoverruns : Overruns d.bytes := ⟨hheader, hover⟩
      simp [hover, hoverruns]
    · have hoverruns : ¬ Overruns d.bytes := fun h => hover h.2
      by_cases hcut : d.bytes.length < wanted d.bytes
      · have haccepts : ¬ SocketAccepts d.bytes := fun h => Nat.not_lt.2 h.2.2 hcut
        simp [hover, hcut, hoverruns, haccepts]
      · have hsame := header_filledBuf rbuf hheader
        have haccepts : SocketAccepts d.bytes ↔ Accepted (packetFrom rbuf d) := by
          have hlen : Header.bodylen (filledBuf rbuf d.bytes) 0 + headerLen = wanted d.bytes := by
            rw [bodylen_congr hsame, Nat.add_comm]
            rfl
          rw [accepted_iff_requestOk, SocketAccepts]
          constructor
          · intro h
            exact ⟨(requestOk_congr hsame).2 h.2.1, hlen⟩
          · intro h
            exact ⟨hheader, (requestOk_congr hsame).1 h.1, Nat.le_of_not_lt hcut⟩
        rw [if_neg hover, if_neg hcut, haccepts, Outcome.ofHandled]
        have hans := onRecieve_answers_iff srv (packetFrom rbuf d) db
        rw [← hans]
        split <;> simp_all
  · have hshort := onRecv_of_short srv rbuf sa rest db (Nat.lt_of_not_le hheader)
    have hoverruns : ¬ Overruns d.bytes := fun h => hheader h.1
    have haccepts : ¬ SocketAccepts d.bytes := fun h => hheader h.1
    simp [hshort, hoverruns, haccepts]

end Socket

/-! ## The two paths -/

section Both

universe u

variable {σ : Type u}

/-- No payload is accepted on both paths. -/
theorem not_both_accept {data : Mem} {m : List UInt8} (hframe : CarriesPayload data m)
    (hsocket : SocketAccepts m) : ¬ NetmapAccepts data m := by
  intro hnetmap
  rcases hsocket with ⟨hheader, _, hfits⟩
  rcases hnetmap with ⟨_, hwhole, _⟩
  have hself : (bytesMem m).read 0 m.length = m := Mem.read_write_self _ 0 m
  have hsame : ∀ i < headerLen, data (42 + i) = bytesMem m (0 + i) := by
    intro i hi
    exact Mem.apply_of_read_eq (hframe.payload.trans hself.symm) (Nat.lt_of_lt_of_le hi hheader)
  -- One header cannot count the payload alone and the payload with its 42 bytes in front.
  rw [bodylen_congr hsame] at hwhole
  omega

/-- A request that the socket answers gets no answer over netmap. -/
theorem socket_answers_alone (nm : Netmap σ) (st : RingLoop σ) (rbuf : Mem) (sa : SockAddr)
    (rest : List Datagram) {d : Datagram} (hframe : CarriesPayload st.frame.data d.bytes)
    (hlen : (st.rx.slot st.rxCur).len = 42 + d.bytes.length) (haccepts : SocketAccepts d.bytes) :
    turnOutcome nm st = .dropped ∧
      (onRecv nm.server rbuf sa (d :: rest) st.db).outcome ≠ .dropped := by
  refine ⟨(turnOutcome_dropped_iff nm hframe hlen).2 (not_both_accept hframe haccepts), ?_⟩
  intro hdropped
  exact ((onRecv_dropped_iff nm.server rbuf sa rest st.db).1 hdropped).2 haccepts

/-- The transports do the same with a payload exactly when neither accepts it and the read into
`rbuf` stays inside. -/
theorem transports_agree_iff (nm : Netmap σ) (st : RingLoop σ) (rbuf : Mem) (sa : SockAddr)
    (rest : List Datagram) {d : Datagram} (hframe : CarriesPayload st.frame.data d.bytes)
    (hlen : (st.rx.slot st.rxCur).len = 42 + d.bytes.length) :
    turnOutcome nm st = (onRecv nm.server rbuf sa (d :: rest) st.db).outcome ↔
      ¬ Overruns d.bytes ∧ ¬ SocketAccepts d.bytes ∧ ¬ NetmapAccepts st.frame.data d.bytes := by
  have hturn := turnOutcome_dropped_iff nm hframe hlen
  have hrecv := onRecv_dropped_iff nm.server rbuf sa rest st.db (d := d)
  constructor
  · intro heq
    have hover : ¬ Overruns d.bytes := by
      intro hover
      rw [onRecv_overrun nm.server rbuf sa rest st.db hover] at heq
      exact turnOutcome_ne_overrun nm heq
    -- An answer over the socket would be the only one.
    by_cases hsocket : SocketAccepts d.bytes
    · have hdropped : turnOutcome nm st = .dropped := hturn.2 (not_both_accept hframe hsocket)
      rw [hdropped] at heq
      exact absurd hsocket (hrecv.1 heq.symm).2
    · have hdropped := hrecv.2 ⟨hover, hsocket⟩
      exact ⟨hover, hsocket, hturn.1 (heq.trans hdropped)⟩
  · rintro ⟨hover, hsocket, hnetmap⟩
    rw [hturn.2 hnetmap, hrecv.2 ⟨hover, hsocket⟩]

end Both

/-! ## A response and a GET on both paths -/

theorem carriesPayload_frameMem (bs : List UInt8) : CarriesPayload (frameMem 0x80 bs) bs := by
  rcases parse_frameMem 0x80 bs with ⟨hvlan, hframe, _⟩
  have hip : Packet.frameOffset (frameMem 0x80 bs) .ip = 14 := by
    simp [Packet.frameOffset, hvlan, Packet.etherLen]
  have h14 : frameMem 0x80 bs 14 = 0x45 := frameMem_apply 0x80 bs rfl
  have h31 : frameMem 0x80 bs 31 = 0x80 := frameMem_apply 0x80 bs rfl
  refine ⟨hframe, hvlan, ?_, ?_, read_frameMem 0x80 bs⟩
  · rw [hip, h14]
    decide
  · rw [hip]
    exact h31

/-- The state of a turn with a frame that carries these bytes. -/
def turnOf (bs : List UInt8) : RingLoop Unit :=
  oneFrame (frameMem 0x80 bs) (42 + bs.length) ()

theorem carriesPayload_turnOf {bs : List UInt8} (h : 42 + bs.length ≤ 2048) :
    CarriesPayload (turnOf bs).frame.data bs := by
  rw [turnOf, frame_oneFrame _ h]
  exact carriesPayload_frameMem bs

/-- The GET for key 5 with the magic of a response. -/
def responseBytes : List UInt8 := 0x81 :: (getBytes 5).tail

/-- A packet with a whole header that is not a request is dropped on both paths. -/
theorem transports_agree_iff_response :
    turnOutcome demoNetmap (turnOf responseBytes) =
      (onRecv demoNetmap.server (fun _ => 0) { addr := 0, port := 0 }
        [{ bytes := responseBytes, sa := { addr := 0, port := 0 } }] ()).outcome := by
  have hlen : responseBytes.length = 28 := rfl
  have hcarries : CarriesPayload (turnOf responseBytes).frame.data responseBytes :=
    carriesPayload_turnOf (by decide)
  -- A request has another magic.
  have hmagic : ∀ {m : Mem} {p : Nat}, m p = 0x81 → ¬ RequestOk m p := by
    intro m p hbyte hok
    exact absurd (hok.1.1.symm.trans hbyte) (by decide)
  refine (transports_agree_iff demoNetmap (turnOf responseBytes) (fun _ => 0)
    { addr := 0, port := 0 } [] (d := { bytes := responseBytes, sa := { addr := 0, port := 0 } })
    hcarries rfl).2 ⟨?_, ?_, ?_⟩
  · rintro ⟨_, hover⟩
    have hshort : min (wanted responseBytes) responseBytes.length ≤ 28 := Nat.min_le_right _ _
    exact absurd (Nat.lt_of_lt_of_le hover hshort) (by decide)
  · rintro ⟨_, hok, _⟩
    exact hmagic rfl hok
  · rintro ⟨hok, _⟩
    have hbyte : (turnOf responseBytes).frame.data (42 + 0) = 0x81 :=
      Mem.apply_of_read hcarries.payload (Nat.succ_pos _)
    exact hmagic hbyte hok

/-- A GET for key 5 is answered over the socket and dropped over netmap. -/
theorem get_5_answered_by_socket_alone :
    turnOutcome demoNetmap (turnOf (getBytes 5)) = .dropped ∧
      (onRecv demoNetmap.server (fun _ => 0) { addr := 0, port := 0 }
        [{ bytes := getBytes 5, sa := { addr := 0, port := 0 } }] ()).outcome ≠ .dropped := by
  have hget := (getRequest_getBytes (k := 5) (by decide)).1
  have hlen : (getBytes 5).length = 28 := rfl
  have hvalid := (validateHeader_iff _ _ _).1 hget.valid
  have hbody : Header.bodylen (bytesMem (getBytes 5)) 0 + headerLen = 28 := hvalid.2
  have haccepts : SocketAccepts (getBytes 5) := by
    refine ⟨by decide, ⟨hvalid.1, hget.keylen⟩, ?_⟩
    rw [hlen]
    omega
  exact socket_answers_alone demoNetmap (turnOf (getBytes 5)) _ _ []
    (d := { bytes := getBytes 5, sa := { addr := 0, port := 0 } })
    (carriesPayload_turnOf (by decide)) rfl haccepts

end Arch
end NmMemcached
