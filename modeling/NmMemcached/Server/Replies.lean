import NmMemcached.Server.OnRecieve
import NmMemcached.Table.Refinement

/-!
# Replies — the answers of `OnRecieve` as byte strings

The handlers write an answer field by field over the request.  Here those writes are gathered into
blocks: an answer is its first twelve bytes, the four bytes of `opaque`, and the rest.  A found
answer and the answer to a SET leave `opaque` as the client sent it; a not-found answer clears it.

`Response.ofPacket` reads an answer the way a client does.
-/

namespace NmMemcached
namespace Server

open Lib Base Net Table

/-! ## The header of an answer -/

def headBytes (opcode extlen : UInt8) (status : Nat) : List UInt8 :=
  [magicResponse, opcode, 0, 0, extlen, 0] ++ Mem.le16Bytes status

/-- The bytes in front of `opaque`. -/
def answerHead (opcode extlen : UInt8) (status bodylen : Nat) : List UInt8 :=
  headBytes opcode extlen status ++ Mem.be32Bytes bodylen

def zeros (n : Nat) : List UInt8 := List.replicate n 0

@[simp] theorem length_headBytes (opcode extlen : UInt8) (status : Nat) :
    (headBytes opcode extlen status).length = 8 := rfl

@[simp] theorem length_answerHead (opcode extlen : UInt8) (status bodylen : Nat) :
    (answerHead opcode extlen status bodylen).length = 12 := rfl

@[simp] theorem length_zeros (n : Nat) : (zeros n).length = n := by
  simp [zeros]

/-- A 16-bit constant stored in host order, as the client's `ntohs` sees it. -/
def statusOnWire (status : Nat) : Nat :=
  status % 256 * 256 + status / 256 % 256

/-- What the header fields of an answer are, from its first twelve bytes. -/
theorem fields_of_answerHead {m : Mem} {p : Nat} {opcode extlen : UInt8} {status bodylen : Nat}
    (h : m.read p 12 = answerHead opcode extlen status bodylen) (hbody : bodylen < 4294967296) :
    Header.magic m p = magicResponse ∧ Header.keylen m p = 0 ∧ Header.extlen m p = extlen ∧
      m.be16 (p + 6) = statusOnWire status ∧ Header.bodylen m p = bodylen := by
  have hbyte : ∀ i (hi : i < 12), m (p + i) = (answerHead opcode extlen status bodylen)[i] :=
    fun i hi => Mem.apply_of_read h (by simpa using hi)
  have h₂ : m (p + 2) = 0 := hbyte 2 (by decide)
  have h₃ : m (p + 3) = 0 := hbyte 3 (by decide)
  have h₆ : m (p + 6) = UInt8.ofNat status := hbyte 6 (by decide)
  have h₇ : m (p + 7) = UInt8.ofNat (status / 256) := hbyte 7 (by decide)
  have hread : m.read (p + 8) 4 = Mem.be32Bytes bodylen :=
    Mem.read_of_read_append (headBytes opcode extlen status) _ []
      (by simpa [answerHead] using h)
  refine ⟨hbyte 0 (by decide), ?_, hbyte 4 (by decide), ?_, Mem.be32_of_read hread hbody⟩
  · simp [Header.keylen, Mem.be16, Nat.add_assoc, h₂, h₃]
  · simp [Mem.be16, Nat.add_assoc, h₆, h₇, statusOnWire]

/-- The first twelve bytes are out of reach of what is written behind `opaque`. -/
theorem read_answerHead (m : Mem) (p : Nat) (opcode extlen : UInt8) (status bodylen : Nat)
    (bs : List UInt8) :
    ((m.write p (answerHead opcode extlen status bodylen)).write (p + 16) bs).read p 12 =
      answerHead opcode extlen status bodylen := by
  have hapart : p + 12 ≤ p + 16 ∨ p + 16 + bs.length ≤ p := Or.inl (by omega)
  rw [Mem.read_write_of_disjoint hapart]
  exact Mem.read_write_of_length rfl

/-! ## Gathering the writes -/

theorem data_responseHead (pkt : Packet) (opcode extlen : UInt8) (status : Nat) :
    (responseHead pkt opcode extlen status).data =
      pkt.data.write pkt.payload (headBytes opcode extlen status) := by
  have hsplit : headBytes opcode extlen status =
      [magicResponse] ++ ([opcode] ++ ([0, 0] ++ ([extlen] ++ ([0] ++ Mem.le16Bytes status)))) :=
    rfl
  rw [hsplit]
  simp only [Mem.write_append]
  rfl

/-- `bodylen` is written after `cas`; the two do not touch. -/
theorem write_cas_bodylen (m : Mem) (p : Nat) (opcode extlen : UInt8) (status n : Nat) :
    ((m.write p (headBytes opcode extlen status)).write (p + 16) (zeros 8)).write (p + 8)
        (Mem.be32Bytes n) =
      (m.write p (answerHead opcode extlen status n)).write (p + 16) (zeros 8) := by
  have hapart : p + 8 + (Mem.be32Bytes n).length ≤ p + 16 := by simp
  rw [Mem.write_comm hapart, answerHead, Mem.write_append, length_headBytes]

theorem data_writeBodylen (pkt : Packet) (opcode extlen : UInt8) (status n : Nat) :
    (writeBodylen (clearCas (responseHead pkt opcode extlen status)) n).data =
      (pkt.data.write pkt.payload (answerHead opcode extlen status n)).write (pkt.payload + 16)
        (zeros 8) := by
  calc
    (writeBodylen (clearCas (responseHead pkt opcode extlen status)) n).data
        = ((responseHead pkt opcode extlen status).data.write (pkt.payload + 16) (zeros 8)).write
            (pkt.payload + 8) (Mem.be32Bytes n) := rfl
    _ = _ := by rw [data_responseHead, write_cas_bodylen]

/-- The answer to a SET. -/
theorem data_replySet (pkt : Packet) (stat : Nat) :
    (replySet pkt stat).data =
      (pkt.data.write pkt.payload (answerHead opcodeSet 0 stat 0)).write (pkt.payload + 16)
        (zeros 8) :=
  data_writeBodylen pkt opcodeSet 0 stat 0

theorem data_replyExpire (pkt : Packet) (it : NmmcItem) :
    (replyExpire (replyBodylen (replyHead pkt) it) it).data =
      (pkt.data.write pkt.payload (answerHead opcodeGet 4 0 (it.datalen.toNat + 4))).write
        (pkt.payload + 16) (zeros 8 ++ Mem.le32Bytes it.expire) := by
  have hbody := data_writeBodylen pkt opcodeGet 4 0 (it.datalen.toNat + 4)
  calc
    (replyExpire (replyBodylen (replyHead pkt) it) it).data
        = (replyBodylen (replyHead pkt) it).data.write (pkt.payload + 16 + 8)
            (Mem.le32Bytes it.expire) := rfl
    _ = _ := by
        rw [Mem.write_append, length_zeros, ← hbody]
        rfl

/-- The answer to a GET that finds its key. -/
theorem data_replyFound (pkt : Packet) (it : NmmcItem) (behind : Nat → UInt8) :
    (replyFound pkt it behind).data =
      (pkt.data.write pkt.payload (answerHead opcodeGet 4 0 (it.datalen.toNat + 4))).write
        (pkt.payload + 16)
        (zeros 8 ++ Mem.le32Bytes it.expire ++ it.copyData behind it.datalen.toNat) := by
  have hdata := data_replyExpire pkt it
  have hlt : it.datalen.toNat + 4 < 4294967296 := by
    have := it.datalen.isLt
    omega
  -- `REQ_VAL` reads the `keylen` and the `extlen` that were just written.
  have hval : Header.reqVal (replyExpire (replyBodylen (replyHead pkt) it) it).data pkt.payload =
      pkt.payload + 16 + (zeros 8 ++ Mem.le32Bytes it.expire).length := by
    rw [hdata]
    rcases fields_of_answerHead (read_answerHead _ _ _ _ _ _ _) hlt with ⟨_, hkey, hext, _⟩
    rw [Header.reqVal, hkey, hext]
    rfl
  calc
    (replyFound pkt it behind).data
        = (replyExpire (replyBodylen (replyHead pkt) it) it).data.write
            (Header.reqVal (replyExpire (replyBodylen (replyHead pkt) it) it).data pkt.payload)
            (it.copyData behind it.datalen.toNat) := rfl
    _ = _ := by rw [hval, hdata, ← Mem.write_append]

/-- The answer to a GET that does not find its key. -/
theorem data_replyNotfound (pkt : Packet) :
    (replyNotfound pkt).data =
      (pkt.data.write pkt.payload (answerHead opcodeGet 0 statusErr 9)).write (pkt.payload + 12)
        (zeros 12 ++ notfound) := by
  have hhead := data_responseHead pkt opcodeGet 0 statusErr
  have htail : zeros 12 = zeros 4 ++ zeros 8 := rfl
  have hapart : pkt.payload + 8 + (Mem.be32Bytes 9).length ≤ pkt.payload + 12 := by simp
  have hbody : (writeBodylen (clearCas (clearTag (responseHead pkt opcodeGet 0 statusErr)))
        9).data =
      (pkt.data.write pkt.payload (answerHead opcodeGet 0 statusErr 9)).write (pkt.payload + 12)
        (zeros 12) := by
    calc
      (writeBodylen (clearCas (clearTag (responseHead pkt opcodeGet 0 statusErr))) 9).data
          = (((responseHead pkt opcodeGet 0 statusErr).data.write (pkt.payload + 12)
              (zeros 4)).write (pkt.payload + 12 + (zeros 4).length) (zeros 8)).write
              (pkt.payload + 8) (Mem.be32Bytes 9) := rfl
      _ = ((responseHead pkt opcodeGet 0 statusErr).data.write (pkt.payload + 8)
            (Mem.be32Bytes 9)).write (pkt.payload + 12) (zeros 12) := by
          rw [← Mem.write_append, ← htail, Mem.write_comm hapart]
      _ = _ := by rw [hhead, answerHead, Mem.write_append, length_headBytes]
  have hread : ∀ m : Mem, ((m.write pkt.payload (answerHead opcodeGet 0 statusErr 9)).write
      (pkt.payload + 12) (zeros 12)).read pkt.payload 12 = answerHead opcodeGet 0 statusErr 9 := by
    intro m
    rw [Mem.read_write_of_disjoint (Or.inl (Nat.le_refl _))]
    exact Mem.read_write_of_length rfl
  -- Both lengths are zero by now, so the text goes right behind the header.
  have hval : Header.reqVal (writeBodylen (clearCas (clearTag
      (responseHead pkt opcodeGet 0 statusErr))) 9).data pkt.payload =
      pkt.payload + 12 + (zeros 12).length := by
    rw [hbody]
    rcases fields_of_answerHead (hread _) (by decide) with ⟨_, hkey, hext, _⟩
    rw [Header.reqVal, hkey, hext]
    rfl
  calc
    (replyNotfound pkt).data
        = (writeBodylen (clearCas (clearTag (responseHead pkt opcodeGet 0 statusErr)))
            9).data.write (Header.reqVal (writeBodylen (clearCas (clearTag
            (responseHead pkt opcodeGet 0 statusErr))) 9).data pkt.payload) notfound := rfl
    _ = _ := by rw [hval, hbody, ← Mem.write_append]

/-! ## The client's view -/

/-- An answer as a client takes it apart. -/
structure Response where
  status : Nat
  extras : List UInt8
  value : List UInt8
  deriving DecidableEq

/-- `none`: the length sent is not the length the header promises. -/
def Response.ofPacket (pkt : Packet) : Option Response :=
  let m := pkt.data
  let p := pkt.payload
  if pkt.len = headerLen + Header.bodylen m p then
    some
      { status := m.be16 (p + 6)
        extras := m.read (p + headerLen) (Header.extlen m p).toNat
        value := m.read (Header.reqVal m p) (Header.reqVall m p).toNat }
  else
    none

/-- The response of an answer made of an answer head and a tail behind `opaque`. -/
theorem ofPacket_of_blocks (pkt : Packet) (opcode extlen : UInt8) (status n : Nat)
    (extras value : List UInt8) (hext : extras.length = extlen.toNat)
    (hn : n = extlen.toNat + value.length) (hlt : n < 2147483648)
    (hlen : pkt.len = headerLen + n)
    (hhead : pkt.data.read pkt.payload 12 = answerHead opcode extlen status n)
    (htail : pkt.data.read (pkt.payload + 16) (8 + extras.length + value.length) =
      zeros 8 ++ extras ++ value) :
    Response.ofPacket pkt = some ⟨statusOnWire status, extras, value⟩ := by
  rcases fields_of_answerHead hhead (by omega) with ⟨_, hkey, hextlen, hstatus, hbody⟩
  have hextras : pkt.data.read (pkt.payload + headerLen) extlen.toNat = extras := by
    rw [← hext]
    exact Mem.read_of_read_append (zeros 8) extras value htail
  have hval : Header.reqVal pkt.data pkt.payload =
      pkt.payload + 16 + (zeros 8 ++ extras).length := by
    rw [Header.reqVal, hkey, hextlen]
    simp [headerLen, hext]
    omega
  -- The length of the value is the difference of three header fields; it does not wrap.
  have hvall : (Header.reqVall pkt.data pkt.payload).toNat = value.length := by
    have hdiff : (n : Int) - extlen.toNat - (0 : Nat) = value.length := by omega
    have hsmall : (BitVec.ofInt 32 (value.length : Int)).toInt = value.length := by
      rw [BitVec.toInt_ofInt]
      exact Int.bmod_eq_of_le (by omega) (by omega)
    rw [Header.reqVall, hbody, hextlen, hkey, hdiff, hsmall]
    rfl
  have hvalue : pkt.data.read (Header.reqVal pkt.data pkt.payload)
      (Header.reqVall pkt.data pkt.payload).toNat = value := by
    rw [hval, hvall]
    exact Mem.read_of_read_append (zeros 8 ++ extras) value [] (by simpa using htail)
  simp only [Response.ofPacket, hlen, hbody, hextlen, if_true, hstatus, hextras, hvalue]

@[simp] theorem payload_replyFound (pkt : Packet) (it : NmmcItem) (behind : Nat → UInt8) :
    (replyFound pkt it behind).payload = pkt.payload := rfl

@[simp] theorem payload_replyNotfound (pkt : Packet) :
    (replyNotfound pkt).payload = pkt.payload := rfl

@[simp] theorem payload_replySet (pkt : Packet) (stat : Nat) :
    (replySet pkt stat).payload = pkt.payload := rfl

/-- A GET answers with the item a reader of the table is shown. -/
theorem onRecieveGet_eq {σ : Type*} (srv : Server σ) (pkt : Packet) (key : Nat) :
    onRecieveGet srv pkt key =
      (needSend,
        match srv.lookupValue.shown key with
        | none => replyNotfound pkt
        | some it =>
            if it.datalen = 0 then replyNotfound pkt
            else replyFound pkt it (srv.behind (srv.lookupValue.find key 0))) := by
  unfold onRecieveGet LookupTable.shown
  by_cases hend : srv.lookupValue.find key 0 = .end_
  · simp [hend]
  · by_cases hzero : (srv.lookupValue.get (srv.lookupValue.find key 0)).datalen = 0#11
    · simp [hend, hzero]
    · simp [hend, hzero]

-- The parts of a triple are taken by lemmas: to see that `(a, b, c).2.1` is `b` by unfolding can
-- mean to unfold `b`, a whole reply.

theorem fst_of_eq {α β : Type*} {p : α × β} {a : α} {b : β} (h : p = (a, b)) : p.1 = a := by
  rw [h]

theorem snd_of_eq {α β : Type*} {p : α × β} {a : α} {b : β} (h : p = (a, b)) : p.2 = b := by
  rw [h]

theorem fst_snd_of_eq {α β γ : Type*} {p : α × β × γ} {a : α} {b : β} {c : γ}
    (h : p = (a, b, c)) : p.2.1 = b := by
  rw [h]

theorem snd_snd_of_eq {α β γ : Type*} {p : α × β × γ} {a : α} {b : β} {c : γ}
    (h : p = (a, b, c)) : p.2.2 = c := by
  rw [h]

theorem reply_onRecieveGet {σ : Type*} (srv : Server σ) (pkt : Packet) (key : Nat) :
    (onRecieveGet srv pkt key).2 =
      match srv.lookupValue.shown key with
      | none => replyNotfound pkt
      | some it =>
          if it.datalen = 0 then replyNotfound pkt
          else replyFound pkt it (srv.behind (srv.lookupValue.find key 0)) :=
  snd_of_eq (onRecieveGet_eq srv pkt key)

theorem read_replyFound (pkt : Packet) (it : NmmcItem) (behind : Nat → UInt8) :
    (replyFound pkt it behind).data.read pkt.payload 12 =
      answerHead opcodeGet 4 0 (it.datalen.toNat + 4) := by
  rw [data_replyFound]
  exact read_answerHead _ _ _ _ _ _ _

theorem read_replyNotfound (pkt : Packet) :
    (replyNotfound pkt).data.read pkt.payload 12 = answerHead opcodeGet 0 statusErr 9 := by
  rw [data_replyNotfound, Mem.read_write_of_disjoint (Or.inl (Nat.le_refl _))]
  exact Mem.read_write_of_length rfl

theorem read_replySet (pkt : Packet) (stat : Nat) :
    (replySet pkt stat).data.read pkt.payload 12 = answerHead opcodeSet 0 stat 0 := by
  rw [data_replySet]
  exact read_answerHead _ _ _ _ _ _ _

/-- The tail of a found answer, behind `opaque`. -/
theorem tail_replyFound (pkt : Packet) (it : NmmcItem) (behind : Nat → UInt8) :
    (replyFound pkt it behind).data.read (pkt.payload + 16)
        (8 + (Mem.le32Bytes it.expire).length + (it.copyData behind it.datalen.toNat).length) =
      zeros 8 ++ Mem.le32Bytes it.expire ++ it.copyData behind it.datalen.toNat := by
  rw [data_replyFound]
  refine Mem.read_write_of_length ?_
  simp
  omega

theorem tail_replyNotfound (pkt : Packet) :
    (replyNotfound pkt).data.read (pkt.payload + 16)
        (8 + ([] : List UInt8).length + notfound.length) = zeros 8 ++ [] ++ notfound := by
  have hdata : (replyNotfound pkt).data =
      (pkt.data.write pkt.payload (answerHead opcodeGet 0 statusErr 9 ++ zeros 4)).write
        (pkt.payload + 16) (zeros 8 ++ notfound) := by
    have htail : zeros 12 ++ notfound = zeros 4 ++ (zeros 8 ++ notfound) := rfl
    have hhead := Mem.write_append pkt.data pkt.payload (answerHead opcodeGet 0 statusErr 9)
      (zeros 4)
    rw [data_replyNotfound, htail, Mem.write_append _ _ (zeros 4), hhead]
    rfl
  rw [hdata]
  exact Mem.read_write_of_length rfl

theorem tail_replySet (pkt : Packet) (stat : Nat) :
    (replySet pkt stat).data.read (pkt.payload + 16)
        (8 + ([] : List UInt8).length + ([] : List UInt8).length) = zeros 8 ++ [] ++ [] := by
  rw [data_replySet]
  exact Mem.read_write_of_length rfl

theorem ofPacket_replyFound (pkt : Packet) (it : NmmcItem) (behind : Nat → UInt8) :
    Response.ofPacket (replyFound pkt it behind) =
      some ⟨0, Mem.le32Bytes it.expire, it.copyData behind it.datalen.toNat⟩ := by
  have hlt := it.datalen.isLt
  have hlen : (it.copyData behind it.datalen.toNat).length = it.datalen.toNat := by simp
  refine ofPacket_of_blocks _ opcodeGet 4 0 (it.datalen.toNat + 4) _ _ rfl ?_ ?_ ?_ ?_ ?_
  · rw [hlen]
    exact Nat.add_comm _ _
  · omega
  · exact Nat.add_assoc _ _ _
  · exact read_replyFound pkt it behind
  · exact tail_replyFound pkt it behind

theorem ofPacket_replyNotfound (pkt : Packet) :
    Response.ofPacket (replyNotfound pkt) = some ⟨1, [], notfound⟩ :=
  ofPacket_of_blocks _ opcodeGet 0 statusErr 9 [] notfound rfl rfl (by decide) rfl
    (read_replyNotfound pkt) (tail_replyNotfound pkt)

theorem ofPacket_replySet (pkt : Packet) (stat : Nat) :
    Response.ofPacket (replySet pkt stat) = some ⟨statusOnWire stat, [], []⟩ :=
  ofPacket_of_blocks _ opcodeSet 0 stat 0 [] [] rfl rfl (by decide) rfl
    (read_replySet pkt stat) (tail_replySet pkt stat)

/-! ## What every answer has -/

/-- The answer is built behind the headers of the request, and its length is the one its header
promises. -/
structure AnswerTo (pkt pkt' : Packet) : Prop where
  payload : pkt'.payload = pkt.payload
  len : pkt'.len = headerLen + Header.bodylen pkt'.data pkt'.payload
  len_lt : pkt'.len < 65536
  front : ∀ i < pkt.payload, pkt'.data i = pkt.data i

theorem answerTo_replyFound (pkt : Packet) (it : NmmcItem) (behind : Nat → UInt8) :
    AnswerTo pkt (replyFound pkt it behind) := by
  have hlt := it.datalen.isLt
  have hdata := data_replyFound pkt it behind
  have hlen : (replyFound pkt it behind).len = headerLen + it.datalen.toNat + 4 := rfl
  rcases fields_of_answerHead (read_replyFound pkt it behind) (by omega) with ⟨_, _, _, _, hbody⟩
  refine ⟨rfl, ?_, ?_, ?_⟩
  · rw [hlen, payload_replyFound, hbody, Nat.add_assoc]
  · rw [hlen, headerLen]
    omega
  · intro i hi
    rw [hdata, Mem.write_of_lt (Nat.lt_add_right 16 hi), Mem.write_of_lt hi]

theorem answerTo_replyNotfound (pkt : Packet) : AnswerTo pkt (replyNotfound pkt) := by
  have hdata := data_replyNotfound pkt
  rcases fields_of_answerHead (read_replyNotfound pkt) (by decide) with ⟨_, _, _, _, hbody⟩
  refine ⟨rfl, ?_, (by decide : headerLen + 9 < 65536), ?_⟩
  · rw [payload_replyNotfound, hbody]
    rfl
  · intro i hi
    rw [hdata, Mem.write_of_lt (Nat.lt_add_right 12 hi), Mem.write_of_lt hi]

theorem answerTo_replySet (pkt : Packet) (stat : Nat) : AnswerTo pkt (replySet pkt stat) := by
  have hdata := data_replySet pkt stat
  rcases fields_of_answerHead (read_replySet pkt stat) (by decide) with ⟨_, _, _, _, hbody⟩
  refine ⟨rfl, ?_, (by decide : headerLen < 65536), ?_⟩
  · rw [payload_replySet, hbody]
    rfl
  · intro i hi
    rw [hdata, Mem.write_of_lt (Nat.lt_add_right 16 hi), Mem.write_of_lt hi]

section Decision

variable {σ : Type*} (srv : Server σ) (pkt : Packet) (db : σ)

/-- The requests that `OnRecieve` answers. -/
def Accepted (pkt : Packet) : Prop :=
  validateHeader pkt.data pkt.payload pkt.len = true ∧ Header.keylen pkt.data pkt.payload = 4

theorem onRecieve_of_not_accepted (h : ¬ Accepted pkt) : onRecieve srv pkt db = (0, pkt, db) := by
  unfold onRecieve
  by_cases hvalid : validateHeader pkt.data pkt.payload pkt.len = true
  · have hkey : Header.keylen pkt.data pkt.payload ≠ 4 := fun hkey => h ⟨hvalid, hkey⟩
    simp [hvalid, hkey]
  · simp [hvalid]

variable {pkt}

theorem onRecieve_of_get (h : Accepted pkt)
    (hget : Header.opcode pkt.data pkt.payload = opcodeGet) :
    onRecieve srv pkt db =
      ((onRecieveGet srv pkt (keyId (Header.key pkt.data pkt.payload))).1,
        (onRecieveGet srv pkt (keyId (Header.key pkt.data pkt.payload))).2, db) := by
  simp only [onRecieve, h.1, h.2, hget, not_true_eq_false, if_false, if_true, ne_eq]

theorem onRecieve_of_set (h : Accepted pkt)
    (hset : Header.opcode pkt.data pkt.payload = opcodeSet) :
    onRecieve srv pkt db =
      onRecieveSet srv pkt (keyId (Header.key pkt.data pkt.payload))
        (Header.reqVal pkt.data pkt.payload) (Header.reqVall pkt.data pkt.payload) db := by
  have hne : opcodeSet ≠ opcodeGet := by decide
  simp only [onRecieve, h.1, h.2, hset, hne, not_true_eq_false, if_false, if_true, ne_eq]

variable (pkt) in
theorem onRecieveSet_eq (key val : Nat) (vlen : Int) :
    onRecieveSet srv pkt key val vlen db =
      (needSend,
        replySet pkt
          (if (srv.mysqlQuery db (setStatement key (bin2Hex pkt.data val vlen))).1 ≠ 0 then
            statusErr else 0),
        (srv.mysqlQuery db (setStatement key (bin2Hex pkt.data val vlen))).2) := rfl

theorem answerTo_onRecieveGet (key : Nat) : AnswerTo pkt (onRecieveGet srv pkt key).2 := by
  rw [reply_onRecieveGet]
  split
  · exact answerTo_replyNotfound pkt
  · split
    · exact answerTo_replyNotfound pkt
    · exact answerTo_replyFound pkt _ _

/-- A request that is accepted is a GET or a SET, and both are answered. -/
theorem onRecieve_of_accepted (h : Accepted pkt) :
    (onRecieve srv pkt db).1 = needSend ∧ AnswerTo pkt (onRecieve srv pkt db).2.1 := by
  -- The validator has checked the opcode.
  rcases ((validateHeader_iff _ _ _).1 h.1).1.2.2 with ⟨hget, _⟩ | ⟨hset, _⟩
  · have hcall := onRecieve_of_get srv db h hget
    have hret : (onRecieveGet srv pkt (keyId (Header.key pkt.data pkt.payload))).1 = needSend :=
      fst_of_eq (onRecieveGet_eq srv pkt _)
    rw [fst_snd_of_eq hcall]
    exact ⟨(fst_of_eq hcall).trans hret, answerTo_onRecieveGet srv _⟩
  · have hcall := (onRecieve_of_set srv db h hset).trans (onRecieveSet_eq srv pkt db _ _ _)
    rw [fst_snd_of_eq hcall]
    exact ⟨fst_of_eq hcall, answerTo_replySet pkt _⟩

theorem magic_onRecieveGet (key : Nat) :
    Header.magic (onRecieveGet srv pkt key).2.data pkt.payload = magicResponse := by
  have hnotfound := (fields_of_answerHead (read_replyNotfound pkt) (by decide)).1
  rw [reply_onRecieveGet]
  split
  · exact hnotfound
  · rename_i it _
    have hlt := it.datalen.isLt
    split
    · exact hnotfound
    · exact (fields_of_answerHead (read_replyFound pkt it _) (by omega)).1

/-- An answer does not look like a request. -/
theorem magic_onRecieve (h : Accepted pkt) :
    Header.magic (onRecieve srv pkt db).2.1.data pkt.payload = magicResponse := by
  rcases ((validateHeader_iff _ _ _).1 h.1).1.2.2 with ⟨hget, _⟩ | ⟨hset, _⟩
  · rw [fst_snd_of_eq (onRecieve_of_get srv db h hget)]
    exact magic_onRecieveGet srv _
  · rw [fst_snd_of_eq ((onRecieve_of_set srv db h hset).trans (onRecieveSet_eq srv pkt db _ _ _))]
    exact (fields_of_answerHead (read_replySet pkt _) (by decide)).1

variable (pkt)

theorem onRecieve_answers_iff : (onRecieve srv pkt db).1 ≠ 0 ↔ Accepted pkt := by
  constructor
  · intro h
    by_contra hno
    rw [onRecieve_of_not_accepted srv pkt db hno] at h
    exact h rfl
  · intro h
    rw [(onRecieve_of_accepted srv db h).1]
    decide

end Decision

end Server
end NmMemcached
