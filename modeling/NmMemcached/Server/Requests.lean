import NmMemcached.Lib.Hex
import NmMemcached.Server.Replies

/-!
# Requests — what a client sends and what it reads back

`GetRequest` and `SetRequest` are the packets that `OnRecieve` answers, and `reply_onRecieve_get`
and `onRecieve_set` say how.  A SET hands MySQL a statement whose digits are the short ones of the
library: `Bin2Hex` prints no leading zeros.
-/

namespace NmMemcached
namespace Server

open Lib Base Net Table

universe u

/-- The 20-bit key id of a request. -/
def requestKey (pkt : Packet) : Nat := keyId (Header.key pkt.data pkt.payload)

/-- The value of a SET request. -/
def requestValue (pkt : Packet) : List UInt8 :=
  pkt.data.read (Header.reqVal pkt.data pkt.payload)
    (Header.reqVall pkt.data pkt.payload).toNat

theorem requestKey_lt (pkt : Packet) : requestKey pkt < tableSize := keyId_lt _

/-- A packet the server reads as a GET. -/
structure GetRequest (pkt : Packet) : Prop where
  valid : validateHeader pkt.data pkt.payload pkt.len = true
  keylen : Header.keylen pkt.data pkt.payload = 4
  opcode : Header.opcode pkt.data pkt.payload = opcodeGet

/-- A packet the server reads as a SET of a value of 1 to 1024 bytes. -/
structure SetRequest (pkt : Packet) : Prop where
  valid : validateHeader pkt.data pkt.payload pkt.len = true
  keylen : Header.keylen pkt.data pkt.payload = 4
  opcode : Header.opcode pkt.data pkt.payload = opcodeSet
  value_pos : 1 ≤ (requestValue pkt).length
  value_le : (requestValue pkt).length ≤ itemLen

/-! ## The handlers -/

section Handlers

variable {σ : Type u} (srv : Server σ) (db : σ)

/-- The reply to a GET. -/
theorem reply_onRecieve_get {pkt : Packet} (h : GetRequest pkt) :
    (onRecieve srv pkt db).2.1 = (onRecieveGet srv pkt (requestKey pkt)).2 :=
  fst_snd_of_eq (onRecieve_of_get srv db ⟨h.valid, h.keylen⟩ h.opcode)

/-- The digits of the value in the statement. -/
def hexval (pkt : Packet) : List Char := Hex.short (requestValue pkt)

/-- The statement of a SET request, with the state and status MySQL gives back. -/
theorem onRecieve_set {pkt : Packet} (h : SetRequest pkt) :
    onRecieve srv pkt db =
      (needSend,
        replySet pkt
          (if (srv.mysqlQuery db (setStatement (requestKey pkt) (hexval pkt))).1 ≠ 0 then statusErr
            else 0),
        (srv.mysqlQuery db (setStatement (requestKey pkt) (hexval pkt))).2) := by
  rw [onRecieve_of_set srv db ⟨h.valid, h.keylen⟩ h.opcode]
  rfl

/-- A SET is answered with status 0 when MySQL reports success. -/
theorem status_onRecieve_set {pkt : Packet} (h : SetRequest pkt) :
    Response.ofPacket (onRecieve srv pkt db).2.1 = some ⟨0, [], []⟩ ↔
      (srv.mysqlQuery db (setStatement (requestKey pkt) (hexval pkt))).1 = 0 := by
  rw [onRecieve_set srv db h]
  by_cases hok : (srv.mysqlQuery db (setStatement (requestKey pkt) (hexval pkt))).1 = 0
  · simp [hok, ofPacket_replySet, statusOnWire]
  · simp [hok, ofPacket_replySet, statusOnWire, statusErr]

theorem hexval_ne_nil {pkt : Packet} (h : SetRequest pkt) : hexval pkt ≠ [] := by
  apply Hex.short_ne_nil
  intro hnil
  have hpos := h.value_pos
  simp [hnil] at hpos

theorem isDigit_hexval (pkt : Packet) : ∀ c ∈ hexval pkt, Hex.isDigit c = true :=
  fun _ hc => Hex.isDigit_of_mem_short hc

/-- The bytes MySQL stores are not more than the client sent, and there is at least one. -/
theorem length_literal_hexval {pkt : Packet} (h : SetRequest pkt) :
    1 ≤ (Hex.literal (hexval pkt)).length ∧ (Hex.literal (hexval pkt)).length ≤ itemLen := by
  have hle := Hex.length_short_le (requestValue pkt)
  have hmax := h.value_le
  have hpos : 0 < (hexval pkt).length := List.length_pos_iff.2 (hexval_ne_nil h)
  rw [Hex.length_literal]
  unfold hexval at hpos ⊢
  omega

/-- MySQL stores what the client sent exactly when every byte after the first needs two digits. -/
theorem literal_hexval_iff {pkt : Packet} (h : SetRequest pkt) :
    Hex.literal (hexval pkt) = requestValue pkt ↔ ∀ b ∈ (requestValue pkt).tail, 16 ≤ b.toNat := by
  have hpos := h.value_pos
  unfold hexval
  cases hval : requestValue pkt with
  | nil =>
      simp [hval] at hpos
  | cons b bs =>
      exact Hex.literal_short_iff

end Handlers

/-! ## Building requests -/

/-- A datagram with these bytes. -/
def packetOf (bs : List UInt8) : Packet :=
  Packet.ofDatagram (Mem.write (fun _ => 0) 0 bs) bs.length { addr := 0, port := 0 }

/-- The header of a request with a four-byte key. -/
def requestHead (opcode extlen : UInt8) (bodylen : Nat) : List UInt8 :=
  [magicRequest, opcode, 0, 4, extlen, 0, 0, 0] ++ Mem.be32Bytes bodylen ++ zeros 12

/-- The bytes of a GET for a key. -/
def getBytes (k : Nat) : List UInt8 :=
  requestHead opcodeGet 0 4 ++ Mem.be32Bytes k

/-- The bytes of a SET of a value for a key, with eight bytes of extras. -/
def setBytes (k : Nat) (val : List UInt8) : List UInt8 :=
  requestHead opcodeSet 8 (12 + val.length) ++ zeros 8 ++ Mem.be32Bytes k ++ val

@[simp] theorem length_requestHead (opcode extlen : UInt8) (bodylen : Nat) :
    (requestHead opcode extlen bodylen).length = headerLen := rfl

/-- What the header fields of a request are, from its first 24 bytes. -/
theorem fields_of_requestHead {m : Mem} {p : Nat} {opcode extlen : UInt8} {bodylen : Nat}
    (h : m.read p headerLen = requestHead opcode extlen bodylen) (hlt : bodylen < 4294967296) :
    Header.magic m p = magicRequest ∧ Header.opcode m p = opcode ∧ Header.keylen m p = 4 ∧
      Header.extlen m p = extlen ∧ Header.datatype m p = 0 ∧ Header.bodylen m p = bodylen := by
  have hbyte : ∀ i (hi : i < headerLen), m (p + i) = (requestHead opcode extlen bodylen)[i] :=
    fun i hi => Mem.apply_of_read h (by simpa using hi)
  have h₂ : m (p + 2) = 0 := hbyte 2 (by decide)
  have h₃ : m (p + 3) = 4 := hbyte 3 (by decide)
  have hbody : m.read (p + 8) 4 = Mem.be32Bytes bodylen :=
    Mem.read_of_read_append [magicRequest, opcode, 0, 4, extlen, 0, 0, 0] _ (zeros 12) h
  refine ⟨hbyte 0 (by decide), hbyte 1 (by decide), ?_, hbyte 4 (by decide), hbyte 5 (by decide),
    Mem.be32_of_read hbody hlt⟩
  simp [Header.keylen, Mem.be16, Nat.add_assoc, h₂, h₃]

/-- A SET header that passes the validator. -/
theorem validateHeader_set {m : Mem} {p : Nat} {extlen : UInt8} {bodylen : Nat}
    (h : m.read p headerLen = requestHead opcodeSet extlen bodylen) (hlt : bodylen < 4294967296)
    (hext : extlen ≠ 0) (hbody : bodylen ≠ 0) :
    validateHeader m p (bodylen + headerLen) = true := by
  rcases fields_of_requestHead h hlt with ⟨hmagic, hopcode, hkeylen, hextlen, htype, hlen⟩
  refine (validateHeader_iff _ _ _).2 ⟨⟨hmagic, htype, Or.inr ⟨hopcode, ?_, ?_, ?_⟩⟩, ?_⟩
  · rwa [hextlen]
  · exact ne_of_eq_of_ne hkeylen (by decide)
  · rwa [hlen]
  · rw [hlen]

theorem read_packetOf (bs : List UInt8) : (packetOf bs).data.read 0 bs.length = bs :=
  Mem.read_write_self _ 0 bs

/-- A part of the bytes of a request. -/
theorem read_packetOf_append (as bs cs : List UInt8) :
    (packetOf (as ++ bs ++ cs)).data.read as.length bs.length = bs := by
  have h := Mem.read_of_read_append as bs cs (read_packetOf (as ++ bs ++ cs))
  rwa [Nat.zero_add] at h

/-- There is a GET for every key. -/
theorem getRequest_getBytes {k : Nat} (hk : k < tableSize) :
    GetRequest (packetOf (getBytes k)) ∧ requestKey (packetOf (getBytes k)) = k := by
  have hlt : k < 4294967296 := by
    rw [tableSize_eq] at hk
    omega
  have hhead : (packetOf (getBytes k)).data.read 0 headerLen = requestHead opcodeGet 0 4 :=
    read_packetOf_append [] (requestHead opcodeGet 0 4) (Mem.be32Bytes k)
  rcases fields_of_requestHead hhead (by decide) with
    ⟨hmagic, hopcode, hkeylen, hextlen, htype, hbody⟩
  have hkey : Header.key (packetOf (getBytes k)).data 0 = k := by
    have hlast : (packetOf (getBytes k)).data.read headerLen 4 = Mem.be32Bytes k := by
      have h := read_packetOf_append (requestHead opcodeGet 0 4) (Mem.be32Bytes k) []
      rwa [List.append_nil] at h
    rw [Header.key, hextlen]
    exact Mem.be32_of_read hlast hlt
  refine ⟨⟨?_, hkeylen, hopcode⟩, ?_⟩
  · refine (validateHeader_iff _ _ _).2 ⟨⟨hmagic, htype, Or.inl ⟨hopcode, hextlen, ?_, ?_⟩⟩, ?_⟩
    · exact ne_of_eq_of_ne hkeylen (by decide)
    · exact hbody.trans hkeylen.symm
    · exact congrArg (· + headerLen) hbody
  · exact (congrArg keyId hkey).trans (Nat.mod_eq_of_lt hk)

section SetBytes

theorem read_head_setBytes (k : Nat) (val : List UInt8) :
    (packetOf (setBytes k val)).data.read 0 headerLen =
      requestHead opcodeSet 8 (12 + val.length) := by
  have h := read_packetOf_append [] (requestHead opcodeSet 8 (12 + val.length))
    (zeros 8 ++ Mem.be32Bytes k ++ val)
  rw [List.nil_append, ← List.append_assoc, ← List.append_assoc] at h
  exact h

variable {k : Nat} {val : List UInt8} (hmax : val.length ≤ itemLen)
include hmax

theorem key_setBytes (hk : k < tableSize) :
    Header.key (packetOf (setBytes k val)).data 0 = k := by
  have hitem : val.length ≤ 1024 := hmax
  have hlt : k < 4294967296 := by
    rw [tableSize_eq] at hk
    omega
  have hfour : (packetOf (setBytes k val)).data.read 32 4 = Mem.be32Bytes k :=
    read_packetOf_append (requestHead opcodeSet 8 (12 + val.length) ++ zeros 8)
      (Mem.be32Bytes k) val
  rcases fields_of_requestHead (read_head_setBytes k val) (by omega) with
    ⟨_, _, _, hextlen, _, _⟩
  rw [Header.key, hextlen]
  exact Mem.be32_of_read hfour hlt

theorem requestValue_setBytes : requestValue (packetOf (setBytes k val)) = val := by
  have hitem : val.length ≤ 1024 := hmax
  rcases fields_of_requestHead (read_head_setBytes k val) (by omega) with
    ⟨_, _, hkeylen, hextlen, _, hbody⟩
  have hvall : (Header.reqVall (packetOf (setBytes k val)).data 0).toNat = val.length := by
    have hdiff : ((12 + val.length : Nat) : Int) - (8 : UInt8).toNat - (4 : Nat) =
        val.length := by
      have height : (8 : UInt8).toNat = 8 := rfl
      omega
    have hsmall : (BitVec.ofInt 32 (val.length : Int)).toInt = val.length := by
      rw [BitVec.toInt_ofInt]
      exact Int.bmod_eq_of_le (by omega) (by omega)
    rw [Header.reqVall, hbody, hextlen, hkeylen, hdiff, hsmall]
    rfl
  have hval : Header.reqVal (packetOf (setBytes k val)).data 0 = 36 := by
    rw [Header.reqVal, hextlen, hkeylen]
    rfl
  have hlast := read_packetOf_append (requestHead opcodeSet 8 (12 + val.length) ++ zeros 8 ++
    Mem.be32Bytes k) val []
  rw [List.append_nil] at hlast
  have hpayload : (packetOf (setBytes k val)).payload = 0 := rfl
  rw [requestValue, hpayload, hval, hvall]
  exact hlast

end SetBytes

/-- There is a SET of every value for every key. -/
theorem setRequest_setBytes {k : Nat} (hk : k < tableSize) (val : List UInt8)
    (hpos : 1 ≤ val.length) (hmax : val.length ≤ itemLen) :
    SetRequest (packetOf (setBytes k val)) ∧ requestKey (packetOf (setBytes k val)) = k ∧
      requestValue (packetOf (setBytes k val)) = val := by
  have hitem : val.length ≤ 1024 := hmax
  have hhead := read_head_setBytes k val
  rcases fields_of_requestHead hhead (by omega) with ⟨_, hopcode, hkeylen, _, _, _⟩
  have hvalue : requestValue (packetOf (setBytes k val)) = val := requestValue_setBytes hmax
  refine ⟨⟨?_, hkeylen, hopcode, ?_, ?_⟩, ?_, hvalue⟩
  · have hvalid := validateHeader_set hhead (by omega) (by decide) (by omega)
    have hlen : (packetOf (setBytes k val)).len = 12 + val.length + headerLen := by
      simp [packetOf, Packet.ofDatagram, setBytes]
      omega
    rw [← hlen] at hvalid
    exact hvalid
  · rwa [hvalue]
  · rwa [hvalue]
  · exact (congrArg keyId (key_setBytes hmax hk)).trans (Nat.mod_eq_of_lt hk)

end Server
end NmMemcached
