import NmMemcached.Arch.Decision

/-!
# KeyRouting — which bytes choose the internal address

`OnUdp` hashes as many bytes as the key has, from the end of the request header on.  `OnRecieve`
finds the key behind the extras.  So the address a request is sent on to depends on its extras:
two requests for one key go to one address exactly when the first bytes of extras and key have
the same hash, up to the number of addresses (`sameTarget_iff`).
-/

namespace NmMemcached
namespace Arch

open Lib Base Net Server

/-! ## Requests -/

/-- `Hash32` of a byte string. -/
def hashBytes (bs : List UInt8) : BitVec 32 :=
  hash32 (Mem.write (fun _ => 0) 0 bs) 0 bs.length

/-- A frame with a request to an external address; the extras and the key lie where `EXTRA` and
`KEY` find them.  The lengths in the header may be any that let the frame be sent on. -/
structure Carries (data : Mem) (len : Nat) (extras key : List UInt8) : Prop where
  frame : IsIpv4Udp data
  external : dstOct3 (Packet.ofFrame data len) = externalIpOct3
  magic : Header.magic data (Packet.frameOffset data .payload) = magicRequest
  opcode : Header.opcode data (Packet.frameOffset data .payload) = opcodeGet ∨
    Header.opcode data (Packet.frameOffset data .payload) = opcodeSet
  extras_eq : data.read (Packet.frameOffset data .payload + headerLen)
    (Header.extlen data (Packet.frameOffset data .payload)).toNat = extras
  key_eq : data.read (Packet.frameOffset data .payload + headerLen +
    (Header.extlen data (Packet.frameOffset data .payload)).toNat)
    (Header.keylen data (Packet.frameOffset data .payload)) = key

/-- The bytes that are hashed start at the extras. -/
theorem Carries.keyHash_eq {data : Mem} {len : Nat} {extras key : List UInt8}
    (h : Carries data len extras key) :
    keyHash data = hashBytes ((extras ++ key).take key.length) := by
  have hkeylen : key.length = Header.keylen data (Packet.frameOffset data .payload) := by
    rw [← h.key_eq, Mem.length_read]
  have hwindow : (extras ++ key).take key.length =
      data.read (Packet.frameOffset data .payload + headerLen)
        (Header.keylen data (Packet.frameOffset data .payload)) := by
    rw [hkeylen, ← h.extras_eq, ← h.key_eq, ← Mem.read_add, Mem.take_read]
    exact Nat.le_add_left _ _
  rw [hwindow, keyHash, hashBytes, Mem.length_read]
  refine hash32_congr ?_
  intro i hi
  have hself := Mem.read_write_self (fun _ => 0) 0 (data.read
    (Packet.frameOffset data .payload + headerLen)
    (Header.keylen data (Packet.frameOffset data .payload)))
  rw [Mem.length_read] at hself
  exact (Mem.apply_of_read_eq hself hi).symm

theorem read_forwarded (data : Mem) (len : Nat) :
    (forwarded data len).read (Packet.frameOffset data .ip + 16) 4 =
      Mem.le32Bytes (target data) := by
  rw [forwarded, le32_swapMac]
  exact Mem.read_write_of_length (Mem.length_le32Bytes _)

theorem le32Bytes_inj {x y : BitVec 32} : Mem.le32Bytes x = Mem.le32Bytes y ↔ x = y := by
  constructor
  · intro h
    rw [← Mem.le32_write_le32Bytes (fun _ => 0) 0 x, h, Mem.le32_write_le32Bytes]
  · rintro rfl
    rfl

/-- Two requests for one key at one external address are sent on to the same address exactly when
the hashes of the first bytes behind their headers agree up to the number of addresses. -/
theorem sameTarget_iff {σ : Type*} (recv : Packet → σ → Nat × Packet × σ) {db db' : σ}
    {m m' : Mem} {n n' : Nat} {extras extras' key : List UInt8} (hm : Carries m n extras key)
    (hm' : Carries m' n' extras' key)
    (hdst : m.read (Packet.frameOffset m .ip + 16) 4 =
      m'.read (Packet.frameOffset m' .ip + 16) 4)
    (hsend : (onUdp recv (Packet.ofFrame m n) db).1 = needSend)
    (hsend' : (onUdp recv (Packet.ofFrame m' n') db').1 = needSend) :
    (onUdp recv (Packet.ofFrame m n) db).2.1.data.read (Packet.frameOffset m .ip + 16) 4 =
        (onUdp recv (Packet.ofFrame m' n') db').2.1.data.read (Packet.frameOffset m' .ip + 16) 4 ↔
      (hashBytes ((extras ++ key).take key.length)).toNat % usecoreCount =
        (hashBytes ((extras' ++ key).take key.length)).toNat % usecoreCount := by
  have haddr : m.le32 (Packet.frameOffset m .ip + 16) =
      m'.le32 (Packet.frameOffset m' .ip + 16) := Mem.le32_congr hdst
  rw [onUdp_external recv hm.external hsend, onUdp_external recv hm'.external hsend',
    read_forwarded, read_forwarded, le32Bytes_inj, target, target, haddr, internalAddr_inj,
    hm.keyHash_eq, hm'.keyHash_eq]

/-! ## Built requests -/

/-- A frame with these extras and this four-byte key; its body length counts the whole frame. -/
def externalRequest (opcode : UInt8) (extras key : List UInt8) : Mem :=
  frameMem 0x10 (requestHead opcode (UInt8.ofNat extras.length) (46 + extras.length) ++
    extras ++ key)

section External

variable (opcode : UInt8) {extras key : List UInt8}

theorem externalRequest_fields (hextras : extras.length < 256) (hkey : key.length = 4) :
    Header.magic (externalRequest opcode extras key) 42 = magicRequest ∧
      Header.opcode (externalRequest opcode extras key) 42 = opcode ∧
      Header.keylen (externalRequest opcode extras key) 42 = 4 ∧
      (Header.extlen (externalRequest opcode extras key) 42).toNat = extras.length ∧
      Header.datatype (externalRequest opcode extras key) 42 = 0 ∧
      Header.bodylen (externalRequest opcode extras key) 42 = 46 + extras.length ∧
      (externalRequest opcode extras key).read 66 extras.length = extras ∧
      (externalRequest opcode extras key).read (66 + extras.length) 4 = key := by
  have hread := read_frameMem 0x10 (requestHead opcode (UInt8.ofNat extras.length)
    (46 + extras.length) ++ extras ++ key)
  have hhead : (externalRequest opcode extras key).read 42 headerLen =
      requestHead opcode (UInt8.ofNat extras.length) (46 + extras.length) := by
    have h := read_frameMem_append 0x10 (extras ++ key)
      (requestHead opcode (UInt8.ofNat extras.length) (46 + extras.length))
    rw [← List.append_assoc] at h
    exact h
  rcases fields_of_requestHead hhead (by omega) with
    ⟨hmagic, hopcode, hkeylen, hextlen, htype, hbody⟩
  refine ⟨hmagic, hopcode, hkeylen, ?_, htype, hbody, ?_, ?_⟩
  · rw [hextlen, UInt8.toNat_ofNat_of_lt' hextras]
  · exact Mem.read_of_read_append _ extras key hread
  · have h := Mem.read_of_read_append _ key [] (hread.trans (List.append_nil _).symm)
    rw [hkey, List.length_append, length_requestHead, ← Nat.add_assoc] at h
    exact h

theorem carries_externalRequest (hextras : extras.length < 256) (hkey : key.length = 4)
    (hop : opcode = opcodeGet ∨ opcode = opcodeSet) :
    Carries (externalRequest opcode extras key) (70 + extras.length) extras key := by
  have hpay : Packet.frameOffset (externalRequest opcode extras key) .payload = 42 :=
    (parse_frameMem 0x10 _).2.2
  rcases externalRequest_fields opcode hextras hkey with
    ⟨hmagic, hopcode, hkeylen, hextlen, _, _, hextread, hkeyread⟩
  refine ⟨(parse_frameMem 0x10 _).2.1, dstOct3_frameMem 0x10 _ _, ?_, ?_, ?_, ?_⟩
  · rw [hpay, hmagic]
  · rw [hpay, hopcode]
    exact hop
  · rw [hpay, hextlen]
    exact hextread
  · rw [hpay, hextlen, hkeylen]
    exact hkeyread

theorem onUdp_externalRequest {σ : Type*} (recv : Packet → σ → Nat × Packet × σ) (db : σ)
    (hextras : extras.length < 256) (hkey : key.length = 4) :
    (onUdp recv (Packet.ofFrame (externalRequest opcode extras key) (70 + extras.length)) db).1 =
      needSend := by
  have hpay : Packet.frameOffset (externalRequest opcode extras key) .payload = 42 :=
    (parse_frameMem 0x10 _).2.2
  have hlen : headerLen < 70 + extras.length := by
    unfold headerLen
    omega
  refine onUdp_external_sends recv db (dstOct3_frameMem 0x10 _ _) hlen ?_
  rw [hpay, (externalRequest_fields opcode hextras hkey).2.2.2.2.2.1]
  unfold headerLen
  omega

theorem dst_externalRequest :
    Packet.frameOffset (externalRequest opcode extras key) .ip = 14 ∧
      (externalRequest opcode extras key).read 30 4 = [10, 0x10, 0, 1] := by
  have hbyte : ∀ {i : Nat} {b : UInt8}, (frameHead 0x10)[i]? = some b →
      externalRequest opcode extras key i = b := fun h => frameMem_apply 0x10 _ h
  have h30 : externalRequest opcode extras key 30 = 10 := hbyte rfl
  have h31 : externalRequest opcode extras key 31 = 0x10 := hbyte rfl
  have h32 : externalRequest opcode extras key 32 = 0 := hbyte rfl
  have h33 : externalRequest opcode extras key 33 = 1 := hbyte rfl
  have hvlan : Packet.vlanLen (externalRequest opcode extras key) = 0 := (parse_frameMem 0x10 _).1
  refine ⟨?_, ?_⟩
  · simp [Packet.frameOffset, hvlan, Packet.etherLen]
  · simp [Mem.read, List.range_succ, h30, h31, h32, h33]

end External

/-- A GET, and a SET whose extras start with its key. -/
theorem sameTarget_get_set :
    (onUdp (fun p (db : Unit) => (0, p, db))
        (Packet.ofFrame (externalRequest opcodeGet [] [0, 0, 0, 5]) 70) ()).2.1.data.read
        (Packet.frameOffset (externalRequest opcodeGet [] [0, 0, 0, 5]) .ip + 16) 4 =
      (onUdp (fun p (db : Unit) => (0, p, db))
        (Packet.ofFrame (externalRequest opcodeSet [0, 0, 0, 5] [0, 0, 0, 5]) 74) ()).2.1.data.read
        (Packet.frameOffset (externalRequest opcodeSet [0, 0, 0, 5] [0, 0, 0, 5]) .ip + 16) 4 := by
  have hnone : ([] : List UInt8).length < 256 := by decide
  have hfour : ([0, 0, 0, 5] : List UInt8).length < 256 := by decide
  refine (sameTarget_iff _ (carries_externalRequest opcodeGet hnone rfl (Or.inl rfl))
    (carries_externalRequest opcodeSet hfour rfl (Or.inr rfl)) ?_
    (onUdp_externalRequest opcodeGet _ () hnone rfl)
    (onUdp_externalRequest opcodeSet _ () hfour rfl)).2 rfl
  rw [(dst_externalRequest _).1, (dst_externalRequest _).1, (dst_externalRequest _).2,
    (dst_externalRequest _).2]

/-- The extras of the SETs of the warm-up test. -/
def warmUpExtras : List UInt8 := [0xde, 0xad, 0xbe, 0xef, 0xde, 0xad, 0xc0, 0xde]

/-- Two SETs of the key 5 that the validator accepts, one with the extras of the warm-up test and
one with zeros: they are sent on to different addresses. -/
theorem set_5_extras_differ :
    validateHeader (externalRequest opcodeSet warmUpExtras [0, 0, 0, 5]) 42 78 = true ∧
      validateHeader (externalRequest opcodeSet (zeros 8) [0, 0, 0, 5]) 42 78 = true ∧
      ¬ ∀ (m m' : Mem) (n n' : Nat) (extras extras' key : List UInt8),
        Carries m n extras key → Carries m' n' extras' key →
        m.read (Packet.frameOffset m .ip + 16) 4 = m'.read (Packet.frameOffset m' .ip + 16) 4 →
        (onUdp (fun p (db : Unit) => (0, p, db)) (Packet.ofFrame m n) ()).1 = needSend →
        (onUdp (fun p (db : Unit) => (0, p, db)) (Packet.ofFrame m' n') ()).1 = needSend →
        (onUdp (fun p (db : Unit) => (0, p, db)) (Packet.ofFrame m n) ()).2.1.data.read
            (Packet.frameOffset m .ip + 16) 4 =
          (onUdp (fun p (db : Unit) => (0, p, db)) (Packet.ofFrame m' n') ()).2.1.data.read
            (Packet.frameOffset m' .ip + 16) 4 := by
  have hkey : ([0, 0, 0, 5] : List UInt8).length = 4 := rfl
  have hvalid : ∀ extras : List UInt8, extras.length = 8 →
      validateHeader (externalRequest opcodeSet extras [0, 0, 0, 5]) 42 78 = true := by
    intro extras hlen
    rcases externalRequest_fields opcodeSet (show extras.length < 256 by omega) hkey with
      ⟨hmagic, hopcode, hkeylen, hextlen, htype, hbody, _, _⟩
    refine (validateHeader_iff _ _ _).2 ⟨⟨hmagic, htype, Or.inr ⟨hopcode, ?_, ?_, ?_⟩⟩, ?_⟩
    · intro hzero
      rw [hzero, hlen] at hextlen
      exact absurd hextlen (by decide)
    · rw [hkeylen]
      decide
    · omega
    · rw [hbody, hlen]
      rfl
  refine ⟨hvalid _ rfl, hvalid _ rfl, ?_⟩
  intro hall
  have hwarm : warmUpExtras.length < 256 := by decide
  have hzeros : (zeros 8).length < 256 := by decide
  have hm := carries_externalRequest opcodeSet hwarm hkey (Or.inr rfl)
  have hm' := carries_externalRequest opcodeSet hzeros hkey (Or.inr rfl)
  have hdst : (externalRequest opcodeSet warmUpExtras [0, 0, 0, 5]).read
      (Packet.frameOffset (externalRequest opcodeSet warmUpExtras [0, 0, 0, 5]) .ip + 16) 4 =
      (externalRequest opcodeSet (zeros 8) [0, 0, 0, 5]).read
      (Packet.frameOffset (externalRequest opcodeSet (zeros 8) [0, 0, 0, 5]) .ip + 16) 4 := by
    rw [(dst_externalRequest _).1, (dst_externalRequest _).1, (dst_externalRequest _).2,
      (dst_externalRequest _).2]
  have hsend := onUdp_externalRequest opcodeSet (fun p (db : Unit) => (0, p, db)) () hwarm hkey
  have hsend' := onUdp_externalRequest opcodeSet (fun p (db : Unit) => (0, p, db)) () hzeros hkey
  have hsame := hall _ _ _ _ _ _ _ hm hm' hdst hsend hsend'
  -- The same address would mean the same residue, and the extras have different ones.
  rw [onUdp_external _ hm.external hsend, onUdp_external _ hm'.external hsend', read_forwarded,
    read_forwarded, le32Bytes_inj, target, target, Mem.le32_congr hdst, internalAddr_inj,
    hm.keyHash_eq, hm'.keyHash_eq] at hsame
  exact absurd hsame (by decide)

end Arch
end NmMemcached
