import NmMemcached.Arch.Frames
import NmMemcached.Server.Requests

/-!
# Routing — the external branch of `OnUdp` against the internal one

An external frame is forwarded to the octet `INTERNAL_IP_OCT3 + hash % USECORE_COUNT`, one of
twelve.  The internal branch is taken for `INTERNAL_IP_OCT3` alone.  `forwarded_reaches_iff` says
which forwarded frames get to the server of the receiver: those whose key hash has residue zero.
-/

namespace NmMemcached
namespace Arch

open Lib Base Net Server

/-! ## The sender -/

/-- The hash of the key of a frame. -/
def keyHash (data : Mem) : BitVec 32 :=
  hash32 data (Packet.frameOffset data .payload + headerLen)
    (Header.keylen data (Packet.frameOffset data .payload))

/-- A frame as the external branch forwards it. -/
def forwarded (data : Mem) (len : Nat) : Mem :=
  (swapMac (Packet.ofFrame data len)).data.write (Packet.frameOffset data .ip + 16)
    (Mem.le32Bytes (internalAddr
      ((swapMac (Packet.ofFrame data len)).data.le32 (Packet.frameOffset data .ip + 16))
      (keyHash data)))

section Sender

variable {σ : Type*} (recv : Packet → σ → Nat × Packet × σ)

theorem keyHash_swapMac (data : Mem) (len : Nat) :
    hash32 (swapMac (Packet.ofFrame data len)).data
        (Packet.frameOffset data .payload + headerLen)
        (Header.keylen (swapMac (Packet.ofFrame data len)).data
          (Packet.frameOffset data .payload)) = keyHash data := by
  have hpay := header_lt_payload data
  -- The request lies behind the two addresses that were exchanged.
  have hbyte : ∀ j, (swapMac (Packet.ofFrame data len)).data
      (Packet.frameOffset data .payload + j) = data (Packet.frameOffset data .payload + j) := by
    intro j
    exact data_swapMac_of_le data len (by omega)
  rw [keyHash, keylen_congr fun i _ => hbyte i]
  apply hash32_congr
  intro i _
  rw [Nat.add_assoc]
  exact hbyte (headerLen + i)

/-- A frame the external branch sends on. -/
theorem onUdp_external {data : Mem} {len : Nat} {db : σ}
    (hext : dstOct3 (Packet.ofFrame data len) = externalIpOct3)
    (hsend : (onUdp recv (Packet.ofFrame data len) db).1 = needSend) :
    (onUdp recv (Packet.ofFrame data len) db).2.1.data = forwarded data len := by
  have hoct : dstOct3 (swapMac (Packet.ofFrame data len)) = externalIpOct3 :=
    (dstOct3_swapMac data len).trans hext
  have hzero : (0 : Nat) ≠ needSend := by decide
  -- A frame that fails one of the two tests on its length is not sent.
  unfold onUdp at hsend ⊢
  simp only [hoct, if_true] at hsend ⊢
  split at hsend
  · rename_i hlen
    split at hsend
    · rename_i hbody
      simp only [hlen, hbody, if_true]
      have hhash := keyHash_swapMac data len
      rw [forwarded, ← hhash]
      rfl
    · exact absurd hsend hzero
  · exact absurd hsend hzero

/-- What the external branch asks of a frame. -/
theorem onUdp_external_sends {data : Mem} {len : Nat} (db : σ)
    (hext : dstOct3 (Packet.ofFrame data len) = externalIpOct3) (hlen : headerLen < len)
    (hbody : Header.bodylen data (Packet.frameOffset data .payload) + headerLen = len) :
    (onUdp recv (Packet.ofFrame data len) db).1 = needSend := by
  have hoct : dstOct3 (swapMac (Packet.ofFrame data len)) = externalIpOct3 :=
    (dstOct3_swapMac data len).trans hext
  have hpay := header_lt_payload data
  have hsame : Header.bodylen (swapMac (Packet.ofFrame data len)).data
      (Packet.frameOffset data .payload) = Header.bodylen data (Packet.frameOffset data .payload) :=
    bodylen_congr fun i _ => data_swapMac_of_le data len (by omega)
  have hlen' : (swapMac (Packet.ofFrame data len)).len > headerLen := hlen
  have hbody' : Header.bodylen (swapMac (Packet.ofFrame data len)).data
      (swapMac (Packet.ofFrame data len)).payload + headerLen =
        (swapMac (Packet.ofFrame data len)).len :=
    (congrArg (· + headerLen) hsame).trans hbody
  unfold onUdp
  simp only [hoct, hlen', hbody', if_true]

end Sender

/-! ## The receiver -/

/-- A forwarded frame differs from the frame that came in by its hardware addresses and the
destination address. -/
theorem forwarded_apply (data : Mem) (len : Nat) {i : Nat} (hlo : 12 ≤ i)
    (hdst : i < Packet.frameOffset data .ip + 16 ∨ Packet.frameOffset data .ip + 20 ≤ i) :
    forwarded data len i = data i := by
  rw [forwarded, Mem.write_of_disjoint (by simpa using hdst)]
  exact data_swapMac_of_le data len hlo

/-- Of the destination address one octet is new. -/
theorem read_dst_forwarded (data : Mem) (len : Nat) :
    (forwarded data len).read (Packet.frameOffset data .ip + 16) 4 =
      [data (Packet.frameOffset data .ip + 16), ⟨internalOct3 (keyHash data)⟩,
        data (Packet.frameOffset data .ip + 18), data (Packet.frameOffset data .ip + 19)] := by
  have hip := etherLen_le_ip data
  have hbyte : ∀ j, (swapMac (Packet.ofFrame data len)).data (Packet.frameOffset data .ip + j) =
      data (Packet.frameOffset data .ip + j) :=
    fun j => data_swapMac_of_le data len (by omega)
  rw [forwarded, Mem.read_write_of_length (Mem.length_le32Bytes _), le32Bytes_internalAddr, hbyte,
    Nat.add_assoc, Nat.add_assoc, hbyte, hbyte]

/-- Behind the hardware addresses a forwarded frame differs in one byte. -/
theorem forwarded_apply_of_ne (data : Mem) (len : Nat) {i : Nat} (hlo : 12 ≤ i)
    (hne : i ≠ Packet.frameOffset data .ip + 17) : forwarded data len i = data i := by
  by_cases hout : i < Packet.frameOffset data .ip + 16 ∨ Packet.frameOffset data .ip + 20 ≤ i
  · exact forwarded_apply data len hlo hout
  · have hread := read_dst_forwarded data len
    rcases (by omega : i = Packet.frameOffset data .ip + 16 ∨
      i = Packet.frameOffset data .ip + 18 ∨ i = Packet.frameOffset data .ip + 19)
      with rfl | rfl | rfl
    · exact Mem.apply_of_read hread (show 0 < 4 by decide)
    · exact Mem.apply_of_read hread (show 2 < 4 by decide)
    · exact Mem.apply_of_read hread (show 3 < 4 by decide)

theorem forwarded_dst (data : Mem) (len : Nat) :
    forwarded data len (Packet.frameOffset data .ip + 17) = ⟨internalOct3 (keyHash data)⟩ :=
  Mem.apply_of_read (read_dst_forwarded data len) (show 1 < 4 by decide)

theorem frameOffset_forwarded (data : Mem) (len : Nat) :
    Packet.frameOffset (forwarded data len) = Packet.frameOffset data := by
  refine (ofFrame_congr ?_).2.2.1
  intro i hlo hhi
  refine forwarded_apply data len hlo (Or.inl ?_)
  exact Nat.lt_trans hhi (Nat.add_lt_add_left (by decide) _)

theorem dstOct3_forwarded (data : Mem) (len len' : Nat) :
    dstOct3 (Packet.ofFrame (forwarded data len) len') = internalOct3 (keyHash data) := by
  have hdst : ipDst (Packet.ofFrame (forwarded data len) len') =
      Packet.frameOffset data .ip + 16 := by
    rw [ipDst, header_ofFrame, frameOffset_forwarded]
  have haddr : (forwarded data len).le32 (Packet.frameOffset data .ip + 16) = internalAddr
      ((swapMac (Packet.ofFrame data len)).data.le32 (Packet.frameOffset data .ip + 16))
      (keyHash data) :=
    Mem.le32_write_le32Bytes _ _ _
  have hdata : (Packet.ofFrame (forwarded data len) len').data = forwarded data len := rfl
  rw [dstOct3, hdst, hdata, haddr]
  exact octet_internalAddr _ _

theorem internalOct3_ne_external (hash : BitVec 32) : internalOct3 hash ≠ externalIpOct3 := by
  have hmask : ∀ n < 12, (128 + n) % 256 &&& 255 ≠ 16 := by decide
  have hcase := hmask (hash.toNat % 12) (Nat.mod_lt _ (by decide))
  intro heq
  rw [← BitVec.toNat_inj] at heq
  apply hcase
  simpa [internalOct3, internalIpOct3, externalIpOct3, usecoreCount] using heq

/-- The receiver hands the frame to its server, or drops it. -/
theorem onUdp_forwarded (data : Mem) (len : Nat) {σ : Type*}
    (recv : Packet → σ → Nat × Packet × σ) (db : σ) :
    onUdp recv (Packet.ofFrame (forwarded data len) len) db =
      if (keyHash data).toNat % usecoreCount = 0 then
        recv (swapMac (Packet.ofFrame (forwarded data len) len)) db
      else
        (0, swapMac (Packet.ofFrame (forwarded data len) len), db) := by
  have hoct : dstOct3 (swapMac (Packet.ofFrame (forwarded data len) len)) =
      internalOct3 (keyHash data) :=
    (dstOct3_swapMac _ _).trans (dstOct3_forwarded data len len)
  have hnot := internalOct3_ne_external (keyHash data)
  unfold onUdp
  simp only [hoct, hnot, if_false, internalOct3_eq_iff]

/-- Whatever the server does with packets: the frame gets to it, with this length and payload. -/
def ReachesServer (frame : Mem) (len : Nat) (payload : Nat → UInt8) : Prop :=
  ∃ pkt : Packet, pkt.len = len ∧ (∀ i, pkt.data (pkt.payload + i) = payload i) ∧
    ∀ (σ : Type) (recv : Packet → σ → Nat × Packet × σ) (db : σ),
      onUdp recv (Packet.ofFrame frame len) db = recv pkt db

theorem reachesServer_forwarded {data : Mem} (len : Nat) (hframe : IsIpv4Udp data)
    (hhash : (keyHash data).toNat % usecoreCount = 0) :
    ReachesServer (forwarded data len) len
      fun i => data (Packet.frameOffset data .payload + i) := by
  refine ⟨swapMac (Packet.ofFrame (forwarded data len) len), rfl, ?_, ?_⟩
  · intro i
    -- The payload lies behind the addresses of the IP header.
    have hip := etherLen_le_ip data
    have hpay := hframe.payload.2
    have hoff : (swapMac (Packet.ofFrame (forwarded data len) len)).payload =
        Packet.frameOffset data .payload :=
      congrFun (frameOffset_forwarded data len) .payload
    rw [hoff, data_swapMac_of_le _ _ (by omega)]
    exact forwarded_apply data len (by omega) (Or.inr (by omega))
  · intro σ recv db
    rw [onUdp_forwarded, if_pos hhash]

theorem not_reachesServer_forwarded {data : Mem} (len : Nat)
    (hhash : (keyHash data).toNat % usecoreCount ≠ 0) (payload : Nat → UInt8) :
    ¬ ReachesServer (forwarded data len) len payload := by
  rintro ⟨pkt, _, _, hall⟩
  -- A server that answers everything would answer this frame.
  have hanswer := hall Unit (fun p db => (needSend, p, db)) ()
  rw [onUdp_forwarded, if_neg hhash] at hanswer
  have hret : (0 : Nat) = needSend := congrArg Prod.fst hanswer
  exact absurd hret (by decide)

/-- A forwarded frame gets to the server of the receiver, with its payload, exactly when the hash
of its key is a multiple of the number of internal addresses. -/
theorem forwarded_reaches_iff {σ : Type*} (recv : Packet → σ → Nat × Packet × σ) {data : Mem}
    {len : Nat} {db : σ} (hframe : IsIpv4Udp data)
    (hext : dstOct3 (Packet.ofFrame data len) = externalIpOct3)
    (hsend : (onUdp recv (Packet.ofFrame data len) db).1 = needSend) :
    ReachesServer (onUdp recv (Packet.ofFrame data len) db).2.1.data len
        (fun i => data (Packet.frameOffset data .payload + i)) ↔
      (keyHash data).toNat % usecoreCount = 0 := by
  rw [onUdp_external recv hext hsend]
  constructor
  · intro hreach
    by_contra hhash
    exact not_reachesServer_forwarded len hhash _ hreach
  · exact reachesServer_forwarded len hframe

/-! ## A GET that is forwarded -/

/-- A GET frame to an external address; its body length counts the whole frame. -/
def externalGet (key : List UInt8) : Mem :=
  frameMem 0x10 (requestHead opcodeGet 0 46 ++ key)

theorem dstOct3_externalGet (key : List UInt8) :
    dstOct3 (Packet.ofFrame (externalGet key) 70) = externalIpOct3 :=
  dstOct3_frameMem 0x10 _ 70

/-- The header and the key of the frame. -/
theorem read_externalGet {key : List UInt8} (hkey : key.length = 4) :
    (externalGet key).read 42 headerLen = requestHead opcodeGet 0 46 ∧
      (externalGet key).read 66 4 = key := by
  have hread := read_frameMem 0x10 (requestHead opcodeGet 0 46 ++ key)
  refine ⟨?_, ?_⟩
  · exact read_frameMem_append 0x10 key (requestHead opcodeGet 0 46)
  · have hlast := Mem.read_of_read_append (requestHead opcodeGet 0 46) key []
      (hread.trans (List.append_nil _).symm)
    rwa [hkey] at hlast

theorem onUdp_externalGet {σ : Type*} (recv : Packet → σ → Nat × Packet × σ) (db : σ)
    {key : List UInt8} (hkey : key.length = 4) :
    (onUdp recv (Packet.ofFrame (externalGet key) 70) db).1 = needSend := by
  have hpay : Packet.frameOffset (externalGet key) .payload = 42 := (parse_frameMem 0x10 _).2.2
  rcases fields_of_requestHead (read_externalGet hkey).1 (by decide) with
    ⟨_, _, _, _, _, hbody⟩
  refine onUdp_external_sends recv db (dstOct3_externalGet key) (by decide) ?_
  rw [hpay, hbody]
  decide

theorem keyHash_externalGet {key : List UInt8} (hkey : key.length = 4) :
    keyHash (externalGet key) = hash32 (Mem.write (fun _ => 0) 0 key) 0 4 := by
  have hpay : Packet.frameOffset (externalGet key) .payload = 42 := (parse_frameMem 0x10 _).2.2
  rcases fields_of_requestHead (read_externalGet hkey).1 (by decide) with
    ⟨_, _, hkeylen, _, _, _⟩
  have hself : (Mem.write (fun _ => 0) 0 key).read 0 4 = key := Mem.read_write_of_length hkey
  rw [keyHash, hpay, hkeylen]
  apply hash32_congr
  intro i hi
  exact Mem.apply_of_read_eq ((read_externalGet hkey).2.trans hself.symm) hi

/-- A key with residue zero. -/
theorem forwarded_reaches_iff_key_02000003 :
    ReachesServer
      (onUdp (fun p (db : Unit) => (0, p, db)) (Packet.ofFrame (externalGet [2, 0, 0, 3]) 70)
        ()).2.1.data 70
      fun i => externalGet [2, 0, 0, 3]
        (Packet.frameOffset (externalGet [2, 0, 0, 3]) .payload + i) := by
  have hhash : (keyHash (externalGet [2, 0, 0, 3])).toNat % usecoreCount = 0 := by
    rw [keyHash_externalGet rfl]
    decide
  exact (forwarded_reaches_iff _ (parse_frameMem 0x10 _).2.1 (dstOct3_externalGet _)
    (onUdp_externalGet _ _ rfl)).2 hhash

/-- The key 5 has residue 8: its GET is forwarded to an address that no instance takes for its
own. -/
theorem externalGet_5_dropped :
    (onUdp (fun p (db : Unit) => (needSend, p, db)) (Packet.ofFrame (externalGet [0, 0, 0, 5]) 70)
        ()).1 = needSend ∧
      ¬ ReachesServer
        (onUdp (fun p (db : Unit) => (needSend, p, db))
          (Packet.ofFrame (externalGet [0, 0, 0, 5]) 70) ()).2.1.data 70
        fun i => externalGet [0, 0, 0, 5]
          (Packet.frameOffset (externalGet [0, 0, 0, 5]) .payload + i) := by
  have hhash : (keyHash (externalGet [0, 0, 0, 5])).toNat % usecoreCount ≠ 0 := by
    rw [keyHash_externalGet rfl]
    decide
  have hkey : ([0, 0, 0, 5] : List UInt8).length = 4 := rfl
  have hsend := onUdp_externalGet (fun p (db : Unit) => (needSend, p, db)) () hkey
  refine ⟨hsend, ?_⟩
  rw [onUdp_external _ (dstOct3_externalGet _) hsend]
  exact not_reachesServer_forwarded 70 hhash _

end Arch
end NmMemcached
