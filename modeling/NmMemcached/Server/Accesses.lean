import NmMemcached.Base.Accesses
import NmMemcached.Server.Grammar

/-!
# Accesses — what `OnRecieve` reads and writes in the packet

The request handlers as programs over the buffer of the packet; `p` is `PAYLOAD` and `len` is
`Length()`.  `run_onRecieveProg` says that they are the handlers.

A request that is answered needs more bytes than `Length()` counts: the length of a frame includes
the headers in front of the payload, and the validator compares it with the length of the request
(`within_onRecieveProg_iff`).
-/

namespace NmMemcached
namespace Server

open Lib Base Net Table

/-! ## The answers -/

def responseHeadProg (p : Nat) (opcode extlen : UInt8) (status : Nat) : Prog Unit := do
  Prog.store p [magicResponse]
  Prog.store (p + 1) [opcode]
  Prog.store (p + 2) [0, 0]
  Prog.store (p + 4) [extlen]
  Prog.store (p + 5) [0]
  Prog.store (p + 6) (Mem.le16Bytes status)

def clearTagProg (p : Nat) : Prog Unit := Prog.store (p + 12) [0, 0, 0, 0]

def clearCasProg (p : Nat) : Prog Unit := Prog.store (p + 16) [0, 0, 0, 0, 0, 0, 0, 0]

def writeBodylenProg (p n : Nat) : Prog Unit := Prog.store (p + 8) (Mem.be32Bytes n)

/-- `REQ_VAL(p)`. -/
def reqValProg (p : Nat) : Prog Nat := do
  let extlen ← Prog.byte (p + 4)
  let keylen ← Prog.be16 (p + 2)
  return p + headerLen + extlen.toNat + keylen

/-- `REQ_VALL(p)`. -/
def reqVallProg (p : Nat) : Prog Int := do
  let bodylen ← Prog.be32 (p + 8)
  let extlen ← Prog.byte (p + 4)
  let keylen ← Prog.be16 (p + 2)
  return (BitVec.ofInt 32 ((bodylen : Int) - extlen.toNat - keylen)).toInt

/-- The result is what `Length()` is set to. -/
def replyFoundProg (p : Nat) (it : NmmcItem) (behind : Nat → UInt8) : Prog Nat := do
  responseHeadProg p opcodeGet 4 0
  clearCasProg p
  writeBodylenProg p (it.datalen.toNat + 4)
  Prog.store (p + headerLen) (Mem.le32Bytes it.expire)
  let val ← reqValProg p
  Prog.store val (it.copyData behind it.datalen.toNat)
  return headerLen + it.datalen.toNat + 4

def replyNotfoundProg (p : Nat) : Prog Nat := do
  responseHeadProg p opcodeGet 0 statusErr
  clearTagProg p
  clearCasProg p
  writeBodylenProg p notfound.length
  let val ← reqValProg p
  Prog.store val notfound
  return headerLen + notfound.length

def replySetProg (p stat : Nat) : Prog Nat := do
  responseHeadProg p opcodeSet 0 stat
  clearCasProg p
  writeBodylenProg p 0
  return headerLen

/-! ## The handlers -/

section Handlers

variable {σ : Type} (srv : Server σ)

def onRecieveGetProg (p key : Nat) : Prog Nat :=
  let tbl := srv.lookupValue
  let it := tbl.find key 0
  if it = .end_ then replyNotfoundProg p
  else if (tbl.get it).datalen = 0 then replyNotfoundProg p
  else replyFoundProg p (tbl.get it) (srv.behind it)

/-- `Bin2Hex` reads the value once. -/
def onRecieveSetProg (p key val : Nat) (vlen : Int) (db : σ) : Prog (Nat × σ) := do
  let value ← Prog.bytes val vlen.toNat
  let sql := setStatement key (bin2HexBytes value)
  let res := srv.mysqlQuery db sql
  let len ← replySetProg p (if res.1 ≠ 0 then statusErr else 0)
  return (len, res.2)

def onRecieveProg (p len : Nat) (db : σ) : Prog (Nat × Nat × σ) := do
  let valid ← validateHeaderProg p len
  if ¬ valid then return (0, len, db)
  let keylen ← Prog.be16 (p + 2)
  if keylen ≠ 4 then return (0, len, db)
  let extlen ← Prog.byte (p + 4)
  let key ← Prog.be32 (p + headerLen + extlen.toNat)
  let opcode ← Prog.byte (p + 1)
  if opcode = opcodeGet then
    let len ← onRecieveGetProg srv p (keyId key)
    return (needSend, len, db)
  else if opcode = opcodeSet then
    let val ← reqValProg p
    let vlen ← reqVallProg p
    let res ← onRecieveSetProg srv p (keyId key) val vlen db
    return (needSend, res.1, res.2)
  else return (0, len, db)

/-! ## The programs are the handlers -/

variable (pkt : Packet) (db : σ)

@[simp] theorem run_responseHeadProg (opcode extlen : UInt8) (status : Nat) :
    (responseHeadProg pkt.payload opcode extlen status).run pkt.data =
      ((), (responseHead pkt opcode extlen status).data) := by
  simp [responseHeadProg, responseHead]

theorem run_replyFoundProg (it : NmmcItem) (behind : Nat → UInt8) :
    (replyFoundProg pkt.payload it behind).run pkt.data =
      ((replyFound pkt it behind).len, (replyFound pkt it behind).data) := by
  simp [replyFoundProg, clearCasProg, writeBodylenProg, reqValProg]
  exact ⟨rfl, rfl⟩

theorem run_replyNotfoundProg :
    (replyNotfoundProg pkt.payload).run pkt.data =
      ((replyNotfound pkt).len, (replyNotfound pkt).data) := by
  simp [replyNotfoundProg, clearCasProg, clearTagProg, writeBodylenProg, reqValProg]
  exact ⟨rfl, rfl⟩

theorem run_replySetProg (stat : Nat) :
    (replySetProg pkt.payload stat).run pkt.data =
      ((replySet pkt stat).len, (replySet pkt stat).data) := by
  simp [replySetProg, clearCasProg, writeBodylenProg]
  exact ⟨rfl, rfl⟩

theorem run_onRecieveGetProg (key : Nat) :
    (onRecieveGetProg srv pkt.payload key).run pkt.data =
      ((onRecieveGet srv pkt key).2.len, (onRecieveGet srv pkt key).2.data) := by
  unfold onRecieveGetProg onRecieveGet
  simp only [Prog.run_ite, run_replyNotfoundProg, run_replyFoundProg]
  split_ifs <;> rfl

theorem run_onRecieveSetProg (key val : Nat) (vlen : Int) :
    (onRecieveSetProg srv pkt.payload key val vlen db).run pkt.data =
      (((onRecieveSet srv pkt key val vlen db).2.1.len, (onRecieveSet srv pkt key val vlen db).2.2),
        (onRecieveSet srv pkt key val vlen db).2.1.data) := by
  simp only [onRecieveSetProg, onRecieveSet, bin2Hex, Prog.run_bind, Prog.run_bytes, Prog.after_mk,
    run_replySetProg, Prog.run_pure]
  rfl

theorem run_reqValProg (m : Mem) (p : Nat) :
    (reqValProg p).run m = (Header.reqVal m p, m) := by
  simp [reqValProg, Header.reqVal, Header.extlen, Header.keylen]

theorem run_reqVallProg (m : Mem) (p : Nat) :
    (reqVallProg p).run m = (Header.reqVall m p, m) := by
  simp [reqVallProg, Header.reqVall, Header.extlen, Header.keylen, Header.bodylen]

theorem run_onRecieveProg :
    (onRecieveProg srv pkt.payload pkt.len db).run pkt.data =
      (((onRecieve srv pkt db).1, (onRecieve srv pkt db).2.1.len, (onRecieve srv pkt db).2.2),
        (onRecieve srv pkt db).2.1.data) := by
  have hret : ∀ key, (onRecieveGet srv pkt key).1 = needSend := fun key =>
    fst_of_eq (onRecieveGet_eq srv pkt key)
  unfold onRecieveProg onRecieve Header.keylen Header.key Header.extlen Header.opcode
  simp only [Prog.run_bind, run_validateHeaderProg, Prog.run_be16, Prog.run_byte, Prog.run_be32,
    Prog.after_mk, Prog.run_ite, Prog.run_pure, run_onRecieveGetProg, run_reqValProg,
    run_reqVallProg, run_onRecieveSetProg, hret]
  split_ifs <;> rfl

/-! ## Bounds -/

variable {pkt} {n : Nat}

theorem within_onRecieveProg_of_not_accepted (h : ¬ Accepted pkt) :
    (onRecieveProg srv pkt.payload pkt.len db).Within n pkt.data ↔
      pkt.payload + headerReach pkt.data pkt.payload ≤ n := by
  unfold onRecieveProg
  simp only [Prog.within_bind, within_validateHeaderProg, run_validateHeaderProg, Prog.after_mk,
    Prog.within_ite, Prog.within_pure, Prog.within_be16, Prog.run_be16]
  by_cases hvalid : validateHeader pkt.data pkt.payload pkt.len = true
  · -- The header was read up to the body length, so the key length is within.
    have hkeylen : pkt.data.be16 (pkt.payload + 2) ≠ 4 := fun hkeylen => h ⟨hvalid, hkeylen⟩
    simp only [hvalid, headerReach_of_valid _ _ _ hvalid, not_true_eq_false, if_false, if_true,
      hkeylen, ne_eq, not_false_eq_true, and_true]
    omega
  · simp only [hvalid, Bool.false_eq_true, not_false_eq_true, if_true, and_true]

/-- What an accepted request needs. -/
theorem regions_of_accepted (h : Accepted pkt)
    (hwithin : (onRecieveProg srv pkt.payload pkt.len db).Within n pkt.data) :
    (keyRegion pkt).Within ⟨0, n⟩ ∧ (Header.opcode pkt.data pkt.payload = opcodeSet →
      (valueRegion pkt).Within ⟨0, n⟩) := by
  have hvalid : validateHeader pkt.data pkt.payload pkt.len = true := h.1
  have hkeylen : pkt.data.be16 (pkt.payload + 2) = 4 := h.2
  have hne : opcodeSet ≠ opcodeGet := by decide
  unfold onRecieveProg at hwithin
  simp only [Prog.within_bind, within_validateHeaderProg, run_validateHeaderProg, Prog.after_mk,
    Prog.within_ite, Prog.within_be16, Prog.run_be16, Prog.within_byte, Prog.run_byte,
    Prog.within_be32, Prog.run_be32, hvalid, hkeylen, not_true_eq_false, if_false, ne_eq]
    at hwithin
  rcases hwithin with ⟨_, _, _, hkey, _, hrest⟩
  refine ⟨(Prog.within_zero_iff _ _).2 (Or.inr hkey), ?_⟩
  intro hset
  have hop : pkt.data (pkt.payload + 1) = opcodeSet := hset
  rw [if_neg (by rw [hop]; exact hne), if_pos hop] at hrest
  simp only [Prog.within_bind, run_reqValProg, run_reqVallProg, Prog.after_mk, onRecieveSetProg,
    Prog.within_bytes] at hrest
  exact (Prog.within_zero_iff _ _).2 hrest.2.2.1.1

/-- A request that is answered does not fit into the bytes of its frame: they have to hold the
headers in front of the payload as well. -/
theorem not_within_of_accepted (h : Accepted pkt) (hpay : 0 < pkt.payload)
    (hlen : pkt.len ≤ 2048) :
    ¬ (onRecieveProg srv pkt.payload pkt.len db).Within pkt.len pkt.data := by
  intro hwithin
  rcases regions_of_accepted srv db h hwithin with ⟨hkey, hvalue⟩
  rcases accepted_iff.1 h with ⟨_, _, hlength, hkeylen, hparts⟩
  have hfour : 0 < (keyRegion pkt).len := Nat.zero_lt_succ 3
  rw [Region.within_iff_of_pos hfour] at hkey
  simp only [keyRegion, headerLen] at hkey hlength
  rcases hparts with ⟨_, hext, hbody⟩ | ⟨hset, hext, hbody⟩
  · omega
  · -- The body has `n` bytes behind the key.
    obtain ⟨n, hn⟩ := Nat.exists_eq_add_of_le (show extras pkt + 4 ≤ body pkt by omega)
    have hvall : Header.reqVall pkt.data pkt.payload = n :=
      reqVall_eq (by omega) (by rw [hkeylen]; exact hn)
    have hval : Header.reqVal pkt.data pkt.payload =
        pkt.payload + headerLen + extras pkt + Header.keylen pkt.data pkt.payload := rfl
    have hin := hvalue hset
    simp only [valueRegion, hvall, hval, hkeylen, headerLen, Int.toNat_natCast,
      Region.within_iff] at hin
    omega

end Handlers

end Server
end NmMemcached
