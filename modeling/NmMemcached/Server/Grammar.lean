import NmMemcached.Lib.Access
import NmMemcached.Server.Requests

/-!
# Grammar — the requests the validator lets through

The comments of `validate_header` describe a grammar: a GET has a key and nothing else, a SET has
extras, a key and a value.  `Grammar` is that grammar with the four-byte key of `OnRecieve`, and
`RegionsInside` is what the macros `KEY`, `REQ_VAL` and `REQ_VALL` rely on.

The validator compares the body length of a SET with zero only, never with the extras and the key.
`grammarExact_iff` names the requests for which that makes a difference.
-/

namespace NmMemcached
namespace Server

open Lib Base Net

variable {pkt : Packet}

/-! ## The documented grammar -/

/-- The extras of a request, in bytes. -/
def extras (pkt : Packet) : Nat := (Header.extlen pkt.data pkt.payload).toNat

/-- Extras, key and value together. -/
def body (pkt : Packet) : Nat := Header.bodylen pkt.data pkt.payload

structure Grammar (pkt : Packet) : Prop where
  magic : Header.magic pkt.data pkt.payload = magicRequest
  datatype : Header.datatype pkt.data pkt.payload = 0
  length : pkt.len = headerLen + body pkt
  keylen : Header.keylen pkt.data pkt.payload = 4
  parts :
    (Header.opcode pkt.data pkt.payload = opcodeGet ∧ extras pkt = 0 ∧ body pkt = 4) ∨
      (Header.opcode pkt.data pkt.payload = opcodeSet ∧ 1 ≤ extras pkt ∧
        extras pkt + Header.keylen pkt.data pkt.payload < body pkt)

/-! ## The regions of a request -/

/-- The bytes that were received. -/
def receivedRegion (pkt : Packet) : Region := ⟨pkt.payload, pkt.len⟩

/-- `*KEY(p, uint32_t)`. -/
def keyRegion (pkt : Packet) : Region := ⟨pkt.payload + headerLen + extras pkt, 4⟩

/-- `REQ_VALL(p)` bytes from `REQ_VAL(p)` on. -/
def valueRegion (pkt : Packet) : Region :=
  ⟨Header.reqVal pkt.data pkt.payload, (Header.reqVall pkt.data pkt.payload).toNat⟩

structure RegionsInside (pkt : Packet) : Prop where
  key : (keyRegion pkt).Within (receivedRegion pkt)
  value : (valueRegion pkt).Within (receivedRegion pkt)
  /-- `REQ_VALL(p)` is what is left behind the header, the extras and the key. -/
  vall : Header.reqVall pkt.data pkt.payload =
    (pkt.len : Int) - headerLen - extras pkt - Header.keylen pkt.data pkt.payload
  vall_pos : Header.opcode pkt.data pkt.payload = opcodeSet →
    0 < Header.reqVall pkt.data pkt.payload

/-- The validator accepts this packet exactly by the grammar, and rightly. -/
def GrammarExact (pkt : Packet) : Prop :=
  (Accepted pkt ↔ Grammar pkt) ∧ (Accepted pkt → RegionsInside pkt)

/-! ## Where the validator is too weak -/

/-- A SET with a four-byte key and a true length, whose body has no room for a value behind the
extras and the key, or whose value is longer than an `int` counts. -/
structure IllSizedSet (pkt : Packet) : Prop where
  magic : Header.magic pkt.data pkt.payload = magicRequest
  opcode : Header.opcode pkt.data pkt.payload = opcodeSet
  datatype : Header.datatype pkt.data pkt.payload = 0
  keylen : Header.keylen pkt.data pkt.payload = 4
  extras_pos : 1 ≤ extras pkt
  body_pos : 1 ≤ body pkt
  length : pkt.len = headerLen + body pkt
  size : body pkt ≤ extras pkt + 4 ∨ extras pkt + 4 + 2147483648 ≤ body pkt

theorem extras_eq_zero_iff : extras pkt = 0 ↔ Header.extlen pkt.data pkt.payload = 0 := by
  unfold extras
  constructor
  · intro h
    exact UInt8.toNat_inj.1 h
  · intro h
    rw [h]
    rfl

/-- What the tests of the validator and the test of `OnRecieve` amount to. -/
theorem accepted_iff :
    Accepted pkt ↔
      Header.magic pkt.data pkt.payload = magicRequest ∧
        Header.datatype pkt.data pkt.payload = 0 ∧ pkt.len = headerLen + body pkt ∧
        Header.keylen pkt.data pkt.payload = 4 ∧
        ((Header.opcode pkt.data pkt.payload = opcodeGet ∧ extras pkt = 0 ∧ body pkt = 4) ∨
          (Header.opcode pkt.data pkt.payload = opcodeSet ∧ 1 ≤ extras pkt ∧ 1 ≤ body pkt)) := by
  have hext := @extras_eq_zero_iff pkt
  have hbodylen : Header.bodylen pkt.data pkt.payload = body pkt := rfl
  have hlen : body pkt + headerLen = pkt.len ↔ pkt.len = headerLen + body pkt := by
    rw [Nat.add_comm, eq_comm]
  rw [Accepted, validateHeader_iff, HeaderOk, hbodylen, hlen, ne_eq, ne_eq, ne_eq, ← hext]
  constructor
  · rintro ⟨⟨⟨hmagic, htype, ⟨hget, hnoext, _, hbody⟩ | ⟨hset, hsome, _, hbody⟩⟩, hlength⟩, hkey⟩
    · exact ⟨hmagic, htype, hlength, hkey, Or.inl ⟨hget, hnoext, hbody.trans hkey⟩⟩
    · exact ⟨hmagic, htype, hlength, hkey, Or.inr ⟨hset, by omega, by omega⟩⟩
  · rintro ⟨hmagic, htype, hlength, hkey, ⟨hget, hnoext, hbody⟩ | ⟨hset, hsome, hbody⟩⟩
    · refine ⟨⟨⟨hmagic, htype, Or.inl ⟨hget, hnoext, by omega, ?_⟩⟩, hlength⟩, hkey⟩
      exact hbody.trans hkey.symm
    · exact ⟨⟨⟨hmagic, htype, Or.inr ⟨hset, by omega, by omega, by omega⟩⟩, hlength⟩, hkey⟩

/-- Nothing is missed: what the grammar describes is accepted. -/
theorem Grammar.accepted (h : Grammar pkt) : Accepted pkt := by
  refine accepted_iff.2 ⟨h.magic, h.datatype, h.length, h.keylen, ?_⟩
  rcases h.parts with hget | ⟨hset, hext, hbody⟩
  · exact Or.inl hget
  · exact Or.inr ⟨hset, hext, by omega⟩

/-- `REQ_VALL`, as long as an `int` can hold it. -/
theorem reqVall_eq {n : Nat} (hn : n < 2147483648)
    (h : body pkt = extras pkt + Header.keylen pkt.data pkt.payload + n) :
    Header.reqVall pkt.data pkt.payload = n := by
  have hdiff : (body pkt : Int) - extras pkt - Header.keylen pkt.data pkt.payload = n := by omega
  have hvall : Header.reqVall pkt.data pkt.payload = (BitVec.ofInt 32 (n : Int)).toInt :=
    congrArg (fun d => (BitVec.ofInt 32 d).toInt) hdiff
  rw [hvall, BitVec.toInt_ofInt]
  exact Int.bmod_eq_of_le (by omega) (by omega)

theorem Grammar.regionsInside (h : Grammar pkt) (hsize : ¬ IllSizedSet pkt) :
    RegionsInside pkt := by
  have hlen := h.length
  have hkey := h.keylen
  have hval : Header.reqVal pkt.data pkt.payload =
      pkt.payload + headerLen + extras pkt + Header.keylen pkt.data pkt.payload := rfl
  -- In both cases what the body holds behind the key is counted without a wrap.
  have hvalue : ∃ n, n < 2147483648 ∧
      body pkt = extras pkt + Header.keylen pkt.data pkt.payload + n ∧
      (Header.opcode pkt.data pkt.payload = opcodeSet → 0 < n) := by
    rcases h.parts with ⟨hget, hext, hbody⟩ | ⟨hset, hext, hbody⟩
    · refine ⟨0, by decide, by omega, ?_⟩
      intro hset
      exact absurd (hget.symm.trans hset) (by decide)
    · refine ⟨body pkt - extras pkt - 4, ?_, by omega, fun _ => by omega⟩
      by_contra hhuge
      exact hsize ⟨h.magic, hset, h.datatype, hkey, hext, by omega, hlen, by omega⟩
  rcases hvalue with ⟨n, hn, hbody, hpos⟩
  have hvall := reqVall_eq hn hbody
  refine ⟨?_, ?_, ?_, ?_⟩
  · refine (Region.within_iff_of_pos (Nat.succ_pos 3)).2 ?_
    simp only [keyRegion, receivedRegion]
    omega
  · refine Region.within_iff.2 (Or.inr ?_)
    simp only [valueRegion, receivedRegion, hvall, hval, Int.toNat_natCast]
    omega
  · rw [hvall]
    omega
  · intro hset
    rw [hvall]
    exact Int.natCast_pos.2 (hpos hset)

/-- A body that is too short or too long for its value is accepted all the same. -/
theorem IllSizedSet.accepted (h : IllSizedSet pkt) : Accepted pkt :=
  accepted_iff.2 ⟨h.magic, h.datatype, h.length, h.keylen,
    Or.inr ⟨h.opcode, h.extras_pos, h.body_pos⟩⟩

theorem IllSizedSet.not_grammarExact (h : IllSizedSet pkt) : ¬ GrammarExact pkt := by
  rintro ⟨hiff, hregions⟩
  have hkey := h.keylen
  rcases h.size with hshort | hlong
  · -- The grammar wants a value.
    rcases (hiff.1 h.accepted).parts with ⟨hget, _⟩ | ⟨_, _, hbody⟩
    · exact absurd (hget.symm.trans h.opcode) (by decide)
    · omega
  · -- The length of the value does not fit an `int`.
    have hvall := (hregions h.accepted).vall
    have hlt := BitVec.toInt_lt (x := BitVec.ofInt 32 ((body pkt : Int) - extras pkt -
      Header.keylen pkt.data pkt.payload))
    have hlen := h.length
    have hsame : Header.reqVall pkt.data pkt.payload = (BitVec.ofInt 32 ((body pkt : Int) -
      extras pkt - Header.keylen pkt.data pkt.payload)).toInt := rfl
    rw [← hsame, hvall] at hlt
    omega

/-- The validator accepts the documented grammar, with the regions of the macros inside what was
received, except for a SET whose body is too short to hold a value behind the extras and the
key, or holds one of 2^31 bytes and more. -/
theorem grammarExact_iff (pkt : Packet) : GrammarExact pkt ↔ ¬ IllSizedSet pkt := by
  constructor
  · intro h hbad
    exact hbad.not_grammarExact h
  · intro hsize
    have hgrammar : Accepted pkt → Grammar pkt := by
      intro h
      rcases accepted_iff.1 h with ⟨hmagic, htype, hlen, hkey, hget | ⟨hset, hext, hbody⟩⟩
      · exact ⟨hmagic, htype, hlen, hkey, Or.inl hget⟩
      · refine ⟨hmagic, htype, hlen, hkey, Or.inr ⟨hset, hext, ?_⟩⟩
        by_contra hshort
        exact hsize ⟨hmagic, hset, htype, hkey, hext, hbody, hlen, by omega⟩
    refine ⟨⟨hgrammar, Grammar.accepted⟩, ?_⟩
    intro h
    exact (hgrammar h).regionsInside hsize

/-- A SET with eight bytes of extras and a key, but no value. -/
theorem not_grammarExact : ¬ ∀ pkt, GrammarExact pkt := by
  intro h
  have hhead : (packetOf (setBytes 5 [])).data.read 0 headerLen =
      requestHead opcodeSet 8 12 :=
    read_packetOf_append [] (requestHead opcodeSet 8 12) (zeros 8 ++ Mem.be32Bytes 5)
  rcases fields_of_requestHead hhead (by decide) with
    ⟨hmagic, hopcode, hkeylen, hextlen, htype, hbody⟩
  have hextras : extras (packetOf (setBytes 5 [])) = 8 := congrArg UInt8.toNat hextlen
  have hbody' : body (packetOf (setBytes 5 [])) = 12 := hbody
  refine IllSizedSet.not_grammarExact ⟨hmagic, hopcode, htype, hkeylen, ?_, ?_, ?_, ?_⟩ (h _)
  · omega
  · omega
  · rw [hbody']
    rfl
  · omega

end Server
end NmMemcached
