import NmMemcached.Lib.Mem

/-!
# Def — the memcached binary header of `inc/nmmc_def.h`

The header is a view of 24 bytes at a pointer `p`.  Fields that the source wraps in `ntohs` or
`ntohl` are read with that value; the raw 16-bit constants `STATUS_OK` and `STATUS_ERR` are stored
in host order, as the source does (the host is little-endian).  The macros `KEY`, `REQ_VAL` and
`REQ_VALL` of `src/nmmc_server.cc` locate the key and the value from the header.
-/

namespace NmMemcached
namespace Base

open Lib

/-! ## Constants -/

def magicRequest : UInt8 := 0x80
def magicResponse : UInt8 := 0x81

def opcodeGet : UInt8 := 0x00
def opcodeSet : UInt8 := 0x01

def statusOk : Nat := 0x0000
def statusErr : Nat := 0x0100

def needSend : Nat := 0x00000001

def usecoreCount : Nat := 12
def externalIpOct3 : BitVec 8 := 0x10
def internalIpOct3 : BitVec 8 := 0x80

/-- `sizeof(protocol_binary_request_header)`. -/
def headerLen : Nat := 24

/-! ## Header fields -/

namespace Header

def magic (m : Mem) (p : Nat) : UInt8 := m p
def opcode (m : Mem) (p : Nat) : UInt8 := m (p + 1)
def keylen (m : Mem) (p : Nat) : Nat := m.be16 (p + 2)
def extlen (m : Mem) (p : Nat) : UInt8 := m (p + 4)
def datatype (m : Mem) (p : Nat) : UInt8 := m (p + 5)
def bodylen (m : Mem) (p : Nat) : Nat := m.be32 (p + 8)

/-- `ntohl(*KEY(p, uint32_t))`. -/
def key (m : Mem) (p : Nat) : Nat := m.be32 (p + headerLen + (extlen m p).toNat)

/-- `REQ_VAL(p)`. -/
def reqVal (m : Mem) (p : Nat) : Nat := p + headerLen + (extlen m p).toNat + keylen m p

/-- `REQ_VALL(p)`: an unsigned 32-bit difference, converted to `int`. -/
def reqVall (m : Mem) (p : Nat) : Int :=
  (BitVec.ofInt 32 ((bodylen m p : Int) - (extlen m p).toNat - keylen m p)).toInt

end Header

/-! ## The validator -/

def validateHeader (m : Mem) (p : Nat) (ln : Nat) : Bool :=
  if Header.magic m p ≠ magicRequest then false
  else if ¬ (Header.opcode m p = opcodeGet ∨ Header.opcode m p = opcodeSet) then false
  else if Header.datatype m p ≠ 0 then false
  else if Header.opcode m p = opcodeGet then
    -- GET: no extras, a key, no value.
    if Header.extlen m p ≠ 0 then false
    else if Header.keylen m p = 0 then false
    else if Header.bodylen m p ≠ Header.keylen m p then false
    else decide (Header.bodylen m p + headerLen = ln)
  else
    -- SET: extras, a key, a value.
    if Header.extlen m p = 0 then false
    else if Header.keylen m p = 0 then false
    else if Header.bodylen m p = 0 then false
    else decide (Header.bodylen m p + headerLen = ln)

/-- What the validator asks of a header besides the length it claims. -/
def HeaderOk (m : Mem) (p : Nat) : Prop :=
  Header.magic m p = magicRequest ∧ Header.datatype m p = 0 ∧
    ((Header.opcode m p = opcodeGet ∧ Header.extlen m p = 0 ∧ Header.keylen m p ≠ 0 ∧
        Header.bodylen m p = Header.keylen m p) ∨
      (Header.opcode m p = opcodeSet ∧ Header.extlen m p ≠ 0 ∧ Header.keylen m p ≠ 0 ∧
        Header.bodylen m p ≠ 0))

theorem validateHeader_iff (m : Mem) (p ln : Nat) :
    validateHeader m p ln = true ↔ HeaderOk m p ∧ Header.bodylen m p + headerLen = ln := by
  have hne : opcodeSet ≠ opcodeGet := by decide
  unfold validateHeader HeaderOk
  generalize Header.magic m p = magic
  generalize Header.opcode m p = opcode
  generalize Header.datatype m p = datatype
  -- The validator branches on the opcode; the other tests are the same for both.
  by_cases hget : opcode = opcodeGet
  · subst hget
    have hne' : opcodeGet ≠ opcodeSet := fun h => hne h.symm
    by_cases hmagic : magic = magicRequest <;> by_cases htype : datatype = 0 <;>
      simp [hmagic, htype, hne', and_assoc]
  · by_cases hset : opcode = opcodeSet
    · subst hset
      by_cases hmagic : magic = magicRequest <;> by_cases htype : datatype = 0 <;>
        simp [hmagic, htype, hne, and_assoc]
    · simp [hget, hset]

/-- Two windows that agree on the 24 header bytes have the same header. -/
theorem headerOk_congr {m m' : Mem} {p p' : Nat}
    (h : ∀ i < headerLen, m (p + i) = m' (p' + i)) : HeaderOk m p ↔ HeaderOk m' p' := by
  have hbyte : ∀ i (_ : i < headerLen), m (p + i) = m' (p' + i) := h
  have h0 := hbyte 0 (by decide)
  have h1 := hbyte 1 (by decide)
  have h2 := hbyte 2 (by decide)
  have h3 := hbyte 3 (by decide)
  have h4 := hbyte 4 (by decide)
  have h5 := hbyte 5 (by decide)
  have h8 := hbyte 8 (by decide)
  have h9 := hbyte 9 (by decide)
  have h10 := hbyte 10 (by decide)
  have h11 := hbyte 11 (by decide)
  simp only [Nat.add_zero] at h0
  simp only [HeaderOk, Header.magic, Header.opcode, Header.keylen, Header.extlen,
    Header.datatype, Header.bodylen, Mem.be32, Mem.be16, Nat.add_assoc, Nat.reduceAdd,
    h0, h1, h2, h3, h4, h5, h8, h9, h10, h11]

theorem keylen_congr {m m' : Mem} {p p' : Nat} (h : ∀ i < headerLen, m (p + i) = m' (p' + i)) :
    Header.keylen m p = Header.keylen m' p' := by
  have h2 := h 2 (by decide)
  have h3 := h 3 (by decide)
  simp [Header.keylen, Mem.be16, Nat.add_assoc, h2, h3]

theorem bodylen_congr {m m' : Mem} {p p' : Nat} (h : ∀ i < headerLen, m (p + i) = m' (p' + i)) :
    Header.bodylen m p = Header.bodylen m' p' := by
  have h8 := h 8 (by decide)
  have h9 := h 9 (by decide)
  have h10 := h 10 (by decide)
  have h11 := h 11 (by decide)
  simp [Header.bodylen, Mem.be32, Mem.be16, Nat.add_assoc, h8, h9, h10, h11]

end Base
end NmMemcached
