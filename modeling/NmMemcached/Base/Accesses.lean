import NmMemcached.Base.Def
import NmMemcached.Base.Inl
import NmMemcached.Lib.Access

/-!
# Accesses — what the validator and the loops of `inc/nmmc.inl` read

`validate_header`, `Hash32` and `CheckSum` as programs over the memory of a packet.  Each runs as
the function of its name, and has a lemma that says which bytes it needs.
-/

namespace NmMemcached
namespace Base

open Lib

/-! ## Hash32 -/

def hash32LoopProg (key : Nat) : Nat → BitVec 32 → Prog (BitVec 32)
  | 0, hash => pure hash
  | n + 1, hash => do
      let b ← Prog.byte (key + n)
      hash32LoopProg key n (((hash <<< 5) + hash) ^^^ b.toBitVec.setWidth 32)

def hash32Prog (key len : Nat) : Prog (BitVec 32) := hash32LoopProg key len 5381

section Hash32

variable (m : Mem) (key : Nat)

theorem run_hash32LoopProg (n : Nat) (hash : BitVec 32) :
    (hash32LoopProg key n hash).run m = (hash32Loop m key n hash, m) := by
  induction n generalizing hash with
  | zero =>
      rfl
  | succ n ih =>
      simp [hash32LoopProg, hash32Loop, ih]

@[simp] theorem run_hash32Prog (len : Nat) :
    (hash32Prog key len).run m = (hash32 m key len, m) := run_hash32LoopProg m key len 5381

theorem within_hash32LoopProg {bound : Nat} (n : Nat) (hash : BitVec 32) :
    (hash32LoopProg key n hash).Within bound m ↔ n = 0 ∨ key + n ≤ bound := by
  induction n generalizing hash with
  | zero =>
      simp [hash32LoopProg]
  | succ n ih =>
      simp [hash32LoopProg, ih]
      omega

@[simp] theorem within_hash32Prog {bound : Nat} (len : Nat) :
    (hash32Prog key len).Within bound m ↔ len = 0 ∨ key + len ≤ bound :=
  within_hash32LoopProg m key len 5381

end Hash32

/-! ## CheckSum -/

def sumWordsProg : Nat → Nat → BitVec 32 → Prog (BitVec 32)
  | _, 0, sum => pure sum
  | addr, 1, sum => do
      -- A whole word, although one byte is left.
      let w ← Prog.be16 addr
      pure (sum + BitVec.ofNat 32 w)
  | addr, count + 2, sum => do
      let w ← Prog.be16 addr
      sumWordsProg (addr + 2) count (sum + BitVec.ofNat 32 w)

def checkSumProg (data len : Nat) (sum : BitVec 32) : Prog (BitVec 32) := do
  let sum ← sumWordsProg data (len % 65536) sum
  pure (~~~ foldSum 32 sum)

section CheckSum

variable (m : Mem)

theorem run_sumWordsProg (addr count : Nat) (sum : BitVec 32) :
    (sumWordsProg addr count sum).run m = (sumWords m addr count sum, m) := by
  induction addr, count, sum using sumWords.induct m with
  | case1 addr sum =>
      rfl
  | case2 addr sum =>
      rfl
  | case3 addr count sum ih =>
      simp [sumWordsProg, sumWords, ih]

@[simp] theorem run_checkSumProg (data len : Nat) (sum : BitVec 32) :
    (checkSumProg data len sum).run m = (checkSum m data len sum, m) := by
  simp [checkSumProg, checkSum, run_sumWordsProg]

/-- An odd count needs the byte behind it as well. -/
theorem within_sumWordsProg {bound : Nat} (addr count : Nat) (sum : BitVec 32) :
    (sumWordsProg addr count sum).Within bound m ↔
      count = 0 ∨ addr + count + count % 2 ≤ bound := by
  induction addr, count, sum using sumWords.induct m with
  | case1 addr sum =>
      simp [sumWordsProg]
  | case2 addr sum =>
      simp only [sumWordsProg, Prog.within_bind, Prog.within_be16, Prog.run_be16, Prog.after_mk,
        Prog.within_pure, and_true]
      omega
  | case3 addr count sum ih =>
      simp [sumWordsProg, ih]
      omega

@[simp] theorem within_checkSumProg {bound : Nat} (data len : Nat) (sum : BitVec 32) :
    (checkSumProg data len sum).Within bound m ↔
      len % 65536 = 0 ∨ data + len % 65536 + len % 65536 % 2 ≤ bound := by
  simp [checkSumProg, within_sumWordsProg, run_sumWordsProg]

theorem keeps_sumWordsProg (a addr count : Nat) (sum : BitVec 32) :
    (sumWordsProg addr count sum).Keeps a m := by
  induction addr, count, sum using sumWords.induct m with
  | case1 addr sum =>
      simp [sumWordsProg]
  | case2 addr sum =>
      simp [sumWordsProg]
  | case3 addr count sum ih =>
      simp [sumWordsProg, ih]

@[simp] theorem keeps_checkSumProg (a data len : Nat) (sum : BitVec 32) :
    (checkSumProg data len sum).Keeps a m := by
  simp [checkSumProg, keeps_sumWordsProg, run_sumWordsProg]

end CheckSum

/-! ## The validator -/

def validateHeaderProg (p ln : Nat) : Prog Bool := do
  let magic ← Prog.byte p
  if magic ≠ magicRequest then return false
  let opcode ← Prog.byte (p + 1)
  if ¬ (opcode = opcodeGet ∨ opcode = opcodeSet) then return false
  let datatype ← Prog.byte (p + 5)
  if datatype ≠ 0 then return false
  if opcode = opcodeGet then
    let extlen ← Prog.byte (p + 4)
    if extlen ≠ 0 then return false
    let keylen ← Prog.be16 (p + 2)
    if keylen = 0 then return false
    let bodylen ← Prog.be32 (p + 8)
    if bodylen ≠ keylen then return false
    return decide (bodylen + headerLen = ln)
  else
    let extlen ← Prog.byte (p + 4)
    if extlen = 0 then return false
    let keylen ← Prog.be16 (p + 2)
    if keylen = 0 then return false
    let bodylen ← Prog.be32 (p + 8)
    if bodylen = 0 then return false
    return decide (bodylen + headerLen = ln)

section Validator

variable (m : Mem) (p ln : Nat)

@[simp] theorem run_validateHeaderProg :
    (validateHeaderProg p ln).run m = (validateHeader m p ln, m) := by
  -- Rewriting with these leaves the kernel no program to evaluate.
  have hbyte : ∀ off, (Prog.byte off).run m = (m off, m) := Prog.run_byte m
  have hbe16 : ∀ off, (Prog.be16 off).run m = (m.be16 off, m) := Prog.run_be16 m
  have hbe32 : ∀ off, (Prog.be32 off).run m = (m.be32 off, m) := Prog.run_be32 m
  have hresult := apply_ite (fun valid : Bool => (valid, m))
  unfold validateHeader Header.magic Header.opcode Header.datatype Header.extlen Header.keylen
    Header.bodylen
  simp only [validateHeaderProg, Prog.run_bind, hbyte, hbe16, hbe32, Prog.after_mk, Prog.run_ite,
    Prog.run_pure, hresult]

/-- The bytes of a header that the validator looks at; it stops at the first test that fails. -/
def headerReach : Nat :=
  if Header.magic m p ≠ magicRequest then 1
  else if ¬ (Header.opcode m p = opcodeGet ∨ Header.opcode m p = opcodeSet) then 2
  else if Header.datatype m p ≠ 0 then 6
  else if Header.opcode m p = opcodeGet then
    if Header.extlen m p ≠ 0 then 6 else if Header.keylen m p = 0 then 6 else 12
  else
    if Header.extlen m p = 0 then 6 else if Header.keylen m p = 0 then 6 else 12

@[simp] theorem within_validateHeaderProg {bound : Nat} :
    (validateHeaderProg p ln).Within bound m ↔ p + headerReach m p ≤ bound := by
  unfold validateHeaderProg headerReach Header.magic Header.opcode Header.datatype Header.extlen
    Header.keylen
  simp only [Prog.within_bind, Prog.within_byte, Prog.within_be16, Prog.within_be32,
    Prog.run_byte, Prog.run_be16, Prog.run_be32, Prog.after_mk, Prog.within_ite, Prog.within_pure]
  split_ifs <;> simp only [and_true] <;> omega

theorem headerReach_congr {m m' : Mem} {p p' : Nat}
    (h : ∀ i < headerLen, m (p + i) = m' (p' + i)) : headerReach m p = headerReach m' p' := by
  have hmagic : Header.magic m p = Header.magic m' p' := h 0 (by decide)
  have hopcode : Header.opcode m p = Header.opcode m' p' := h 1 (by decide)
  have hdatatype : Header.datatype m p = Header.datatype m' p' := h 5 (by decide)
  have hextlen : Header.extlen m p = Header.extlen m' p' := h 4 (by decide)
  simp only [headerReach, hmagic, hopcode, hdatatype, hextlen, keylen_congr h]

theorem headerReach_of_valid (h : validateHeader m p ln = true) : headerReach m p = 12 := by
  rcases ((validateHeader_iff m p ln).1 h).1 with
    ⟨hmagic, htype, ⟨hop, hext, hkey, _⟩ | ⟨hop, hext, hkey, _⟩⟩
  · simp [headerReach, hmagic, htype, hop, hext, hkey]
  · have hne : opcodeSet ≠ opcodeGet := by decide
    simp [headerReach, hmagic, htype, hop, hext, hkey, hne]

end Validator

end Base
end NmMemcached
