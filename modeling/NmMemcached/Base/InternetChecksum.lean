import NmMemcached.Base.Checksum

/-!
# InternetChecksum — when `CheckSum` is the checksum of a byte sequence

The checksum is over the sequence alone, and an odd last byte is padded with a zero byte.  The
tail of `CheckSum` reads a whole word there, so that the byte behind the sequence is added as well.
The loops are right in any case: no addition overflows and the folding ends.
-/

namespace NmMemcached
namespace Base

open Lib OnesComplement

/-! ## The loops -/

/-- No addition of the word loop leaves 32 bits. -/
def AddsFit (m : Mem) : Nat → Nat → BitVec 32 → Prop
  | _, 0, _ => True
  | addr, 1, sum => sum.toNat + m.be16 addr < 4294967296
  | addr, count + 2, sum =>
      sum.toNat + m.be16 addr < 4294967296 ∧
        AddsFit m (addr + 2) count (sum + BitVec.ofNat 32 (m.be16 addr))

theorem addsFit_of_fit (m : Mem) (addr count : Nat) (sum : BitVec 32)
    (hfit : sum.toNat + 65535 * ((count + 1) / 2) < 4294967296) : AddsFit m addr count sum := by
  induction addr, count, sum using AddsFit.induct m with
  | case1 addr sum =>
      trivial
  | case2 addr sum =>
      have hword := be16_lt m addr
      rw [AddsFit]
      omega
  | case3 addr count sum ih =>
      have hword := be16_lt m addr
      have hadd : (sum + BitVec.ofNat 32 (m.be16 addr)).toNat = sum.toNat + m.be16 addr := by
        rw [BitVec.toNat_add, BitVec.toNat_ofNat]
        omega
      rw [AddsFit]
      refine ⟨by omega, ih ?_⟩
      rw [hadd]
      omega

/-- `while (_sum>>16) _sum = (_sum & 0xffff) + (_sum >> 16)` leaves its last value, with no bound
on the turns. -/
inductive FoldsTo : BitVec 32 → BitVec 32 → Prop where
  | stop {sum : BitVec 32} :
      sum >>> 16 = 0 → FoldsTo sum sum
  | turn {sum res : BitVec 32} :
      sum >>> 16 ≠ 0 → FoldsTo ((sum &&& 0xffff) + (sum >>> 16)) res → FoldsTo sum res

/-- A bound that is not reached changes nothing. -/
theorem foldsTo_foldSum {n : Nat} {x : BitVec 32} (h : (foldSum n x).toNat < 65536) :
    FoldsTo x (foldSum n x) := by
  induction n generalizing x with
  | zero =>
      exact FoldsTo.stop ((ushiftRight_eq_zero_iff x).2 h)
  | succ n ih =>
      by_cases hlt : x.toNat < 65536
      · rw [foldSum_of_lt hlt]
        exact FoldsTo.stop ((ushiftRight_eq_zero_iff x).2 hlt)
      · rw [foldSum_of_ge (by omega)] at h ⊢
        refine FoldsTo.turn ?_ (ih h)
        rw [Ne, ushiftRight_eq_zero_iff]
        exact hlt

theorem foldFits (x : BitVec 32) : (x &&& 0xffff).toNat + (x >>> 16).toNat < 4294967296 := by
  have hlt := x.isLt
  rw [toNat_and_ones, BitVec.toNat_ushiftRight, Nat.shiftRight_eq_div_pow]
  simp only [Nat.reducePow]
  omega

/-! ## The value -/

section Value

variable {m : Mem} {data len : Nat}

/-- What the sequence should give. -/
theorem sum_paddedWords (m : Mem) (data len : Nat) :
    sum 65536 (paddedWords (m.read data len)) = norm 65536 (messageSum m data len) := by
  rw [← messageWords_eq_paddedWords]
  exact sum_eq_norm (by decide) (messageWords_lt m data len)

/-- What it gives. -/
theorem wrapsum_checkSum_excess (hlen : len < 65536) :
    wrapsum (checkSum m data len 0) =
      65535 - norm 65536 (messageSum m data len + excess m data len len) := by
  rw [wrapsum_checkSum, Nat.mod_eq_of_lt hlen, wordSum_eq_messageSum_add (Nat.le_refl len)]

theorem excess_self_eq_zero_iff :
    excess m data len len = 0 ↔ len % 2 = 0 ∨ m (data + len) = 0 := by
  rw [excess_self]
  split
  · rename_i hodd
    have hbyte : (m (data + len)).toNat = 0 ↔ m (data + len) = 0 :=
      UInt8.toNat_inj (b := 0)
    rw [hbyte]
    exact ⟨Or.inr, fun h => h.resolve_left (by omega)⟩
  · rename_i heven
    exact ⟨fun _ => Or.inl (by omega), fun _ => rfl⟩

theorem wrapsum_checkSum_eq_iff (hlen : len < 65536) :
    wrapsum (checkSum m data len 0) = 65535 - sum 65536 (paddedWords (m.read data len)) ↔
      len % 2 = 0 ∨ m (data + len) = 0 := by
  have hgiven := norm_lt (B := 65536) (by decide) (messageSum m data len + excess m data len len)
  have hwanted := norm_lt (B := 65536) (by decide) (messageSum m data len)
  -- One byte is not enough to come round to the same sum again.
  have hbyte : excess m data len len < 65536 - 1 := by
    have hlt := (m (data + len)).toNat_lt
    rw [excess_self]
    split <;> omega
  rw [wrapsum_checkSum_excess hlen, sum_paddedWords, ← excess_self_eq_zero_iff,
    ← norm_add_eq_iff (n := messageSum m data len) hbyte]
  omega

/-- The result in a field that was zero. -/
theorem sum_field (hlen : len < 65536) (hexact : excess m data len len = 0) {j : Nat}
    (hj : 2 * j + 2 ≤ len) (hzero : m.be16 (data + 2 * j) = 0) :
    sum 65536 (paddedWords ((m.write (data + 2 * j)
      (Mem.be16Bytes (wrapsum (checkSum m data len 0)))).read data len)) = 0xFFFF := by
  have hvalue : wrapsum (checkSum m data len 0) = 65535 - norm 65536 (messageSum m data len) := by
    rw [wrapsum_checkSum_excess hlen, hexact, Nat.add_zero]
  have hstored := Mem.be16_write_be16Bytes m (data + 2 * j) (wrapsum_lt (checkSum m data len 0))
  have hout : ∀ i, i < data + 2 * j ∨ data + 2 * j + 2 * 1 ≤ i →
      m.write (data + 2 * j) (Mem.be16Bytes (wrapsum (checkSum m data len 0))) i = m i :=
    fun i hi => Mem.write_of_disjoint (by simpa using hi)
  have hwindow := messageSum_of_window hj hout
  rw [wordSum_one, wordSum_one, hzero, hstored, Nat.add_zero, hvalue] at hwindow
  rw [← messageWords_eq_paddedWords, sum_eq_ones_iff (by decide) (messageWords_lt _ _ _),
    ← messageSum, hvalue, hwindow]
  exact dvd_add_complement (B := 65536) (by decide) _

end Value

/-! ## The Internet checksum -/

/-- `CheckSum` is the Internet checksum of the `len` bytes at `data`: the value `Wrapsum` stores,
the additions of both loops and their end, and a zeroed word of the sequence that is set to the
value. -/
structure InternetChecksum (m : Mem) (data len : Nat) : Prop where
  value : wrapsum (checkSum m data len 0) = 65535 - sum 65536 (paddedWords (m.read data len))
  addsFit : AddsFit m data len 0
  foldFits : ∀ x : BitVec 32, (x &&& 0xffff).toNat + (x >>> 16).toNat < 4294967296
  ends : FoldsTo (sumWords m data len 0) (~~~ checkSum m data len 0)
  field : ∀ j, 2 * j + 2 ≤ len → m.be16 (data + 2 * j) = 0 →
    sum 65536 (paddedWords ((m.write (data + 2 * j)
      (Mem.be16Bytes (wrapsum (checkSum m data len 0)))).read data len)) = 0xFFFF

/-- It is for an even length, and when the byte behind the sequence is the padding by chance. -/
theorem internetChecksum_iff {m : Mem} {data len : Nat} (hlen : len < 65536) :
    InternetChecksum m data len ↔ len % 2 = 0 ∨ m (data + len) = 0 := by
  constructor
  · intro h
    exact (wrapsum_checkSum_eq_iff hlen).1 h.value
  · intro hpad
    refine ⟨(wrapsum_checkSum_eq_iff hlen).2 hpad, addsFit_of_fit m data len 0 ?_, foldFits, ?_,
      fun j => sum_field hlen (excess_self_eq_zero_iff.2 hpad)⟩
    · have hzero : (0 : BitVec 32).toNat = 0 := rfl
      omega
    · rw [checkSum, Nat.mod_eq_of_lt hlen, BitVec.not_not]
      exact foldsTo_foldSum (foldSum_lt 30 _)

/-- A whole word. -/
theorem internetChecksum_word :
    2 < 65536 ∧ InternetChecksum (fun i => UInt8.ofNat (i + 1)) 0 2 :=
  ⟨by decide, (internetChecksum_iff (by decide)).2 (Or.inl rfl)⟩

/-- One byte `0x01` in front of `0xff`: the word `0x01ff` is summed, not `0x0100`. -/
theorem not_internetChecksum_byte :
    ¬ InternetChecksum (fun i => if i = 0 then 0x01 else 0xff) 0 1 := by
  intro h
  have hvalue := h.value
  revert hvalue
  decide

end Base
end NmMemcached
