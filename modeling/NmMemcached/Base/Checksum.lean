import NmMemcached.Base.Inl
import NmMemcached.Lib.OnesComplement

/-!
# Checksum — `CheckSum` and `Wrapsum` are the one's complement of a one's-complement sum

`CheckSum` adds up the words in 32 bits and brings the carries back in at the end.  Its length is
a `uint16_t`, so the sum does not overflow.  The byte behind an odd length is part of the last
word.
-/

namespace NmMemcached
namespace Base

open Lib OnesComplement

/-- At most 32768 words: the 32-bit sum is the plain sum. -/
theorem toNat_sumWords (m : Mem) (addr count : Nat) (sum : BitVec 32)
    (hfit : sum.toNat + 65535 * ((count + 1) / 2) < 4294967296) :
    (sumWords m addr count sum).toNat = sum.toNat + wordSum m addr ((count + 1) / 2) := by
  have hstep : ∀ (addr : Nat) (sum : BitVec 32), sum.toNat + 65535 < 4294967296 →
      (sum + BitVec.ofNat 32 (m.be16 addr)).toNat = sum.toNat + m.be16 addr := by
    intro addr sum hlt
    have hword := be16_lt m addr
    rw [BitVec.toNat_add, BitVec.toNat_ofNat]
    omega
  -- The induction follows the loop: two bytes a turn, and at the end none or one.
  induction addr, count, sum using sumWords.induct m with
  | case1 addr sum =>
      rfl
  | case2 addr sum =>
      -- The last byte alone: the source reads a whole word here too.
      rw [sumWords, hstep addr sum (by omega), wordSum_one]
  | case3 addr count sum ih =>
      have hhalf : (count + 2 + 1) / 2 = 1 + (count + 1) / 2 := by omega
      have hword := be16_lt m addr
      have hadd := hstep addr sum (by omega)
      rw [sumWords, ih (by omega), hadd, hhalf, wordSum_add, wordSum_one,
        Nat.mul_one]
      omega

/-! ## The folding loop -/

theorem toNat_and_ones (x : BitVec 32) : (x &&& 0xFFFF).toNat = x.toNat % 65536 := by
  have hones : (0xFFFF : BitVec 32).toNat = 65535 := rfl
  rw [BitVec.toNat_and, hones]
  exact Nat.and_two_pow_sub_one_eq_mod x.toNat 16

/-- One turn. -/
theorem toNat_carry (x : BitVec 32) :
    ((x &&& 0xffff#32) + (x >>> 16)).toNat = x.toNat % 65536 + x.toNat / 65536 := by
  have hlt := x.isLt
  have hlow : (x &&& 0xffff#32).toNat = x.toNat % 65536 := toNat_and_ones x
  rw [BitVec.toNat_add, hlow, BitVec.toNat_ushiftRight, Nat.shiftRight_eq_div_pow]
  simp only [Nat.reducePow]
  omega

theorem ushiftRight_eq_zero_iff (x : BitVec 32) : x >>> 16 = 0 ↔ x.toNat < 65536 := by
  rw [← BitVec.toNat_inj, BitVec.toNat_ushiftRight, Nat.shiftRight_eq_div_pow]
  simp only [BitVec.ofNat_eq_ofNat, BitVec.toNat_ofNat, Nat.reducePow, Nat.zero_mod]
  omega

theorem foldSum_of_lt {x : BitVec 32} (h : x.toNat < 65536) (n : Nat) : foldSum n x = x := by
  cases n with
  | zero =>
      rfl
  | succ n =>
      rw [foldSum, if_pos ((ushiftRight_eq_zero_iff x).2 h)]

theorem foldSum_of_ge {x : BitVec 32} (h : 65536 ≤ x.toNat) (n : Nat) :
    foldSum (n + 1) x = foldSum n ((x &&& 0xffff#32) + (x >>> 16)) := by
  rw [foldSum, if_neg (by rw [ushiftRight_eq_zero_iff]; omega)]
  rfl

/-- No turn changes the value up to carries. -/
theorem norm_foldSum (n : Nat) (x : BitVec 32) :
    norm 65536 (foldSum n x).toNat = norm 65536 x.toNat := by
  induction n generalizing x with
  | zero =>
      rfl
  | succ n ih =>
      by_cases hlt : x.toNat < 65536
      · rw [foldSum_of_lt hlt]
      · rw [foldSum_of_ge (by omega), ih, toNat_carry]
        exact norm_carry (by decide) x.toNat

/-- Two turns are enough. -/
theorem foldSum_lt (n : Nat) (x : BitVec 32) : (foldSum (n + 2) x).toNat < 65536 := by
  have hx := x.isLt
  by_cases hlt : x.toNat < 65536
  · rwa [foldSum_of_lt hlt]
  · have honce := toNat_carry x
    rw [foldSum_of_ge (by omega)]
    -- One turn leaves 131070 at most, so the carry of a second one is 1.
    by_cases hagain : ((x &&& 0xffff#32) + (x >>> 16)).toNat < 65536
    · rwa [foldSum_of_lt hagain]
    · have htwice := toNat_carry ((x &&& 0xffff#32) + (x >>> 16))
      rw [foldSum_of_ge (by omega), foldSum_of_lt (by omega)]
      omega

theorem toNat_foldSum (x : BitVec 32) : (foldSum 32 x).toNat = norm 65536 x.toNat := by
  rw [← norm_foldSum 32 x, norm_of_lt (foldSum_lt 30 x)]

/-! ## The checksum -/

theorem wrapsum_lt (x : BitVec 32) : wrapsum x < 65536 := by
  rw [wrapsum, toNat_and_ones]
  exact Nat.mod_lt _ (by decide)

theorem wrapsum_not {x : BitVec 32} (h : x.toNat < 65536) : wrapsum (~~~x) = 65535 - x.toNat := by
  have hnot : (~~~x).toNat = 4294967295 - x.toNat := BitVec.toNat_not
  rw [wrapsum, toNat_and_ones, hnot]
  omega

/-- What `CheckSum` and `Wrapsum` give for a range of bytes. -/
theorem wrapsum_checkSum (m : Mem) (data len : Nat) :
    wrapsum (checkSum m data len 0) =
      65535 - norm 65536 (wordSum m data ((len % 65536 + 1) / 2)) := by
  have hlen : len % 65536 < 65536 := Nat.mod_lt _ (by decide)
  have hzero : (0 : BitVec 32).toNat = 0 := rfl
  have hwords := toNat_sumWords m data (len % 65536) 0 (by rw [hzero]; omega)
  have hfold := toNat_foldSum (sumWords m data (len % 65536) 0)
  have hlt : (foldSum 32 (sumWords m data (len % 65536) 0)).toNat < 65536 := foldSum_lt 30 _
  rw [hwords, hzero, Nat.zero_add] at hfold
  rw [checkSum, ← hfold]
  exact wrapsum_not hlt

/-! ## A field that is set to its checksum -/

section Field

variable {m : Mem} {off data len : Nat}

/-- The two stores: the field is cleared while the sum is taken. -/
def setCksum (m : Mem) (off data len : Nat) : Mem :=
  (m.write off [0, 0]).write off
    (Mem.be16Bytes (wrapsum (checkSum (m.write off [0, 0]) data len 0)))

theorem setCksum_of_out {i : Nat} (h : i < off ∨ off + 2 ≤ i) :
    setCksum m off data len i = m i := by
  rw [setCksum, Mem.write_of_disjoint (by simpa using h), Mem.write_of_disjoint (by simpa using h)]

theorem be16_cleared (m : Mem) (off : Nat) : (m.write off [0, 0]).be16 off = 0 := by
  have hzero : [0, 0] = Mem.be16Bytes 0 := by decide
  rw [hzero, Mem.be16_write_be16Bytes m off (by decide)]

theorem be16_setCksum : (setCksum m off data len).be16 off =
    65535 - norm 65536 (wordSum (m.write off [0, 0]) data ((len % 65536 + 1) / 2)) := by
  rw [setCksum, Mem.be16_write_be16Bytes _ _ (wrapsum_lt _), wrapsum_checkSum]

/-- The sum with the field in it. -/
theorem wordSum_setCksum {j : Nat} (hoff : off = data + 2 * j)
    (hj : j < (len % 65536 + 1) / 2) :
    wordSum (setCksum m off data len) data ((len % 65536 + 1) / 2) =
      wordSum (m.write off [0, 0]) data ((len % 65536 + 1) / 2) +
        (65535 - norm 65536 (wordSum (m.write off [0, 0]) data ((len % 65536 + 1) / 2))) := by
  have hsame : ∀ i < 2 * ((len % 65536 + 1) / 2), i ≠ 2 * j → i ≠ 2 * j + 1 →
      setCksum m off data len (data + i) = m.write off [0, 0] (data + i) := by
    intro i _ hlo hhi
    have hout : data + i < off ∨ off + 2 ≤ data + i := by omega
    rw [setCksum_of_out hout, Mem.write_of_disjoint (by simpa using hout)]
  have hone := wordSum_of_one_word hj hsame
  rw [← hoff, be16_cleared, be16_setCksum] at hone
  exact hone

/-- The field makes the sum all ones. -/
theorem ones_setCksum {j : Nat} (hoff : off = data + 2 * j) (hj : j < (len % 65536 + 1) / 2) :
    wordSum (setCksum m off data len) data ((len % 65536 + 1) / 2) ≠ 0 ∧
      65535 ∣ wordSum (setCksum m off data len) data ((len % 65536 + 1) / 2) := by
  rw [wordSum_setCksum hoff hj]
  exact dvd_add_complement (B := 65536) (by decide) _

/-- A message whose second word is set to a checksum over `len` bytes, for a message of `msgLen`
bytes. -/
theorem messageSum_setCksum {msg msgLen : Nat} (hword : 4 ≤ msgLen) (hle : msgLen ≤ len)
    (hlen : len < 65536) :
    messageSum (setCksum m (msg + 2) msg len) msg msgLen =
      m.be16 msg + messageSum m (msg + 4) (msgLen - 4) +
        (65535 - norm 65536 (m.be16 msg + messageSum m (msg + 4) (msgLen - 4) +
          excess m msg msgLen len)) := by
  have hsame : ∀ i, i < msg + 2 ∨ msg + 4 ≤ i → (m.write (msg + 2) [0, 0]) i = m i :=
    fun i hi => Mem.write_of_disjoint (by simpa using hi)
  have hset : ∀ i, i < msg + 2 ∨ msg + 4 ≤ i → setCksum m (msg + 2) msg len i = m i :=
    fun i hi => setCksum_of_out hi
  have hmod : len % 65536 = len := Nat.mod_eq_of_lt hlen
  -- The sum is taken with the field cleared.
  have hexcess : excess (m.write (msg + 2) [0, 0]) msg msgLen len = excess m msg msgLen len :=
    excess_congr fun i _ => hsame _ (by omega)
  have hcleared : wordSum (m.write (msg + 2) [0, 0]) msg ((len + 1) / 2) =
      m.be16 msg + messageSum m (msg + 4) (msgLen - 4) + excess m msg msgLen len := by
    rw [wordSum_eq_messageSum_add hle, messageSum_of_second_word hword hsame, be16_cleared,
      Nat.add_zero, hexcess]
  rw [messageSum_of_second_word hword hset, be16_setCksum, hmod, hcleared]
  omega

/-- With what was added up behind it, the message is a multiple. -/
theorem dvd_messageSum_setCksum {msg msgLen : Nat} (hword : 4 ≤ msgLen) (hle : msgLen ≤ len)
    (hlen : len < 65536) :
    65535 ∣ messageSum (setCksum m (msg + 2) msg len) msg msgLen + excess m msg msgLen len := by
  rw [messageSum_setCksum hword hle hlen, Nat.add_right_comm]
  exact (dvd_add_complement (B := 65536) (by decide) _).2

end Field

end Base
end NmMemcached
