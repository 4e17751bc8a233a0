import NmMemcached.Server.Mysql

/-!
# HexValues — what a statement says about the value of a SET

`Bin2Hex` prints a byte below 16 with one digit.  `hexExact_iff` says for which values that does
no harm: two values are both written with two digits a byte, read back as they were, and kept
apart by their statements exactly when no byte of either is below 16.
-/

namespace NmMemcached
namespace Server

open Lib Base

/-- A value of at least one byte, where a pointer finds it. -/
structure ValueAt where
  mem : Mem
  addr : Nat
  len : Nat
  len_pos : 1 ≤ len

namespace ValueAt

def bytes (v : ValueAt) : List UInt8 := v.mem.read v.addr v.len

/-- `Bin2Hex(val, vlen)`. -/
def hexval (v : ValueAt) : List Char := bin2Hex v.mem v.addr v.len

/-- No byte is printed with a single digit. -/
def TwoDigits (v : ValueAt) : Prop := ∀ b ∈ v.bytes, 16 ≤ b.toNat

theorem hexval_eq (v : ValueAt) : v.hexval = Hex.short v.bytes := rfl

theorem length_bytes (v : ValueAt) : v.bytes.length = v.len := Mem.length_read _ _ _

theorem bytes_ne_nil (v : ValueAt) : v.bytes ≠ [] := by
  intro hnil
  have hlen := v.length_bytes
  have hpos := v.len_pos
  rw [hnil, List.length_nil] at hlen
  omega

/-! ## One value -/

/-- The digits of a value, and the literal that is made of them. -/
structure Lossless (v : ValueAt) : Prop where
  length : v.hexval.length = 2 * v.len
  lower : ∀ c ∈ v.hexval, Hex.isLowerDigit c = true
  decoded : Hex.ofDigits v.hexval = v.bytes
  /-- `0x` is followed by digits, and by one at least. -/
  wellFormed : v.hexval ≠ [] ∧ ∀ c ∈ v.hexval, Hex.isDigit c = true

theorem lossless_iff (v : ValueAt) : v.Lossless ↔ v.TwoDigits := by
  constructor
  · intro h
    have hdecoded := h.decoded
    rw [hexval_eq] at hdecoded
    exact Hex.ofDigits_short_iff.1 hdecoded
  · intro h
    refine ⟨?_, ?_, ?_, ?_, ?_⟩
    · rw [hexval_eq, Hex.short_of_forall_le h, Hex.length_full, length_bytes]
    · intro c hc
      exact Hex.isLowerDigit_of_mem_short hc
    · exact Hex.ofDigits_short_iff.2 h
    · exact Hex.short_ne_nil v.bytes_ne_nil
    · intro c hc
      exact Hex.isDigit_of_mem_short hc

end ValueAt

/-! ## Two values -/

/-- Two values for one key: nothing is lost of either, and different values have different
statements. -/
def HexExact (key : Nat) (v w : ValueAt) : Prop :=
  v.Lossless ∧ w.Lossless ∧
    (v.bytes ≠ w.bytes → setStatement key v.hexval ≠ setStatement key w.hexval)

/-- A statement determines its digits. -/
theorem hexval_of_setStatement {key : Nat} {v w : ValueAt}
    (h : setStatement key v.hexval = setStatement key w.hexval) : v.hexval = w.hexval := by
  have hv : ∀ c ∈ v.hexval, Hex.isDigit c = true := fun _ hc => Hex.isDigit_of_mem_short hc
  have hw : ∀ c ∈ w.hexval, Hex.isDigit c = true := fun _ hc => Hex.isDigit_of_mem_short hc
  rw [← MemDb.literalText_setStatement key hv, h, MemDb.literalText_setStatement key hw]

/-- The encoding is lossless for exactly the values without a byte below 16. -/
theorem hexExact_iff (key : Nat) (v w : ValueAt) :
    HexExact key v w ↔ v.TwoDigits ∧ w.TwoDigits := by
  constructor
  · rintro ⟨hv, hw, _⟩
    exact ⟨v.lossless_iff.1 hv, w.lossless_iff.1 hw⟩
  · rintro ⟨hv, hw⟩
    have hlossv := v.lossless_iff.2 hv
    have hlossw := w.lossless_iff.2 hw
    refine ⟨hlossv, hlossw, ?_⟩
    intro hne hsame
    apply hne
    rw [← hlossv.decoded, ← hlossw.decoded, hexval_of_setStatement hsame]

/-- The bytes of a value, in an otherwise empty memory. -/
def valueOf (b : UInt8) (bs : List UInt8) : ValueAt :=
  ⟨Mem.write (fun _ => 0) 0 (b :: bs), 0, bs.length + 1, Nat.succ_pos _⟩

theorem bytes_valueOf (b : UInt8) (bs : List UInt8) : (valueOf b bs).bytes = b :: bs :=
  Mem.read_write_self _ 0 (b :: bs)

/-- `01 23` and `12 03` are both written `0x123`. -/
theorem not_hexExact :
    setStatement 5 (valueOf 0x01 [0x23]).hexval = setStatement 5 (valueOf 0x12 [0x03]).hexval ∧
      ¬ ∀ key v w, HexExact key v w := by
  have hfirst : (valueOf 0x01 [0x23]).hexval = ['1', '2', '3'] := by
    rw [ValueAt.hexval_eq, bytes_valueOf]
    decide
  have hsecond : (valueOf 0x12 [0x03]).hexval = ['1', '2', '3'] := by
    rw [ValueAt.hexval_eq, bytes_valueOf]
    decide
  have hsame : setStatement 5 (valueOf 0x01 [0x23]).hexval =
      setStatement 5 (valueOf 0x12 [0x03]).hexval := by
    rw [hfirst, hsecond]
  refine ⟨hsame, ?_⟩
  intro h
  refine (h 5 (valueOf 0x01 [0x23]) (valueOf 0x12 [0x03])).2.2 ?_ hsame
  rw [bytes_valueOf, bytes_valueOf]
  decide

end Server
end NmMemcached
