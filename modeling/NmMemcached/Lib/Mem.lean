import Mathlib.Tactic.Common
import Mathlib.Tactic.Ring

/-!
# Mem — bytes behind a pointer

A `Mem` is the memory a pointer looks at: index `i` is the byte at distance `i`, and there is
always a next byte.  `read` and `write` move whole byte strings (`memcpy`), the remaining accessors
are the fixed-width fields of network headers: big-endian fields are read with the value `ntohs`
and `ntohl` give, little-endian ones as the host loads them.

The lemmas are of three kinds: the length of what is read, reading back what was written, and
reading past a write (`*_write_of_disjoint`).
-/

namespace NmMemcached
namespace Lib

/-- The bytes at and behind a pointer. -/
abbrev Mem := Nat → UInt8

namespace Mem

def read (m : Mem) (off n : Nat) : List UInt8 :=
  (List.range n).map fun i => m (off + i)

def write (m : Mem) (off : Nat) (bs : List UInt8) : Mem :=
  fun i => if i < off then m i else bs[i - off]?.getD (m i)

/-! ## Single bytes -/

theorem write_of_lt {m : Mem} {off i : Nat} {bs : List UInt8} (h : i < off) :
    m.write off bs i = m i := by
  simp [write, h]

theorem write_of_le {m : Mem} {off i : Nat} {bs : List UInt8} (h : off + bs.length ≤ i) :
    m.write off bs i = m i := by
  have hge : ¬ i < off := by omega
  have hnone : bs[i - off]? = none := List.getElem?_eq_none (by omega)
  simp [write, hge, hnone]

theorem write_of_disjoint {m : Mem} {off i : Nat} {bs : List UInt8}
    (h : i < off ∨ off + bs.length ≤ i) : m.write off bs i = m i := by
  rcases h with h | h
  · exact write_of_lt h
  · exact write_of_le h

theorem write_add {m : Mem} {off i : Nat} {bs : List UInt8} (h : i < bs.length) :
    m.write off bs (off + i) = bs[i] := by
  have hge : ¬ off + i < off := by omega
  simp [write, hge, h]

/-! ## Byte strings -/

@[simp] theorem length_read (m : Mem) (off n : Nat) : (m.read off n).length = n := by
  simp [read]

theorem read_congr {m m' : Mem} {off off' n : Nat} (h : ∀ i < n, m (off + i) = m' (off' + i)) :
    m.read off n = m'.read off' n := by
  apply List.map_congr_left
  intro i hi
  exact h i (List.mem_range.1 hi)

/-- Two windows in a row. -/
theorem read_add (m : Mem) (off n k : Nat) :
    m.read off (n + k) = m.read off n ++ m.read (off + n) k := by
  simp [read, List.range_add, Nat.add_assoc]

theorem take_read (m : Mem) (off : Nat) {n k : Nat} (h : k ≤ n) :
    (m.read off n).take k = m.read off k := by
  simp [read, ← List.map_take, List.take_range, Nat.min_eq_left h]

theorem getElem_read {m : Mem} {off n i : Nat} (h : i < (m.read off n).length) :
    (m.read off n)[i] = m (off + i) := by
  simp [read]

theorem read_write_self (m : Mem) (off : Nat) (bs : List UInt8) :
    (m.write off bs).read off bs.length = bs := by
  apply List.ext_getElem
  · simp
  · intro i hi hi'
    rw [getElem_read hi, write_add hi']

theorem read_write_of_disjoint {m : Mem} {off woff n : Nat} {bs : List UInt8}
    (h : off + n ≤ woff ∨ woff + bs.length ≤ off) :
    (m.write woff bs).read off n = m.read off n := by
  apply read_congr
  intro i hi
  apply write_of_disjoint
  omega

/-- Two windows with the same bytes agree byte by byte. -/
theorem apply_of_read_eq {m m' : Mem} {off off' n : Nat} (h : m.read off n = m'.read off' n)
    {i : Nat} (hi : i < n) : m (off + i) = m' (off' + i) := by
  have hget := congrArg (fun bs : List UInt8 => bs[i]?) h
  simpa [read, hi] using hget

theorem apply_of_read {m : Mem} {off n : Nat} {bs : List UInt8} (h : m.read off n = bs) {i : Nat}
    (hi : i < bs.length) : m (off + i) = bs[i] := by
  subst h
  exact (getElem_read hi).symm

/-- A part of a window. -/
theorem read_of_read_append {m : Mem} {off n : Nat} (as bs cs : List UInt8)
    (h : m.read off n = as ++ bs ++ cs) : m.read (off + as.length) bs.length = bs := by
  apply List.ext_getElem
  · simp
  · intro i hi hi'
    have hlt : as.length + i < (as ++ bs ++ cs).length := by
      simp
      omega
    have hbyte := apply_of_read h hlt
    rw [getElem_read hi, Nat.add_assoc, hbyte]
    simp [hi']

/-! ## Blocks

Writes that touch are one write, and writes apart from each other can be exchanged; a message
that is built field by field is brought to a few blocks with these.
-/

theorem write_append (m : Mem) (off : Nat) (a b : List UInt8) :
    m.write off (a ++ b) = (m.write off a).write (off + a.length) b := by
  funext i
  -- An index lies in front of both parts, in the first, or behind it.
  by_cases hlo : i < off
  · simp [write, hlo, show i < off + a.length by omega]
  · by_cases hmid : i < off + a.length
    · have hin : i - off < a.length := by omega
      simp [write, hlo, hmid, hin, List.getElem?_append_left]
    · have hge : a.length ≤ i - off := by omega
      have hsub : i - (off + a.length) = i - off - a.length := by omega
      simp [write, hlo, hmid, hsub, List.getElem?_append_right hge, List.getElem?_eq_none hge]

theorem write_comm {m : Mem} {off off' : Nat} {a b : List UInt8} (h : off + a.length ≤ off') :
    (m.write off' b).write off a = (m.write off a).write off' b := by
  funext i
  -- No index is in reach of both writes.
  by_cases hlo : i < off + a.length
  · have hb : ∀ m' : Mem, m'.write off' b i = m' i := fun m' => write_of_lt (by omega)
    have ha : (m.write off' b).write off a i = m.write off a i := by
      unfold write
      simp [show i < off' by omega]
    rw [hb, ha]
  · have ha : ∀ m' : Mem, m'.write off a i = m' i := fun m' => write_of_le (by omega)
    rw [ha]
    unfold write
    by_cases hi : i < off'
    · have hnone : a[i - off]? = none := List.getElem?_eq_none (by omega)
      simp [hi, hnone]
    · have hnone : a[i - off]? = none := List.getElem?_eq_none (by omega)
      simp [hi, hnone]

/-- The whole of what was written, cut at the length of a first part. -/
theorem read_write_of_length {m : Mem} {off n : Nat} {bs : List UInt8} (h : bs.length = n) :
    (m.write off bs).read off n = bs := by
  subst h
  exact read_write_self m off bs

/-! ## Fixed-width fields -/

/-- A 16-bit network-order field, as `ntohs` gives it. -/
def be16 (m : Mem) (off : Nat) : Nat :=
  (m off).toNat * 256 + (m (off + 1)).toNat

/-- A 32-bit network-order field, as `ntohl` gives it. -/
def be32 (m : Mem) (off : Nat) : Nat :=
  m.be16 off * 65536 + m.be16 (off + 2)

/-- The bytes `htons` stores. -/
def be16Bytes (n : Nat) : List UInt8 :=
  [UInt8.ofNat (n / 256), UInt8.ofNat n]

/-- The bytes `htonl` stores. -/
def be32Bytes (n : Nat) : List UInt8 :=
  be16Bytes (n / 65536) ++ be16Bytes n

/-- A 32-bit field loaded in host (little-endian) order. -/
def le32 (m : Mem) (off : Nat) : BitVec 32 :=
  (m (off + 3)).toBitVec ++ (m (off + 2)).toBitVec ++ (m (off + 1)).toBitVec ++ (m off).toBitVec

/-- The bytes a little-endian host stores for a 16-bit value. -/
def le16Bytes (n : Nat) : List UInt8 :=
  [UInt8.ofNat n, UInt8.ofNat (n / 256)]

/-- The bytes a little-endian host stores for a 32-bit value. -/
def le32Bytes (x : BitVec 32) : List UInt8 :=
  [⟨x.extractLsb' 0 8⟩, ⟨x.extractLsb' 8 8⟩, ⟨x.extractLsb' 16 8⟩, ⟨x.extractLsb' 24 8⟩]

@[simp] theorem length_be16Bytes (n : Nat) : (be16Bytes n).length = 2 := rfl

@[simp] theorem length_be32Bytes (n : Nat) : (be32Bytes n).length = 4 := rfl

@[simp] theorem length_le32Bytes (x : BitVec 32) : (le32Bytes x).length = 4 := rfl

theorem be32_write_be32Bytes (m : Mem) (off : Nat) {n : Nat} (h : n < 4294967296) :
    (m.write off (be32Bytes n)).be32 off = n := by
  have hget : ∀ i (hi : i < 4), (m.write off (be32Bytes n)) (off + i) = (be32Bytes n)[i] :=
    fun i hi => write_add (by simpa using hi)
  have h₀ := hget 0 (by decide)
  have h₁ := hget 1 (by decide)
  have h₂ := hget 2 (by decide)
  have h₃ := hget 3 (by decide)
  simp only [Nat.add_zero] at h₀
  simp only [be32, be16, Nat.add_assoc, h₀, h₁, h₂, h₃]
  simp [be32Bytes, be16Bytes]
  omega

theorem be16_write_be16Bytes (m : Mem) (off : Nat) {n : Nat} (h : n < 65536) :
    (m.write off (be16Bytes n)).be16 off = n := by
  have hget : ∀ i (hi : i < 2), (m.write off (be16Bytes n)) (off + i) = (be16Bytes n)[i] :=
    fun i hi => write_add (by simpa using hi)
  have h₀ := hget 0 (by decide)
  simp only [Nat.add_zero] at h₀
  simp only [be16, h₀, hget 1 (by decide)]
  simp [be16Bytes]
  omega

theorem le32_write_le32Bytes (m : Mem) (off : Nat) (x : BitVec 32) :
    (m.write off (le32Bytes x)).le32 off = x := by
  have hget : ∀ i (hi : i < 4), (m.write off (le32Bytes x)) (off + i) = (le32Bytes x)[i] :=
    fun i hi => write_add (by simpa using hi)
  have h₀ := hget 0 (by decide)
  simp only [Nat.add_zero] at h₀
  simp only [le32, h₀, hget 1 (by decide), hget 2 (by decide), hget 3 (by decide)]
  -- Glue the four bytes from the top: each append is one longer extract.
  have h₂₄ : x.extractLsb' 24 8 ++ x.extractLsb' 16 8 = x.extractLsb' 16 16 :=
    BitVec.extractLsb'_append_extractLsb'_eq_extractLsb' (by decide)
  have h₁₆ : x.extractLsb' 16 16 ++ x.extractLsb' 8 8 = x.extractLsb' 8 24 :=
    BitVec.extractLsb'_append_extractLsb'_eq_extractLsb' (by decide)
  have h₈ : x.extractLsb' 8 24 ++ x.extractLsb' 0 8 = x.extractLsb' 0 32 :=
    BitVec.extractLsb'_append_extractLsb'_eq_extractLsb' (by decide)
  calc
    x.extractLsb' 24 8 ++ x.extractLsb' 16 8 ++ x.extractLsb' 8 8 ++ x.extractLsb' 0 8
        = x.extractLsb' 0 32 := by rw [h₂₄, h₁₆, h₈]
    _ = x := BitVec.extractLsb'_eq_self

theorem be32_congr {m m' : Mem} {off off' : Nat} (h : m.read off 4 = m'.read off' 4) :
    m.be32 off = m'.be32 off' := by
  have hbyte : ∀ i (_ : i < 4), m (off + i) = m' (off' + i) := fun _ hi => apply_of_read_eq h hi
  have h₀ := hbyte 0 (by decide)
  simp only [Nat.add_zero] at h₀
  simp [be32, be16, Nat.add_assoc, h₀, hbyte 1, hbyte 2, hbyte 3]

theorem le32_congr {m m' : Mem} {off off' : Nat} (h : m.read off 4 = m'.read off' 4) :
    m.le32 off = m'.le32 off' := by
  have hbyte : ∀ i (_ : i < 4), m (off + i) = m' (off' + i) := fun _ hi => apply_of_read_eq h hi
  have h₀ := hbyte 0 (by decide)
  simp only [Nat.add_zero] at h₀
  simp only [le32, h₀, hbyte 1 (by decide), hbyte 2 (by decide), hbyte 3 (by decide)]

theorem be32_of_read {m : Mem} {off n : Nat} (h : m.read off 4 = be32Bytes n)
    (hn : n < 4294967296) : m.be32 off = n := by
  have hself : m.read off 4 = (m.write off (be32Bytes n)).read off 4 := by
    rw [h, read_write_of_length (length_be32Bytes n)]
  calc
    m.be32 off = (m.write off (be32Bytes n)).be32 off := be32_congr hself
    _ = n := be32_write_be32Bytes m off hn

/-- The bytes of a field that was read. -/
theorem be32Bytes_be32 (m : Mem) (off : Nat) : be32Bytes (m.be32 off) = m.read off 4 := by
  have hbyte : ∀ (b : UInt8) (k n : Nat), n = k * 256 + b.toNat → UInt8.ofNat n = b := by
    intro b k n hn
    rw [hn, ← UInt8.toNat_inj, UInt8.toNat_ofNat', Nat.mul_add_mod_self_right]
    exact Nat.mod_eq_of_lt b.toNat_lt
  have hread : m.read off 4 = [m off, m (off + 1), m (off + 2), m (off + 3)] := rfl
  have h₀ := (m off).toNat_lt
  have h₁ := (m (off + 1)).toNat_lt
  have h₂ := (m (off + 2)).toNat_lt
  have h₃ := (m (off + 3)).toNat_lt
  simp only [hread, be32Bytes, be16Bytes, be32, be16, Nat.add_assoc, List.cons_append,
    List.nil_append, List.cons.injEq, and_true, Nat.reduceAdd]
  refine ⟨hbyte _ 0 _ ?_, hbyte _ (m off).toNat _ ?_,
    hbyte _ ((m off).toNat * 256 + (m (off + 1)).toNat) _ ?_, hbyte _
      ((m off).toNat * 65536 + (m (off + 1)).toNat * 256 + (m (off + 2)).toNat) _ ?_⟩ <;> omega

end Mem

end Lib
end NmMemcached
