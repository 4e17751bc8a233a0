import Mathlib.Algebra.BigOperators.Group.List.Basic
import Mathlib.Data.Nat.ModEq
import NmMemcached.Lib.Mem

/-!
# OnesComplement — sums with an end-around carry

Digits below a radix `B` are added with the carry out of the top brought back in at the bottom.
The sum of a list of digits is then the sum of the list up to multiples of `B - 1`, with one
representative for zero that only the empty sum has (`sum_eq_norm`).  So

* carries may be brought back at any time, also all at the end (`norm_carry`);
* a sum is all ones exactly when the plain sum is a multiple of `B - 1` and not zero
  (`norm_eq_ones_iff`);
* adding the complement of a sum makes it all ones (`dvd_add_complement`).

`wordSum` is the plain sum of the 16-bit words of a memory.
-/

namespace NmMemcached
namespace Lib
namespace OnesComplement

/-! ## Digits -/

/-- Add two digits; the carry comes back in. -/
def add (B a b : Nat) : Nat :=
  if a + b < B then a + b else a + b - (B - 1)

/-- The one's-complement sum of a list of digits. -/
def sum (B : Nat) (ws : List Nat) : Nat :=
  ws.foldl (add B) 0

/-- A number as a digit, up to multiples of `B - 1`; zero stays zero. -/
def norm (B n : Nat) : Nat :=
  if n = 0 then 0 else (n - 1) % (B - 1) + 1

section Norm

variable {B : Nat}

theorem norm_of_lt {n : Nat} (h : n < B) : norm B n = n := by
  unfold norm
  split
  · rename_i hzero
    exact hzero.symm
  · rw [Nat.mod_eq_of_lt (by omega)]
    omega

theorem norm_congr {n k : Nat} (hmod : n ≡ k [MOD B - 1]) (hzero : n = 0 ↔ k = 0) :
    norm B n = norm B k := by
  by_cases hn : n = 0
  · rw [hn, hzero.1 hn]
  · have hk : k ≠ 0 := fun h => hn (hzero.2 h)
    have hpred : n - 1 ≡ k - 1 [MOD B - 1] := by
      refine Nat.ModEq.add_right_cancel' 1 ?_
      rwa [Nat.sub_add_cancel (Nat.pos_of_ne_zero hn), Nat.sub_add_cancel (Nat.pos_of_ne_zero hk)]
    have hrem : (n - 1) % (B - 1) = (k - 1) % (B - 1) := hpred
    rw [norm, norm, if_neg hn, if_neg hk, hrem]

theorem norm_modEq (n : Nat) : norm B n ≡ n [MOD B - 1] := by
  unfold norm
  split
  · rename_i hzero
    rw [hzero]
  · rename_i hn
    calc
      (n - 1) % (B - 1) + 1 ≡ n - 1 + 1 [MOD B - 1] := (Nat.mod_modEq _ _).add_right 1
      _ = n := Nat.sub_add_cancel (Nat.pos_of_ne_zero hn)

theorem norm_eq_zero_iff {n : Nat} : norm B n = 0 ↔ n = 0 := by
  unfold norm
  split
  · rename_i hzero
    simp [hzero]
  · rename_i hn
    simp [hn]

theorem norm_add_left (a b : Nat) : norm B (norm B a + b) = norm B (a + b) := by
  refine norm_congr ((norm_modEq a).add_right b) ?_
  have hzero := norm_eq_zero_iff (B := B) (n := a)
  omega

/-- Less than `B - 1` more shows in the digit. -/
theorem norm_add_eq_iff {n e : Nat} (he : e < B - 1) : norm B (n + e) = norm B n ↔ e = 0 := by
  constructor
  · intro hsame
    have hmod : n + e ≡ n + 0 [MOD B - 1] := by
      calc
        n + e ≡ norm B (n + e) [MOD B - 1] := (norm_modEq _).symm
        _ = norm B n := hsame
        _ ≡ n [MOD B - 1] := norm_modEq n
    exact (hmod.add_left_cancel' n).eq_of_lt_of_lt he (by omega)
  · rintro rfl
    rfl

variable (hB : 1 < B)
include hB

theorem norm_lt (n : Nat) : norm B n < B := by
  unfold norm
  split
  · omega
  · have hlt := Nat.mod_lt (n - 1) (show B - 1 > 0 by omega)
    omega

theorem add_eq_norm {a b : Nat} (ha : a < B) (hb : b < B) : add B a b = norm B (a + b) := by
  unfold add
  split
  · rename_i hlt
    exact (norm_of_lt hlt).symm
  · rename_i hge
    -- The sum is at least `B`, so what is left behind the carry is a digit other than zero.
    have hdigit : norm B (a + b - (B - 1)) = a + b - (B - 1) := norm_of_lt (by omega)
    rw [← hdigit]
    refine norm_congr ?_ (by omega)
    calc
      a + b - (B - 1) ≡ a + b - (B - 1) + (B - 1) [MOD B - 1] := Nat.add_modEq_right.symm
      _ = a + b := by omega

theorem foldl_add {ws : List Nat} (hws : ∀ w ∈ ws, w < B) {a : Nat} (ha : a < B) :
    ws.foldl (add B) a = norm B (a + ws.sum) := by
  induction ws generalizing a with
  | nil =>
      exact (norm_of_lt ha).symm
  | cons w ws ih =>
      rcases List.forall_mem_cons.1 hws with ⟨hw, hrest⟩
      -- The accumulator is a digit again, so the carry of this step can be left to the last one.
      rw [List.foldl_cons, add_eq_norm hB ha hw, ih hrest (norm_lt hB _), norm_add_left,
        List.sum_cons, Nat.add_assoc]

/-- The carries can wait to the end. -/
theorem sum_eq_norm {ws : List Nat} (hws : ∀ w ∈ ws, w < B) : sum B ws = norm B ws.sum := by
  rw [sum, foldl_add hB hws (by omega), Nat.zero_add]

/-- Bringing the carries of a plain sum back in once. -/
theorem norm_carry (n : Nat) : norm B (n % B + n / B) = norm B n := by
  have hdiv := Nat.mod_add_div n B
  refine norm_congr ?_ ?_
  · have hone : n / B ≡ B * (n / B) [MOD B - 1] := by
      have hradix : 1 ≡ B [MOD B - 1] := (Nat.modEq_iff_dvd' (by omega)).2 (Nat.dvd_refl _)
      simpa using hradix.mul_right (n / B)
    calc
      n % B + n / B ≡ n % B + B * (n / B) [MOD B - 1] := hone.add_left _
      _ = n := hdiv
  · constructor
    · intro hzero
      rcases Nat.add_eq_zero_iff.1 hzero with ⟨hmod, hquot⟩
      rw [← hdiv, hmod, hquot, Nat.mul_zero]
    · rintro rfl
      simp

/-- All ones. -/
theorem norm_eq_ones_iff {n : Nat} : norm B n = B - 1 ↔ n ≠ 0 ∧ B - 1 ∣ n := by
  have hmod : norm B n ≡ n [MOD B - 1] := norm_modEq n
  have hlt := norm_lt hB n
  constructor
  · intro hones
    have hn : n ≠ 0 := by
      rintro rfl
      rw [norm, if_pos rfl] at hones
      omega
    refine ⟨hn, ?_⟩
    rw [hones] at hmod
    exact (Nat.modEq_zero_iff_dvd).1 (hmod.symm.trans (Nat.modEq_zero_iff_dvd.2 (Nat.dvd_refl _)))
  · rintro ⟨hn, hdvd⟩
    -- The digit is a multiple of `B - 1` as well, and the only one below `B` besides zero.
    have hpos : norm B n ≠ 0 := fun h => hn (norm_eq_zero_iff.1 h)
    have hdiv : B - 1 ∣ norm B n :=
      Nat.modEq_zero_iff_dvd.1 (hmod.trans (Nat.modEq_zero_iff_dvd.2 hdvd))
    have hle := Nat.le_of_dvd (Nat.pos_of_ne_zero hpos) hdiv
    omega

theorem sum_eq_ones_iff {ws : List Nat} (hws : ∀ w ∈ ws, w < B) :
    sum B ws = B - 1 ↔ ws.sum ≠ 0 ∧ B - 1 ∣ ws.sum := by
  rw [sum_eq_norm hB hws]
  exact norm_eq_ones_iff hB

/-- A sum with the complement of its digit added is all ones. -/
theorem dvd_add_complement (n : Nat) :
    n + (B - 1 - norm B n) ≠ 0 ∧ B - 1 ∣ n + (B - 1 - norm B n) := by
  have hlt := norm_lt hB n
  have hzero := norm_eq_zero_iff (B := B) (n := n)
  refine ⟨by omega, ?_⟩
  have hmod : n + (B - 1 - norm B n) ≡ norm B n + (B - 1 - norm B n) [MOD B - 1] :=
    (norm_modEq n).symm.add_right _
  rw [Nat.add_sub_cancel' (by omega)] at hmod
  exact Nat.modEq_zero_iff_dvd.1 (hmod.trans (Nat.modEq_zero_iff_dvd.2 (Nat.dvd_refl _)))

omit hB in
/-- What completes `x` to a multiple, when `x` and `e` leave `n`. -/
theorem dvd_add_iff_modEq {p x e n : Nat} (h : x + e ≡ n [MOD B - 1]) :
    B - 1 ∣ p + x ↔ p + n ≡ e [MOD B - 1] := by
  have hsame : p + x + e ≡ p + n [MOD B - 1] := by
    rw [Nat.add_assoc]
    exact h.add_left p
  constructor
  · intro hdvd
    have hzero : p + x + e ≡ 0 + e [MOD B - 1] := (Nat.modEq_zero_iff_dvd.2 hdvd).add_right e
    rw [Nat.zero_add] at hzero
    exact hsame.symm.trans hzero
  · intro hmod
    have hzero : p + x + e ≡ 0 + e [MOD B - 1] := by
      rw [Nat.zero_add]
      exact hsame.trans hmod
    exact Nat.modEq_zero_iff_dvd.1 (hzero.add_right_cancel' e)

/-- A complement that was taken over too much: `n` is to be made all ones, but `e` was added. -/
theorem ones_of_excess_iff (n e : Nat) :
    (n + (B - 1 - norm B (n + e)) ≠ 0 ∧ B - 1 ∣ n + (B - 1 - norm B (n + e))) ↔
      B - 1 ∣ e ∧ (e = 0 ∨ n ≠ 0) := by
  rcases dvd_add_complement hB (n + e) with ⟨hpos, hdvd⟩
  have hswap : n + (B - 1 - norm B (n + e)) + e = n + e + (B - 1 - norm B (n + e)) :=
    Nat.add_right_comm _ _ _
  rw [← hswap] at hpos hdvd
  have hparts : B - 1 ∣ n + (B - 1 - norm B (n + e)) ↔ B - 1 ∣ e :=
    ⟨fun h => (Nat.dvd_add_iff_right h).2 hdvd, fun h => (Nat.dvd_add_iff_left h).2 hdvd⟩
  rw [hparts, and_comm]
  refine and_congr_right fun he => ?_
  constructor
  · intro hne
    by_contra hnot
    rw [not_or, not_not] at hnot
    -- Nothing but a multiple of `B - 1` was added up, so the complement is zero.
    have hones : norm B (n + e) = B - 1 := by
      rw [hnot.2, Nat.zero_add]
      exact (norm_eq_ones_iff hB).2 ⟨hnot.1, he⟩
    omega
  · rintro (hzero | hn)
    · omega
    · omega

end Norm

/-! ## Words of a memory -/

/-- The big-endian 16-bit words from an address on. -/
def words (m : Mem) (off k : Nat) : List Nat :=
  (List.range k).map fun i => m.be16 (off + 2 * i)

/-- Their plain sum. -/
def wordSum (m : Mem) (off k : Nat) : Nat := (words m off k).sum

theorem be16_lt (m : Mem) (off : Nat) : m.be16 off < 65536 := by
  have hhi := (m off).toNat_lt
  have hlo := (m (off + 1)).toNat_lt
  unfold Mem.be16
  omega

theorem words_lt (m : Mem) (off k : Nat) : ∀ w ∈ words m off k, w < 65536 := by
  intro w hw
  rcases List.mem_map.1 hw with ⟨i, _, rfl⟩
  exact be16_lt m _

@[simp] theorem wordSum_zero (m : Mem) (off : Nat) : wordSum m off 0 = 0 := rfl

theorem wordSum_add (m : Mem) (off j k : Nat) :
    wordSum m off (j + k) = wordSum m off j + wordSum m (off + 2 * j) k := by
  have hsplit : words m off (j + k) = words m off j ++ words m (off + 2 * j) k := by
    simp [words, List.range_add, Nat.mul_add, Nat.add_assoc]
  rw [wordSum, hsplit, List.sum_append, wordSum, wordSum]

theorem wordSum_one (m : Mem) (off : Nat) : wordSum m off 1 = m.be16 off := by
  simp [wordSum, words]

theorem wordSum_congr {m m' : Mem} {off off' k : Nat}
    (h : ∀ i < 2 * k, m (off + i) = m' (off' + i)) : wordSum m off k = wordSum m' off' k := by
  refine congrArg List.sum (List.map_congr_left ?_)
  intro i hi
  have hlt := List.mem_range.1 hi
  have h₀ := h (2 * i) (by omega)
  have h₁ := h (2 * i + 1) (by omega)
  rw [Mem.be16, Mem.be16, h₀, Nat.add_assoc, h₁, Nat.add_assoc]

/-- The words of a window add up to all ones. -/
theorem sum_words_iff (m : Mem) (off k : Nat) :
    sum 65536 (words m off k) = 0xFFFF ↔ wordSum m off k ≠ 0 ∧ 65535 ∣ wordSum m off k :=
  sum_eq_ones_iff (by decide) (words_lt m off k)

/-- Two memories that differ in one word. -/
theorem wordSum_of_one_word {m m' : Mem} {off j k : Nat} (hj : j < k)
    (h : ∀ i < 2 * k, i ≠ 2 * j → i ≠ 2 * j + 1 → m' (off + i) = m (off + i)) :
    wordSum m' off k + m.be16 (off + 2 * j) = wordSum m off k + m'.be16 (off + 2 * j) := by
  have hk : k = j + (1 + (k - j - 1)) := by omega
  have hfront : wordSum m' off j = wordSum m off j :=
    wordSum_congr fun i hi => h i (by omega) (by omega) (by omega)
  have hbehind : wordSum m' (off + 2 * j + 2 * 1) (k - j - 1) =
      wordSum m (off + 2 * j + 2 * 1) (k - j - 1) := by
    refine wordSum_congr ?_
    intro i hi
    have hbyte := h (2 * j + 2 + i) (by omega) (by omega) (by omega)
    simpa [Nat.add_assoc] using hbyte
  rw [hk, wordSum_add, wordSum_add, wordSum_add, wordSum_add, wordSum_one, wordSum_one, hfront,
    hbehind]
  omega

/-! ## Messages -/

/-- The words of a message of `len` bytes; a last byte alone is the upper half of its word. -/
def messageWords (m : Mem) (off len : Nat) : List Nat :=
  words m off (len / 2) ++ if len % 2 = 1 then [(m (off + (len - 1))).toNat * 256] else []

def messageSum (m : Mem) (off len : Nat) : Nat := (messageWords m off len).sum

theorem messageWords_lt (m : Mem) (off len : Nat) : ∀ w ∈ messageWords m off len, w < 65536 := by
  intro w hw
  rcases List.mem_append.1 hw with hfull | hlast
  · exact words_lt m off _ w hfull
  · split at hlast
    · have hbyte := (m (off + (len - 1))).toNat_lt
      rw [List.mem_singleton.1 hlast]
      omega
    · exact absurd hlast List.not_mem_nil

theorem messageSum_eq (m : Mem) (off len : Nat) :
    messageSum m off len =
      wordSum m off (len / 2) + if len % 2 = 1 then (m (off + (len - 1))).toNat * 256 else 0 := by
  rw [messageSum, messageWords, List.sum_append, wordSum]
  split <;> simp

/-- The words of a byte string; a last byte alone is padded with a zero byte. -/
def paddedWords : List UInt8 → List Nat
  | [] => []
  | [hi] => [hi.toNat * 256]
  | hi :: lo :: rest => (hi.toNat * 256 + lo.toNat) :: paddedWords rest

theorem messageWords_add_two (m : Mem) (off len : Nat) :
    messageWords m off (len + 2) = m.be16 off :: messageWords m (off + 2) len := by
  have hhalf : (len + 2) / 2 = 1 + len / 2 := by omega
  have hodd : (len + 2) % 2 = len % 2 := by omega
  have hwords : words m off (1 + len / 2) = m.be16 off :: words m (off + 2) (len / 2) := by
    simp [words, List.range_add, Nat.mul_add, Nat.add_assoc]
  rw [messageWords, messageWords, hhalf, hodd, hwords, List.cons_append]
  split
  · have hlast : off + 2 + (len - 1) = off + (len + 2 - 1) := by omega
    rw [hlast]
  · rfl

/-- The words of a message are those of its bytes. -/
theorem messageWords_eq_paddedWords (m : Mem) (off len : Nat) :
    messageWords m off len = paddedWords (m.read off len) := by
  -- Two bytes a step, as the words are read.
  induction len using Nat.twoStepInduction generalizing off with
  | zero =>
      rfl
  | one =>
      rfl
  | more len ih =>
      have hbytes : m.read off (len + 2) = m off :: m (off + 1) :: m.read (off + 2) len := by
        rw [Nat.add_comm len 2, Mem.read_add]
        rfl
      rw [messageWords_add_two, ih, hbytes, paddedWords, Mem.be16]

/-- A message behind its first words. -/
theorem messageSum_add {m : Mem} {off len k : Nat} (h : 2 * k ≤ len) :
    messageSum m off len = wordSum m off k + messageSum m (off + 2 * k) (len - 2 * k) := by
  have hhalf : len / 2 = k + (len - 2 * k) / 2 := by omega
  have hodd : (len - 2 * k) % 2 = len % 2 := by omega
  rw [messageSum_eq, messageSum_eq, hhalf, wordSum_add, hodd, Nat.add_assoc]
  split
  · have hlast : off + 2 * k + (len - 2 * k - 1) = off + (len - 1) := by omega
    rw [hlast]
  · rfl

theorem messageSum_congr {m m' : Mem} {off len : Nat} (h : ∀ i < len, m' (off + i) = m (off + i)) :
    messageSum m' off len = messageSum m off len := by
  rw [messageSum_eq, messageSum_eq, wordSum_congr fun i hi => h i (by omega)]
  split
  · rw [h (len - 1) (by omega)]
  · rfl

/-- A message whose second word was replaced. -/
theorem messageSum_of_second_word {m m' : Mem} {off len : Nat} (hlen : 4 ≤ len)
    (h : ∀ i, i < off + 2 ∨ off + 4 ≤ i → m' i = m i) :
    messageSum m' off len =
      m.be16 off + m'.be16 (off + 2) + messageSum m (off + 4) (len - 4) := by
  have hfirst : m'.be16 off = m.be16 off := by
    rw [Mem.be16, Mem.be16, h off (by omega), h (off + 1) (by omega)]
  have hrest : messageSum m' (off + 4) (len - 4) = messageSum m (off + 4) (len - 4) :=
    messageSum_congr fun i _ => h _ (by omega)
  have htwo : wordSum m' off 2 = m'.be16 off + m'.be16 (off + 2) := by
    rw [wordSum_add m' off 1 1, wordSum_one, wordSum_one]
  rw [messageSum_add (show 2 * 2 ≤ len from hlen), htwo, hfirst, hrest]

/-- Two messages that differ in `k` words. -/
theorem messageSum_of_window {m m' : Mem} {off len j k : Nat} (hlen : 2 * j + 2 * k ≤ len)
    (h : ∀ i, i < off + 2 * j ∨ off + 2 * j + 2 * k ≤ i → m' i = m i) :
    messageSum m' off len + wordSum m (off + 2 * j) k =
      messageSum m off len + wordSum m' (off + 2 * j) k := by
  have hfront : wordSum m' off j = wordSum m off j := wordSum_congr fun i hi => h _ (by omega)
  have hbehind : messageSum m' (off + 2 * j + 2 * k) (len - 2 * j - 2 * k) =
      messageSum m (off + 2 * j + 2 * k) (len - 2 * j - 2 * k) :=
    messageSum_congr fun i _ => h _ (by omega)
  -- Words in front of the window, the window, and the rest of the message.
  have hsplit : ∀ d : Mem, messageSum d off len = wordSum d off j +
      (wordSum d (off + 2 * j) k +
        messageSum d (off + 2 * j + 2 * k) (len - 2 * j - 2 * k)) := by
    intro d
    rw [messageSum_add (show 2 * j ≤ len by omega),
      messageSum_add (show 2 * k ≤ len - 2 * j by omega)]
  rw [hsplit, hsplit m, hfront, hbehind]
  omega

/-- What a sum over `n` bytes takes in behind a message: the lower half of its last word, and the
words from there on. -/
def excess (m : Mem) (off len n : Nat) : Nat :=
  (if len % 2 = 1 then (m (off + len)).toNat else 0) +
    wordSum m (off + 2 * ((len + 1) / 2)) ((n + 1) / 2 - (len + 1) / 2)

theorem wordSum_eq_messageSum_add {m : Mem} {off len n : Nat} (h : len ≤ n) :
    wordSum m off ((n + 1) / 2) = messageSum m off len + excess m off len n := by
  have hall : (n + 1) / 2 = (len + 1) / 2 + ((n + 1) / 2 - (len + 1) / 2) := by omega
  rw [hall, wordSum_add, messageSum_eq, excess]
  split
  -- The message counts the upper half of its last word, the sum counts both halves.
  · have hhalf : (len + 1) / 2 = len / 2 + 1 := by omega
    have hword : m.be16 (off + 2 * (len / 2)) =
        (m (off + (len - 1))).toNat * 256 + (m (off + len)).toNat := by
      have hupper : off + 2 * (len / 2) = off + (len - 1) := by omega
      have hlower : off + (len - 1) + 1 = off + len := by omega
      rw [hupper, Mem.be16, hlower]
    rw [hhalf, wordSum_add, wordSum_one, hword]
    omega
  · have hhalf : (len + 1) / 2 = len / 2 := by omega
    rw [hhalf]
    omega

/-- Over the message itself: the byte behind an odd length. -/
theorem excess_self (m : Mem) (off len : Nat) :
    excess m off len len = if len % 2 = 1 then (m (off + len)).toNat else 0 := by
  rw [excess, Nat.sub_self, wordSum_zero, Nat.add_zero]

theorem excess_congr {m m' : Mem} {off len n : Nat}
    (h : ∀ i, len ≤ i → m' (off + i) = m (off + i)) : excess m' off len n = excess m off len n := by
  have hlast := h len (Nat.le_refl len)
  have hwords : wordSum m' (off + 2 * ((len + 1) / 2)) ((n + 1) / 2 - (len + 1) / 2) =
      wordSum m (off + 2 * ((len + 1) / 2)) ((n + 1) / 2 - (len + 1) / 2) := by
    refine wordSum_congr ?_
    intro i _
    rw [Nat.add_assoc]
    exact h _ (by omega)
  rw [excess, excess, hlast, hwords]

end OnesComplement
end Lib
end NmMemcached
