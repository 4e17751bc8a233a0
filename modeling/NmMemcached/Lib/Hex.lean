import Mathlib.Tactic.Common

/-!
# Hex — hexadecimal strings of bytes

`ofDigits` reads a string of hexadecimal digits two at a time, `literal` does so after padding an
odd string with one leading zero.  On the writing side `full` prints two digits for every byte and
`short` prints each byte without a leading zero.

`full` is a right inverse of the reading side.  `short` is one for exactly the byte strings whose
bytes after the first need two digits anyway (`literal_short_iff`).
-/

namespace NmMemcached
namespace Lib
namespace Hex

/-! ## Digits -/

def isDigit (c : Char) : Bool := c.isDigit || ('a' ≤ c && c ≤ 'f') || ('A' ≤ c && c ≤ 'F')

def digitValue (c : Char) : Nat :=
  if c.isDigit then c.toNat - '0'.toNat
  else if 'a' ≤ c && c ≤ 'f' then c.toNat - 'a'.toNat + 10
  else c.toNat - 'A'.toNat + 10

/-- The lower-case digits. -/
def isLowerDigit (c : Char) : Bool := c.isDigit || ('a' ≤ c && c ≤ 'f')

theorem digitValue_digitChar {n : Nat} (h : n < 16) : digitValue (Nat.digitChar n) = n := by
  have hall : ∀ n < 16, digitValue (Nat.digitChar n) = n := by decide
  exact hall n h

theorem isLowerDigit_digitChar {n : Nat} (h : n < 16) : isLowerDigit (Nat.digitChar n) = true := by
  have hall : ∀ n < 16, isLowerDigit (Nat.digitChar n) = true := by decide
  exact hall n h

theorem isDigit_of_isLowerDigit {c : Char} (h : isLowerDigit c = true) : isDigit c = true := by
  unfold isLowerDigit at h
  simp [isDigit, h]

/-! ## Reading -/

/-- Two digits make a byte; a digit left over is dropped. -/
def ofDigits : List Char → List UInt8
  | a :: b :: ds => UInt8.ofNat (digitValue a * 16 + digitValue b) :: ofDigits ds
  | _ => []

/-- An odd number of digits is padded with one leading zero. -/
def literal (ds : List Char) : List UInt8 :=
  if ds.length % 2 = 1 then ofDigits ('0' :: ds) else ofDigits ds

theorem length_ofDigits (ds : List Char) : (ofDigits ds).length = ds.length / 2 := by
  induction ds using ofDigits.induct with
  | case1 a b ds ih =>
      simp only [ofDigits, List.length_cons, ih]
      omega
  | case2 ds hshort =>
      -- `ofDigits.induct` leaves the lists with at most one digit in one case.
      match ds with
      | [] => rfl
      | [_] => simp [ofDigits]
      | a :: b :: ds => exact absurd rfl (hshort a b ds)

theorem length_literal (ds : List Char) : (literal ds).length = (ds.length + 1) / 2 := by
  unfold literal
  split
  · rw [length_ofDigits, List.length_cons]
  · rw [length_ofDigits]
    omega

/-! ## Writing -/

def fullByte (b : UInt8) : List Char :=
  [Nat.digitChar (b.toNat / 16), Nat.digitChar (b.toNat % 16)]

def full (bs : List UInt8) : List Char := bs.flatMap fullByte

def shortByte (b : UInt8) : List Char := Nat.toDigits 16 b.toNat

def short (bs : List UInt8) : List Char := bs.flatMap shortByte

theorem shortByte_of_lt {b : UInt8} (h : b.toNat < 16) : shortByte b = [Nat.digitChar b.toNat] :=
  Nat.toDigits_of_lt_base h

theorem shortByte_of_le {b : UInt8} (h : 16 ≤ b.toNat) : shortByte b = fullByte b := by
  have hlt : b.toNat / 16 < 16 := by
    have := b.toNat_lt
    omega
  rw [shortByte, Nat.toDigits_of_base_le (by decide) h, Nat.toDigits_of_lt_base hlt]
  rfl

theorem short_of_forall_le {bs : List UInt8} (h : ∀ b ∈ bs, 16 ≤ b.toNat) :
    short bs = full bs := by
  have hmap : bs.map shortByte = bs.map fullByte :=
    List.map_congr_left fun b hb => shortByte_of_le (h b hb)
  rw [short, full, List.flatMap_def, List.flatMap_def, hmap]

theorem length_shortByte_le (b : UInt8) : (shortByte b).length ≤ 2 := by
  by_cases h : b.toNat < 16
  · simp [shortByte_of_lt h]
  · simp [shortByte_of_le (Nat.le_of_not_lt h), fullByte]

theorem length_short_le (bs : List UInt8) : (short bs).length ≤ 2 * bs.length := by
  induction bs with
  | nil =>
      simp [short]
  | cons b bs ih =>
      have hb := length_shortByte_le b
      simp only [short, List.flatMap_cons, List.length_append, List.length_cons] at ih ⊢
      omega

/-- Only bytes of two digits reach the full length. -/
theorem forall_le_of_length_short {bs : List UInt8} (h : (short bs).length = 2 * bs.length) :
    ∀ b ∈ bs, 16 ≤ b.toNat := by
  induction bs with
  | nil =>
      intro b hb
      simp at hb
  | cons b bs ih =>
      have hle := length_short_le bs
      have hb := length_shortByte_le b
      simp only [short, List.flatMap_cons, List.length_append, List.length_cons] at h hle ih
      -- Neither the head nor the tail has a digit to give away.
      have hrest : (bs.flatMap shortByte).length = 2 * bs.length := by omega
      intro c hc
      rcases List.mem_cons.1 hc with rfl | htail
      · by_contra hlt
        have hone := shortByte_of_lt (Nat.lt_of_not_le hlt)
        rw [hone, List.length_singleton] at h
        omega
      · exact ih hrest c htail

theorem isLowerDigit_of_mem_short {bs : List UInt8} {c : Char} (h : c ∈ short bs) :
    isLowerDigit c = true := by
  rcases List.mem_flatMap.1 h with ⟨b, _, hc⟩
  have hb := b.toNat_lt
  by_cases hlt : b.toNat < 16
  · rw [shortByte_of_lt hlt, List.mem_singleton] at hc
    rw [hc]
    exact isLowerDigit_digitChar hlt
  · rw [shortByte_of_le (Nat.le_of_not_lt hlt)] at hc
    have hcase : c = Nat.digitChar (b.toNat / 16) ∨ c = Nat.digitChar (b.toNat % 16) := by
      simpa [fullByte] using hc
    rcases hcase with rfl | rfl
    · exact isLowerDigit_digitChar (by omega)
    · exact isLowerDigit_digitChar (Nat.mod_lt _ (by decide))

theorem isDigit_of_mem_short {bs : List UInt8} {c : Char} (h : c ∈ short bs) :
    isDigit c = true :=
  isDigit_of_isLowerDigit (isLowerDigit_of_mem_short h)

theorem short_ne_nil {bs : List UInt8} (h : bs ≠ []) : short bs ≠ [] := by
  rcases List.exists_cons_of_ne_nil h with ⟨b, rest, rfl⟩
  intro hnil
  have hb : shortByte b = [] := (List.append_eq_nil_iff.1 hnil).1
  exact absurd hb Nat.toDigits_ne_nil

/-! ## Round trips -/

theorem ofDigits_fullByte (b : UInt8) (ds : List Char) :
    ofDigits (fullByte b ++ ds) = b :: ofDigits ds := by
  have hb := b.toNat_lt
  have hsum : b.toNat / 16 * 16 + b.toNat % 16 = b.toNat := by omega
  simp only [fullByte, List.cons_append, List.nil_append, ofDigits]
  rw [digitValue_digitChar (by omega), digitValue_digitChar (Nat.mod_lt _ (by decide)), hsum,
    UInt8.ofNat_toNat]

theorem ofDigits_full (bs : List UInt8) : ofDigits (full bs) = bs := by
  induction bs with
  | nil =>
      rfl
  | cons b bs ih =>
      rw [full, List.flatMap_cons, ofDigits_fullByte]
      rw [full] at ih
      rw [ih]

theorem length_full (bs : List UInt8) : (full bs).length = 2 * bs.length := by
  induction bs with
  | nil =>
      rfl
  | cons b bs ih =>
      simp only [full, List.flatMap_cons, List.length_append, List.length_cons] at ih ⊢
      rw [ih]
      simp [fullByte]
      omega

/-- Without the padding every byte needs two digits, the first one too. -/
theorem ofDigits_short_iff {bs : List UInt8} :
    ofDigits (short bs) = bs ↔ ∀ b ∈ bs, 16 ≤ b.toNat := by
  constructor
  · intro h
    apply forall_le_of_length_short
    have hle := length_short_le bs
    have hlen := congrArg List.length h
    rw [length_ofDigits] at hlen
    omega
  · intro h
    rw [short_of_forall_le h, ofDigits_full]

/-- A leading byte below 16 and full bytes behind it: the padding restores the byte. -/
theorem literal_short_of_tail {b : UInt8} {bs : List UInt8} (h : ∀ c ∈ bs, 16 ≤ c.toNat) :
    literal (short (b :: bs)) = b :: bs := by
  have hbs := short_of_forall_le h
  by_cases hb : b.toNat < 16
  · -- One digit is missing at the very front, where the padding puts it.
    have hdigits : short (b :: bs) = Nat.digitChar b.toNat :: full bs := by
      rw [← hbs, short, List.flatMap_cons, shortByte_of_lt hb]
      rfl
    have hzero : '0' :: Nat.digitChar b.toNat :: full bs = full (b :: bs) := by
      have hdiv : b.toNat / 16 = 0 := by omega
      have hmod : b.toNat % 16 = b.toNat := Nat.mod_eq_of_lt hb
      rw [full, full, List.flatMap_cons, fullByte, hdiv, hmod]
      rfl
    have hodd : (Nat.digitChar b.toNat :: full bs).length % 2 = 1 := by
      rw [List.length_cons, length_full]
      omega
    rw [hdigits, literal, if_pos hodd, hzero, ofDigits_full]
  · -- No digit is missing, and the number of digits is even.
    have hall : ∀ c ∈ b :: bs, 16 ≤ c.toNat := by
      intro c hc
      rcases List.mem_cons.1 hc with rfl | htail
      · exact Nat.le_of_not_lt hb
      · exact h c htail
    have heven : ¬ (full (b :: bs)).length % 2 = 1 := by
      rw [length_full]
      omega
    rw [short_of_forall_le hall, literal, if_neg heven, ofDigits_full]

/-- The short digits of a byte string read back as the string exactly when every byte after the
first needs two digits. -/
theorem literal_short_iff {b : UInt8} {bs : List UInt8} :
    literal (short (b :: bs)) = b :: bs ↔ ∀ c ∈ bs, 16 ≤ c.toNat := by
  constructor
  · intro h
    apply forall_le_of_length_short
    -- Compare the number of digits that are printed with the number that is read.
    have hle := length_short_le bs
    have hlen := congrArg List.length h
    have hsplit : short (b :: bs) = shortByte b ++ short bs := List.flatMap_cons
    rw [length_literal, List.length_cons, hsplit, List.length_append] at hlen
    by_cases hb : b.toNat < 16
    · rw [shortByte_of_lt hb, List.length_singleton] at hlen
      omega
    · -- A missing digit behind a full first byte shifts that byte.
      by_contra hshort
      rw [shortByte_of_le (Nat.le_of_not_lt hb)] at hlen hsplit
      have htwo : (fullByte b).length = 2 := rfl
      have hodd : (fullByte b ++ short bs).length % 2 = 1 := by
        rw [List.length_append]
        omega
      rw [hsplit, literal, if_pos hodd] at h
      have hhead : UInt8.ofNat (digitValue '0' * 16 + digitValue (Nat.digitChar (b.toNat / 16))) =
          b := (List.cons.inj h).1
      have hdiv : b.toNat / 16 < 16 := by
        have := b.toNat_lt
        omega
      have hvalue := congrArg UInt8.toNat hhead
      rw [digitValue_digitChar hdiv, UInt8.toNat_ofNat'] at hvalue
      have hzero : digitValue '0' = 0 := by decide
      have hlt : b.toNat / 16 < 2 ^ 8 := Nat.lt_trans hdiv (by decide)
      rw [hzero, Nat.zero_mul, Nat.zero_add, Nat.mod_eq_of_lt hlt] at hvalue
      omega
  · exact literal_short_of_tail

/-- A byte with one digit, an even number of times: the digits pair up. -/
theorem literal_short_replicate {b : UInt8} (h : b.toNat < 16) (m : Nat) :
    literal (short (List.replicate (2 * m) b)) =
      List.replicate m (UInt8.ofNat (17 * b.toNat)) := by
  have hshort : ∀ n, short (List.replicate n b) = List.replicate n (Nat.digitChar b.toNat) := by
    intro n
    induction n with
    | zero =>
        rfl
    | succ n ih =>
        rw [List.replicate_succ, List.replicate_succ, ← ih]
        exact congrArg (· ++ short (List.replicate n b)) (shortByte_of_lt h)
  have hpairs : ∀ n, ofDigits (List.replicate (2 * n) (Nat.digitChar b.toNat)) =
      List.replicate n (UInt8.ofNat (17 * b.toNat)) := by
    intro n
    induction n with
    | zero =>
        rfl
    | succ n ih =>
        have hbyte : digitValue (Nat.digitChar b.toNat) * 16 + digitValue (Nat.digitChar b.toNat) =
            17 * b.toNat := by
          rw [digitValue_digitChar h]
          omega
        rw [Nat.mul_succ, List.replicate_succ, List.replicate_succ, List.replicate_succ, ofDigits,
          hbyte, ih]
  have heven : ¬ (List.replicate (2 * m) (Nat.digitChar b.toNat)).length % 2 = 1 := by
    rw [List.length_replicate]
    omega
  rw [hshort, literal, if_neg heven, hpairs]

end Hex
end Lib
end NmMemcached
