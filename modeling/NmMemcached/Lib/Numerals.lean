import Mathlib.Data.List.TakeWhile
import Mathlib.Tactic.Common

/-!
# Numerals — decimal numbers in text

`strtol` reads the longest numeral at the front of a text: blanks, a sign or none, and digits.  It
clips the value to a `long`, and without a digit it reads nothing.  A `Numeral` is the text it
reads, taken apart; `strtol_text` and `strtol_cases` say that these are the only two outcomes.

`decimal` is `%d`, and a numeral of its own number.
-/

namespace NmMemcached
namespace Lib
namespace Numerals

/-! ## Reading -/

def isSpace (c : Char) : Bool := c == ' ' || ('\t' ≤ c && c ≤ '\r')

def longMax : Int := 9223372036854775807

def longMin : Int := -9223372036854775808

def clip (n : Int) : Int := max longMin (min n longMax)

def signed (minus : Bool) (n : Nat) : Int := if minus then -n else n

/-- The sign, and what is behind it. -/
def takeSign : List Char → Bool × List Char
  | '-' :: cs => (true, cs)
  | '+' :: cs => (false, cs)
  | cs => (false, cs)

/-- `strtol(cs, &end, 10)`: the number, and the text at `end`. -/
def strtol (cs : List Char) : Int × List Char :=
  let body := takeSign (cs.dropWhile isSpace)
  let digits := body.2.takeWhile Char.isDigit
  if digits = [] then (0, cs)
  else (clip (signed body.1 (Nat.ofDigitChars 10 digits 0)), body.2.dropWhile Char.isDigit)

/-- `atoi`: the low half of the `long`. -/
def atoi (cs : List Char) : Int := (BitVec.ofInt 32 (strtol cs).1).toInt

/-! ## Numerals -/

/-- Blanks, a sign or none, and at least one digit. -/
structure Numeral where
  blanks : List Char
  sign : List Char
  digits : List Char
  isSpace_blanks : ∀ c ∈ blanks, isSpace c = true
  sign_mem : sign ∈ [[], ['+'], ['-']]
  isDigit_digits : ∀ c ∈ digits, c.isDigit = true
  digits_ne_nil : digits ≠ []

namespace Numeral

def text (n : Numeral) : List Char := n.blanks ++ (n.sign ++ n.digits)

def value (n : Numeral) : Int := signed (n.sign == ['-']) (Nat.ofDigitChars 10 n.digits 0)

end Numeral

/-- No digit follows. -/
def Stops (rest : List Char) : Prop := ∀ c ∈ rest.head?, c.isDigit = false

theorem stops_nil : Stops [] := fun _ h => nomatch h

theorem stops_cons {c : Char} {rest : List Char} (h : c.isDigit = false) : Stops (c :: rest) := by
  intro d hd
  cases hd
  exact h

theorem takeWhile_of_stops {rest : List Char} (h : Stops rest) :
    rest.takeWhile Char.isDigit = [] := by
  cases rest with
  | nil =>
      rfl
  | cons c rest =>
      simp [h c rfl]

theorem dropWhile_of_stops {rest : List Char} (h : Stops rest) :
    rest.dropWhile Char.isDigit = rest := by
  cases rest with
  | nil =>
      rfl
  | cons c rest =>
      simp [h c rfl]

theorem stops_dropWhile (cs : List Char) : Stops (cs.dropWhile Char.isDigit) := by
  intro c hc
  have h := List.head?_dropWhile_not Char.isDigit cs
  rw [Option.mem_def.1 hc] at h
  simpa using h

/-- A digit is neither a blank nor a sign. -/
theorem not_blank_of_isDigit {c : Char} (h : c.isDigit = true) :
    isSpace c = false ∧ c ≠ '-' ∧ c ≠ '+' := by
  have hcode : 48 ≤ c.val ∧ c.val ≤ 57 := by simpa [Char.isDigit] using h
  have hval : '0' ≤ c ∧ c ≤ '9' := hcode
  refine ⟨?_, ?_, ?_⟩
  · have hspace : c ≠ ' ' := by
      rintro rfl
      exact absurd hval.1 (by decide)
    have hlast : ¬ c ≤ '\r' := by
      intro hle
      exact absurd (Char.le_trans hval.1 hle) (by decide)
    simp [isSpace, hspace, hlast]
  · rintro rfl
    exact absurd hval.1 (by decide)
  · rintro rfl
    exact absurd hval.1 (by decide)

theorem takeSign_of_isDigit {c : Char} (h : c.isDigit = true) (cs : List Char) :
    takeSign (c :: cs) = (false, c :: cs) := by
  rcases not_blank_of_isDigit h with ⟨_, hminus, hplus⟩
  unfold takeSign
  split
  · next heq => exact absurd (List.cons.inj heq).1 hminus
  · next heq => exact absurd (List.cons.inj heq).1 hplus
  · rfl

/-- The sign of a numeral, in front of its digits. -/
theorem takeSign_sign (n : Numeral) (rest : List Char) :
    takeSign (n.sign ++ (n.digits ++ rest)) = (n.sign == ['-'], n.digits ++ rest) := by
  rcases List.exists_cons_of_ne_nil n.digits_ne_nil with ⟨d, ds, hds⟩
  have hd : d.isDigit = true := n.isDigit_digits d (by simp [hds])
  have hmem := n.sign_mem
  simp only [List.mem_cons, List.not_mem_nil, or_false] at hmem
  rcases hmem with hs | hs | hs
  · rw [hs, hds]
    exact takeSign_of_isDigit hd _
  · rw [hs]
    rfl
  · rw [hs]
    rfl

/-- Behind its blanks a numeral has none. -/
theorem dropWhile_blanks (n : Numeral) (rest : List Char) :
    (n.text ++ rest).dropWhile isSpace = n.sign ++ (n.digits ++ rest) := by
  rcases List.exists_cons_of_ne_nil n.digits_ne_nil with ⟨d, ds, hds⟩
  have hd : isSpace d = false := (not_blank_of_isDigit (n.isDigit_digits d (by simp [hds]))).1
  have hmem := n.sign_mem
  simp only [List.mem_cons, List.not_mem_nil, or_false] at hmem
  rw [Numeral.text, List.append_assoc, List.dropWhile_append_of_pos n.isSpace_blanks,
    List.append_assoc]
  rcases hmem with hs | hs | hs
  · rw [hs, hds]
    simp [hd]
  · rw [hs]
    rfl
  · rw [hs]
    rfl

/-- A numeral is read to its end. -/
theorem strtol_text (n : Numeral) {rest : List Char} (h : Stops rest) :
    strtol (n.text ++ rest) = (clip n.value, rest) := by
  have hdigits : (n.digits ++ rest).takeWhile Char.isDigit = n.digits := by
    rw [List.takeWhile_append_of_pos n.isDigit_digits, takeWhile_of_stops h, List.append_nil]
  have hrest : (n.digits ++ rest).dropWhile Char.isDigit = rest := by
    rw [List.dropWhile_append_of_pos n.isDigit_digits, dropWhile_of_stops h]
  simp only [strtol, dropWhile_blanks, takeSign_sign, hdigits, hrest, if_neg n.digits_ne_nil]
  rfl

theorem takeSign_spec (cs : List Char) :
    ∃ sign ∈ [[], ['+'], ['-']], cs = sign ++ (takeSign cs).2 ∧
      (takeSign cs).1 = (sign == ['-']) := by
  unfold takeSign
  split
  · exact ⟨['-'], by simp, rfl, rfl⟩
  · exact ⟨['+'], by simp, rfl, rfl⟩
  · exact ⟨[], by simp, rfl, rfl⟩

/-- Either a numeral is read to its end or nothing is read. -/
theorem strtol_cases (cs : List Char) :
    (∃ (n : Numeral) (rest : List Char), cs = n.text ++ rest ∧ Stops rest ∧
      strtol cs = (clip n.value, rest)) ∨ strtol cs = (0, cs) := by
  rcases takeSign_spec (cs.dropWhile isSpace) with ⟨sign, hsign, hcs, _⟩
  by_cases hdigits : (takeSign (cs.dropWhile isSpace)).2.takeWhile Char.isDigit = []
  · exact Or.inr (by simp only [strtol, hdigits, if_true])
  · obtain ⟨n, hn⟩ : ∃ n : Numeral, n =
        { blanks := cs.takeWhile isSpace
          sign := sign
          digits := (takeSign (cs.dropWhile isSpace)).2.takeWhile Char.isDigit
          isSpace_blanks := fun c hc => List.mem_takeWhile_imp hc
          sign_mem := hsign
          isDigit_digits := fun c hc => List.mem_takeWhile_imp hc
          digits_ne_nil := hdigits } := ⟨_, rfl⟩
    have htext : cs = n.text ++ (takeSign (cs.dropWhile isSpace)).2.dropWhile Char.isDigit := by
      rw [hn, Numeral.text, List.append_assoc, List.append_assoc, List.takeWhile_append_dropWhile,
        ← hcs, List.takeWhile_append_dropWhile]
    have hstops := stops_dropWhile (takeSign (cs.dropWhile isSpace)).2
    refine Or.inl ⟨n, _, htext, hstops, ?_⟩
    calc
      strtol cs = strtol (n.text ++ (takeSign (cs.dropWhile isSpace)).2.dropWhile Char.isDigit) :=
        congrArg strtol htext
      _ = _ := strtol_text n hstops

/-- What is read comes off the front. -/
theorem length_strtol_le (cs : List Char) : (strtol cs).2.length ≤ cs.length := by
  rcases strtol_cases cs with ⟨n, rest, htext, _, hread⟩ | hread
  · rw [hread, htext, List.length_append]
    exact Nat.le_add_left _ _
  · rw [hread]

/-- A minus sign is the only minus in a numeral. -/
theorem minus_mem_text_iff (n : Numeral) : '-' ∈ n.text ↔ n.sign = ['-'] := by
  have hblanks : '-' ∉ n.blanks := fun h => absurd (n.isSpace_blanks _ h) (by decide)
  have hdigits : '-' ∉ n.digits := fun h => absurd (n.isDigit_digits _ h) (by decide)
  have hmem := n.sign_mem
  simp only [List.mem_cons, List.not_mem_nil, or_false] at hmem
  rw [Numeral.text, List.mem_append, List.mem_append, or_iff_right hblanks, or_iff_left hdigits]
  rcases hmem with hs | hs | hs
  · simp [hs]
  · simp [hs]
  · simp [hs]

theorem value_of_sign {n : Numeral} (h : n.sign = ['-']) :
    n.value = -(Nat.ofDigitChars 10 n.digits 0 : Int) := by
  simp [Numeral.value, signed, h]

/-! ## Printing -/

/-- `%d`. -/
def decimal : Int → List Char
  | .ofNat n => Nat.toDigits 10 n
  | .negSucc n => '-' :: Nat.toDigits 10 (n + 1)

/-- The digits of a number are a numeral. -/
def Numeral.ofInt : Int → Numeral
  | .ofNat n =>
      { blanks := []
        sign := []
        digits := Nat.toDigits 10 n
        isSpace_blanks := by simp
        sign_mem := by simp
        isDigit_digits := fun _ => Nat.isDigit_of_mem_toDigits (by decide) (by decide)
        digits_ne_nil := Nat.toDigits_ne_nil }
  | .negSucc n =>
      { blanks := []
        sign := ['-']
        digits := Nat.toDigits 10 (n + 1)
        isSpace_blanks := by simp
        sign_mem := by simp
        isDigit_digits := fun _ => Nat.isDigit_of_mem_toDigits (by decide) (by decide)
        digits_ne_nil := Nat.toDigits_ne_nil }

theorem text_ofInt (n : Int) : (Numeral.ofInt n).text = decimal n := by
  cases n with
  | ofNat n => rfl
  | negSucc n => rfl

theorem value_ofInt (n : Int) : (Numeral.ofInt n).value = n := by
  cases n with
  | ofNat n =>
      simp [Numeral.ofInt, Numeral.value, signed, Nat.ofDigitChars_ten_toDigits]
  | negSucc n =>
      simp [Numeral.ofInt, Numeral.value, signed, Nat.ofDigitChars_ten_toDigits]
      omega

/-- A number in the range of a `long` is read back. -/
theorem strtol_decimal {n : Int} (h : clip n = n) {rest : List Char} (hrest : Stops rest) :
    strtol (decimal n ++ rest) = (n, rest) := by
  rw [← text_ofInt, strtol_text _ hrest, value_ofInt, h]

end Numerals
end Lib
end NmMemcached
