/-
  Log binder — numerals.

  A numeral is a run of ASCII digits; how many zeros stand in front does not
  matter to the number that it denotes.

  * `Integer.IsNumeral`, `Integer.number` : numerals and their numbers;
  * `Integer.digits_eq_ok_iff` : which texts are read as numbers;
  * `Digits.number_padded` : a number with a fixed number of digits denotes
    itself.
-/
import LogBinder.Number.Digits
import LogBinder.Number.Integer
import LogBinder.Proofs.Text.Characters
import Mathlib.Algebra.Order.Ring.Nat

namespace LogBinder

namespace Integer

/-- Whether a text consists of digits, of which there is one. -/
structure IsNumeral (cs : List Char) : Prop where
  ne_nil : cs ≠ []
  digits : ∀ c ∈ cs, c.isDigit = true

/-- The number that digits denote. -/
def number (cs : List Char) : Nat := Nat.ofDigitChars 10 cs 0

variable {limit acc n k : Nat} {beyond : IntegerFault} {cs : List Char}

@[simp] theorem number_nil : number [] = 0 := rfl

/-- A character that is no digit stands in no numeral. -/
theorem IsNumeral.not_mem (h : IsNumeral cs) {c : Char} (hc : c.isDigit = false) : c ∉ cs :=
  fun hmem => by simp [h.digits c hmem] at hc

theorem le_ofDigitChars (acc : Nat) (cs : List Char) : acc ≤ Nat.ofDigitChars 10 cs acc := by
  rw [Nat.ofDigitChars_eq_ofDigitChars_zero]
  have hpow : 1 ≤ 10 ^ cs.length := Nat.one_le_pow _ _ (by omega)
  have hmul : 1 * acc ≤ 10 ^ cs.length * acc := Nat.mul_le_mul_right acc hpow
  omega

theorem digitValue_le {c : Char} (h : c.isDigit = true) : digitValue c ≤ 9 := by
  have hle : c.toNat ≤ 57 := (Text.isDigit_iff.1 h).2
  change c.toNat - 48 ≤ 9
  omega

/-- A digit is not blank. -/
theorem isBlank_eq_false_of_isDigit {c : Char} (h : c.isDigit = true) : Text.isBlank c = false := by
  rw [Text.isDigit_iff] at h
  exact Text.isBlank_eq_false_of_visible (by omega) (by omega)

/-- So many digits denote a number below that power of ten. -/
theorem number_lt (h : ∀ c ∈ cs, c.isDigit = true) : number cs < 10 ^ cs.length := by
  induction cs with
  | nil => simp
  | cons c rest ih =>
    obtain ⟨hc, hrest⟩ := List.forall_mem_cons.1 h
    rw [number, Nat.ofDigitChars_cons, Nat.ofDigitChars_eq_ofDigitChars_zero, List.length_cons,
      Nat.pow_succ]
    have hlow : number rest < 10 ^ rest.length := ih hrest
    have hhigh : 10 ^ rest.length * (10 * 0 + digitValue c) ≤ 10 ^ rest.length * 9 :=
      Nat.mul_le_mul_left _ (by simpa using digitValue_le hc)
    rw [digitValue] at hhigh
    rw [number] at hlow
    omega

/-- Digits are read after a number as long as the whole does not exceed its limit. -/
theorem magnitude_eq_ok_iff (hacc : acc ≤ limit) :
    magnitude limit beyond acc cs = .ok n ↔
      (∀ c ∈ cs, c.isDigit = true) ∧ Nat.ofDigitChars 10 cs acc = n ∧ n ≤ limit := by
  induction cs generalizing acc with
  | nil =>
    rw [magnitude, Except.ok.injEq, Nat.ofDigitChars_nil]
    constructor
    · rintro rfl
      exact ⟨by simp, rfl, hacc⟩
    · exact fun h => h.2.1
  | cons c rest ih =>
    have hstep : 10 * acc + (c.toNat - '0'.toNat) = acc * 10 + digitValue c := by
      rw [digitValue, Nat.mul_comm]
    rw [magnitude, Nat.ofDigitChars_cons, hstep, List.forall_mem_cons]
    by_cases hc : c.isDigit = true
    · rw [if_pos hc]
      by_cases hle : acc * 10 + digitValue c ≤ limit
      · rw [if_pos hle, ih hle]
        simp [hc]
      · -- More digits make a number that is too large larger.
        rw [if_neg hle]
        constructor
        · intro h
          cases h
        · have hmore := le_ofDigitChars (acc * 10 + digitValue c) rest
          omega
    · rw [if_neg hc]
      constructor
      · intro h
        cases h
      · exact fun h => absurd h.1.1 hc

/-- **A text is read as a number** if it is a numeral and its number does not exceed the limit. -/
theorem digits_eq_ok_iff :
    digits limit beyond cs = .ok n ↔ IsNumeral cs ∧ number cs = n ∧ n ≤ limit := by
  cases cs with
  | nil => exact ⟨nofun, fun h => absurd rfl h.1.ne_nil⟩
  | cons c rest =>
    rw [digits, magnitude_eq_ok_iff (Nat.zero_le _)]
    exact and_congr_left' ⟨fun h => ⟨List.cons_ne_nil c rest, h⟩, IsNumeral.digits⟩

/-- Zeros in front change nothing. -/
theorem number_replicate_append (k : Nat) (cs : List Char) :
    number (List.replicate k '0' ++ cs) = number cs := by
  rw [number, Nat.ofDigitChars_append, Nat.ofDigitChars_replicate_zero, Nat.mul_zero, number]

theorem IsNumeral.replicate_append (h : IsNumeral cs) (k : Nat) :
    IsNumeral (List.replicate k '0' ++ cs) where
  ne_nil := List.append_ne_nil_of_right_ne_nil _ h.ne_nil
  digits c hc := by
    rcases List.mem_append.1 hc with hc | hc
    · rw [List.eq_of_mem_replicate hc]
      rfl
    · exact h.digits c hc

end Integer

namespace Digits

open Integer (IsNumeral number)

variable {width n : Nat}

theorem isNumeral_toDigits (n : Nat) : IsNumeral (Nat.toDigits 10 n) where
  ne_nil := Nat.toDigits_ne_nil
  digits _ hc := Nat.isDigit_of_mem_toDigits (by omega) (by omega) hc

theorem padded_eq (width n : Nat) :
    padded width n =
      List.replicate (width - (Nat.toDigits 10 n).length) '0' ++ Nat.toDigits 10 n := by
  simp [padded]

theorem isNumeral_padded (width n : Nat) : IsNumeral (padded width n) := by
  rw [padded_eq]
  exact (isNumeral_toDigits n).replicate_append _

/-- **A number with a fixed number of digits denotes itself.** -/
theorem number_padded (width n : Nat) : number (padded width n) = n := by
  rw [padded_eq, Integer.number_replicate_append]
  exact Nat.ofDigitChars_ten_toDigits

theorem length_padded (hwidth : 0 < width) (h : n < 10 ^ width) :
    (padded width n).length = width := by
  have hle := (Nat.length_toDigits_le_iff (by omega) hwidth).2 h
  rw [padded_eq, List.length_append, List.length_replicate]
  omega

end Digits

end LogBinder
