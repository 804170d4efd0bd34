/-
  Log binder — when numbers compare equal.

  Doubles compare as numbers, but a NaN is equal to nothing, itself included.
  Decimals compare as the rational numbers that they stand for, whatever
  their scales are.  Neither is equality of what is stored: the zeros of both
  kinds have two signs, and a decimal has many scales.  Both are symmetric and
  transitive all the same.

  * `Binary64.equal_iff` : the doubles that are equal;
  * `Decimal.equal_iff` : the decimals that are equal.
-/
import LogBinder.Number.Binary64
import LogBinder.Number.Decimal
import Mathlib.Algebra.Field.Rat
import Mathlib.Tactic.FieldSimp
import Mathlib.Tactic.Positivity

namespace LogBinder

/-! ## Doubles -/

namespace Binary64

variable {x y z : Binary64}

/-- Two doubles compare equal. -/
def Equal (x y : Binary64) : Prop := x.equals y = true

/-- Numbers are equal to themselves, and zeros to each other; a NaN is equal to nothing. -/
theorem equal_iff : x.Equal y ↔
    x.isNaN = false ∧ y.isNaN = false ∧ (x = y ∨ x.magnitude = 0 ∧ y.magnitude = 0) := by
  obtain ⟨a⟩ := x
  obtain ⟨b⟩ := y
  simp [Equal, equals, and_assoc]

theorem equal_self_iff : x.Equal x ↔ x.isNaN = false := by
  simp [equal_iff]

theorem Equal.symm (h : x.Equal y) : y.Equal x := by
  obtain ⟨hx, hy, h⟩ := equal_iff.1 h
  exact equal_iff.2 ⟨hy, hx, h.imp Eq.symm And.symm⟩

theorem Equal.trans (h : x.Equal y) (h' : y.Equal z) : x.Equal z := by
  obtain ⟨hx, -, h⟩ := equal_iff.1 h
  obtain ⟨-, hz, h'⟩ := equal_iff.1 h'
  refine equal_iff.2 ⟨hx, hz, ?_⟩
  rcases h with rfl | ⟨hx0, hy0⟩
  · exact h'
  · rcases h' with rfl | ⟨-, hz0⟩
    · exact .inr ⟨hx0, hy0⟩
    · exact .inr ⟨hx0, hz0⟩

end Binary64

/-! ## Decimals -/

namespace Decimal

variable {a b c : Decimal}

/-- Two decimals compare equal. -/
def Equal (a b : Decimal) : Prop := a.equals b = true

/-- The number that a decimal stands for. -/
def toRat (d : Decimal) : ℚ :=
  (if d.negative then -1 else 1) * (d.mantissa / 10 ^ d.scale)

theorem scaledValue_eq {place : Nat} (d : Decimal) (h : d.scale ≤ place) :
    (d.scaledValue place : ℚ) = d.toRat * 10 ^ place := by
  obtain ⟨extra, rfl⟩ := Nat.exists_eq_add_of_le h
  rw [scaledValue, toRat, Nat.add_sub_cancel_left, Nat.pow_eq, pow_add]
  push_cast
  field_simp

/-- Decimals are equal if they stand for the same number. -/
theorem equal_iff : a.Equal b ↔ a.toRat = b.toRat := by
  rw [Equal, equals, beq_iff_eq, ← Rat.intCast_inj, scaledValue_eq a (Nat.le_max_left ..),
    scaledValue_eq b (Nat.le_max_right ..)]
  exact mul_left_inj' (by positivity)

theorem Equal.refl (a : Decimal) : a.Equal a := equal_iff.2 rfl

theorem Equal.symm (h : a.Equal b) : b.Equal a := equal_iff.2 (equal_iff.1 h).symm

theorem Equal.trans (h : a.Equal b) (h' : b.Equal c) : a.Equal c :=
  equal_iff.2 ((equal_iff.1 h).trans (equal_iff.1 h'))

end Decimal

end LogBinder
