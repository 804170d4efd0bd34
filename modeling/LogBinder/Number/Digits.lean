/-
  Log binder — numbers with a fixed number of digits.

  * `padded` writes at least so many digits, with zeros in front;
  * `fraction` writes the digits after a point, without zeros at the end.
-/
namespace LogBinder.Digits

/-- The digits of a number, with zeros in front up to a width. -/
def padded (width n : Nat) : List Char :=
  let digits := (toString n).toList
  List.replicate (width - digits.length) '0' ++ digits

/-- A point and so many digits of a fraction, without zeros at the end; nothing for zero. -/
def fraction (places n : Nat) : List Char :=
  if n = 0 then []
  else '.' :: ((padded places n).reverse.dropWhile (· = '0')).reverse

/-- There are as many digits as asked for, or more. -/
theorem le_length_padded (width n : Nat) : width ≤ (padded width n).length := by
  simp only [padded, List.length_append, List.length_replicate]
  omega

/-- A written fraction does not end in a zero. -/
theorem getLast?_fraction (places n : Nat) : (fraction places n).getLast? ≠ some '0' := by
  rw [fraction]
  split
  · simp
  · cases h : (padded places n).reverse.dropWhile (· = '0') with
    | nil => simp
    | cons c rest =>
      have hc := List.head_dropWhile_not (· = '0') (l := (padded places n).reverse) (by simp [h])
      simp only [h, List.head_cons, decide_eq_false_iff_not] at hc
      simpa [List.getLast?_cons] using hc

end LogBinder.Digits
