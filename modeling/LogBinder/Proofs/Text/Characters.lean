/-
  Log binder — classes of characters.

  ASCII letters, ASCII digits and blank characters are known by their codes.
  Folding moves capitals to their small letters and leaves all else, so that
  what is no letter has one case, and what is blank stays so.

  * `isDigit_iff`, `isAlpha_iff` : the codes of digits and letters;
  * `toLower_cases`, `eq_of_toLower_eq` : what folding does;
  * `isBlank_toLower` : blanks are folded to blanks, and nothing else is.
-/
import LogBinder.Text.Blank

namespace LogBinder.Text

variable {c d : Char}

theorem isDigit_iff : c.isDigit = true ↔ 48 ≤ c.toNat ∧ c.toNat ≤ 57 := by
  simp only [Char.isDigit, Bool.and_eq_true, decide_eq_true_eq, ge_iff_le,
    UInt32.le_iff_toNat_le]
  rfl

theorem isAlpha_iff :
    c.isAlpha = true ↔ 65 ≤ c.toNat ∧ c.toNat ≤ 90 ∨ 97 ≤ c.toNat ∧ c.toNat ≤ 122 := by
  change (decide (65 ≤ c.val ∧ c.val ≤ 90) ||
    (decide (97 ≤ c.val) && decide (c.val ≤ 122))) = true ↔ _
  simp only [Bool.or_eq_true, Bool.and_eq_true, decide_eq_true_eq, UInt32.le_iff_toNat_le]
  rfl

theorem isAlpha_eq_false_of_isDigit (h : c.isDigit = true) : c.isAlpha = false := by
  rw [isDigit_iff] at h
  rw [← Bool.not_eq_true, isAlpha_iff]
  omega

/-! ## Folding -/

/-- Folding leaves a character as it is, or moves a capital to its small letter. -/
theorem toLower_cases (c : Char) :
    c.toLower = c ∨ 65 ≤ c.toNat ∧ c.toNat ≤ 90 ∧ c.toLower.toNat = c.toNat + 32 := by
  unfold Char.toLower
  split
  · next h =>
    have hlow : 65 ≤ c.toNat := UInt32.le_iff_toNat_le.1 h.1
    have hhigh : c.toNat ≤ 90 := UInt32.le_iff_toNat_le.1 h.2
    refine .inr ⟨hlow, hhigh, ?_⟩
    change (c.val + 32).toNat = c.toNat + 32
    rw [UInt32.toNat_add]
    change (c.toNat + 32) % 2 ^ 32 = c.toNat + 32
    omega
  · exact .inl rfl

theorem toLower_eq_self (h : c.isAlpha = false) : c.toLower = c := by
  rw [← Bool.not_eq_true, isAlpha_iff] at h
  rcases toLower_cases c with hc | hc
  · exact hc
  · omega

/-- A character that is no letter has one case. -/
theorem eq_of_toLower_eq (h : c.toLower = d.toLower) (hd : d.isAlpha = false) : c = d := by
  rw [toLower_eq_self hd] at h
  rw [← Bool.not_eq_true, isAlpha_iff] at hd
  rcases toLower_cases c with hc | hc
  · exact hc.symm.trans h
  · rw [h] at hc
    omega

/-! ## Blanks -/

/-- No visible ASCII character is blank. -/
theorem isBlank_eq_false_of_visible (hlow : 33 ≤ c.toNat) (hhigh : c.toNat ≤ 126) :
    isBlank c = false := by
  simp only [isBlank, blankRanges, List.any_cons, List.any_nil, Bool.or_false,
    Bool.or_eq_false_iff, Bool.and_eq_false_iff, decide_eq_false_iff_not]
  omega

theorem isBlank_toLower (c : Char) : isBlank c.toLower = isBlank c := by
  rcases toLower_cases c with hc | hc
  · rw [hc]
  · rw [isBlank_eq_false_of_visible (by omega) (by omega),
      isBlank_eq_false_of_visible (by omega) (by omega)]

end LogBinder.Text
