/-
  Log binder — text compared without regard to ASCII case.

  Configuration keys, package names and boolean words compare by their
  `folded` characters: the letters `A` to `Z` become `a` to `z` and every
  other character stays, so that `É` and `é` remain different.

  * `alike a b` decides whether two texts have the same folded characters;
    it is an equivalence (`alike_refl`, `alike_symm`, `alike_trans`).
-/
namespace LogBinder.Text

/-- The characters of a text, with ASCII letters in lower case. -/
def folded (s : String) : List Char :=
  s.toList.map Char.toLower

/-- Whether two texts are equal up to the case of ASCII letters. -/
def alike (a b : String) : Bool :=
  folded a == folded b

theorem alike_iff {a b : String} : alike a b = true ↔ folded a = folded b := by
  simp [alike]

@[simp] theorem alike_refl (a : String) : alike a a = true := by
  simp [alike]

theorem alike_comm (a b : String) : alike a b = alike b a := by
  rw [alike, alike, Bool.beq_comm]

theorem alike_symm {a b : String} (h : alike a b = true) : alike b a = true :=
  alike_iff.2 (alike_iff.1 h).symm

theorem alike_trans {a b c : String} (h : alike a b = true) (k : alike b c = true) :
    alike a c = true :=
  alike_iff.2 ((alike_iff.1 h).trans (alike_iff.1 k))

theorem alike_congr_left {a b : String} (h : alike a b = true) (c : String) :
    alike a c = alike b c := by
  rw [alike, alike, alike_iff.1 h]

theorem alike_congr_right {a b : String} (h : alike a b = true) (c : String) :
    alike c a = alike c b := by
  rw [alike, alike, alike_iff.1 h]

end LogBinder.Text
