/-
  Log binder — number formatting rules.

  A format provider names the decimal separator and an optional grouping
  character of the numbers in a configuration.  `normalize` brings a
  number to invariant form: grouping is dropped first, and only then does
  the decimal separator become a point.
-/
import LogBinder.Text.Blank

namespace LogBinder

/-- The separators of written numbers. -/
structure FormatProvider where
  name : String
  decimal : Char
  group : Option Char
  deriving DecidableEq, Repr

namespace FormatProvider

/-- A point between the parts and no grouping. -/
def invariant : FormatProvider := ⟨"invariant", '.', none⟩

/-- The characters of a number in invariant form. -/
def normalizeChars (p : FormatProvider) (cs : List Char) : List Char :=
  ((Text.trimChars cs).filter fun c => some c ≠ p.group).map
    fun c => if c = p.decimal then '.' else c

/-- A number in invariant form. -/
def normalize (p : FormatProvider) (text : String) : String :=
  String.ofList (p.normalizeChars text.toList)

end FormatProvider

end LogBinder
