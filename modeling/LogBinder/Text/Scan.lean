/-
  Log binder — scanning characters from the front of a text.

  A `Scan α` takes some characters off the front of a text and gives a value
  for them, or fails; `x <|> y` tries `y` where `x` started.
-/
import LogBinder.Text.Blank
import LogBinder.Number.Integer

namespace LogBinder

/-- Reads a value from the front of a text. -/
abbrev Scan := StateT (List Char) Option

namespace Scan

/-- Reads one given character. -/
def char (c : Char) : Scan Unit := fun cs =>
  match cs with
  | d :: rest => if d = c then some ((), rest) else none
  | [] => none

/-- Reads one character that satisfies a test. -/
def satisfying (p : Char → Bool) : Scan Char := fun cs =>
  match cs with
  | d :: rest => if p d then some (d, rest) else none
  | [] => none

/-- Reads one of several characters. -/
def oneOf (choices : List Char) : Scan Char :=
  satisfying choices.contains

/-- Reads given characters. -/
def word (w : List Char) : Scan Unit := fun cs =>
  if w.isPrefixOf cs then some ((), cs.drop w.length) else none

/-- Reads all characters that satisfy a test, up to the first that does not. -/
def many (p : Char → Bool) : Scan (List Char) := fun cs =>
  some (cs.takeWhile p, cs.dropWhile p)

/-- Reads characters that satisfy a test, of which there must be one. -/
def some1 (p : Char → Bool) : Scan (List Char) := do
  let first ← satisfying p
  return first :: (← many p)

/-- Reads a value if there is one. -/
def optional {α : Type} (x : Scan α) : Scan (Option α) :=
  (do return some (← x)) <|> pure none

/-- The next character, which stays. -/
def peek : Scan (Option Char) := fun cs =>
  some (cs.head?, cs)

/-- Skips blank characters. -/
def blanks : Scan Unit := fun cs =>
  some ((), Text.trimStart cs)

/-- Reads at least `least` and at most `most` digits. -/
def digits (least most : Nat) : Scan (List Char) := fun cs =>
  let taken := (cs.take most).takeWhile Char.isDigit
  if taken.length < least then none else some (taken, cs.drop taken.length)

/-- Reads all digits that follow, of which there must be one. -/
def run : Scan (List Char) :=
  some1 Char.isDigit

/-- Reads a number of at least `least` and at most `most` digits. -/
def number (least most : Nat) : Scan Nat := do
  return Integer.digitsValue (← digits least most)

/-- Reads a number of exactly `width` digits. -/
def fixed (width : Nat) : Scan Nat :=
  number width width

/-- A fraction of a second as nanoseconds; digits after the ninth do not count. -/
def nanoseconds (digits : List Char) : Nat :=
  let nine := digits.take 9
  Integer.digitsValue nine * Nat.pow 10 (9 - nine.length)

/-- Reads a point and a fraction of a second in nanoseconds, if a point follows. -/
def fraction : Scan Nat := do
  match ← peek with
  | some '.' =>
    char '.'
    return nanoseconds (← run)
  | _ => return 0

/-- Reads a whole text. -/
def whole {α : Type} (scan : Scan α) (cs : List Char) : Option α := do
  let (value, rest) ← scan cs
  if rest.isEmpty then some value else none

end Scan

end LogBinder
