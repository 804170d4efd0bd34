/-
  Log binder — numbers of JSON documents.

  A literal within the 64-bit ranges and without fraction and exponent is an
  integer; every other one, and `-0`, is a double.  The digits of a double
  are taken into a 64-bit significand while they fit; those that do not only
  move the decimal exponent.  The significand, rounded to a double, is then
  multiplied or divided by a power of ten, so that the result need not be
  the double nearest to the literal.

  * `Literal.value` is the number of a literal, if it is finite;
  * `Number.text` writes a number: integers in decimal, doubles by `layout`.
-/
import LogBinder.Number.Shortest
import LogBinder.Text.Scan

namespace LogBinder.Json

/-- The parts of a number as it is written. -/
structure Literal where
  negative : Bool
  whole : List Char
  fraction : List Char
  /-- Whether the exponent is negative, and its digits. -/
  exponent : Option (Bool × List Char)
  deriving DecidableEq, Repr

/-- The value of a number. -/
inductive Number where
  /-- An integer in one of the 64-bit ranges. -/
  | integer (n : Int)
  | double (x : Binary64)
  deriving DecidableEq, Repr

/-- How doubles are written. -/
def layout : Layout where
  tie := .even
  positional := some (-5, 16)
  wholeEnd := ".0"
  plus := "+"
  infinity := "inf"
  nan := "NaN"

/-- The text of a number. -/
def Number.text : Number → String
  | .integer n => toString n
  | .double x => layout.text x

namespace Literal

/-- Reads the digits of a whole part: no zero comes before another digit. -/
def scanWhole : Scan (List Char) := do
  match ← Scan.satisfying Char.isDigit with
  | '0' => return ['0']
  | first => return first :: (← Scan.many Char.isDigit)

/-- Reads an exponent. -/
def scanExponent : Scan (Bool × List Char) := do
  let _ ← Scan.oneOf ['e', 'E']
  let sign ← Scan.optional (Scan.oneOf ['+', '-'])
  return (sign = some '-', ← Scan.run)

/-- Reads a literal. -/
def scan : Scan Literal := do
  let sign ← Scan.optional (Scan.char '-')
  let whole ← scanWhole
  let fraction ← match ← Scan.peek with
    | some '.' => Scan.char '.' *> Scan.run
    | _ => pure []
  let exponent ← match ← Scan.peek with
    | some 'e' | some 'E' => some <$> scanExponent
    | _ => pure none
  return ⟨sign.isSome, whole, fraction, exponent⟩

/-- Takes digits into a significand while it has 64 bits; also gives the number of those left. -/
def accumulate : Nat → List Char → Nat × Nat
  | acc, [] => (acc, 0)
  | acc, c :: rest =>
    let next := acc * 10 + Integer.digitValue c
    if next ≤ Integer.maxUnsigned then accumulate next rest else (acc, rest.length + 1)

/-- A power of ten as a double. -/
def powerOfTen (n : Nat) : Binary64 :=
  Binary64.ofDecimal false 1 n

/-- The largest exponent of ten of a finite double. -/
def largestPower : Nat := 308

/-- A number divided by a power of ten, in steps of the largest one until it is zero. -/
def divide (x : Binary64) (n : Nat) : Binary64 :=
  if n ≤ largestPower then x.quotient (powerOfTen n)
  else if x.magnitude = 0 then x
  else divide (x.quotient (powerOfTen largestPower)) (n - largestPower)
termination_by n
decreasing_by grind [largestPower]

/-- A significand times a power of ten, if it is finite. -/
def scale (significand : Nat) (exponent : Int) : Option Binary64 :=
  let x := Binary64.nearest false significand 1
  if exponent < 0 then some (divide x exponent.natAbs)
  else if exponent ≤ largestPower then
    let product := x.product (powerOfTen exponent.toNat)
    if product.isInfinite then none else some product
  else if significand = 0 then some x
  else none

/-- The largest exponent that is not taken for infinite. -/
def exponentLimit : Nat := 2147483647

/-- The double of a literal without its sign, if it is finite. -/
def magnitude (l : Literal) : Option Binary64 :=
  let (whole, beyond) := accumulate 0 l.whole
  let (significand, left) := accumulate whole l.fraction
  let start : Int := beyond - (l.fraction.length - left : Nat)
  match l.exponent with
  | none => scale significand start
  | some (below, digits) =>
    let e := Integer.digitsValue digits
    if exponentLimit < e then
      if significand = 0 || below then some (Binary64.ofMagnitude false 0) else none
    else scale significand (if below then start - e else start + e)

/-- The integer of a literal, if it is one. -/
def integer? (l : Literal) : Option Int :=
  match l.fraction, l.exponent with
  | [], none =>
    let n := Integer.digitsValue l.whole
    if l.negative then if 0 < n ∧ n ≤ Integer.maxSigned + 1 then some (-n) else none
    else if n ≤ Integer.maxUnsigned then some n else none
  | _, _ => none

/-- The number of a literal, if it is finite. -/
def value (l : Literal) : Option Number :=
  match l.integer? with
  | some n => some (.integer n)
  | none => l.magnitude.map fun x => .double (if l.negative then x.negate else x)

end Literal

end LogBinder.Json
