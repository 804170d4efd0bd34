/-
  Log binder — double-precision numbers, exactly.

  A number is held as the 64 bits of its IEEE 754 representation.  Its
  magnitude, the low 63 bits, orders the non-negative numbers, and equals
  `(e + 1074) * 2^52 + m` for the number `m * 2^e` with the least possible
  exponent `e ≥ -1074` and `m < 2^53` (`parts`, `compose`).

  * `nearest negative num den` is the number closest to `±num/den`, ties to
    the even significand;
  * `ofDecimal` does so for `±digits * 10^exponent`, and `read` for a
    literal;
  * `equals` is comparison of numbers: no NaN equals anything, and the two
    zeros are equal.
-/
import LogBinder.Number.Integer

namespace LogBinder

/-- A double-precision number by its bits. -/
structure Binary64 where
  /-- Sign, eleven exponent bits and 52 fraction bits. -/
  bits : UInt64
  deriving DecidableEq, Repr

/-- Why a text is not a number. -/
inductive FloatFault where
  | empty
  | invalid
  deriving DecidableEq, Repr

/-- The wording of a fault. -/
def FloatFault.message : FloatFault → String
  | .empty => "cannot parse float from empty string"
  | .invalid => "invalid float literal"

namespace Binary64

/-! ## Parts of a number -/

/-- The weight of the sign bit, `2^63`. -/
def signWeight : Nat := 9223372036854775808

/-- The least significand of a number with all its bits, `2^52`. -/
def leastSignificand : Nat := 4503599627370496

/-- The bits without the sign. -/
def magnitude (x : Binary64) : Nat :=
  x.bits.toNat % signWeight

/-- Whether the sign bit is set. -/
def isNegative (x : Binary64) : Bool :=
  signWeight ≤ x.bits.toNat

/-- The magnitude of the infinities; larger ones are no numbers. -/
def infinite : Nat := 2047 * leastSignificand

/-- The number with a sign and a magnitude. -/
def ofMagnitude (negative : Bool) (magnitude : Nat) : Binary64 :=
  ⟨UInt64.ofNat ((if negative then signWeight else 0) + magnitude)⟩

/-- Whether this is not a number. -/
def isNaN (x : Binary64) : Bool :=
  infinite < x.magnitude

/-- Whether this is one of the infinities. -/
def isInfinite (x : Binary64) : Bool :=
  x.magnitude == infinite

/-- Whether two numbers compare equal. -/
def equals (x y : Binary64) : Bool :=
  !x.isNaN && !y.isNaN && (x.bits == y.bits || (x.magnitude == 0 && y.magnitude == 0))

/-- The number with the other sign. -/
def negate (x : Binary64) : Binary64 :=
  ofMagnitude (!x.isNegative) x.magnitude

/-- The positive infinity. -/
def infinity : Binary64 := ofMagnitude false infinite

/-- The canonical NaN. -/
def nan : Binary64 := ofMagnitude false (infinite + leastSignificand / 2)

/-- Significand and exponent of a finite magnitude. -/
def parts (magnitude : Nat) : Nat × Int :=
  if magnitude < leastSignificand then (magnitude, -1074)
  else
    (magnitude % leastSignificand + leastSignificand, (magnitude / leastSignificand : Nat) - 1075)

/-- The magnitude of `m * 2^e`, where `m ≤ 2^53` and `-1074 ≤ e`. -/
def compose (m : Nat) (e : Int) : Nat :=
  (e + 1074).toNat * leastSignificand + m

/-- A finite magnitude as a quotient. -/
def ratio (magnitude : Nat) : Nat × Nat :=
  let (m, e) := parts magnitude
  (m * Nat.pow 2 e.toNat, Nat.pow 2 (-e).toNat)

/-! ## Rounding -/

/-- The whole number nearest to `num/den`, ties to even. -/
def roundEven (num den : Nat) : Nat :=
  let q := num / den
  let r := num % den
  if den < 2 * r ∨ (2 * r = den ∧ q % 2 = 1) then q + 1 else q

/-- Numerator and denominator of `num/den / 2^e`. -/
def scaleDown (num den : Nat) (e : Int) : Nat × Nat :=
  (num * Nat.pow 2 (-e).toNat, den * Nat.pow 2 e.toNat)

/-- The exponent at which `num/den` has 53 significant bits, or the least one. -/
def exponentOf (num den : Nat) : Int :=
  let guess : Int := (num.log2 : Int) - den.log2 - 52
  let (n, d) := scaleDown num den guess
  max (-1074) (if n / d < leastSignificand then guess - 1 else guess)

/-- The number nearest to `±num/den`, ties to the even significand. -/
def nearest (negative : Bool) (num den : Nat) : Binary64 :=
  if num = 0 then ofMagnitude negative 0
  else
    let e := exponentOf num den
    let (n, d) := scaleDown num den e
    ofMagnitude negative (min infinite (compose (roundEven n d) e))

/-- The number nearest to `±digits * 10^exponent`. -/
def ofDecimal (negative : Bool) (digits : Nat) (exponent : Int) : Binary64 :=
  if digits = 0 then ofMagnitude negative 0
  else if 400 < exponent then ofMagnitude negative infinite
  else if exponent + digits.log2 < -400 then ofMagnitude negative 0
  else nearest negative (digits * Nat.pow 10 exponent.toNat) (Nat.pow 10 (-exponent).toNat)

/-- The product of two non-negative finite numbers, rounded. -/
def product (x y : Binary64) : Binary64 :=
  let (a, b) := ratio x.magnitude
  let (c, d) := ratio y.magnitude
  nearest false (a * c) (b * d)

/-- The quotient of two positive finite numbers, rounded. -/
def quotient (x y : Binary64) : Binary64 :=
  let (a, b) := ratio x.magnitude
  let (c, d) := ratio y.magnitude
  nearest false (a * d) (b * c)

/-! ## Literals -/

/-- An exponent: digits with an optional sign. -/
def readExponent : List Char → Option Int
  | '+' :: rest => go rest
  | '-' :: rest => (go rest).map (-·)
  | cs => go cs
where
  /-- Digits, of which there must be one. -/
  go (cs : List Char) : Option Int :=
    if !cs.isEmpty && cs.all Char.isDigit then some (Integer.digitsValue cs) else none

/-- A significand with at most one point and an optional exponent. -/
def readUnsigned (negative : Bool) (cs : List Char) : Option Binary64 :=
  let whole := cs.takeWhile Char.isDigit
  let (fraction, rest) := match cs.dropWhile Char.isDigit with
    | '.' :: rest => (rest.takeWhile Char.isDigit, rest.dropWhile Char.isDigit)
    | rest => ([], rest)
  let exponent := match rest with
    | [] => some 0
    | c :: rest => if c = 'e' ∨ c = 'E' then readExponent rest else none
  if whole.isEmpty && fraction.isEmpty then none
  else exponent.map fun e => ofDecimal negative (Integer.digitsValue (whole ++ fraction)) (e - fraction.length)

/-- A literal without its sign: a named value in any case, or a numeral. -/
def readMagnitude (negative : Bool) (cs : List Char) : Option Binary64 :=
  let word := cs.map Char.toLower
  if word = "inf".toList ∨ word = "infinity".toList then some (ofMagnitude negative infinite)
  else if word = "nan".toList then some nan
  else readUnsigned negative cs

/-- Reads a literal. -/
def read : List Char → Except FloatFault Binary64
  | [] => .error .empty
  | '+' :: rest => found (readMagnitude false rest)
  | '-' :: rest => found (readMagnitude true rest)
  | cs => found (readMagnitude false cs)
where
  /-- The number, or the fault of a text that is no literal. -/
  found : Option Binary64 → Except FloatFault Binary64
    | some x => .ok x
    | none => .error .invalid

end Binary64

end LogBinder
