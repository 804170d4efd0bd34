/-
  Log binder — exact decimal numbers.

  A decimal is `±mantissa / 10^scale` with a mantissa below `2^96` and a
  scale up to 28.  The scale is part of the text (`1.10` is not `1.1`) but
  not of the value (`equals`).

  * `readPlain` reads digits with at most one point; the first digit after
    the point that has no room rounds half up, and what follows is only
    checked;
  * `readScientific` reads a base and a power of ten, `read` either of the
    two; digits for which a negative power leaves no room are rounded away;
  * `readPlain_fits` : what was read keeps within both bounds.
-/
import LogBinder.Number.Digits
import LogBinder.Number.Integer
import LogBinder.Text.Split

namespace LogBinder

/-- A signed decimal with its scale. -/
structure Decimal where
  /-- Whether the number is below zero, or was before it was rounded to zero. -/
  negative : Bool
  mantissa : Nat
  scale : Nat
  deriving DecidableEq, Repr

/-- Why a text is not a decimal. -/
inductive DecimalFault where
  | empty
  | leadingSeparator
  | secondPoint
  | unknownCharacter
  | noDigits
  | tooManyDigits
  | roundingOverflow
  | malformedExponent
  | scaleTooLarge (scale : Nat)
  | tooLarge
  deriving DecidableEq, Repr

namespace Decimal

/-- The largest mantissa, `2^96 - 1`. -/
def maxMantissa : Nat := 79228162514264337593543950335

/-- The largest scale. -/
def maxScale : Nat := 28

end Decimal

/-- The wording of a fault. -/
def DecimalFault.message : DecimalFault → String
  | .empty => "Invalid decimal: empty"
  | .leadingSeparator => "Invalid decimal: must start lead with a number"
  | .secondPoint => "Invalid decimal: two decimal points"
  | .unknownCharacter => "Invalid decimal: unknown character"
  | .noDigits => "Invalid decimal: no digits found"
  | .tooManyDigits => "Invalid decimal: overflow from too many digits"
  | .roundingOverflow => "Invalid decimal: overflow from mantissa after rounding"
  | .malformedExponent => "Failed to parse"
  | .scaleTooLarge scale =>
    "Scale exceeds the maximum precision allowed: " ++ toString scale ++ " > "
      ++ toString Decimal.maxScale
  | .tooLarge => "Number exceeds maximum value that can be represented."

namespace Decimal

/-- The value of a decimal times `10^place`, for a place not below its scale. -/
def scaledValue (d : Decimal) (place : Nat) : Int :=
  (if d.negative then -1 else 1) * (d.mantissa * Nat.pow 10 (place - d.scale) : Nat)

/-- Whether two decimals have the same value. -/
def equals (a b : Decimal) : Bool :=
  a.scaledValue (max a.scale b.scale) == b.scaledValue (max a.scale b.scale)

/-- A decimal with a sign, which a zero does not take. -/
def signed (negative : Bool) (mantissa scale : Nat) : Decimal :=
  ⟨negative && mantissa ≠ 0, mantissa, scale⟩

/-- The text of a decimal, with as many digits after the point as its scale says. -/
def text (d : Decimal) : String :=
  let digits := Digits.padded (d.scale + 1) d.mantissa
  let fraction := match digits.drop (digits.length - d.scale) with
    | [] => []
    | cs => '.' :: cs
  String.ofList ((if d.negative then ['-'] else []) ++ digits.take (digits.length - d.scale)
    ++ fraction)

/-! ## Plain numerals -/

/-- Checks the characters after the last digit that counts. -/
def checkRest : List Char → Except DecimalFault Unit
  | [] => .ok ()
  | c :: rest =>
    if c.isDigit || c = '_' then checkRest rest
    else if c = '.' then .error .secondPoint
    else .error .unknownCharacter

/-- Rounds half up at the first digit that has no room; a carry over the bound gives up a digit. -/
def round (negative : Bool) (mantissa scale digit : Nat) (rest : List Char) :
    Except DecimalFault Decimal :=
  let rounded := if 5 ≤ digit then mantissa + 1 else mantissa
  if rounded ≤ maxMantissa then (checkRest rest).map fun _ => signed negative rounded scale
  else if scale = 0 then .error .roundingOverflow
  else (checkRest rest).map fun _ => signed negative ((rounded + 4) / 10) (scale - 1)

/-- What has been read of a numeral. -/
structure Progress where
  mantissa : Nat
  scale : Nat
  point : Bool
  digit : Bool

/-- Reads the characters of a numeral after its sign. -/
def scan (negative : Bool) : Progress → List Char → Except DecimalFault Decimal
  | p, [] => if p.digit then .ok (signed negative p.mantissa p.scale) else .error .noDigits
  | p, c :: rest =>
    if c.isDigit then
      let next := p.mantissa * 10 + Integer.digitValue c
      if p.point && p.scale = maxScale then
        round negative p.mantissa p.scale (Integer.digitValue c) rest
      else if next ≤ maxMantissa then
        scan negative ⟨next, if p.point then p.scale + 1 else p.scale, p.point, true⟩ rest
      else if p.point then round negative p.mantissa p.scale (Integer.digitValue c) rest
      else .error .tooManyDigits
    else if c = '_' then
      if !p.digit then .error .leadingSeparator
      else if p.point && p.scale = maxScale then round negative p.mantissa p.scale 0 rest
      else scan negative p rest
    else if c = '.' then
      if p.point then .error .secondPoint
      else scan negative { p with point := true } rest
    else .error .unknownCharacter

/-- Nothing read yet. -/
def Progress.start : Progress := ⟨0, 0, false, false⟩

/-- Reads a numeral without a power of ten. -/
def readPlain : List Char → Except DecimalFault Decimal
  | [] => .error .empty
  | '-' :: rest => scan true .start rest
  | '+' :: rest => scan false .start rest
  | c :: rest => scan false .start (c :: rest)

/-- Whether a decimal keeps within the bounds of its parts. -/
def Fits (d : Decimal) : Prop :=
  d.mantissa ≤ maxMantissa ∧ d.scale ≤ maxScale

theorem round_fits {negative : Bool} {mantissa scale digit : Nat} {rest : List Char} {d : Decimal}
    (hm : mantissa ≤ maxMantissa) (hs : scale ≤ maxScale)
    (h : round negative mantissa scale digit rest = .ok d) : d.Fits := by
  rw [round] at h
  cases hc : checkRest rest with
  | error fault => grind [Except.map]
  | ok u => grind [Except.map, Fits, signed, maxMantissa]

theorem scan_fits {negative : Bool} {p : Progress} {cs : List Char} {d : Decimal}
    (hm : p.mantissa ≤ maxMantissa) (hs : p.scale ≤ maxScale)
    (h : scan negative p cs = .ok d) : d.Fits := by
  induction cs generalizing p with
  | nil => grind [scan, signed, Fits]
  | cons c rest ih => grind [scan, round_fits]

/-- What is read of a plain numeral keeps within both bounds. -/
theorem readPlain_fits {cs : List Char} {d : Decimal} (h : readPlain cs = .ok d) : d.Fits := by
  have start {negative : Bool} {rest : List Char} (h : scan negative .start rest = .ok d) :
      d.Fits := scan_fits (Nat.zero_le _) (Nat.zero_le _) h
  rw [readPlain.eq_def] at h
  split at h
  · cases h
  · exact start h
  · exact start h
  · exact start h

/-! ## Powers of ten -/

/-- The largest unsigned 32-bit number. -/
def maxExponent : Nat := 4294967295

/-- Reads an unsigned 32-bit exponent. -/
def readExponent (cs : List Char) : Except DecimalFault Nat :=
  match Integer.readUnsigned maxExponent cs with
  | .ok n => .ok n
  | .error _ => .error .malformedExponent

/-- The decimal with at most so many digits after the point; the last of them is rounded half
up, and the sign stays. -/
def limit (places : Nat) (d : Decimal) : Decimal :=
  if d.scale ≤ places then d
  else
    let step := Nat.pow 10 (d.scale - places)
    ⟨d.negative, (d.mantissa + step / 2) / step, places⟩

/-- The decimal divided by `10^n`, by a larger scale, after rounding what would go beyond it. -/
def shiftDown (d : Decimal) (n : Nat) : Except DecimalFault Decimal :=
  if maxScale < n then .error (.scaleTooLarge n)
  else
    let kept := d.limit (maxScale - n)
    .ok { kept with scale := kept.scale + n }

/-- The decimal multiplied by `10^n`, by a smaller scale or else multiplied out. -/
def shiftUp (d : Decimal) (n : Nat) : Except DecimalFault Decimal :=
  if n ≤ d.scale then .ok { d with scale := d.scale - n }
  else if maxScale < n then .error (.scaleTooLarge n)
  else if d.mantissa * Nat.pow 10 (n - d.scale) ≤ maxMantissa then
    .ok ⟨d.negative, d.mantissa * Nat.pow 10 (n - d.scale), 0⟩
  else .error .tooLarge

/-- Reads a base and a power of ten. -/
def readScientific (base exponent : List Char) : Except DecimalFault Decimal := do
  let d ← readPlain base
  match exponent with
  | '-' :: rest => d.shiftDown (← readExponent rest)
  | cs => d.shiftUp (← readExponent cs)

/-- The characters before the first exponent mark and those after it. -/
def cutExponent (cs : List Char) : Option (List Char × List Char) :=
  Text.cut 'e' (cs.map fun c => if c = 'E' then 'e' else c)

/-- Reads a decimal: a plain numeral, or else a base and a power of ten. -/
def read (cs : List Char) : Except DecimalFault Decimal :=
  match readPlain cs, cutExponent cs with
  | .ok d, _ => .ok d
  | .error _, some (base, exponent) => readScientific base exponent
  | .error fault, none => .error fault

end Decimal

end LogBinder
