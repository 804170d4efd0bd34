/-
  Log binder — reading whole numbers of bounded size.

  A numeral is an optional sign and ASCII digits.  Characters are read from
  the left, and the first one that is no digit, or that carries the number
  over its bound, decides the fault.

  * `readUnsigned limit` reads a number up to `limit`; a minus sign is no
    digit to it;
  * `readSigned below above` reads a number from `-below` to `above`.
-/
namespace LogBinder

/-- Why a text is not a whole number in range. -/
inductive IntegerFault where
  | empty
  | invalidDigit
  | tooLarge
  | tooSmall
  deriving DecidableEq, Repr

/-- The wording of a fault. -/
def IntegerFault.message : IntegerFault → String
  | .empty => "cannot parse integer from empty string"
  | .invalidDigit => "invalid digit found in string"
  | .tooLarge => "number too large to fit in target type"
  | .tooSmall => "number too small to fit in target type"

namespace Integer

/-- The value of an ASCII digit. -/
def digitValue (c : Char) : Nat :=
  c.toNat - '0'.toNat

/-- The number that digits spell. -/
def digitsValue (cs : List Char) : Nat :=
  cs.foldl (fun n c => n * 10 + digitValue c) 0

/-- Reads digits after `acc`; a value over `limit` is the fault `beyond`. -/
def magnitude (limit : Nat) (beyond : IntegerFault) : Nat → List Char → Except IntegerFault Nat
  | acc, [] => .ok acc
  | acc, c :: rest =>
    if c.isDigit then
      if acc * 10 + digitValue c ≤ limit then
        magnitude limit beyond (acc * 10 + digitValue c) rest
      else .error beyond
    else .error .invalidDigit

/-- Reads digits, of which there must be one. -/
def digits (limit : Nat) (beyond : IntegerFault) : List Char → Except IntegerFault Nat
  | [] => .error .invalidDigit
  | c :: rest => magnitude limit beyond 0 (c :: rest)

/-- Reads a number up to `limit`, with an optional plus sign. -/
def readUnsigned (limit : Nat) : List Char → Except IntegerFault Nat
  | [] => .error .empty
  | '+' :: rest => digits limit .tooLarge rest
  | c :: rest => digits limit .tooLarge (c :: rest)

/-- Reads a number from `-below` to `above`, with an optional sign. -/
def readSigned (below above : Nat) : List Char → Except IntegerFault Int
  | [] => .error .empty
  | '+' :: rest => (digits above .tooLarge rest).map Int.ofNat
  | '-' :: rest => (digits below .tooSmall rest).map fun n => -Int.ofNat n
  | c :: rest => (digits above .tooLarge (c :: rest)).map Int.ofNat

/-- The largest unsigned 64-bit number. -/
def maxUnsigned : Nat := 18446744073709551615

/-- The largest signed 64-bit number. -/
def maxSigned : Nat := 9223372036854775807

/-- Reads an unsigned 64-bit number. -/
def readUInt64 (cs : List Char) : Except IntegerFault UInt64 :=
  (readUnsigned maxUnsigned cs).map UInt64.ofNat

/-- Reads a signed 64-bit number. -/
def readInt64 (cs : List Char) : Except IntegerFault Int64 :=
  (readSigned (maxSigned + 1) maxSigned cs).map Int64.ofInt

/-- A number that was read does not exceed its limit. -/
theorem magnitude_le {limit : Nat} {beyond : IntegerFault} {acc n : Nat} {cs : List Char}
    (hacc : acc ≤ limit) (h : magnitude limit beyond acc cs = .ok n) : n ≤ limit := by
  induction cs generalizing acc with
  | nil => cases h; exact hacc
  | cons c rest ih =>
    rw [magnitude] at h
    split at h
    · split at h
      · next hle => exact ih hle h
      · cases h
    · cases h

end Integer

end LogBinder
