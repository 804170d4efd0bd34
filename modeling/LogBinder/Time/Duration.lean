/-
  Log binder — time spans.

  A duration is a number of whole seconds below `2^64` and of nanoseconds
  below one second.  `Duration.read` accepts a whole number of days, or
  `[d.]h:m[:s[.f]]` with hours below 24, minutes and seconds below 60 and a
  fraction of one to seven digits.
-/
import LogBinder.Text.Blank
import LogBinder.Text.Split
import LogBinder.Number.Integer

namespace LogBinder

/-- A span of time. -/
structure Duration where
  seconds : Nat
  nanos : Nat
  seconds_le : seconds ≤ Integer.maxUnsigned
  nanos_lt : nanos < 1000000000
  deriving DecidableEq, Repr

namespace Duration

/-- The duration with these seconds and nanoseconds, if it is in range. -/
def of? (seconds nanos : Nat) : Option Duration :=
  if h : seconds ≤ Integer.maxUnsigned ∧ nanos < 1000000000 then some ⟨seconds, nanos, h.1, h.2⟩ else none

/-- The number of seconds in a day. -/
def secondsPerDay : Nat := 86400

/-- The most digits a fraction of a second has. -/
def fractionDigits : Nat := 7

/-- Reads digits that spell a number of at most 64 bits. -/
def readDigits (cs : List Char) : Option Nat :=
  (Integer.digits Integer.maxUnsigned .tooLarge cs).toOption

/-- Reads the digits of a fraction of a second, in nanoseconds. -/
def readFraction (cs : List Char) : Option Nat :=
  if fractionDigits < cs.length then none
  else (readDigits cs).map (· * Nat.pow 10 (9 - cs.length))

/-- Reads seconds with an optional fraction. -/
def readSeconds (cs : List Char) : Option (Nat × Nat) :=
  match Text.cut '.' cs with
  | none => do return (← readDigits cs, 0)
  | some (whole, fraction) => do return (← readDigits whole, ← readFraction fraction)

/-- Reads hours with optional days before them. -/
def readHours (cs : List Char) : Option (Nat × Nat) :=
  match Text.cut '.' cs with
  | none => do return (0, ← readDigits cs)
  | some (days, hours) => do return (← readDigits days, ← readDigits hours)

/-- The duration of a clock reading after some days, if each part is below its bound. -/
def ofClock (days hours minutes seconds nanos : Nat) : Option Duration :=
  if hours < 24 ∧ minutes < 60 ∧ seconds < 60 then
    of? (days * secondsPerDay + hours * 3600 + minutes * 60 + seconds) nanos
  else none

/-- Reads a duration, ignoring blank characters around it. -/
def read (text : String) : Option Duration :=
  match Text.pieces ':' (Text.trimChars text.toList) with
  | [days] => do of? ((← readDigits days) * secondsPerDay) 0
  | [head, minutes] => do
    let (days, hours) ← readHours head
    ofClock days hours (← readDigits minutes) 0 0
  | [head, minutes, seconds] => do
    let (days, hours) ← readHours head
    let (seconds, nanos) ← readSeconds seconds
    ofClock days hours (← readDigits minutes) seconds nanos
  | _ => none

end Duration

end LogBinder
