/-
  Log binder — dates and times of TOML documents.

  A value is a date, a time of day, or both with an optional offset.  It is
  kept as its text: `T` between date and time, a fraction without trailing
  zeros and of at most nine digits, `Z` or an offset as hours and minutes.
-/
import LogBinder.Number.Digits
import LogBinder.Text.Scan
import LogBinder.Time.Calendar

namespace LogBinder.Toml

/-- Reads a number of two digits in a range. -/
def scanPair (least most : Nat) : Scan (List Char) := do
  let n ← Scan.fixed 2
  if least ≤ n ∧ n ≤ most then return Digits.padded 2 n else failure

/-- Reads a date. -/
def scanDate : Scan (List Char) := do
  let year ← Scan.fixed 4
  Scan.char '-'
  let month ← Scan.fixed 2
  Scan.char '-'
  let day ← Scan.fixed 2
  if (⟨year, month, day⟩ : Date).isValid then
    return Digits.padded 4 year ++ '-' :: Digits.padded 2 month ++ '-' :: Digits.padded 2 day
  else failure

/-- Reads a time of day. -/
def scanTime : Scan (List Char) := do
  let hour ← scanPair 0 23
  Scan.char ':'
  let minute ← scanPair 0 59
  Scan.char ':'
  let second ← scanPair 0 60
  let nanos ← Scan.fraction
  return hour ++ ':' :: minute ++ ':' :: second ++ Digits.fraction 9 nanos

/-- Reads an offset; one of zero minutes is written with a plus sign. -/
def scanOffset : Scan (List Char) := do
  match ← Scan.oneOf ['Z', 'z', '+', '-'] with
  | 'Z' | 'z' => return ['Z']
  | sign =>
    let hour ← scanPair 0 23
    Scan.char ':'
    let minute ← scanPair 0 59
    let zero := hour ++ minute = ['0', '0', '0', '0']
    return (if zero then '+' else sign) :: hour ++ ':' :: minute

/-- Reads a time of day after a date, and its offset. -/
def scanClock : Scan (List Char) := do
  let _ ← Scan.oneOf ['T', 't', ' ']
  let time ← scanTime
  let offset ← Scan.optional scanOffset
  return 'T' :: time ++ offset.getD []

/-- Reads a date, a time of day or both. -/
def scanMoment : Scan String :=
  (do
    let date ← scanDate
    let clock ← Scan.optional scanClock
    return String.ofList (date ++ clock.getD []))
  <|> (do return String.ofList (← scanTime))

end LogBinder.Toml
