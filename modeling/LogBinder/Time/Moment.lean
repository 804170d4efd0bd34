/-
  Log binder — dates with a time of day.

  A moment has no offset.  A leap second is second 59 with a billion or more
  nanoseconds.

  * `Moment.readOffset` reads a timestamp with fixed fields and an offset
    and converts it to universal time;
  * `Moment.readLocal` reads a text by a list of `Field`s, whose numbers may
    be shorter than usual and preceded by blanks;
  * `Moment.read` tries the first and then the formats of `Moment.formats`.
-/
import LogBinder.Text.Scan
import LogBinder.Time.Calendar

namespace LogBinder

/-- A date and a time of day. -/
structure Moment where
  date : Date
  hour : Nat
  minute : Nat
  /-- The second; 59 also for a leap second. -/
  second : Nat
  /-- Nanoseconds; a billion or more in a leap second. -/
  nanos : Nat
  deriving DecidableEq, Repr

namespace Moment

/-- The moment with these fields, if it exists; second 60 is a leap second. -/
def of? (date : Date) (hour minute second nanos : Nat) : Option Moment :=
  if date.isValid && hour < 24 && minute < 60 && second ≤ 60 then
    if second = 60 then some ⟨date, hour, minute, 59, nanos + 1000000000⟩
    else some ⟨date, hour, minute, second, nanos⟩
  else none

/-! ## Timestamps with an offset -/

/-- The moment `minutes` earlier, for less than a day either way. -/
def earlier (m : Moment) (minutes : Int) : Moment :=
  let total : Int := m.hour * 60 + m.minute - minutes
  let date := if total < 0 then m.date.previous else if 1440 ≤ total then m.date.next else m.date
  let clock := (total % 1440).toNat
  { m with date, hour := clock / 60, minute := clock % 60 }

/-- Reads an offset from universal time, in minutes. -/
def offset : Scan Int := do
  match ← Scan.oneOf ['Z', 'z', '+', '-', '\u2212'] with
  | 'Z' | 'z' => return 0
  | sign =>
    let hours ← Scan.fixed 2
    Scan.char ':'
    let minutes ← Scan.fixed 2
    if hours < 24 ∧ minutes < 60 then
      return if sign = '+' then hours * 60 + minutes else -(hours * 60 + minutes : Int)
    else failure

/-- Reads a timestamp with an offset, as a moment of universal time. -/
def timestamp : Scan Moment := do
  let year ← Scan.fixed 4
  Scan.char '-'
  let month ← Scan.fixed 2
  Scan.char '-'
  let day ← Scan.fixed 2
  let _ ← Scan.oneOf ['T', 't', ' ']
  let hour ← Scan.fixed 2
  Scan.char ':'
  let minute ← Scan.fixed 2
  Scan.char ':'
  let second ← Scan.fixed 2
  let nanos ← Scan.fraction
  let shift ← offset
  let moment ← of? ⟨year, month, day⟩ hour minute second nanos
  return moment.earlier shift

/-- Reads a whole text as a timestamp with an offset. -/
def readOffset (cs : List Char) : Option Moment :=
  timestamp.whole cs

/-! ## Formats without an offset -/

/-- A part of a format. -/
inductive Field where
  /-- A year: up to four digits, or any number of them after a sign. -/
  | year
  | month
  | day
  | hour
  | minute
  | second
  | fraction
  | blanks
  | literal (c : Char)
  deriving DecidableEq, Repr

/-- What has been read so far. -/
structure Parts where
  date : Date := ⟨0, 0, 0⟩
  hour : Nat := 0
  minute : Nat := 0
  second : Nat := 0
  nanos : Nat := 0

/-- Reads a year after blank characters. -/
def yearNumber : Scan Int := do
  Scan.blanks
  match ← get with
  | '-' :: rest =>
    set rest
    return -(Integer.digitsValue (← Scan.run) : Int)
  | '+' :: rest =>
    set rest
    return Integer.digitsValue (← Scan.run)
  | _ => return ← Scan.number 1 4

/-- Reads a number of one or two digits after blank characters. -/
def shortNumber : Scan Nat := do
  Scan.blanks
  Scan.number 1 2

/-- Reads one field. -/
def Field.scan (p : Parts) : Field → Scan Parts
  | .year => do return { p with date := { p.date with year := ← yearNumber } }
  | .month => do return { p with date := { p.date with month := ← shortNumber } }
  | .day => do return { p with date := { p.date with day := ← shortNumber } }
  | .hour => do return { p with hour := ← shortNumber }
  | .minute => do return { p with minute := ← shortNumber }
  | .second => do return { p with second := ← shortNumber }
  | .fraction => do return { p with nanos := ← Scan.fraction }
  | .blanks => do
    Scan.blanks
    return p
  | .literal c => do
    Scan.char c
    return p

/-- A date with dashes. -/
def dateFields : List Field :=
  [.year, .literal '-', .month, .literal '-', .day]

/-- An hour and a minute. -/
def clockFields : List Field :=
  [.hour, .literal ':', .minute]

/-- The formats, in the order in which they are tried. -/
def formats : List (List Field) :=
  let seconds := [.literal ':', .second, .fraction]
  [ dateFields ++ .blanks :: clockFields ++ seconds,
    dateFields ++ .literal 'T' :: clockFields ++ seconds,
    dateFields ++ .blanks :: clockFields,
    dateFields ++ .literal 'T' :: clockFields,
    dateFields ]

/-- Reads a whole text by a format. -/
def readLocal (cs : List Char) (format : List Field) : Option Moment := do
  let p ← Scan.whole (format.foldlM (fun p field => field.scan p) ({} : Parts)) cs
  of? p.date p.hour p.minute p.second p.nanos

/-- Reads a moment, ignoring blank characters around it. -/
def read (text : String) : Option Moment :=
  let cs := Text.trimChars text.toList
  match readOffset cs with
  | some m => some m
  | none => formats.findSome? (readLocal cs)

end Moment

end LogBinder
