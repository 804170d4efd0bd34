/-
  Log binder — log levels.

  Six levels in order of severity.  Arguments name a level by its exact name
  or ordinal (`Level.readExact`); level sections and reloads also accept the
  name in any ASCII case (`Level.read`).

  * `readExact_name`, `ofOrdinal_ordinal` : both namings denote the level.
-/
import LogBinder.Text.Ascii
import LogBinder.Text.Blank
import LogBinder.Number.Integer

namespace LogBinder

/-- The severity of a log event, lowest first. -/
inductive Level where
  | verbose
  | debug
  | information
  | warning
  | error
  | fatal
  deriving DecidableEq, Repr

/-- A text that denotes no level. -/
structure LevelFault where
  value : String
  deriving DecidableEq, Repr

/-- The wording of a fault. -/
def LevelFault.message (fault : LevelFault) : String :=
  "'" ++ fault.value ++ "' is not a valid log level"

namespace Level

/-- All levels, in order. -/
def all : List Level := [verbose, debug, information, warning, error, fatal]

/-- The name of a level. -/
def name : Level → String
  | verbose => "Verbose"
  | debug => "Debug"
  | information => "Information"
  | warning => "Warning"
  | error => "Error"
  | fatal => "Fatal"

/-- The place of a level in the order. -/
def ordinal : Level → Nat
  | verbose => 0
  | debug => 1
  | information => 2
  | warning => 3
  | error => 4
  | fatal => 5

/-- The level at a place in the order. -/
def ofOrdinal (n : Nat) : Option Level :=
  all[n]?

/-- The level of a switch that nobody has set. -/
def standard : Level := information

/-- Whether events at `level` pass a switch at `minimum`. -/
def passes (minimum level : Level) : Bool :=
  minimum.ordinal ≤ level.ordinal

/-- The level whose ordinal a text spells. -/
def readOrdinal (cs : List Char) : Option Level :=
  match Integer.readUnsigned 255 cs with
  | .ok n => ofOrdinal n
  | .error _ => none

/-- Reads an exact name or an ordinal. -/
def readExact (text : String) : Option Level :=
  match all.find? fun l => l.name == Text.trim text with
  | some l => some l
  | none => readOrdinal (Text.trim text).toList

/-- Reads a name in any ASCII case or an ordinal. -/
def read (text : String) : Except LevelFault Level :=
  match all.find? fun l => Text.alike l.name (Text.trim text) with
  | some l => .ok l
  | none => match readOrdinal (Text.trim text).toList with
    | some l => .ok l
    | none => .error ⟨text⟩

theorem readExact_name (l : Level) : readExact l.name = some l := by
  cases l <;> decide

theorem ofOrdinal_ordinal (l : Level) : ofOrdinal l.ordinal = some l := by
  cases l <;> rfl

end Level

end LogBinder
