/-
  Log binder — names of switches.

  A switch is declared and referred to with or without a leading dollar
  sign; its canonical name has one.

  * `SwitchName.canonical` adds the sign where it is missing;
  * `SwitchName.isValid` says which names may be declared.
-/
import LogBinder.Text.Blank

namespace LogBinder

/-- What a switch controls. -/
inductive SwitchKind where
  | level
  | filter
  deriving DecidableEq, Repr

namespace SwitchKind

/-- The section that declares switches of a kind. -/
def sectionName : SwitchKind → String
  | level => "LevelSwitches"
  | filter => "FilterSwitches"

/-- The word for a kind in messages. -/
def text : SwitchKind → String
  | level => "level"
  | filter => "filter"

end SwitchKind

namespace SwitchName

/-- Whether some characters are a letter and then letters and digits. -/
def isIdentifier : List Char → Bool
  | [] => false
  | c :: rest => c.isAlpha && rest.all Char.isAlphanum

/-- Whether a name may be declared: an identifier, with or without the sign. -/
def isValid (name : String) : Bool :=
  match Text.trimChars name.toList with
  | '$' :: bare => isIdentifier bare
  | bare => isIdentifier bare

/-- The canonical form of a name or a reference. -/
def canonical (name : String) : String :=
  match Text.trimChars name.toList with
  | '$' :: bare => String.ofList ('$' :: bare)
  | bare => String.ofList ('$' :: bare)

end SwitchName

end LogBinder
