/-
  Log binder — absolute URIs.

  A URI is a scheme, a colon and a non-empty rest without blank characters.

  * `Uri.read` reads one from a trimmed text, reporting the first of five
    faults;
  * `Uri.text` writes it back.
-/
import LogBinder.Text.Blank
import LogBinder.Text.Split

namespace LogBinder

/-- An absolute URI. -/
structure Uri where
  scheme : String
  rest : String
  deriving DecidableEq, Repr

/-- Why a text is not an absolute URI. -/
inductive UriFault where
  | missingScheme
  | schemeStart
  | schemeCharacter
  | nothingFollows
  | blank
  deriving DecidableEq, Repr

/-- The wording of a fault. -/
def UriFault.message : UriFault → String
  | .missingScheme => "missing scheme"
  | .schemeStart => "scheme must start with a letter"
  | .schemeCharacter => "scheme contains invalid characters"
  | .nothingFollows => "nothing follows the scheme"
  | .blank => "contains whitespace"

namespace Uri

/-- The text of a URI. -/
def text (u : Uri) : String :=
  u.scheme ++ ":" ++ u.rest

/-- Whether a character may stand in a scheme after its first one. -/
def isSchemeChar (c : Char) : Bool :=
  c.isAlphanum || c = '+' || c = '-' || c = '.'

/-- Reads a trimmed text. -/
def readTrimmed (cs : List Char) : Except UriFault Uri :=
  match Text.cut ':' cs with
  | none => .error .missingScheme
  | some ([], _) => .error .schemeStart
  | some (c :: scheme, rest) =>
    if !c.isAlpha then .error .schemeStart
    else if !scheme.all isSchemeChar then .error .schemeCharacter
    else if rest.isEmpty then .error .nothingFollows
    else if cs.any Text.isBlank then .error .blank
    else .ok ⟨String.ofList (c :: scheme), String.ofList rest⟩

/-- Reads a URI, ignoring blank characters around it. -/
def read (text : String) : Except UriFault Uri :=
  readTrimmed (Text.trimChars text.toList)

end Uri

end LogBinder
