/-
  Log binder — conversions that need nothing but the text.

  Numbers are brought to invariant form first; only characters and strings
  take the text as it is.
-/
import LogBinder.Binding.Error

namespace LogBinder.Primitive

/-- The truth value that a text denotes. -/
def bool (text : String) : Except ConversionFault Value :=
  if Text.alike (Text.trim text) "true" then .ok (.bool true)
  else if Text.alike (Text.trim text) "false" then .ok (.bool false)
  else .error .notBool

/-- The character that a text consists of. -/
def character (text : String) : Except ConversionFault Value :=
  match text.toList with
  | [c] => .ok (.char c)
  | _ => .error .notCharacter

/-- The URI that a text spells. -/
def uri (text : String) : Except ConversionFault Value :=
  match Uri.read text with
  | .ok u => .ok (.uri u)
  | .error fault => .error (.uri (Text.trim text) fault)

/-- Converts a text, if the type is one of those that need nothing else. -/
def convert (provider : FormatProvider) (text : String) :
    TypeRef → Option (Except ConversionFault Value)
  | .string => some (.ok (.string text))
  | .bool => some (bool text)
  | .char => some (character text)
  | .int => some <|
    ((Integer.readInt64 (provider.normalizeChars text.toList)).map Value.int).mapError .integer
  | .uint => some <|
    ((Integer.readUInt64 (provider.normalizeChars text.toList)).map Value.uint).mapError .integer
  | .float => some <|
    ((Binary64.read (provider.normalizeChars text.toList)).map Value.float).mapError .float
  | .decimal => some <|
    ((Decimal.read (provider.normalizeChars text.toList)).map Value.decimal).mapError .decimal
  | .moment => some <| match Moment.read text with
    | some m => .ok (.moment m)
    | none => .error .notMoment
  | .duration => some <| match Duration.read text with
    | some d => .ok (.duration d)
    | none => .error .notDuration
  | .uri => some (uri text)
  | _ => none

end LogBinder.Primitive
