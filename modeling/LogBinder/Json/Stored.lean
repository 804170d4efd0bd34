/-
  Log binder — the stored forms of small values.

  A member of an enumeration is stored as its name, and also read from an
  object whose only member has that name and the null value.  A format
  provider is stored as an object with three members; other members are
  ignored when it is read, and an array of its parts is accepted as well.

  * `quoted` writes a string with the fewest escapes;
  * `FormatProvider.stored` and `FormatProvider.ofStored?` write and read a
    provider.
-/
import LogBinder.FormatProvider
import LogBinder.Json.Reader

namespace LogBinder

namespace Json

/-- A hexadecimal digit in lower case. -/
def hexDigit (n : Nat) : Char :=
  if n < 10 then Char.ofNat ('0'.toNat + n) else Char.ofNat ('a'.toNat + (n - 10))

/-- A character as it stands in a string. -/
def escaped (c : Char) : List Char :=
  match c with
  | '"' => ['\\', '"']
  | '\\' => ['\\', '\\']
  | '\x08' => ['\\', 'b']
  | '\x0c' => ['\\', 'f']
  | '\n' => ['\\', 'n']
  | '\r' => ['\\', 'r']
  | '\t' => ['\\', 't']
  | c =>
    if c.toNat < 0x20 then
      ['\\', 'u', '0', '0', hexDigit (c.toNat / 16), hexDigit (c.toNat % 16)]
    else [c]

/-- Characters as a string between quotes. -/
def quoted (cs : List Char) : List Char :=
  '"' :: cs.flatMap escaped ++ ['"']

/-- The name of a member of an enumeration. -/
def memberName? : Json → Option String
  | string name => some name
  | object [(name, null)] => some name
  | _ => none

/-- The member of an enumeration that a text stores, among those listed by name. -/
def ofStored? {α : Type} (members : List (String × α)) (text : String) : Option α := do
  members.lookup (← memberName? (← syntaxOf text.toList))

/-- The only character of a string. -/
def character? : Json → Option Char
  | string s => match s.toList with
    | [c] => some c
    | _ => none
  | _ => none

/-- An optional character. -/
def optionalCharacter? : Json → Option (Option Char)
  | null => some none
  | v => (character? v).map some

end Json

namespace FormatProvider

/-- The parts of a provider that have been read. -/
structure Fields where
  name : Option String := none
  decimal : Option Char := none
  group : Option (Option Char) := none

/-- Takes one member; a known name may come only once. -/
def Fields.take (f : Fields) (member : String × Json) : Option Fields :=
  match member, f with
  | ("name", .string s), ⟨none, _, _⟩ => some { f with name := some s }
  | ("decimal_separator", v), ⟨_, none, _⟩ =>
    (Json.character? v).map fun c => { f with decimal := some c }
  | ("group_separator", v), ⟨_, _, none⟩ =>
    (Json.optionalCharacter? v).map fun c => { f with group := some c }
  | (name, _), _ =>
    if name = "name" ∨ name = "decimal_separator" ∨ name = "group_separator" then none
    else some f

/-- The provider that a JSON value describes. -/
def ofJson? : Json → Option FormatProvider
  | .object members => do
    let f ← members.foldlM Fields.take {}
    return ⟨← f.name, ← f.decimal, f.group.getD none⟩
  | .array [.string name, decimal] => do
    return ⟨name, ← Json.character? decimal, none⟩
  | .array [.string name, decimal, group] => do
    return ⟨name, ← Json.character? decimal, ← Json.optionalCharacter? group⟩
  | _ => none

/-- The text that stores a provider. -/
def stored (p : FormatProvider) : List Char :=
  let group := match p.group with
    | none => "null".toList
    | some c => Json.quoted [c]
  "\x7b\"name\":".toList ++ Json.quoted p.name.toList
    ++ ",\"decimal_separator\":".toList ++ Json.quoted [p.decimal]
    ++ ",\"group_separator\":".toList ++ group ++ ['}']

/-- The provider that a text stores. -/
def ofStored? (text : List Char) : Option FormatProvider := do
  ofJson? (← Json.syntaxOf text)

end FormatProvider

end LogBinder
