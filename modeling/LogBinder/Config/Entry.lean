/-
  Log binder — flat configuration entries.

  A document is read as a list of entries, each a path of keys with colons
  between them and the text of a scalar; an empty container gives an entry
  without a scalar, which only marks that its section exists.  Objects and
  tables contribute their keys, arrays the index of each item.

  * `Entry.ofJson` and `Entry.ofToml` flatten the two kinds of document, in
    document order.
-/
import LogBinder.Json.Basic
import LogBinder.Toml.Basic
import LogBinder.Text.Split

namespace LogBinder

/-- One configuration entry. -/
structure Entry where
  path : String
  /-- The text of a scalar; `none` for a section. -/
  value : Option String
  deriving DecidableEq, Repr

namespace Entry

/-- The path that visits keys from the outermost on. -/
def pathOf (keys : List String) : String :=
  Text.joined ":" keys

/-- A scalar under the keys that lead to it. -/
def scalar (keys : List String) (text : String) : Entry := ⟨pathOf keys, some text⟩

/-- An empty section under the keys that lead to it. -/
def emptySection (keys : List String) : Entry := ⟨pathOf keys, none⟩

/-- The words for truth values. -/
def boolText (b : Bool) : String := if b then "true" else "false"

/-! ## JSON -/

mutual

/-- The entries of a JSON value under the keys that lead to it. -/
def ofJson (keys : List String) : Json → List Entry
  | .null => [scalar keys ""]
  | .bool b => [scalar keys (boolText b)]
  | .number n => [scalar keys n.text]
  | .string s => [scalar keys s]
  | .unreadable => []
  | .array [] => [emptySection keys]
  | .array items => ofJsonItems keys 0 items
  | .object [] => if keys.isEmpty then [] else [emptySection keys]
  | .object members => ofJsonMembers keys members

/-- The entries of array items, the first of which has the given index. -/
def ofJsonItems (keys : List String) (index : Nat) : List Json → List Entry
  | [] => []
  | item :: rest => ofJson (keys ++ [toString index]) item ++ ofJsonItems keys (index + 1) rest

/-- The entries of object members. -/
def ofJsonMembers (keys : List String) : List (String × Json) → List Entry
  | [] => []
  | (name, value) :: rest => ofJson (keys ++ [name]) value ++ ofJsonMembers keys rest

end

/-! ## TOML -/

/-- How floats are written. -/
def floatLayout : Layout where
  tie := .up
  positional := none
  wholeEnd := ""
  plus := ""
  infinity := "inf"
  nan := "NaN"

/-- The text of a TOML scalar. -/
def scalarText : Toml.Scalar → String
  | .string s => s
  | .integer n => toString n
  | .float x => floatLayout.text x
  | .boolean b => boolText b
  | .moment text => text

mutual

/-- The entries of a TOML value under the keys that lead to it. -/
def ofToml (keys : List String) : Toml → List Entry
  | .scalar s => [scalar keys (scalarText s)]
  | .array [] => [emptySection keys]
  | .array items => ofTomlItems keys 0 items
  | .table [] => [emptySection keys]
  | .table entries => ofTomlEntries keys entries

/-- The entries of array items, the first of which has the given index. -/
def ofTomlItems (keys : List String) (index : Nat) : List Toml → List Entry
  | [] => []
  | item :: rest => ofToml (keys ++ [toString index]) item ++ ofTomlItems keys (index + 1) rest

/-- The entries of a table. -/
def ofTomlEntries (keys : List String) : List (String × Toml) → List Entry
  | [] => []
  | (key, value) :: rest => ofToml (keys ++ [key]) value ++ ofTomlEntries keys rest

end

end Entry

end LogBinder
