/-
  Log binder — the notation of inspected texts.

  A record is written with its name and its fields; one that holds more than
  it shows ends in two dots.  Texts and characters stand in quotes, optional
  things after `Some` or as `None`.

  * `escaped` writes a character between quotes so that it can be seen: what
    is not visible stands as its code point.
-/
import LogBinder.Text.Split
import LogBinder.Text.Visible

namespace LogBinder.Inspect

/-! ## Quotes -/

/-- A character by its code point. -/
def codePoint (c : Char) : List Char :=
  '\\' :: 'u' :: '{' :: Nat.toDigits 16 c.toNat ++ ['}']

/-- A character as it stands between quotes of a kind. -/
def escaped (mark c : Char) : List Char :=
  match c with
  | '\x00' => ['\\', '0']
  | '\t' => ['\\', 't']
  | '\n' => ['\\', 'n']
  | '\r' => ['\\', 'r']
  | '\\' => ['\\', '\\']
  | c =>
    if c = mark then ['\\', c]
    else if Text.isVisible c then [c]
    else codePoint c

/-- A text in quotes. -/
def quote (s : String) : String :=
  "\"" ++ String.ofList (s.toList.flatMap (escaped '"')) ++ "\""

/-- A character in quotes. -/
def quoteChar (c : Char) : String :=
  String.ofList ('\'' :: escaped '\'' c ++ ['\''])

/-! ## Compounds -/

/-- A truth value. -/
def truth (b : Bool) : String := if b then "true" else "false"

/-- Something optional. -/
def optional {α : Type} (write : α → String) : Option α → String
  | some x => "Some(" ++ write x ++ ")"
  | none => "None"

/-- A list. -/
def bracket (items : List String) : String :=
  "[" ++ Text.joined ", " items ++ "]"

/-- A list of texts. -/
def quotes (items : List String) : String :=
  bracket (items.map quote)

/-- Fields one after the other. -/
def fields (fs : List (String × String)) : String :=
  Text.joined ", " (fs.map fun f => f.1 ++ ": " ++ f.2)

/-- A record that shows all it holds. -/
def record (name : String) (fs : List (String × String)) : String :=
  name ++ " \x7b " ++ fields fs ++ " \x7d"

/-- A record that holds more than it shows. -/
def excerpt (name : String) (fs : List (String × String)) : String :=
  name ++ " \x7b " ++ fields fs ++ ", .. \x7d"

/-- A record without names for its fields. -/
def tuple (name : String) (parts : List String) : String :=
  name ++ "(" ++ Text.joined ", " parts ++ ")"

end LogBinder.Inspect
