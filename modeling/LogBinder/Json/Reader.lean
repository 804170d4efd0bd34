/-
  Log binder — reading JSON documents.

  The reader takes one token after the other and keeps the containers that
  are still open.

  * `Reading.take` is its transition, and `Json.syntaxOf` runs it over a
    text;
  * `Json.document` accepts what is also readable and not nested too deep,
    and settles repeated names.

  A string with half of a surrogate pair denotes nothing, as a value or as a
  name; an object with such a name denotes nothing as a whole.
-/
import LogBinder.Json.Token

namespace LogBinder.Json

/-- A container that is still open, with its contents in reverse. -/
inductive Open where
  | array (items : List Json)
  /-- An object and the name whose value is being read; a name that denotes nothing is `none`. -/
  | object (members : List (Option String × Json)) (name : Option String)

/-- What the next token may be. -/
inductive Reading where
  | value (opened : List Open)
  | firstItem (opened : List Open)
  | firstName (opened : List Open)
  | name (members : List (Option String × Json)) (opened : List Open)
  | colon (opened : List Open)
  | more (inner : Open) (opened : List Open)
  | done (document : Json)

namespace Reading

/-- Puts a complete value into the innermost open container. -/
def complete (v : Json) : List Open → Reading
  | [] => done v
  | .array items :: opened => more (.array (v :: items)) opened
  | .object members key :: opened => more (.object ((key, v) :: members) key) opened

/-- The text of a string token. -/
def stringText (parts : List Part) : Option String :=
  (Part.join parts).map String.ofList

/-- The value of a string token. -/
def stringValue (parts : List Part) : Json :=
  match stringText parts with
  | some s => .string s
  | none => .unreadable

/-- The value of an object with the members read, which are in reverse. -/
def objectValue (members : List (Option String × Json)) : Json :=
  match members.reverse.mapM fun m => m.1.map fun name => (name, m.2) with
  | some members => .object members
  | none => .unreadable

/-- The value of a number token. -/
def numberValue (l : Literal) : Json :=
  match l.value with
  | some n => .number n
  | none => .unreadable

/-- Takes a token where a value may start. -/
def takeValue (opened : List Open) : Token → Option Reading
  | .openObject => some (firstName opened)
  | .openArray => some (firstItem opened)
  | .string parts => some (complete (stringValue parts) opened)
  | .number l => some (complete (numberValue l) opened)
  | .word v => some (complete v opened)
  | _ => none

/-- Takes a token where a name may stand. -/
def takeName (members : List (Option String × Json)) (opened : List Open) :
    Token → Option Reading
  | .string parts => some (colon (.object members (stringText parts) :: opened))
  | _ => none

/-- Takes a token. -/
def take : Reading → Token → Option Reading
  | value opened, token => takeValue (opened) token
  | firstItem opened, .closeArray => some (complete (.array []) opened)
  | firstItem opened, token => takeValue (.array [] :: opened) token
  | firstName opened, .closeObject => some (complete (.object []) opened)
  | firstName opened, token => takeName [] opened token
  | name members opened, token => takeName members opened token
  | colon opened, .colon => some (value opened)
  | more (.array items) opened, .comma => some (value (.array items :: opened))
  | more (.array items) opened, .closeArray => some (complete (.array items.reverse) opened)
  | more (.object members _) opened, .comma => some (name members opened)
  | more (.object members _) opened, .closeObject =>
    some (complete (objectValue members) opened)
  | _, _ => none

end Reading

/-- The value that a text writes. -/
def syntaxOf (cs : List Char) : Option Json := do
  match ← (← Token.all cs).foldlM Reading.take (.value []) with
  | .done document => some document
  | _ => none

/-- The number of containers that may be nested. -/
def maxDepth : Nat := 127

/-- The document that a text writes. -/
def document (cs : List Char) : Option Json := do
  let d ← syntaxOf cs
  if d.isReadable && d.depth ≤ maxDepth then some d.settle else none

end LogBinder.Json
