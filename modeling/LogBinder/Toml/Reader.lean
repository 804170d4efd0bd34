/-
  Log binder — reading TOML documents.

  A document is a list of lines that are blank, hold a comment, open a table
  or an element of an array of tables, or define a value (`Line`).

  * `scanValue` reads a value, `scanLines` the lines of a document;
  * `Line.apply` adds a line to the entries read so far, and
    `Toml.document` runs it over all lines and settles the outcome.
-/
import LogBinder.Toml.Draft
import LogBinder.Toml.Scalar

namespace LogBinder.Toml

/-! ## Keys, blanks and comments -/

/-- Skips blanks within a line. -/
def spaces : Scan Unit := do
  let _ ← Scan.many isSpace

/-- Reads a comment up to the end of its line. -/
def comment : Scan Unit := do
  Scan.char '#'
  let _ ← Scan.many isPrintable

/-- Reads one key: bare or a string on one line. -/
def scanKey : Scan String := fun cs =>
  match cs with
  | '"' :: rest => (scanBasic rest).map fun p => (String.ofList p.1, p.2)
  | '\'' :: rest => (scanLiteral rest).map fun p => (String.ofList p.1, p.2)
  | cs => (Scan.some1 isBare cs).map fun p => (String.ofList p.1, p.2)

/-- The number of containers that may be nested, and of keys with points between them. -/
def maxDepth : Nat := 79

/-- Reads at most so many keys with points between them. -/
def scanPathWithin : Nat → Scan (List String)
  | 0 => failure
  | most + 1 => do
    spaces
    let key ← scanKey
    spaces
    match ← Scan.peek with
    | some '.' =>
      Scan.char '.'
      return key :: (← scanPathWithin most)
    | _ => return [key]

/-- Reads keys with points between them. -/
def scanPath : Scan (List String) :=
  scanPathWithin maxDepth

/-- Skips blanks, line ends and comments, at most `fuel` of each. -/
def skipWithin : Nat → Scan Unit
  | 0 => pure ()
  | fuel + 1 => do
    let _ ← Scan.many fun c => isSpace c || c = '\n'
    match ← Scan.peek with
    | some '#' =>
      comment
      Scan.char '\n'
      skipWithin fuel
    | _ => return ()

/-- Skips blanks, line ends and comments between the items of an array. -/
def skipLines : Scan Unit := fun cs =>
  skipWithin (cs.length + 1) cs

/-! ## Values -/

/-- Reads a truth value. -/
def scanBoolean : Scan Bool :=
  (do Scan.word "true".toList; return true) <|> (do Scan.word "false".toList; return false)

/-- Reads a value that holds no other. -/
def scanScalar : Scan Scalar := do
  match ← Scan.peek with
  | some '"' | some '\'' => return .string (← scanString)
  | some 't' | some 'f' => return .boolean (← scanBoolean)
  | _ =>
    (do return .moment (← scanMoment)) <|> (do return .float (← scanFloat))
      <|> (do return .integer (← scanInteger))

/-- Adds a value to an inline table. -/
def addInline (path : List String) (value : Draft) (entries : Entries) : Option Entries :=
  match path.getLast? with
  | some key => Draft.define key value path.dropLast entries
  | none => none

/-- Reads the items of an array up to its end. -/
def scanItems (item : Scan Draft) : Nat → Scan (List Draft)
  | 0 => failure
  | fuel + 1 => do
    skipLines
    match ← Scan.peek with
    | some ']' =>
      Scan.char ']'
      return []
    | _ =>
      let first ← item
      skipLines
      match ← Scan.oneOf [',', ']'] with
      | ',' => return first :: (← scanItems item fuel)
      | _ => return [first]

/-- Reads the entries of an inline table up to its end. -/
def scanEntries (item : Scan Draft) : Nat → Entries → Scan Entries
  | 0, _ => failure
  | fuel + 1, before => do
    let path ← scanPath
    Scan.char '='
    spaces
    let value ← item
    spaces
    let entries ← addInline path value before
    match ← Scan.oneOf [',', '}'] with
    | ',' => scanEntries item fuel entries
    | _ => return entries

/-- Reads a value; containers are nested at most so deep. -/
def scanValueWithin : Nat → Scan Draft
  | 0 => do return .scalar (← scanScalar)
  | depth + 1 => fun cs =>
    match cs with
    | '[' :: rest =>
      (do return .array (← scanItems (scanValueWithin depth) (rest.length + 1)) : Scan Draft) rest
    | '{' :: rest =>
      (do
        spaces
        match ← Scan.peek with
        | some '}' =>
          Scan.char '}'
          return .table .inline []
        | _ =>
          return .table .inline
            (← scanEntries (scanValueWithin depth) (rest.length + 1) []) : Scan Draft) rest
    | cs => (do return .scalar (← scanScalar) : Scan Draft) cs

/-- Reads a value. -/
def scanValue : Scan Draft :=
  scanValueWithin maxDepth

/-! ## Lines -/

/-- A line that says something. -/
inductive Line where
  | table (path : List String)
  | element (path : List String)
  | value (path : List String) (value : Draft)

/-- Reads the rest of a line, which holds at most a comment. -/
def endLine : Scan Unit := do
  spaces
  let _ ← Scan.optional comment
  match ← Scan.peek with
  | some _ => Scan.char '\n'
  | none => return ()

/-- Reads a line that is not blank. -/
def scanLine : Scan Line := fun cs =>
  match cs with
  | '[' :: '[' :: rest =>
    (do
      let path ← scanPath
      Scan.word [']', ']']
      return Line.element path : Scan Line) rest
  | '[' :: rest =>
    (do
      let path ← scanPath
      Scan.char ']'
      return Line.table path : Scan Line) rest
  | cs =>
    (do
      let path ← scanPath
      Scan.char '='
      spaces
      return Line.value path (← scanValue) : Scan Line) cs

/-- Reads the lines of a document, at most `fuel` of them. -/
def scanLines : Nat → Scan (List Line)
  | 0 => failure
  | fuel + 1 => do
    spaces
    match ← Scan.peek with
    | none => return []
    | some '\n' =>
      Scan.char '\n'
      scanLines fuel
    | some '#' =>
      endLine
      scanLines fuel
    | some _ =>
      let line ← scanLine
      endLine
      return line :: (← scanLines fuel)

/-- What has been read of a document. -/
structure Reading where
  entries : Entries := []
  current : List String := []

/-- Adds a line to a document. -/
def Line.apply (r : Reading) : Line → Option Reading
  | .table path => do
    let key ← path.getLast?
    return ⟨← Draft.within (Draft.openTable key) path.dropLast r.entries, path⟩
  | .element path => do
    let key ← path.getLast?
    return ⟨← Draft.within (Draft.openElement key) path.dropLast r.entries, path⟩
  | .value path v => do
    let key ← path.getLast?
    return ⟨← Draft.within (Draft.define key v path.dropLast) r.current r.entries, r.current⟩

/-- A text without a byte order mark. -/
def dropMark : List Char → List Char
  | '\uFEFF' :: rest => rest
  | cs => cs

/-- The entries of the document that a text writes.  Of all tables only the document itself is a
table whatever its first key is. -/
def document (cs : List Char) : Option (List (String × Toml)) := do
  let text := plainLines (dropMark cs)
  let (lines, _) ← scanLines (text.length + 1) text
  Draft.settleEntries (← lines.foldlM Line.apply {}).entries

end LogBinder.Toml
