/-
  Log binder — tokens of JSON texts.

  * `Token.scan` reads one token and `Token.all` cuts a text into tokens;
    blanks between tokens are the four characters of the format;
  * the escapes of a string are read as UTF-16 units first (`Part`), and
    units are then paired (`Part.join`).
-/
import LogBinder.Json.Basic

namespace LogBinder.Json

/-- A character of a string, or a UTF-16 unit given by an escape. -/
inductive Part where
  /-- A character that stands for itself, or a short escape. -/
  | char (c : Char)
  | unit (n : Nat)
  deriving DecidableEq, Repr

/-- A token. -/
inductive Token where
  | openObject
  | closeObject
  | openArray
  | closeArray
  | colon
  | comma
  | string (parts : List Part)
  | number (l : Literal)
  | word (value : Json)

namespace Part

/-- Whether a unit is the first half of a pair. -/
def isHigh (n : Nat) : Bool := 0xD800 ≤ n && n < 0xDC00

/-- Whether a unit is the second half of a pair. -/
def isLow (n : Nat) : Bool := 0xDC00 ≤ n && n < 0xE000

/-- The character of a pair. -/
def pair (high low : Nat) : Char :=
  Char.ofNat (0x10000 + (high - 0xD800) * 0x400 + (low - 0xDC00))

/-- The characters of a string, unless half of a pair stands alone. -/
def join : List Part → Option (List Char)
  | [] => some []
  | .char c :: rest => (join rest).map (c :: ·)
  | .unit high :: .unit low :: rest =>
    if isHigh high then
      if isLow low then (join rest).map (pair high low :: ·) else none
    else if isLow high then none
    else (join (.unit low :: rest)).map (Char.ofNat high :: ·)
  | .unit n :: rest =>
    if isHigh n || isLow n then none else (join rest).map (Char.ofNat n :: ·)

end Part

/-- The value of a hexadecimal digit. -/
def hexValue (c : Char) : Option Nat :=
  if c.isDigit then some (c.toNat - '0'.toNat)
  else if 'a' ≤ c ∧ c ≤ 'f' then some (c.toNat - 'a'.toNat + 10)
  else if 'A' ≤ c ∧ c ≤ 'F' then some (c.toNat - 'A'.toNat + 10)
  else none

/-- The number of four hexadecimal digits. -/
def hexUnit (a b c d : Char) : Option Nat := do
  return (((← hexValue a) * 16 + (← hexValue b)) * 16 + (← hexValue c)) * 16 + (← hexValue d)

/-- The character of a short escape. -/
def shortEscape : Char → Option Char
  | '"' => some '"'
  | '\\' => some '\\'
  | '/' => some '/'
  | 'b' => some '\x08'
  | 'f' => some '\x0c'
  | 'n' => some '\n'
  | 'r' => some '\r'
  | 't' => some '\t'
  | _ => none

/-- Reads the rest of a string after its opening quote. -/
def scanParts : List Char → Option (List Part × List Char)
  | [] => none
  | '"' :: rest => some ([], rest)
  | '\\' :: 'u' :: a :: b :: c :: d :: rest => do
    let unit ← hexUnit a b c d
    let (parts, rest) ← scanParts rest
    return (.unit unit :: parts, rest)
  | '\\' :: c :: rest => do
    let char ← shortEscape c
    let (parts, rest) ← scanParts rest
    return (.char char :: parts, rest)
  | c :: rest =>
    if c.toNat < 0x20 then none
    else do
      let (parts, rest) ← scanParts rest
      return (.char c :: parts, rest)

namespace Token

/-- Whether a character may stand between tokens. -/
def isSpace (c : Char) : Bool :=
  c = ' ' || c = '\t' || c = '\n' || c = '\r'

/-- Reads one token. -/
def scan : Scan Token := fun cs =>
  match cs with
  | '{' :: rest => some (.openObject, rest)
  | '}' :: rest => some (.closeObject, rest)
  | '[' :: rest => some (.openArray, rest)
  | ']' :: rest => some (.closeArray, rest)
  | ':' :: rest => some (.colon, rest)
  | ',' :: rest => some (.comma, rest)
  | 't' :: 'r' :: 'u' :: 'e' :: rest => some (.word (.bool true), rest)
  | 'f' :: 'a' :: 'l' :: 's' :: 'e' :: rest => some (.word (.bool false), rest)
  | 'n' :: 'u' :: 'l' :: 'l' :: rest => some (.word .null, rest)
  | '"' :: rest => (scanParts rest).map fun p => (.string p.1, p.2)
  | cs => (Literal.scan cs).map fun p => (.number p.1, p.2)

/-- Cuts a text into tokens, at most `fuel` of them. -/
def allWithin : Nat → List Char → Option (List Token)
  | 0, cs => if (cs.dropWhile isSpace).isEmpty then some [] else none
  | fuel + 1, cs =>
    match cs.dropWhile isSpace with
    | [] => some []
    | cs => do
      let (token, rest) ← scan cs
      return token :: (← allWithin fuel rest)

/-- The tokens of a text; there are no more of them than characters. -/
def all (cs : List Char) : Option (List Token) :=
  allWithin cs.length cs

end Token

end LogBinder.Json
