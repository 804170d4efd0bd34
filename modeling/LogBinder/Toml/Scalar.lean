/-
  Log binder — strings and numbers of TOML documents.

  * `scanBasic`, `scanLiteral` and their multi-line forms read the text of a
    string after its opening quotes;
  * `scanInteger` and `scanFloat` read numbers, in which an underscore may
    stand between two digits.
-/
import LogBinder.Text.Scan
import LogBinder.Number.Binary64

namespace LogBinder.Toml

/-! ## Characters -/

/-- Whether a character is a blank within a line. -/
def isSpace (c : Char) : Bool := c = ' ' || c = '\t'

/-- Whether a character may stand in a comment or a literal string. -/
def isPrintable (c : Char) : Bool :=
  c = '\t' || (0x20 ≤ c.toNat && c.toNat ≤ 0x7E) || 0x80 ≤ c.toNat

/-- Whether a character may stand in a bare key. -/
def isBare (c : Char) : Bool :=
  c.isAlphanum || c = '_' || c = '-'

/-- A text in which every line ends in a single character. -/
def plainLines : List Char → List Char
  | [] => []
  | '\r' :: '\n' :: rest => '\n' :: plainLines rest
  | c :: rest => c :: plainLines rest

/-! ## Strings -/

/-- The value of a hexadecimal digit. -/
def hexValue (c : Char) : Option Nat :=
  if c.isDigit then some (c.toNat - '0'.toNat)
  else if 'a' ≤ c ∧ c ≤ 'f' then some (c.toNat - 'a'.toNat + 10)
  else if 'A' ≤ c ∧ c ≤ 'F' then some (c.toNat - 'A'.toNat + 10)
  else none

/-- The character whose code point hexadecimal digits spell. -/
def hexChar (cs : List Char) : Option Char := do
  let n ← cs.foldlM (fun n c => do return n * 16 + (← hexValue c)) 0
  if n.isValidChar then some (Char.ofNat n) else none

/-- The character of a short escape. -/
def shortEscape : Char → Option Char
  | 'b' => some '\x08'
  | 't' => some '\t'
  | 'n' => some '\n'
  | 'f' => some '\x0c'
  | 'r' => some '\r'
  | '"' => some '"'
  | '\\' => some '\\'
  | _ => none

/-- Puts a character in front of a string that was read. -/
def prepend (c : Char) (p : List Char × List Char) : List Char × List Char :=
  (c :: p.1, p.2)

/-- Reads a string up to the next double quote. -/
def scanBasic : List Char → Option (List Char × List Char)
  | [] => none
  | '"' :: rest => some ([], rest)
  | '\\' :: 'u' :: a :: b :: c :: d :: rest => do
    return prepend (← hexChar [a, b, c, d]) (← scanBasic rest)
  | '\\' :: 'U' :: a :: b :: c :: d :: e :: f :: g :: h :: rest => do
    return prepend (← hexChar [a, b, c, d, e, f, g, h]) (← scanBasic rest)
  | '\\' :: c :: rest => do return prepend (← shortEscape c) (← scanBasic rest)
  | c :: rest => do if isPrintable c then return prepend c (← scanBasic rest) else none

/-- Reads a string up to the next single quote. -/
def scanLiteral : List Char → Option (List Char × List Char)
  | [] => none
  | '\'' :: rest => some ([], rest)
  | c :: rest => do if isPrintable c then return prepend c (← scanLiteral rest) else none

/-- The quotes in front of a text, when they close a multi-line string: up to two of its own, and
what follows the three that close it. -/
def closing? (quote : Char) (cs : List Char) : Option (List Char × List Char) :=
  let quotes := cs.takeWhile (· = quote)
  if 3 ≤ quotes.length ∧ quotes.length ≤ 5 then
    some (quotes.drop 3, cs.drop quotes.length)
  else none

/-- Where a reader of a multi-line string stands after a backslash at the end of a line. -/
inductive Fold where
  | none
  | line
  | skipping
  deriving DecidableEq

/-- Whether a text starts with three quotes. -/
def startsTriple (quote : Char) (cs : List Char) : Bool :=
  [quote, quote, quote].isPrefixOf cs

/-- Reads a multi-line string that ends in three double quotes. -/
def scanBlock : Fold → List Char → Option (List Char × List Char)
  | _, [] => Option.none
  | .line, c :: rest =>
    if isSpace c then scanBlock .line rest
    else if c = '\n' then scanBlock .skipping rest
    else Option.none
  | .skipping, '\n' :: rest => scanBlock .skipping rest
  | .skipping, ' ' :: rest => scanBlock .skipping rest
  | .skipping, '\t' :: rest => scanBlock .skipping rest
  | _, '\\' :: 'u' :: a :: b :: c :: d :: rest => do
    return prepend (← hexChar [a, b, c, d]) (← scanBlock .none rest)
  | _, '\\' :: 'U' :: a :: b :: c :: d :: e :: f :: g :: h :: rest => do
    return prepend (← hexChar [a, b, c, d, e, f, g, h]) (← scanBlock .none rest)
  | _, '\\' :: '\n' :: rest => scanBlock .skipping rest
  | _, '\\' :: ' ' :: rest => scanBlock .line rest
  | _, '\\' :: '\t' :: rest => scanBlock .line rest
  | _, '\\' :: c :: rest => do return prepend (← shortEscape c) (← scanBlock .none rest)
  | _, c :: rest =>
    if startsTriple '"' (c :: rest) then closing? '"' (c :: rest)
    else if c = '\n' ∨ isPrintable c then do return prepend c (← scanBlock .none rest)
    else Option.none

/-- Reads a multi-line string that ends in three single quotes. -/
def scanLiteralBlock : List Char → Option (List Char × List Char)
  | [] => none
  | c :: rest =>
    if startsTriple '\'' (c :: rest) then closing? '\'' (c :: rest)
    else if c = '\n' ∨ isPrintable c then do return prepend c (← scanLiteralBlock rest)
    else none

/-- Removes one line end after the opening quotes of a multi-line string. -/
def skipNewline : List Char → List Char
  | '\n' :: rest => rest
  | cs => cs

/-- Reads a string. -/
def scanString : Scan String := fun cs => do
  let (text, rest) ← match cs with
    | '"' :: '"' :: '"' :: rest => scanBlock .none (skipNewline rest)
    | '\'' :: '\'' :: '\'' :: rest => scanLiteralBlock (skipNewline rest)
    | '"' :: rest => scanBasic rest
    | '\'' :: rest => scanLiteral rest
    | _ => none
  return (String.ofList text, rest)

/-! ## Numbers -/

/-- Digits without the underscores between them; an underscore needs a digit on either side. -/
def scanGrouped (isDigit : Char → Bool) : Bool → List Char → Option (List Char × List Char)
  | afterDigit, [] => if afterDigit then some ([], []) else none
  | afterDigit, c :: rest =>
    if isDigit c then do return prepend c (← scanGrouped isDigit true rest)
    else if c = '_' ∧ afterDigit then scanGrouped isDigit false rest
    else if afterDigit then some ([], c :: rest) else none

/-- Reads a sign. -/
def scanSign : Scan Bool := do
  return (← Scan.optional (Scan.oneOf ['+', '-'])) = some '-'

/-- Reads decimal digits, without a zero in front of others. -/
def scanDecimal : Scan (List Char) := do
  match ← Scan.peek with
  | some '0' =>
    Scan.char '0'
    return ['0']
  | _ => scanGrouped Char.isDigit false

/-- The integer with a sign, if it has 64 bits. -/
def integerOf (negative : Bool) (n : Nat) : Option Int :=
  if negative then if n ≤ Integer.maxSigned + 1 then some (-n) else none
  else if n ≤ Integer.maxSigned then some n else none

/-- Reads digits of a base after its mark. -/
def scanBased (base : Nat) (mark : Char) : Scan Int := do
  Scan.word ['0', mark]
  let digits ← scanGrouped (fun c => (hexValue c).any (· < base)) false
  let n := digits.foldl (fun n c => n * base + (hexValue c).getD 0) 0
  integerOf false n

/-- Reads an integer. -/
def scanInteger : Scan Int :=
  scanBased 16 'x' <|> scanBased 8 'o' <|> scanBased 2 'b' <|> do
    let negative ← scanSign
    let digits ← scanDecimal
    integerOf negative (Integer.digitsValue digits)

/-- Reads an exponent. -/
def scanExponent : Scan Int := do
  let _ ← Scan.oneOf ['e', 'E']
  let negative ← scanSign
  let n : Int := Integer.digitsValue (← scanGrouped Char.isDigit false)
  return if negative then -n else n

/-- Reads the part of a float after its whole part: a fraction, an exponent or both. -/
def scanTail : Scan (List Char × Int) := do
  match ← Scan.peek with
  | some '.' =>
    Scan.char '.'
    let fraction ← scanGrouped Char.isDigit false
    match ← Scan.peek with
    | some 'e' | some 'E' => return (fraction, ← scanExponent)
    | _ => return (fraction, 0)
  | _ => return ([], ← scanExponent)

/-- Reads a named float. -/
def scanNamed : Scan Binary64 := do
  let negative ← scanSign
  (do
    Scan.word ['i', 'n', 'f']
    return Binary64.ofMagnitude negative Binary64.infinite)
  <|> do
    Scan.word ['n', 'a', 'n']
    return Binary64.nan

/-- Reads a float; one that is too large is refused, unless it is negative. -/
def scanFloat : Scan Binary64 :=
  (do
    let negative ← scanSign
    let whole ← scanDecimal
    let (fraction, exponent) ← scanTail
    let x := Binary64.ofDecimal negative (Integer.digitsValue (whole ++ fraction))
      (exponent - fraction.length)
    if x.isInfinite && !negative then failure else return x)
  <|> scanNamed

end LogBinder.Toml
