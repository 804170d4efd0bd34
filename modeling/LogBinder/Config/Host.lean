/-
  Log binder — what surrounds the program.

  The files lie in one directory, and a name is followed from there.  Empty
  parts of a name and single points stay in place; a name that ends in one of
  them can only mean a directory.

  * `Host.readFile` gives the text of a file, or why there is none
    (`FileFault`).
-/
import LogBinder.Expansion
import LogBinder.Text.Split

namespace LogBinder

/-- Why a name leads to no text. -/
inductive FileFault where
  | nullCharacter
  | longName
  | missing
  | notDirectory
  | isDirectory
  | notText
  deriving DecidableEq, Repr

/-- The wording of a fault. -/
def FileFault.message : FileFault → String
  | .nullCharacter => "file name contained an unexpected NUL byte"
  | .longName => "File name too long (os error 36)"
  | .missing => "No such file or directory (os error 2)"
  | .notDirectory => "Not a directory (os error 20)"
  | .isDirectory => "Is a directory (os error 21)"
  | .notText => "stream did not contain valid UTF-8"

/-- The surroundings of the program. -/
structure Host where
  environment : Environment
  files : List (String × ByteArray)

namespace Host

/-- Whether a part of a name stays in place. -/
def staysInPlace (part : List Char) : Bool :=
  part = [] || part = ['.']

/-- The parts of a name that lead on. -/
def steps (name : String) : List (List Char) :=
  (Text.pieces '/' name.toList).filter fun part => !staysInPlace part

/-- Whether a name can only mean a directory. -/
def meansDirectory (name : String) : Bool :=
  (Text.pieces '/' name.toList).getLast?.any staysInPlace

/-- The most bytes that a part of a name has. -/
def maxNameBytes : Nat := 255

/-- The contents of the file at the end of some steps, or why there is none. -/
def follow (h : Host) (path : List (List Char)) : Except FileFault ByteArray :=
  match h.files.find? fun f => steps f.1 = path with
  | some f => .ok f.2
  | none =>
    if path.any fun part => maxNameBytes < (String.ofList part).utf8ByteSize then .error .longName
    else if h.files.any fun f => (steps f.1).isPrefixOf path then .error .notDirectory
    else if h.files.any fun f => path.isPrefixOf (steps f.1) then .error .isDirectory
    else .error .missing

/-- The contents of a file, or why there are none. -/
def readBytes (h : Host) (name : String) : Except FileFault ByteArray :=
  if name.toList.contains '\x00' then .error .nullCharacter
  else if name.isEmpty then .error .missing
  else if (steps name).isEmpty then .error .isDirectory
  else if name.toList.head? = some '/' then .error .missing
  else match h.follow (steps name) with
    | .ok bytes => if meansDirectory name then .error .notDirectory else .ok bytes
    | .error fault => .error fault

/-- The text of a file, or why there is none. -/
def readFile (h : Host) (name : String) : Except FileFault String :=
  match h.readBytes name with
  | .error fault => .error fault
  | .ok bytes => match String.fromUTF8? bytes with
    | some text => .ok text
    | none => .error .notText

end Host

end LogBinder
