/-
  Log binder — accessors of static members.

  An accessor is the name of a type, two colons and the name of a member;
  what follows the member qualifies the type.

  * `Accessor.read` takes an accessor apart;
  * `Accessor.value` finds the member that it denotes.
-/
import LogBinder.Binding.Scope

namespace LogBinder

/-- A reference to a static member. -/
structure Accessor where
  typeName : String
  member : String
  deriving DecidableEq, Repr

namespace Accessor

/-- Takes trimmed characters apart. -/
def readChars (cs : List Char) : Option Accessor :=
  match Text.cut ':' cs with
  | some (c :: type, ':' :: d :: rest) =>
    if d.isAlpha && !rest.contains ':' then
      some ⟨String.ofList (c :: type ++ rest.dropWhile Char.isAlphanum),
        String.ofList (d :: rest.takeWhile Char.isAlphanum)⟩
    else none
  | _ => none

/-- Takes a text apart. -/
def read (text : String) : Option Accessor :=
  readChars (Text.trimChars text.toList)

/-- Whether an object of a type may stand where a type is expected. -/
def isAssignable (s : Scope) (type expected path : String) : Bool :=
  type == expected || match s.type type path with
    | .ok t => t.isAssignableTo expected
    | .error _ => false

/-- Fails if a value is an object that may not stand where a type is expected. -/
def ensureAssignable (s : Scope) (v : Value) (path : String) (target : TypeRef) :
    Except ResolveError Unit :=
  match target, v with
  | .object expected, .object type _ _ _ =>
    if isAssignable s type expected path then .ok ()
    else .error (.incompatibleType type expected path)
  | _, _ => .ok ()

/-- The function of a signature among some members; a single function need not have it. -/
def function? (members : List Member) (signature : Signature) : Option Member :=
  match members.filter Member.isFunction with
  | [m] => some m
  | several => several.find? fun m => m.hasSignature signature

/-- The value of a property or, failing that, of a field. -/
def data? (members : List Member) : Option Value :=
  (members.findSome? Member.property?).or (members.findSome? Member.field?)

/-- The value of the member that an accessor denotes, for a type. -/
def value (s : Scope) (a : Accessor) (path : String) (target : TypeRef) :
    Except ResolveError Value := do
  let t ← s.type a.typeName path
  let members := t.accessible a.member
  let found ← match (match target with
      | .delegate parameters returns =>
        (function? members ⟨parameters, returns⟩).bind fun m => m.bind? t.fullName
      | _ => data? members) with
    | some v => pure v
    | none => throw (.memberNotFound t.fullName a.member path)
  ensureAssignable s found path target
  return found

end Accessor

end LogBinder
