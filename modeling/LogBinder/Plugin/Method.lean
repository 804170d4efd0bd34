/-
  Log binder — methods, constructors and static members.

  A plugin offers methods at extension points, and types with constructors
  and static members.

  * `Method.signature` writes a method for messages;
  * `Constructor.construct` runs a constructor on bound arguments;
  * `TypeSpec.isAssignableTo` says where objects of a type may stand.
-/
import LogBinder.Plugin.Value

namespace LogBinder

/-- Who may use a method, a type, a constructor or a member. -/
inductive Visibility where
  | exported
  | internal
  deriving DecidableEq, Repr

namespace Visibility

/-- The name of a visibility. -/
def name : Visibility → String
  | exported => "Public"
  | internal => "Internal"

/-- All visibilities. -/
def all : List Visibility := [exported, internal]

/-- Whether something can be used by a reader that may or may not use internal things. -/
def isVisible (v : Visibility) (allowInternal : Bool) : Bool :=
  v = .exported || allowInternal

end Visibility

/-- A parameter of a method or a constructor. -/
structure Parameter where
  name : String
  type : TypeRef
  default : Option Value

namespace Parameter

/-- A parameter without a default. -/
def required (name : String) (type : TypeRef) : Parameter := ⟨name, type, none⟩

/-- A parameter with a default. -/
def optional (name : String) (type : TypeRef) (default : Value) : Parameter :=
  ⟨name, type, some default⟩

/-- Whether nothing need be supplied: there is a default, or a value is injected. -/
def canOmit (p : Parameter) : Bool :=
  p.default.isSome || p.type.isImplicit

/-- A parameter with its type, for messages. -/
def text (p : Parameter) : String :=
  p.name ++ ": " ++ p.type.text

end Parameter

/-- A method at an extension point. -/
structure Method where
  name : String
  capability : Capability
  parameters : List Parameter
  visibility : Visibility
  package : String

namespace Method

/-- A method for everybody, which no package has registered yet. -/
def of (name : String) (capability : Capability) (parameters : List Parameter) : Method :=
  ⟨name, capability, parameters, .exported, ""⟩

/-- The parameter of a name. -/
def parameter? (m : Method) (name : String) : Option Parameter :=
  m.parameters.find? fun p => p.name == name

/-- A method with its parameters, for messages. -/
def signature (m : Method) : String :=
  m.name ++ "(" ++ Text.joined ", " (m.parameters.map Parameter.text) ++ ")"

end Method

/-- What a constructor asks of an argument before it makes an object. -/
inductive Demand where
  | string (name : String)
  | level (name : String)
  | present (name : String)
  deriving DecidableEq, Repr

/-- Whether arguments meet a demand. -/
def Demand.check (args : Arguments) : Demand → Except PluginError Unit
  | string name => (args.string name).map fun _ => ()
  | level name => (args.level name).map fun _ => ()
  | present name => (args.require name).map fun _ => ()

/-- A constructor of a registered type. -/
structure Constructor where
  label : String
  parameters : List Parameter
  visibility : Visibility
  demands : List Demand
  /-- Why it never succeeds, if it does not. -/
  failure : Option String

namespace Constructor

/-- A constructor for everybody that always succeeds. -/
def of (label : String) (parameters : List Parameter) : Constructor :=
  ⟨label, parameters, .exported, [], none⟩

/-- Whether it needs no supplied arguments. -/
def isDefault (c : Constructor) : Bool :=
  c.parameters.all Parameter.canOmit

/-- Makes an object with an identity. -/
def construct (c : Constructor) (type : String) (identity : Nat) (args : Arguments) :
    Except PluginError Value := do
  c.demands.forM (Demand.check args)
  match c.failure with
  | some reason => throw (.failed reason)
  | none => return .object type identity c.label (some args)

end Constructor

/-- What a static member is. -/
inductive MemberBody where
  | property (value : Value)
  | field (value : Value)
  | function (signature : Signature) (identity : Nat) (body : FunctionBody)

/-- A member of a registered type. -/
structure Member where
  name : String
  visibility : Visibility
  isStatic : Bool
  body : MemberBody

namespace Member

/-- A static member for everybody. -/
def of (name : String) (body : MemberBody) : Member := ⟨name, .exported, true, body⟩

/-- Whether an accessor reaches it. -/
def isAccessible (m : Member) : Bool :=
  m.isStatic && m.visibility = .exported

/-- Whether it is a function. -/
def isFunction (m : Member) : Bool :=
  match m.body with
  | .function .. => true
  | _ => false

/-- The value of a property. -/
def property? (m : Member) : Option Value :=
  match m.body with
  | .property v => some v
  | _ => none

/-- The value of a field. -/
def field? (m : Member) : Option Value :=
  match m.body with
  | .field v => some v
  | _ => none

/-- The function as a value named after its owner. -/
def bind? (m : Member) (owner : String) : Option Value :=
  match m.body with
  | .function signature identity body =>
    some (.delegate (owner ++ "::" ++ m.name) signature identity body)
  | _ => none

/-- Whether it is a function with a signature. -/
def hasSignature (m : Member) (s : Signature) : Bool :=
  match m.body with
  | .function t _ _ => t.same s
  | _ => false

end Member

/-- A registered type. -/
structure TypeSpec where
  fullName : String
  package : String
  isAbstract : Bool
  visibility : Visibility
  /-- The full names of the types that it can stand for. -/
  supertypes : List String
  constructors : List Constructor
  members : List Member

namespace TypeSpec

/-- A type for everybody, which no package has registered yet. -/
def of (fullName : String) (supertypes : List String) (constructors : List Constructor)
    (members : List Member) : TypeSpec :=
  ⟨fullName, "", false, .exported, supertypes, constructors, members⟩

/-- An abstract type for everybody, which no package has registered yet. -/
def abstractOf (fullName : String) : TypeSpec :=
  { of fullName [] [] [] with isAbstract := true }

/-- Whether objects of the type may stand where a type is expected. -/
def isAssignableTo (t : TypeSpec) (expected : String) : Bool :=
  t.fullName == expected || t.supertypes.contains expected

/-- The constructors that configuration may use. -/
def publicConstructors (t : TypeSpec) : List Constructor :=
  t.constructors.filter fun c => c.visibility = .exported

/-- The members of a name that an accessor reaches. -/
def accessible (t : TypeSpec) (name : String) : List Member :=
  t.members.filter fun m => m.name == name && m.isAccessible

end TypeSpec

end LogBinder
