/-
  Log binder — conversion of scalars.

  Switches are looked up, levels and enumerations take exact names or
  ordinals, and an empty text is no value where there need not be one.
  Any other text may name a static member; for an abstract type it names a
  type to construct; what is left needs nothing but the text.
-/
import LogBinder.Binding.Accessor
import LogBinder.Binding.Primitive

namespace LogBinder

namespace Scope

/-- Why a type that a text alone cannot give takes no text. -/
def scalarFault : TypeRef → ConversionFault
  | .delegate _ _ => .needsMember
  | .array _ | .list _ _ | .dictionary _ _ _ | .sealedContainer _ => .needsItems
  | .callback _ => .needsDirectives
  | _ => .noScalarForm

/-- Converts a text by itself. -/
def primitive (s : Scope) (text path : String) (target : TypeRef) : Except ResolveError Value :=
  match Primitive.convert s.options.provider text target with
  | some (.ok v) => .ok v
  | some (.error fault) => .error (.conversion text target.text path fault)
  | none => .error (.conversion text target.text path (scalarFault target))

/-- Constructs the type of a name, without arguments, to stand for a type. -/
def constructNamed (s : Scope) (name : String) (declared : TypeSpec) (path : String) :
    Fresh Value := do
  let t ← s.type name path
  unless t.isAssignableTo declared.fullName do
    throw (.incompatibleType t.fullName declared.fullName path)
  match t.publicConstructors.find? Constructor.isDefault with
  | none => throw (.noDefaultConstructor t.fullName path)
  | some c =>
    let args ← c.parameters.mapM fun p => do return (p.name, ← s.omitted p path)
    construct t c args path

/-- Converts a text that is neither an accessor nor blank. -/
def convertPlain (s : Scope) (text path : String) : TypeRef → Fresh Value
  | .object name => do
    let declared ← s.type name path
    if declared.isAbstract then s.constructNamed (Text.trim text) declared path
    else s.primitive text path (.object name)
  | target => s.primitive text path target

/-- Converts a text that may name a member or a type. -/
def convertNamed (s : Scope) (text path : String) (target : TypeRef) : Fresh Value :=
  match Accessor.read text with
  | some a => a.value s path target
  | none =>
    if (Text.trim text).isEmpty then s.primitive text path target
    else s.convertPlain text path target

/-- Converts a text that stands at a node. -/
def convertScalar (s : Scope) (n : Node) (text : String) : TypeRef → Fresh Value
  | .levelSwitch => return .levelSwitch (← s.registry.cell .level text n.path)
  | .filterSwitch => return .filterSwitch (← s.registry.cell .filter text n.path)
  | .nullable inner => if text.isEmpty then return .null else convertScalar s n text inner
  | .node => return .node n
  | .level => match Level.readExact text with
    | some l => return .level l
    | none => throw (.notMember "LogLevel" text n.path)
  | .enum spec => match spec.read text with
    | some (ordinal, member) => return .enum spec.name member ordinal
    | none => throw (.notMember spec.name text n.path)
  | .typeName => return .typeName (← s.type text n.path).fullName
  | .uri => s.primitive text n.path .uri
  | .duration => s.primitive text n.path .duration
  | target => s.convertNamed text n.path target

end Scope

end LogBinder
