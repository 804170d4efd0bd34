/-
  Log binder — what a conversion can see.

  A scope holds the plugin surface and the state at one moment: the
  environment, the declared switches and the configuration that is injected.

  * `Scope.type` finds a type;
  * `Scope.injected` gives the value of a parameter that is injected.
-/
import LogBinder.Binding.Options
import LogBinder.Binding.Registry
import LogBinder.Expansion
import LogBinder.Plugin.Catalog

namespace LogBinder

/-- Conversions that may make new objects and callbacks, each with an identity of its own. -/
abbrev Fresh := StateT Nat (Except ResolveError)

/-- A new identity. -/
def Fresh.identity : Fresh Nat :=
  modifyGet fun n => (n, n + 1)

/-- What a conversion can see. -/
structure Scope where
  catalog : Catalog
  options : Options
  selection : Selection
  environment : Environment
  registry : Registry
  application : Option Node

namespace Scope

/-- The type of a name. -/
def type (s : Scope) (name path : String) : Except ResolveError TypeSpec :=
  match s.catalog.resolve (Text.trim name) s.options.allowInternalTypes with
  | some t => .ok t
  | none => .error (.typeNotFound (Text.trim name) path)

/-- The methods of an extension point. -/
def methods (s : Scope) (capability : Capability) : List Method :=
  s.catalog.candidates capability s.selection s.options.allowInternalMethods

/-- The value of an injected type. -/
def injected (s : Scope) (target : TypeRef) (parameter path : String) :
    Except ResolveError Value :=
  match target with
  | .appConfiguration => match s.application with
    | some n => .ok (.node n)
    | none => .error (.missingConfiguration parameter path)
  | .formatProvider => .ok (.formatProvider s.options.provider)
  | other => .error (.conversion "" other.text path .notInjected)

/-- The value of a parameter that nothing is supplied for. -/
def omitted (s : Scope) (p : Parameter) (path : String) : Except ResolveError Value :=
  if p.type.isImplicit then s.injected p.type p.name path else .ok (p.default.getD .null)

/-- Runs a constructor. -/
def construct (t : TypeSpec) (c : Constructor) (args : Arguments) (path : String) :
    Fresh Value := do
  let identity ← Fresh.identity
  match c.construct t.fullName identity args with
  | .ok v => return v
  | .error cause => throw (.plugin path cause)

end Scope

end LogBinder
