/-
  Log binder — directives.

  A directive names a method and may supply arguments.  It is written as a
  scalar, its name, or as a section with a name and a section of arguments.

  * `Directive.ofNode` reads one entry of a section;
  * `Directive.ofSection` reads all of them, in order.
-/
import LogBinder.Binding.Error

namespace LogBinder

/-- A wish to call a method. -/
structure Directive where
  name : String
  path : String
  arguments : List (String × Node)

namespace Directive

/-- The key of the name. -/
def nameKey : String := "Name"

/-- The key of the arguments. -/
def argumentsKey : String := "Args"

/-- The names of the supplied arguments. -/
def supplied (d : Directive) : List String :=
  d.arguments.map (·.1)

/-- The argument of exactly a name. -/
def argument? (d : Directive) (name : String) : Option Node :=
  d.arguments.lookup name

/-- The entries of a section, which must not be a scalar as well. -/
def entries (n : Node) : Except ResolveError (List Node) := do
  let _ ← n.form
  return n.children

/-- The name in a directive section. -/
def nameOf (n : Node) : Except ResolveError String := do
  match ← (n.child nameKey).form with
  | .scalar name =>
    if (Text.trim name).isEmpty then throw (.missingName n.path) else return Text.trim name
  | .structured => throw (.missingName n.path)

/-- The arguments in a directive section. -/
def argumentsOf (n : Node) : Except ResolveError (List (String × Node)) := do
  let args := n.child argumentsKey
  if args.isPresent then
    match ← args.form with
    | .scalar _ => throw (.scalarArguments args.path)
    | .structured => return args.children.map fun a => (a.key, a)
  else return []

/-- The directive that an entry of a section holds. -/
def ofNode (n : Node) : Except ResolveError Directive := do
  match ← n.form with
  | .scalar name => return ⟨Text.trim name, n.path, []⟩
  | .structured =>
    let name ← nameOf n
    return ⟨name, n.path, ← argumentsOf n⟩

/-- The directives of a section. -/
def ofSection (n : Node) : Except ResolveError (List Directive) := do
  (← entries n).mapM ofNode

end Directive

end LogBinder
