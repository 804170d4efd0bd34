/-
  Log binder — calls.

  A call is a method with an argument for each of its parameters: what the
  directive supplies, what is injected, or the default.
-/
import LogBinder.Binding.Conversion
import LogBinder.Binding.Directive
import LogBinder.Binding.Overload

namespace LogBinder

/-- A method with its arguments. -/
structure Call where
  method : Method
  arguments : Arguments

namespace Call

/-- The argument of one parameter. -/
def argument (s : Scope) (d : Directive) (p : Parameter) : Fresh (String × Value) := do
  match d.argument? p.name with
  | some n => return (p.name, ← s.convert n p.type)
  | none => return (p.name, ← s.omitted p d.path)

/-- The call of a method that a directive asks for. -/
def bind (s : Scope) (d : Directive) (m : Method) : Fresh Call := do
  return ⟨m, ← m.parameters.mapM (argument s d)⟩

end Call

end LogBinder
