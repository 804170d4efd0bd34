/-
  Log binder — values kept in memory.

  A list of paths with a value each, whose paths compare without regard to
  ASCII case.  Setting a path that is present keeps its place and spelling;
  a new one goes to the end.
-/
import LogBinder.Text.Ascii

namespace LogBinder

/-- Paths and their values, in order. -/
abbrev Memory := List (String × String)

namespace Memory

/-- Sets the value of a path. -/
def set (path value : String) : Memory → Memory
  | [] => [(path, value)]
  | e :: rest => if Text.alike e.1 path then (e.1, value) :: rest else e :: set path value rest

/-- Removes a path. -/
def remove (path : String) (m : Memory) : Memory :=
  m.filter fun e => !Text.alike e.1 path

/-- Whether a path is present. -/
def has (path : String) (m : Memory) : Bool :=
  m.any fun e => Text.alike e.1 path

/-- The result of setting paths one after the other. -/
def ofList (entries : List (String × String)) : Memory :=
  entries.foldl (fun m e => m.set e.1 e.2) []

end Memory

end LogBinder
