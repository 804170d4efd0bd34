/-
  Log binder — readers.

  A reader reads one section with a catalog.  The section may list the
  packages that are searched for methods; each has to be registered.

  * `Selection.ofSection` reads that list;
  * `Reader.make` makes a reader from what there is.
-/
import LogBinder.Binding.Session

namespace LogBinder

namespace Selection

/-- The section that lists packages. -/
def sectionName : String := "Using"

/-- The texts of a list of packages and where they stand. -/
def listed (n : Node) : Except ResolveError (List (String × String)) := do
  match ← n.form with
  | .scalar name => return [(name, n.path)]
  | .structured => n.children.mapM fun e => do
    match ← e.form with
    | .scalar name => return (name, e.path)
    | .structured => throw (.emptyPackageName e.path)

/-- The trimmed name of a registered package. -/
def registered (c : Catalog) (entry : String × String) : Except ResolveError String :=
  let name := Text.trim entry.1
  if name.isEmpty then .error (.emptyPackageName entry.2)
  else if c.hasPackage name then .ok name
  else .error (.packageNotFound name)

/-- The packages that a section selects: those it lists, or all. -/
def ofSection (c : Catalog) (n : Node) : Except ResolveError Selection := do
  let list := n.child sectionName
  if list.isPresent then
    match ← listed list with
    | [] => return .all
    | entries => return .named (← entries.mapM (registered c))
  else return .all

end Selection

/-- A section with what is needed to read it. -/
structure Reader where
  binder : Binder
  node : Node

namespace Reader

/-- The reader of a section, or of the section that the options name in the configuration, whose
top may be given. -/
def make (catalog : Option Catalog) (options : Options) (given : Option Node)
    (configuration : Option Node) : Except ResolveError Reader := do
  match catalog, given.or (configuration.map fun top => top.child options.sectionName) with
  | none, _ => throw (.missingComponent .catalog)
  | _, none => throw (.missingComponent .configuration)
  | some catalog, some node =>
    let selection ← Selection.ofSection catalog node
    return ⟨⟨catalog, options, selection, configuration.isSome⟩, node⟩

end Reader

end LogBinder
