/-
  Log binder — the plugin catalog.

  Packages hold methods and types.  Registering a package whose name is
  known, up to ASCII case and surrounding blanks, adds to the package that
  is there.  Methods and types are listed package by package, in the order
  of registration, which decides every later tie.

  * `Catalog.candidates` lists the methods of an extension point in the
    selected packages, `Catalog.resolve` finds a type by name.
-/
import LogBinder.Text.Ascii
import LogBinder.Plugin.Method

namespace LogBinder

/-- A group of methods and types. -/
structure Package where
  name : String
  /-- Whether it is searched when no packages are named. -/
  autoDiscover : Bool
  methods : List Method
  types : List TypeSpec

namespace Package

/-- The package of a name that registers methods and types. -/
def of (name : String) (methods : List Method) (types : List TypeSpec) : Package where
  name := name
  autoDiscover := true
  methods := methods.map fun m => { m with package := name }
  types := types.map fun t => { t with package := name }

/-- The name of the package that is always searched. -/
def coreName : String := "core"

/-- Whether the package answers to a name. -/
def isNamed (p : Package) (name : String) : Bool :=
  Text.alike p.name (Text.trim name)

/-- Whether this is the package that is always searched. -/
def isCore (p : Package) : Bool :=
  p.isNamed coreName

/-- Adds what another package holds. -/
def extend (p q : Package) : Package :=
  { p with
    methods := p.methods ++ q.methods
    types := p.types ++ q.types
    autoDiscover := p.autoDiscover && q.autoDiscover }

end Package

/-- Which packages are searched for methods. -/
inductive Selection where
  | all
  /-- The core package and those named. -/
  | named (names : List String)
  deriving DecidableEq, Repr

/-- Whether a package is searched. -/
def Selection.includes (s : Selection) (p : Package) : Bool :=
  match s with
  | all => p.autoDiscover || p.isCore
  | named names => p.isCore || names.any p.isNamed

/-- The registered packages, in order. -/
structure Catalog where
  packages : List Package

namespace Catalog

/-- The catalog without packages. -/
def empty : Catalog := ⟨[]⟩

/-- Adds a package to the one that answers to its name, or at the end. -/
def put (p : Package) : List Package → List Package
  | [] => [p]
  | q :: rest => if q.isNamed p.name then q.extend p :: rest else q :: put p rest

/-- Registers a package. -/
def register (c : Catalog) (p : Package) : Catalog :=
  ⟨put p c.packages⟩

/-- The catalog of some packages. -/
def ofList (packages : List Package) : Catalog :=
  packages.foldl register empty

/-- The visible methods of an extension point in the selected packages. -/
def candidates (c : Catalog) (capability : Capability) (selection : Selection)
    (allowInternal : Bool) : List Method :=
  ((c.packages.filter selection.includes).flatMap (·.methods)).filter fun m =>
    m.capability = capability && m.visibility.isVisible allowInternal

/-- The first visible type of a name, which may be qualified by a package after a comma. -/
def resolve (c : Catalog) (name : String) (allowInternal : Bool) : Option TypeSpec :=
  let parts := (Text.split ',' name).map Text.trim
  let typeName := parts.head?.getD ""
  let package := (parts[1]?).filter fun p => !p.isEmpty
  if typeName.isEmpty then none
  else
    ((c.packages.filter fun p => package.all p.isNamed).flatMap (·.types)).find? fun t =>
      t.fullName == typeName && t.visibility.isVisible allowInternal

/-- Whether some package answers to a name. -/
def hasPackage (c : Catalog) (name : String) : Bool :=
  c.packages.any fun p => p.isNamed name

end Catalog

end LogBinder
