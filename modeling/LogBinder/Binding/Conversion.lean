/-
  Log binder — conversion of configuration to values.

  What stands at a node decides first, the type second: a scalar is expanded
  and converted as text; a section becomes a callback, a container, an array
  or an object, whose parts are converted in turn.  The conversion of a
  section asks only for conversions of nodes right below it, so it ends
  whatever the types of constructors refer to (`Scope.convert`).

  * `Scope.objectType` and `Constructor.fit?` choose what to construct;
  * `Scope.convertSection` converts a section, given how to convert the
    nodes below it.
-/
import LogBinder.Binding.Ranking
import LogBinder.Binding.Scalar

namespace LogBinder

/-- A constructor and the field, if any, that each of its parameters takes. -/
structure Fit (φ : Type) where
  constructor : Constructor
  bindings : List (Parameter × Option φ)

namespace Fit

variable {φ : Type}

/-- How much of the fields it binds. -/
def rank (f : Fit φ) : Rank :=
  (Rank.of ((f.bindings.filter fun b => b.2.isSome).map (·.1)) fun _ => true).coarse

end Fit

namespace Constructor

variable {φ : Type}

/-- The field for a parameter: the first whose name it is, up to ASCII case. -/
def field? (fields : List (String × φ)) (p : Parameter) : Option φ :=
  (fields.find? fun f => Text.alike f.1 p.name).map (·.2)

/-- The constructor with the fields for its parameters, unless one is wanting. -/
def fit? (fields : List (String × φ)) (c : Constructor) : Option (Fit φ) :=
  if c.parameters.all fun p => p.canOmit || (field? fields p).isSome then
    some ⟨c, c.parameters.map fun p => (p, field? fields p)⟩
  else none

/-- The constructor that fits the fields best. -/
def select (constructors : List Constructor) (fields : List (String × φ)) : Option (Fit φ) :=
  best Fit.rank (constructors.filterMap (fit? fields))

end Constructor

namespace Scope

/-- The key that names the type of an object section. -/
def typeKey : String := "$type"

/-- The type named in an object section. -/
def namedType (s : Scope) (discriminator : Node) : Except ResolveError TypeSpec := do
  match ← discriminator.form with
  | .scalar name => s.type (Text.trim (s.environment.expand name)) discriminator.path
  | .structured => throw (.conversion "" "type name" discriminator.path .typeNameSection)

/-- The type that an object section is constructed as, to stand for a type. -/
def objectType (s : Scope) (n : Node) (declared : String) : Except ResolveError TypeSpec := do
  if (n.child typeKey).isPresent then
    let t ← s.namedType (n.child typeKey)
    unless t.isAssignableTo declared do
      throw (.incompatibleType t.fullName declared n.path)
    return t
  else
    let t ← s.type declared n.path
    if t.isAbstract then throw (.ambiguousType declared n.path) else return t

section Sections

variable (s : Scope) (n : Node)
variable (below : (c : Node) → c ∈ n.children → TypeRef → Fresh Value)

/-- The nodes below as the items of a type. -/
def items (element : TypeRef) : Fresh (List Value) :=
  n.children.attach.mapM fun c => below c.1 c.2 element

/-- The key of an entry; text is taken as it is. -/
def entryKey (c : Node) (key : TypeRef) : Fresh Value :=
  if key.isString then return .string c.key else s.convertScalar c c.key key

/-- The nodes below as entries of types. -/
def entries (key value : TypeRef) : Fresh (List (Value × Value)) :=
  n.children.attach.mapM fun c => do
    let k ← s.entryKey c.1 key
    return (k, ← below c.1 c.2 value)

/-- The nodes below that are fields of an object, by key. -/
def fields : List (String × { c : Node // c ∈ n.children }) :=
  (n.children.attach.filter fun c => !Text.alike c.1.key typeKey).map fun c => (c.1.key, c)

/-- The argument of a parameter. -/
def argument (binding : Parameter × Option { c : Node // c ∈ n.children }) :
    Fresh (String × Value) := do
  match binding.2 with
  | some c => return (binding.1.name, ← below c.1 c.2 binding.1.type)
  | none => return (binding.1.name, ← s.omitted binding.1 n.path)

/-- An object section that stands for a type. -/
def object (declared : String) : Fresh Value := do
  let t ← s.objectType n declared
  match Constructor.select t.publicConstructors (fields n) with
  | none => throw (.noMatchingConstructor t.fullName ((fields n).map (·.1)) n.path)
  | some fit =>
    let args ← fit.bindings.mapM fun b => argument s n below b
    construct t fit.constructor args n.path

/-- A section that a callback configures. -/
def callback (kind : CallbackKind) : Fresh Value := do
  match kind with
  | .other name => throw (.unsupportedCallback name n.path)
  | known => return .callback known n.path (.configures (← Fresh.identity) n)

/-- Converts a section, given how to convert the nodes below it. -/
def convertSection : TypeRef → Fresh Value
  | .node => return .node n
  | .nullable inner => convertSection inner
  | .callback kind => callback n kind
  | .array element => return .array (← items n below element)
  | .list name element => return .sequence name (← items n below element)
  | .dictionary name key value => return .map name (← entries s n below key value)
  | .sealedContainer name => return .sequence name []
  | .object declared => object s n below declared
  | other => throw (.conversion "" other.text n.path .foundSection)

end Sections

/-- Converts what stands at a node to a type. -/
def convert (s : Scope) (n : Node) (target : TypeRef) : Fresh Value :=
  if target.isImplicit then s.injected target n.key n.path
  else do
    match ← n.form with
    | .scalar text => s.convertScalar n (s.environment.expand text) target
    | .structured => convertSection s n (fun c _ t => s.convert c t) target
termination_by n.height
decreasing_by exact Node.height_lt_of_mem_children ‹_›

end Scope

end LogBinder
