/-
  Log binder — types of parameters.

  A type reference says what a parameter takes.  Two kinds of parameter are
  injected when nothing is supplied for them (`TypeRef.isImplicit`).

  * `TypeRef.text` writes a type for messages;
  * `TypeRef.same` decides equality of types, and `EnumSpec.read` reads a
    member of an enumeration by its exact name or its ordinal.
-/
import LogBinder.Text.Blank
import LogBinder.Text.Split
import LogBinder.Number.Integer

namespace LogBinder

/-- An extension point of the pipeline. -/
inductive Capability where
  | sink
  | auditSink
  | filter
  | enrich
  | destructure
  deriving DecidableEq, Repr

namespace Capability

/-- The section that holds the directives of a capability. -/
def sectionName : Capability → String
  | sink => "WriteTo"
  | auditSink => "AuditTo"
  | filter => "Filter"
  | enrich => "Enrich"
  | destructure => "Destructure"

/-- The word for a capability in messages. -/
def text : Capability → String
  | sink => "sink"
  | auditSink => "audit sink"
  | filter => "filter"
  | enrich => "enricher"
  | destructure => "destructuring policy"

/-- The name of a capability in stored form. -/
def name : Capability → String
  | sink => "Sink"
  | auditSink => "AuditSink"
  | filter => "Filter"
  | enrich => "Enrich"
  | destructure => "Destructure"

/-- All capabilities. -/
def all : List Capability := [sink, auditSink, filter, enrich, destructure]

end Capability

/-- What a nested callback configures. -/
inductive CallbackKind where
  | logger
  | sinks
  | enrichers
  | auditSinks
  /-- Something that cannot be configured. -/
  | other (name : String)
  deriving DecidableEq, Repr

namespace CallbackKind

/-- The capability of the directives that a list callback applies. -/
def capability : CallbackKind → Option Capability
  | sinks => some .sink
  | enrichers => some .enrich
  | auditSinks => some .auditSink
  | logger | other _ => none

/-- The name of a kind. -/
def text : CallbackKind → String
  | logger => "LoggerConfiguration"
  | sinks => "SinkConfiguration"
  | enrichers => "EnrichmentConfiguration"
  | auditSinks => "AuditSinkConfiguration"
  | other name => name

end CallbackKind

/-- An enumeration of a plugin; ordinals count its members from zero. -/
structure EnumSpec where
  name : String
  members : List String
  deriving DecidableEq, Repr

/-- The ordinal and the name of the member that a text denotes. -/
def EnumSpec.read (e : EnumSpec) (text : String) : Option (Nat × String) :=
  match e.members.findIdx? fun m => m == Text.trim text with
  | some index => (e.members[index]?).map fun m => (index, m)
  | none => match Integer.readUnsigned Integer.maxUnsigned (Text.trim text).toList with
    | .ok ordinal => (e.members[ordinal]?).map fun m => (ordinal, m)
    | .error _ => none

/-- The type of a parameter, an element or a field. -/
inductive TypeRef where
  | string
  | bool
  | char
  | int
  | uint
  | float
  | decimal
  | moment
  | duration
  | uri
  | typeName
  | level
  | enum (spec : EnumSpec)
  | nullable (inner : TypeRef)
  | levelSwitch
  | filterSwitch
  | array (element : TypeRef)
  | list (name : String) (element : TypeRef)
  | dictionary (name : String) (key value : TypeRef)
  /-- A container that takes no items. -/
  | sealedContainer (name : String)
  | object (name : String)
  | callback (kind : CallbackKind)
  | delegate (parameters : List TypeRef) (returns : Option TypeRef)
  | node
  /-- The whole configuration, injected when not supplied. -/
  | appConfiguration
  | formatProvider
  deriving Inhabited

namespace TypeRef

/-- Whether this is plain text. -/
def isString : TypeRef → Bool
  | string => true
  | _ => false

/-- Whether a parameter of this type is injected when nothing is supplied for it. -/
def isImplicit : TypeRef → Bool
  | appConfiguration | formatProvider => true
  | _ => false

mutual

/-- The text of a type. -/
def text : TypeRef → String
  | string => "string"
  | bool => "bool"
  | char => "char"
  | int => "int"
  | uint => "uint"
  | float => "float"
  | decimal => "decimal"
  | moment => "datetime"
  | duration => "duration"
  | uri => "uri"
  | typeName => "type"
  | level => "LogLevel"
  | enum spec => spec.name
  | nullable inner => text inner ++ "?"
  | levelSwitch => "LevelSwitch"
  | filterSwitch => "FilterSwitch"
  | array element => text element ++ "[]"
  | list name _ => name
  | dictionary name _ _ => name
  | sealedContainer name => name
  | object name => name
  | callback kind => "Callback<" ++ kind.text ++ ">"
  | delegate parameters none => "fn(" ++ Text.joined ", " (texts parameters) ++ ")"
  | delegate parameters (some result) =>
    "fn(" ++ Text.joined ", " (texts parameters) ++ ") -> " ++ text result
  | node => "ConfigNode"
  | appConfiguration => "AppConfiguration"
  | formatProvider => "FormatProvider"

/-- The texts of some types. -/
def texts : List TypeRef → List String
  | [] => []
  | t :: rest => text t :: texts rest

end

mutual

/-- Whether two types are the same. -/
def same : TypeRef → TypeRef → Bool
  | string, string | bool, bool | char, char | int, int | uint, uint | float, float
  | decimal, decimal | moment, moment | duration, duration | uri, uri | typeName, typeName
  | level, level | levelSwitch, levelSwitch | filterSwitch, filterSwitch | node, node
  | appConfiguration, appConfiguration | formatProvider, formatProvider => true
  | enum a, enum b => a == b
  | nullable a, nullable b => same a b
  | array a, array b => same a b
  | list n a, list m b => n == m && same a b
  | dictionary n a c, dictionary m b d => n == m && same a b && same c d
  | sealedContainer n, sealedContainer m => n == m
  | object n, object m => n == m
  | callback a, callback b => a == b
  | delegate a none, delegate b none => sameAll a b
  | delegate a (some r), delegate b (some s) => sameAll a b && same r s
  | _, _ => false

/-- Whether two lists of types are the same. -/
def sameAll : List TypeRef → List TypeRef → Bool
  | [], [] => true
  | a :: as, b :: bs => same a b && sameAll as bs
  | _, _ => false

end

end TypeRef

/-- The signature of a static function. -/
structure Signature where
  parameters : List TypeRef
  returns : Option TypeRef
  deriving Inhabited

namespace Signature

/-- The type of functions with a signature. -/
def type (s : Signature) : TypeRef := .delegate s.parameters s.returns

/-- The text of a signature. -/
def text (s : Signature) : String := s.type.text

/-- Whether two signatures are the same. -/
def same (s t : Signature) : Bool := s.type.same t.type

end Signature

end LogBinder
