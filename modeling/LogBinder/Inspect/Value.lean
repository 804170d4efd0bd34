/-
  Log binder — values, types and members for inspection.

  A value is written with its kind in front.  A switch shows what it holds
  at present, so values are inspected in a session.

  * `Value.inspect` writes any value, `TypeRef.inspect` any type;
  * `Constructor.inspect` and `Member.inspect` write the parts of a type.
-/
import LogBinder.Binding.Session
import LogBinder.Inspect.Text
import LogBinder.Number.Digits

namespace LogBinder

open Inspect

/-! ## Plain data -/

/-- How doubles are written. -/
def Inspect.floatLayout : Layout where
  tie := .up
  positional := some (-4, 16)
  wholeEnd := ".0"
  plus := ""
  infinity := "inf"
  nan := "NaN"

/-- A date for inspection; a year beyond four digits, or before year zero, has a sign. -/
def Date.inspect (d : Date) : List Char :=
  let digits := Digits.padded 4 d.year.natAbs
  let year := if 0 ≤ d.year ∧ d.year ≤ 9999 then digits
    else (if d.year < 0 then '-' else '+') :: digits
  year ++ '-' :: Digits.padded 2 d.month ++ '-' :: Digits.padded 2 d.day

/-- A fraction of a second for inspection, in three, six or nine digits. -/
def Inspect.nanoseconds (n : Nat) : List Char :=
  if n = 0 then []
  else if n % 1000000 = 0 then '.' :: Digits.padded 3 (n / 1000000)
  else if n % 1000 = 0 then '.' :: Digits.padded 6 (n / 1000)
  else '.' :: Digits.padded 9 n

/-- A moment for inspection; a leap second is second 60. -/
def Moment.inspect (m : Moment) : String :=
  let leap := m.nanos / 1000000000
  String.ofList (m.date.inspect ++ 'T' :: Digits.padded 2 m.hour ++ ':' :: Digits.padded 2 m.minute
    ++ ':' :: Digits.padded 2 (m.second + leap) ++ nanoseconds (m.nanos % 1000000000))

/-- An amount of a unit that is divided into `10^places` parts. -/
def Inspect.amount (whole places parts : Nat) (unit : String) : String :=
  toString whole ++ String.ofList (Digits.fraction places parts) ++ unit

/-- A time span for inspection, in the largest unit of which there is one. -/
def Duration.inspect (d : Duration) : String :=
  if 0 < d.seconds then amount d.seconds 9 d.nanos "s"
  else if 1000000 ≤ d.nanos then amount (d.nanos / 1000000) 6 (d.nanos % 1000000) "ms"
  else if 1000 ≤ d.nanos then amount (d.nanos / 1000) 3 (d.nanos % 1000) "µs"
  else amount d.nanos 0 0 "ns"

/-- A URI for inspection. -/
def Uri.inspect (u : Uri) : String :=
  record "Uri" [("text", quote u.text), ("scheme_len", toString u.scheme.length)]

/-- A level switch for inspection. -/
def Level.inspectSwitch (l : Level) : String :=
  record "LevelSwitch" [("minimum_level", l.name)]

/-- A filter switch for inspection. -/
def Filter.inspectSwitch (expression : Option String) : String :=
  record "FilterSwitch" [("expression", optional quote expression)]

/-- A node for inspection. -/
def Node.inspect (n : Node) : String :=
  record "ConfigNode"
    [("path", quote n.path), ("value", optional quote n.value),
      ("children", toString n.subtrees.length)]

/-- A number format for inspection. -/
def FormatProvider.inspect (p : FormatProvider) : String :=
  record "FormatProvider"
    [("name", quote p.name), ("decimal_separator", quoteChar p.decimal),
      ("group_separator", optional quoteChar p.group)]

/-! ## Types -/

/-- A callback kind for inspection. -/
def CallbackKind.inspect : CallbackKind → String
  | other name => tuple "Other" [quote name]
  | known => known.text

/-- An enumeration for inspection. -/
def EnumSpec.inspect (e : EnumSpec) : String :=
  record "EnumSpec" [("name", quote e.name), ("members", quotes e.members)]

namespace TypeRef

/-- A container for inspection. -/
def inspectContainer (name insertion : String) : String :=
  tuple "Container" [record "ContainerSpec" [("name", quote name), ("insertion", insertion)]]

/-- A signature for inspection. -/
def inspectSignature (parameters : List String) (returns : Option String) : String :=
  record "DelegateSignature" [("parameters", bracket parameters), ("returns", optional id returns)]

mutual

/-- A type for inspection. -/
def inspect : TypeRef → String
  | string => "String"
  | bool => "Bool"
  | char => "Char"
  | int => "Int"
  | uint => "UInt"
  | float => "Float"
  | decimal => "Decimal"
  | moment => "DateTime"
  | duration => "Duration"
  | uri => "Uri"
  | typeName => "TypeReference"
  | level => "Level"
  | enum spec => tuple "Enum" [spec.inspect]
  | nullable inner => tuple "Nullable" [inspect inner]
  | levelSwitch => "LevelSwitch"
  | filterSwitch => "FilterSwitch"
  | array element => tuple "Array" [inspect element]
  | list name element => inspectContainer name (tuple "Element" [inspect element])
  | dictionary name key value =>
    inspectContainer name (record "KeyValue" [("key", inspect key), ("value", inspect value)])
  | sealedContainer name => inspectContainer name "Unsupported"
  | object name => tuple "Object" [quote name]
  | callback kind => tuple "Callback" [kind.inspect]
  | delegate parameters none =>
    tuple "Delegate" [inspectSignature (inspectAll parameters) none]
  | delegate parameters (some result) =>
    tuple "Delegate" [inspectSignature (inspectAll parameters) (some (inspect result))]
  | node => "Node"
  | appConfiguration => "AppConfiguration"
  | formatProvider => "FormatProvider"

/-- Some types for inspection. -/
def inspectAll : List TypeRef → List String
  | [] => []
  | t :: rest => inspect t :: inspectAll rest

end

end TypeRef

/-- A signature for inspection. -/
def Signature.inspect (s : Signature) : String :=
  TypeRef.inspectSignature (s.parameters.map TypeRef.inspect) (s.returns.map TypeRef.inspect)

/-! ## Values -/

namespace Value

/-- An object, a callback or a function for inspection. -/
def inspect? : Value → Option String
  | object type _ _ _ => some (excerpt "ObjectValue" [("type_name", quote type)])
  | callback kind path _ =>
    some (excerpt "CallbackValue" [("kind", kind.inspect), ("path", quote path)])
  | delegate name signature _ _ =>
    some (excerpt "DelegateValue" [("name", quote name), ("signature", signature.inspect)])
  | _ => none

mutual

/-- A value for inspection. -/
def inspect (s : Session) : Value → String
  | null => "Null"
  | string text => tuple "String" [quote text]
  | bool b => tuple "Bool" [truth b]
  | char c => tuple "Char" [quoteChar c]
  | int n => tuple "Int" [toString n.toInt]
  | uint n => tuple "UInt" [toString n.toNat]
  | float x => tuple "Float" [floatLayout.text x]
  | decimal d => tuple "Decimal" [d.text]
  | moment m => tuple "DateTime" [m.inspect]
  | duration d => tuple "Duration" [d.inspect]
  | uri u => tuple "Uri" [u.inspect]
  | level l => tuple "Level" [l.name]
  | enum type member ordinal =>
    tuple "Enum" [record "EnumValue"
      [("type_name", quote type), ("member", quote member), ("ordinal", toString ordinal)]]
  | typeName name => tuple "Type" [quote name]
  | levelSwitch cell => tuple "LevelSwitch" [(s.level cell).inspectSwitch]
  | filterSwitch cell => tuple "FilterSwitch" [Filter.inspectSwitch (s.filter cell)]
  | array items => tuple "Array" [bracket (inspectItems s items)]
  | sequence container items =>
    record "Sequence" [("container", quote container), ("items", bracket (inspectItems s items))]
  | map container entries =>
    record "Map" [("container", quote container), ("entries", bracket (inspectEntries s entries))]
  | object type identity label arguments =>
    tuple "Object" (inspect? (object type identity label arguments)).toList
  | callback kind path body => tuple "Callback" (inspect? (callback kind path body)).toList
  | delegate name signature identity body =>
    tuple "Delegate" (inspect? (delegate name signature identity body)).toList
  | node n => tuple "Node" [n.inspect]
  | formatProvider p => tuple "FormatProvider" [p.inspect]

/-- Some values for inspection. -/
def inspectItems (s : Session) : List Value → List String
  | [] => []
  | v :: rest => inspect s v :: inspectItems s rest

/-- Some keys and values for inspection. -/
def inspectEntries (s : Session) : List (Value × Value) → List String
  | [] => []
  | (k, v) :: rest => tuple "" [inspect s k, inspect s v] :: inspectEntries s rest

end

end Value

/-! ## Parts of a type -/

/-- A parameter for inspection. -/
def Parameter.inspect (s : Session) (p : Parameter) : String :=
  record "ParameterSpec"
    [("name", quote p.name), ("type_ref", p.type.inspect),
      ("default", Inspect.optional (Value.inspect s) p.default)]

/-- A constructor for inspection. -/
def Constructor.inspect (s : Session) (c : Constructor) : String :=
  excerpt "ConstructorSpec"
    [("parameters", bracket (c.parameters.map (Parameter.inspect s))),
      ("visibility", c.visibility.name)]

/-- The word for what a member is. -/
def MemberBody.kindName : MemberBody → String
  | property _ => "property"
  | field _ => "field"
  | function _ _ _ => "method"

/-- A member for inspection. -/
def Member.inspect (m : Member) : String :=
  record "StaticMember"
    [("name", quote m.name), ("kind", quote m.body.kindName), ("visibility", m.visibility.name),
      ("is_static", truth m.isStatic)]

end LogBinder
