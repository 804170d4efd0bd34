/-
  Log binder — errors of binding.

  Every error says where in the configuration it arose, or which name it is
  about.  An error of a nested callback is wrapped by the call that ran it.

  * `ConversionFault` : why a text or a section does not convert;
  * `ResolveError` : why binding stops, with its wording.
-/
import LogBinder.Binding.SwitchName
import LogBinder.Plugin.Value

namespace LogBinder

/-- Why a text or a section does not convert to a type. -/
inductive ConversionFault where
  | notBool
  | notCharacter
  | integer (fault : IntegerFault)
  | float (fault : FloatFault)
  | decimal (fault : DecimalFault)
  | notMoment
  | notDuration
  | uri (text : String) (fault : UriFault)
  | needsMember
  | needsItems
  | needsDirectives
  | noScalarForm
  | foundSection
  | notInjected
  | typeNameSection
  | propertySection
  deriving DecidableEq, Repr

/-- The wording of a fault. -/
def ConversionFault.message : ConversionFault → String
  | notBool => "expected 'true' or 'false'"
  | notCharacter => "expected exactly one character"
  | integer fault => fault.message
  | float fault => fault.message
  | decimal fault => fault.message
  | notMoment => "expected RFC 3339 or YYYY-MM-DD[ hh:mm:ss]"
  | notDuration => "expected [d.]hh:mm[:ss[.fffffff]] or whole days"
  | uri text fault => (PluginError.invalidUri text fault).message
  | needsMember => "expected a 'Type::Member' method reference"
  | needsItems => "expected a section of items"
  | needsDirectives => "expected a section of directives"
  | noScalarForm => "a scalar cannot be converted to this type"
  | foundSection => "expected a scalar value, found a section"
  | notInjected => "the type cannot be injected"
  | typeNameSection => "expected a scalar type name"
  | propertySection => "property values must be scalars"

/-- A part without which nothing can be read. -/
inductive Component where
  | catalog
  | configuration
  deriving DecidableEq, Repr

/-- The words for a part. -/
def Component.text : Component → String
  | catalog => "a plugin catalog"
  | configuration => "a configuration root or section"

/-- Why binding stops. -/
inductive ResolveError where
  | missingName (path : String)
  | ambiguousShape (path : String)
  | scalarArguments (path : String)
  | ambiguousType (type path : String)
  | undeclaredSwitch (kind : SwitchKind) (name path : String)
  | invalidSwitchName (kind : SwitchKind) (name path : String)
  | invalidLevel (value path : String)
  | invalidFilter (expression path reason : String)
  | typeNotFound (type path : String)
  | memberNotFound (type member path : String)
  | noDefaultConstructor (type path : String)
  | noMatchingConstructor (type : String) (fields : List String) (path : String)
  | incompatibleType (type expected path : String)
  | unsupportedCallback (callback path : String)
  | notMember (enumeration value path : String)
  | conversion (value target path : String) (fault : ConversionFault)
  | packageNotFound (name : String)
  | emptyPackageName (path : String)
  | missingConfiguration (parameter path : String)
  | missingComponent (component : Component)
  | plugin (path : String) (cause : PluginError)
  | rejected (signature reason : String)
  | nested (signature : String) (cause : ResolveError)
  deriving DecidableEq, Repr

namespace ResolveError

/-- The wording of an error. -/
def message : ResolveError → String
  | missingName path => "Directive at '" ++ path ++ "' has child entries but no scalar 'Name'"
  | ambiguousShape path =>
    "Configuration node '" ++ path ++ "' has both a scalar value and child entries"
  | scalarArguments path =>
    "'Args' at '" ++ path ++ "' must be a section of named arguments, not a scalar"
  | ambiguousType type path =>
    "Cannot construct abstract type '" ++ type ++ "' at '" ++ path
      ++ "': add a \"$type\" entry naming a concrete type"
  | undeclaredSwitch kind name path =>
    "No " ++ kind.text ++ " switch named '" ++ name ++ "' is declared (referenced at '" ++ path
      ++ "'); declare it as \"" ++ kind.sectionName ++ "\":\x7b\"" ++ name ++ "\":...\x7d"
  | invalidSwitchName kind name path =>
    "'" ++ name ++ "' at '" ++ path
      ++ "' is not a valid switch name; names start with a letter, contain only letters and "
      ++ "digits and may carry a '$' prefix, e.g. \"" ++ kind.sectionName
      ++ "\":\x7b\"$mySwitch\":...\x7d"
  | invalidLevel value path => "'" ++ value ++ "' at '" ++ path ++ "' is not a valid log level"
  | invalidFilter expression path reason =>
    "Filter expression '" ++ expression ++ "' at '" ++ path ++ "' is invalid: " ++ reason
  | typeNotFound type path =>
    "Type '" ++ type ++ "' referenced at '" ++ path ++ "' was not found"
  | memberNotFound type member path =>
    "Type '" ++ type ++ "' has no public static member '" ++ member ++ "' (referenced at '"
      ++ path ++ "')"
  | noDefaultConstructor type path =>
    "Type '" ++ type ++ "' referenced at '" ++ path
      ++ "' has no constructor that can be called without arguments"
  | noMatchingConstructor type fields path =>
    "No constructor of '" ++ type ++ "' accepts the fields [" ++ Text.joined ", " fields
      ++ "] supplied at '" ++ path ++ "'"
  | incompatibleType type expected path =>
    "'" ++ type ++ "' at '" ++ path ++ "' cannot be used as '" ++ expected ++ "'"
  | unsupportedCallback callback path =>
    "Callback parameter of type '" ++ callback ++ "' at '" ++ path ++ "' is not supported"
  | notMember enumeration value path =>
    "'" ++ value ++ "' at '" ++ path ++ "' is not a member of '" ++ enumeration ++ "'"
  | conversion value target path fault =>
    "Cannot convert '" ++ value ++ "' at '" ++ path ++ "' to " ++ target ++ ": " ++ fault.message
  | packageNotFound name => "Package '" ++ name ++ "' listed in 'Using' is not registered"
  | emptyPackageName path =>
    "'Using' entry at '" ++ path ++ "' is empty; list package names only"
  | missingConfiguration parameter path =>
    "Parameter '" ++ parameter ++ "' of the method at '" ++ path
      ++ "' needs the application configuration, which is unavailable when reading a bare section"
  | missingComponent component => "Configuration reader is missing " ++ component.text
  | plugin path cause => "Plugin failure at '" ++ path ++ "': " ++ cause.message
  | rejected signature reason => "Pipeline builder rejected '" ++ signature ++ "': " ++ reason
  | nested signature cause => "Pipeline builder rejected '" ++ signature ++ "': " ++ cause.message

end ResolveError

/-- What stands at a place; binding stops where a scalar and keys stand. -/
def Node.form (n : Node) : Except ResolveError Shape :=
  n.shape.mapError fun e => .ambiguousShape e.path

end LogBinder
