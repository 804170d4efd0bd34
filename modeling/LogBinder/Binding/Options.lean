/-
  Log binder — options of a reader.
-/
import LogBinder.FormatProvider

namespace LogBinder

/-- How a configuration is read. -/
structure Options where
  sectionName : String := "Logging"
  provider : FormatProvider := .invariant
  allowInternalMethods : Bool := false
  allowInternalTypes : Bool := false
  announcesLevelSwitches : Bool := false
  announcesFilterSwitches : Bool := false
  /-- The host's objection to a filter expression, where the host looks at them at all. -/
  filterValidator : Option (String → Option String) := none

namespace Options

/-- Why a filter expression is rejected, if it is; a blank one never is. -/
def objection (o : Options) (expression : String) : Option String :=
  if expression.isEmpty then none else o.filterValidator.bind fun objects => objects expression

end Options

end LogBinder
