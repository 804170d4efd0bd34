/-
  Log binder — configurations and readers for inspection.
-/
import LogBinder.Binding.Reader
import LogBinder.Inspect.Value

namespace LogBinder

open Inspect

/-- A configuration root for inspection. -/
def Root.inspect {ω : Type} (r : Root ω) : String :=
  record "ConfigurationRoot"
    [("sources", quotes r.sourceNames), ("subscriptions", toString r.subscriptions.length)]

/-- Options for inspection. -/
def Options.inspect (o : Options) : String :=
  excerpt "ReaderOptions"
    [("section_name", quote o.sectionName), ("format_provider", o.provider.inspect),
      ("allow_internal_methods", truth o.allowInternalMethods),
      ("allow_internal_types", truth o.allowInternalTypes),
      ("on_level_switch_created", truth o.announcesLevelSwitches),
      ("on_filter_switch_created", truth o.announcesFilterSwitches),
      ("filter_validator", truth o.filterValidator.isSome)]

/-- A selection for inspection. -/
def Selection.inspect : Selection → String
  | all => "All"
  | named names => tuple "Named" [quotes names]

/-- What the scopes of one reader share, with the declared switches, for inspection. -/
def Binder.inspect (b : Binder) (r : Registry) : String :=
  excerpt "ResolutionContext"
    [("selection", b.selection.inspect), ("options", b.options.inspect),
      ("app_configuration", truth b.injects),
      ("level_switches", quotes (r.names .level)), ("filter_switches", quotes (r.names .filter))]

end LogBinder
