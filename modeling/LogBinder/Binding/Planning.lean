/-
  Log binder — planning.

  The phases of a section are read in a fixed order: level switches, filter
  switches, minimum levels, enrichers, properties, and then filters,
  destructuring policies, sinks and audit sinks.  The first error ends the
  plan.

  * `Binder.declareSwitches`, `Binder.minimumLevels`, `properties` and
    `Binder.directives` read one phase each;
  * `Binder.plan` reads them all.
-/
import LogBinder.Binding.Session

namespace LogBinder

/-! ## Levels -/

namespace LevelText

/-- The trimmed text of a place that holds a level. -/
def ofNode (n : Node) : Except ResolveError String := do
  match ← n.form with
  | .scalar text => return Text.trim text
  | .structured => throw (.invalidLevel "(section)" n.path)

/-- The level that a text denotes. -/
def read (text path : String) : Except ResolveError Level :=
  match Level.read text with
  | .ok l => .ok l
  | .error _ => .error (.invalidLevel text path)

/-- The level of a declared switch; a blank one has the standard level. -/
def declared (n : Node) : Except ResolveError Level := do
  let text ← ofNode n
  if text.isEmpty then return .standard else read text n.path

end LevelText

/-- The key of the minimum level of all events. -/
def MinimumLevel.defaultKey : String := "Default"

/-- The key of a reference to the switch of the minimum level. -/
def MinimumLevel.controlKey : String := "ControlledBy"

/-- The key of the minimum levels of sources. -/
def MinimumLevel.overrideKey : String := "Override"

/-- The section of minimum levels. -/
def MinimumLevel.sectionName : String := "MinimumLevel"

/-- The section of properties. -/
def propertiesName : String := "Properties"

namespace Run

/-- A new level switch. -/
def newLevel (l : Level) : Run Nat := modifyGet (Session.addLevel l)

/-- A new filter switch. -/
def newFilter (expression : String) : Run Nat := modifyGet (Session.addFilter (some expression))

/-- The switch for a place that holds a level: the one referred to, or a new one that follows the
place; none if the place is blank. -/
def levelTarget (n : Node) (label : String) : Run (Option (Nat × List Watch)) := do
  let text ← LevelText.ofNode n
  if text.isEmpty then return none
  else if text.startsWith "$" then
    return some (← (← get).registry.cell .level text n.path, [])
  else
    let cell ← newLevel (← LevelText.read text n.path)
    return some (cell, [.level label cell n false])

/-- The plan for a place that holds a level. -/
def levelPlan (n : Node) (label : String) (step : Nat → Step) : Run Plan := do
  match ← levelTarget n label with
  | some (cell, watches) => return ⟨[step cell], watches⟩
  | none => return .empty

/-- The plan for a reference to a level switch. -/
def controlPlan (n : Node) : Run Plan := do
  let text ← LevelText.ofNode n
  if text.isEmpty then return .empty
  else return ⟨[.minimumLevel (← (← get).registry.cell .level text n.path)], []⟩

/-- The plan for the minimum level of one source. -/
def overridePlan (n : Node) : Run Plan :=
  levelPlan n ("override '" ++ n.key ++ "'") (.levelOverride n.key)

/-- One plan after another. -/
def collect (plans : List Plan) : Plan :=
  plans.foldl Plan.append .empty

/-- The plan of a place, if there is something. -/
def ifPresent (n : Node) (plan : Node → Run Plan) : Run Plan :=
  if n.isPresent then plan n else return .empty

/-- The plan for the minimum level of all events. -/
def defaultPlan (n : Node) : Run Plan :=
  levelPlan n "minimum level" .minimumLevel

/-- The plan for a section of minimum levels. -/
def levelSection (n : Node) : Run Plan := do
  let whole ← ifPresent (n.child MinimumLevel.defaultKey) defaultPlan
  let controlled ← ifPresent (n.child MinimumLevel.controlKey) controlPlan
  let overrides ← (← Directive.entries (n.child MinimumLevel.overrideKey)).mapM overridePlan
  return collect (whole :: controlled :: overrides)

/-- The plan for the minimum levels. -/
def minimumLevels (n : Node) : Run Plan :=
  ifPresent (n.child MinimumLevel.sectionName) fun m => do
    match ← m.form with
    | .scalar _ => defaultPlan m
    | .structured => levelSection m

/-! ## Switches -/

/-- Declares the level switch of an entry. -/
def declareLevel (n : Node) : Run Watch := do
  let cell ← newLevel (← LevelText.declared n)
  return .level (← declare .level n.key cell n.path) cell n true

/-- The expression of a declared filter switch. -/
def filterText (o : Options) (n : Node) : Except ResolveError String := do
  match ← n.form with
  | .structured => throw (.invalidFilter "" n.path "expected a scalar expression")
  | .scalar text =>
    match o.objection (Text.trim text) with
    | some reason => throw (.invalidFilter (Text.trim text) n.path reason)
    | none => return Text.trim text

/-- Declares the filter switch of an entry. -/
def declareFilter (o : Options) (n : Node) : Run Watch := do
  let cell ← newFilter (← filterText o n)
  return .filter (← declare .filter n.key cell n.path) cell n

/-- Declares the switches of a kind. -/
def declareSwitches (o : Options) (n : Node) (kind : SwitchKind) : Run (List Watch) := do
  (← Directive.entries (n.child kind.sectionName)).mapM fun e => match kind with
    | .level => declareLevel e
    | .filter => declareFilter o e

/-! ## Properties -/

/-- The step for one property. -/
def propertyStep (n : Node) : Run Step := do
  match ← n.form with
  | .scalar text => return .property n.key ((← get).host.environment.expand text)
  | .structured => throw (.conversion "" "string" n.path .propertySection)

/-- The steps for the properties. -/
def properties (n : Node) : Run (List Step) := do
  (← Directive.entries (n.child propertiesName)).mapM propertyStep

end Run

/-! ## Directives -/

namespace Binder

/-- The step for one directive; one that no method matches is told of. -/
def directive (b : Binder) (capability : Capability) (methods : List Method) (d : Directive) :
    Run (Option Step) := do
  match Overload.select methods d.name capability d.supplied with
  | some m => return some (.call (← b.converted fun s => Call.bind s d m) d.path)
  | none =>
    modify (Session.tell (.unmatchedDirective capability d.name d.path d.supplied
      (Overload.signatures methods d.name)))
    return none

/-- The steps for a section of directives, if there is one. -/
def directives (b : Binder) (capability : Capability) (n : Node) : Run (List Step) := do
  if n.isPresent then
    let found ← Directive.ofSection n
    let methods := b.catalog.candidates capability b.selection b.options.allowInternalMethods
    return (← found.mapM (b.directive capability methods)).reduceOption
  else return []

/-- The steps for the directives of an extension point in a section. -/
def phase (b : Binder) (n : Node) (capability : Capability) : Run (List Step) :=
  b.directives capability (n.child capability.sectionName)

/-- The plan of a section. -/
def plan (b : Binder) (n : Node) : Run Plan := do
  let levels ← Run.declareSwitches b.options n .level
  let filters ← Run.declareSwitches b.options n .filter
  let minimum ← Run.minimumLevels n
  let enrichers ← b.phase n .enrich
  let properties ← Run.properties n
  let filtering ← b.phase n .filter
  let policies ← b.phase n .destructure
  let sinks ← b.phase n .sink
  let audits ← b.phase n .auditSink
  return ⟨minimum.steps ++ enrichers ++ properties ++ filtering ++ policies ++ sinks ++ audits,
    levels ++ filters ++ minimum.watches⟩

end Binder

end LogBinder
