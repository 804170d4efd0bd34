/-
  Log binder — a sample plugin surface.

  Packages with methods at every extension point and parameters of every
  kind, with types that can and cannot be constructed, and with members of
  all sorts: a catalog to try the binder on.
-/
import LogBinder.Plugin.Catalog

namespace LogBinder.Sample

/-- The sample types of themes stand for this one. -/
def theme : String := "Sample.ITheme"

/-- A theme object. -/
def themeObject (label : String) : Value := .object "Sample.ConsoleTheme" 0 label none

/-- Enrichers, filters and policies that are always there. -/
def core : Package := .of Package.coreName
  [.of "WithProperty" .enrich [.required "name" .string, .required "value" .string],
    .of "FromLogContext" .enrich [],
    .of "ControlledBy" .filter [.required "switch" .filterSwitch],
    .of "ByExcluding" .filter [.required "expression" .string],
    .of "ToMaximumDepth" .destructure [.required "maximumDestructuringDepth" .int],
    .of "With" .destructure [.required "policy" (.object "Sample.IPolicy")],
    .of "Themed" .sink [.required "theme" (.object theme)]]
  [.abstractOf "Sample.IPolicy",
    .of "Sample.Policy" ["Sample.IPolicy"]
      [.of "injected" [.required "configuration" .appConfiguration,
        .required "formatProvider" .formatProvider, .optional "depth" .int (.int 7)]] []]

/-- The constructors of console themes. -/
def themeConstructors : List Constructor :=
  [{ Constructor.of "custom" [.optional "name" .string .null, .required "accent" .string] with
      demands := [.string "accent"] },
    .of "default" []]

/-- Members of a type that has no constructors. -/
def themeMembers : List Member :=
  [.of "Code" (.property (themeObject "code")),
    .of "Literate" (.field (themeObject "literate")),
    { Member.of "Hidden" (.property (themeObject "hidden")) with visibility := .internal },
    { Member.of "Current" (.property (themeObject "current")) with isStatic := false },
    .of "Both" (.field (.string "from field")),
    .of "Both" (.property (.string "from property")),
    .of "Alien" (.field (.object "Sample.Mappers" 0 "alien" none)),
    .of "Ghost" (.field (.object "Sample.Unregistered" 0 "ghost" none)),
    .of "Number" (.field (.int 42))]

/-- A sink with a theme, and themes of all sorts. -/
def console : Package := .of "Sample.Console"
  [.of "Console" .sink [.optional "outputTemplate" .string (.string "\x7bMessage\x7d"),
    .optional "restrictedToMinimumLevel" .level (.level .verbose),
    .optional "theme" (.object theme) .null, .optional "levelSwitch" .levelSwitch .null]]
  [.abstractOf theme,
    .of "Sample.ConsoleTheme" [theme] themeConstructors [],
    .of "Sample.AnsiTheme" [] [] themeMembers,
    .of "Sample.Strict" [theme] [.of "strict" [.required "name" .string]] [],
    .of "Sample.Failing" [theme] [{ Constructor.of "failing" [] with failure := some "boom" }] [],
    .of "Sample.Sealed" [theme] [{ Constructor.of "hidden" [] with visibility := .internal }] [],
    { TypeSpec.of "Sample.Secret" [theme] [.of "secret" []] [] with visibility := .internal },
    .of "Sample.Outer+Inner" [] [] [.of "Nested" (.field (.string "nested"))]]

/-- A sink and an audit sink of one name. -/
def file : Package := .of "Sample.File"
  [.of "File" .sink [.required "path" .string,
      .optional "rollingInterval"
        (.enum ⟨"RollingInterval", ["Infinite", "Year", "Month", "Day", "Hour", "Minute"]⟩) .null,
      .optional "fileSizeLimitBytes" (.nullable .int) .null,
      .optional "flushToDiskInterval" (.nullable .duration) .null,
      .required "formatProvider" .formatProvider],
    .of "File" .auditSink [.required "path" .string]] []

/-- Sinks that differ in the type of an address. -/
def network : Package := .of "Sample.Network"
  [.of "Seq" .sink [.required "serverUrl" .uri],
    .of "Seq" .sink [.required "serverUrl" .string],
    .of "Http" .sink [.required "requestUri" .uri, .optional "period" .duration .null]] []

/-- Methods that take callbacks. -/
def wrappers : Package := .of "Sample.Wrappers"
  [.of "Logger" .sink [.required "configureLogger" (.callback .logger)],
    .of "Async" .sink [.required "configure" (.callback .sinks)],
    .of "Conditional" .sink [.required "configure" (.callback (.other "ConditionalConfiguration"))],
    .of "Enriched" .enrich [.required "enrich" (.callback .enrichers)],
    .of "Audited" .auditSink [.required "audit" (.callback .auditSinks)]] []

/-- Methods with containers and functions, and one that is internal. -/
def custom : Package := .of "Sample.Custom"
  [.of "Custom" .sink [.required "configuration" .appConfiguration,
      .optional "levels" (.array (.nullable .level)) .null,
      .optional "tags" (.dictionary "IDictionary<string,int>" .string .int) .null,
      .optional "names" (.list "List<string>" .string) .null],
    .of "Mapped" .sink [.required "selector" (.delegate [.string] (some .string))],
    .of "Reject" .sink [],
    { Method.of "SelfLog" .sink [] with visibility := .internal }]
  [.of "Sample.Mappers" [] []
    [.of "Upper" (.function ⟨[.string], some .string⟩ 1 .echo),
      .of "Convert" (.function ⟨[.int], some .int⟩ 2 .count),
      .of "Convert" (.function ⟨[.string], some .string⟩ 3 (.constant "text")),
      .of "Fails" (.function ⟨[], none⟩ 4 (.fails "delegate failed"))]]

/-- A package that is only searched when it is named. -/
def explicit : Package :=
  { Package.of "Sample.Explicit" [.of "Hidden" .sink []]
      [.of "Sample.Explicit.Thing" [] [.of "thing" []] []] with autoDiscover := false }

/-- All packages, in the order of their registration. -/
def packages : List Package := [core, console, file, network, wrappers, custom, explicit]

end LogBinder.Sample
