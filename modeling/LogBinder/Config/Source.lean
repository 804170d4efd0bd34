/-
  Log binder — sources of configuration.

  A source gives entries when it is loaded, from a document, from memory or
  from the environment.  The environment has no order of its own, so its
  entries come sorted by path; `__` in a name stands for a colon.

  * `Source.load` reads a source from a host.
-/
import LogBinder.Config.Host
import LogBinder.Config.Node
import LogBinder.Config.Memory
import LogBinder.Json.Reader
import LogBinder.Toml.Reader

namespace LogBinder

/-- Where the text of a document comes from. -/
inductive Origin where
  | inline (text : String)
  | file (name : String)
  deriving DecidableEq, Repr

/-- A source of entries. -/
inductive Source where
  | json (name : String) (origin : Origin)
  | toml (name : String) (origin : Origin)
  | memory (name : String) (values : Memory)
  /-- The environment variables whose name starts with a scope. -/
  | environment (scope : Option String)
  | listed (name : String) (entries : List Entry)
  | failing (name reason : String)

namespace Source

/-- The name of a source in messages. -/
def name : Source → String
  | json name _ | toml name _ | memory name _ | listed name _ | failing name _ => name
  | environment _ => "environment"

/-- The name of a document that was not given one. -/
def documentName (format : String) : Origin → String
  | .inline _ => format ++ ":inline"
  | .file name => format ++ ":" ++ name

/-- The text of a document. -/
def read (h : Host) (source : String) : Origin → Except ConfigError String
  | .inline text => .ok text
  | .file name => match h.readFile name with
    | .ok text => .ok text
    | .error fault => .error (.unavailable source fault.message)

/-- The entries of a JSON text. -/
def loadJson (source text : String) : Except ConfigError (List Entry) :=
  match Json.document text.toList with
  | none => .error (.malformed source)
  | some (.object members) => .ok (Entry.ofJson [] (.object members))
  | some _ => .error (.notAnObject source)

/-- The entries of a TOML text. -/
def loadToml (source text : String) : Except ConfigError (List Entry) :=
  match Toml.document text.toList with
  | none => .error (.malformed source)
  | some entries => .ok (Entry.ofTomlEntries [] entries)

/-- A name in which every `__`, from the left, has become a colon. -/
def colons : List Char → List Char
  | [] => []
  | '_' :: '_' :: rest => ':' :: colons rest
  | c :: rest => c :: colons rest

/-- The path of a variable, if its name starts with the scope and has more to it. -/
def variablePath (scope : Option String) (name : String) : Option String :=
  let length := (scope.getD "").toList.length
  let head := String.ofList (name.toList.take length)
  let rest := name.toList.drop length
  if Text.alike head (scope.getD "") && !rest.isEmpty then some (String.ofList (colons rest))
  else none

/-- The entries of environment variables. -/
def ofEnvironment (scope : Option String) (env : Environment) : List Entry :=
  (env.filterMap fun v => (variablePath scope v.1).map fun path => (⟨path, some v.2⟩ : Entry))
    |>.mergeSort fun a b => a.path ≤ b.path

/-- The entries of a source. -/
def load (h : Host) : Source → Except ConfigError (List Entry)
  | json name origin => do loadJson name (← read h name origin)
  | toml name origin => do loadToml name (← read h name origin)
  | memory _ values => .ok (values.map fun e => ⟨e.1, some e.2⟩)
  | environment scope => .ok (ofEnvironment scope h.environment)
  | listed _ entries => .ok entries
  | failing name reason => .error (.unavailable name reason)

end Source

end LogBinder
