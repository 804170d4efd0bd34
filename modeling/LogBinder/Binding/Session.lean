/-
  Log binder — sessions.

  A session is everything that changes while configuration is read and
  followed: the host, the configuration root with its subscriptions, the
  cells of the switches, the declared switches, and what has been told and
  received so far.  A computation that fails keeps what it has done.

  * `Run` : computations on a session;
  * `Binder` : what all of them share, with `Binder.converted` to run a
    conversion in the present scope.
-/
import LogBinder.Binding.Diagnostic
import LogBinder.Binding.Plan
import LogBinder.Config.Root

namespace LogBinder

/-- Who is told of a reload. -/
inductive Watcher where
  | host (tag : Nat)
  | level (label : String) (cell : Nat)
  | filter (label : String) (cell : Nat) (options : Options)

/-- What a builder or the host has received. -/
inductive Event where
  | step (s : Step)
  /-- What the builder of a nested callback has received; the callback is the argument of a name. -/
  | nested (argument : String) (events : List Event)
  | declared (kind : SwitchKind) (name : String) (cell : Nat)
  | notified (tag : Nat) (node : Node)

/-- The state of reading and following configuration. -/
structure Session where
  host : Host
  root : Root Watcher
  levels : List Level
  filters : List (Option String)
  registry : Registry
  /-- The subscriptions that the last run of each sub-logger callback keeps, by identity. -/
  kept : List (Nat × List Nat)
  nextIdentity : Nat
  diagnostics : List Diagnostic
  events : List Event

/-- Computations on a session, which keep what they have done when they fail. -/
abbrev Run := ExceptT ResolveError (StateM Session)

/-- What all scopes of one reader share. -/
structure Binder where
  catalog : Catalog
  options : Options
  selection : Selection
  injects : Bool

/-- What conversions can see at present. -/
def Binder.scope (b : Binder) (s : Session) : Scope where
  catalog := b.catalog
  options := b.options
  selection := b.selection
  environment := s.host.environment
  registry := s.registry
  application := if b.injects then some s.root.top else none

/-- A filter expression as switches hold it: trimmed, and none if nothing is left. -/
def Filter.normal (expression : Option String) : Option String :=
  (expression.map Text.trim).filter fun e => !e.isEmpty

namespace Session

/-- The session of a configuration. -/
def start (host : Host) (root : Root Watcher) : Session where
  host := host
  root := root
  levels := []
  filters := []
  registry := .empty
  kept := []
  nextIdentity := 0
  diagnostics := []
  events := []

/-- The level that a switch holds. -/
def level (s : Session) (cell : Nat) : Level :=
  s.levels[cell]?.getD .standard

/-- The expression that a switch holds. -/
def filter (s : Session) (cell : Nat) : Option String :=
  s.filters[cell]?.join

/-- Sets the level of a switch. -/
def setLevel (s : Session) (cell : Nat) (l : Level) : Session :=
  { s with levels := s.levels.set cell l }

/-- Sets the expression of a switch. -/
def setFilter (s : Session) (cell : Nat) (expression : Option String) : Session :=
  { s with filters := s.filters.set cell (Filter.normal expression) }

/-- A new level switch. -/
def addLevel (l : Level) (s : Session) : Nat × Session :=
  (s.levels.length, { s with levels := s.levels ++ [l] })

/-- A new filter switch. -/
def addFilter (expression : Option String) (s : Session) : Nat × Session :=
  (s.filters.length, { s with filters := s.filters ++ [Filter.normal expression] })

/-- Tells something. -/
def tell (d : Diagnostic) (s : Session) : Session :=
  { s with diagnostics := s.diagnostics ++ [d] }

/-- Receives something. -/
def receive (e : Event) (s : Session) : Session :=
  { s with events := s.events ++ [e] }

/-- Declares a switch under a canonical name, and tells if the name is taken. -/
def declare (kind : SwitchKind) (name : String) (cell : Nat) (path : String) (s : Session) :
    Session :=
  let declared := { s with registry := s.registry.put kind name cell }
  if (s.registry.cell? kind name).isSome then declared.tell (.switchRedeclared name path)
  else declared

/-- Replaces the subscriptions that a callback keeps, and ends those it kept before. -/
def keep (identity : Nat) (ids : List Nat) (s : Session) : Session :=
  { s with
    root := s.root.unsubscribeAll ((s.kept.lookup identity).getD [])
    kept := (identity, ids) :: s.kept.filter fun e => e.1 != identity }

end Session

namespace Run

/-- Declares a switch under a name, which must be valid; gives the canonical name. -/
def declare (kind : SwitchKind) (name : String) (cell : Nat) (path : String) : Run String := do
  let canonical ← Registry.declaredName kind name path
  modify (Session.declare kind canonical cell path)
  return canonical

end Run

namespace Binder

/-- Runs a conversion in the present scope. -/
def converted {α : Type} (b : Binder) (f : Scope → Fresh α) : Run α := do
  let s ← get
  let (value, nextIdentity) ← (f (b.scope s)).run s.nextIdentity
  modify fun s => { s with nextIdentity }
  return value

end Binder

end LogBinder
