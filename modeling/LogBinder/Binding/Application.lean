/-
  Log binder — application of plans.

  A builder receives the steps of a plan one by one and may refuse a call.
  A call that it accepts may carry callbacks, and the builder runs those it
  likes against a fresh builder of its kind; what such a callback receives
  is recorded apart.  When all steps are accepted, the host is told of the
  declared switches and every watched switch begins to follow its entry.

  A callback configures a place below the section whose plan carries it, so
  nesting ends (`Binder.run`).

  * `Binder.apply` applies a plan, `Binder.configure` plans and applies;
  * `Binder.invoke` runs a callback.
-/
import LogBinder.Binding.Planning
import LogBinder.Binding.Reload

namespace LogBinder

/-- How builders behave, given the steps received before. -/
structure Builder where
  refuses : List Step → Call → Option String
  /-- Whether the callback that is the argument of a name is run. -/
  invokes : List Step → Call → String → Bool

/-- A section for a callback to configure. -/
structure Nested where
  identity : Nat
  kind : CallbackKind
  node : Node

/-- The section that a value configures, if it is a callback that does. -/
def Value.nested? : Value → Option Nested
  | .callback kind _ (.configures identity n) => some ⟨identity, kind, n⟩
  | _ => none

/-- Whether a value is a callback. -/
def Value.isCallback : Value → Bool
  | .callback .. => true
  | _ => false

namespace Run

/-- Records what a computation receives apart, also when it fails. -/
def apart (argument : String) (body : Run Unit) : Run Unit := fun s =>
  let (result, after) := body { s with events := [] }
  (result, { after with events := s.events ++ [.nested argument after.events] })

/-- Wraps the error of a nested callback. -/
def wrapped (signature : String) (body : Run Unit) : Run Unit :=
  tryCatch body fun cause => throw (.nested signature cause)

variable (B : Builder) (callback : Value → Run Unit)

/-- The builder runs a callback of a call. -/
def runArgument (received : List Step) (c : Call) (a : String × Value) : Run Unit :=
  if a.2.isCallback && B.invokes received c a.1 then apart a.1 (callback a.2) else return

/-- The builder receives a step after others. -/
def applyStep (received : List Step) : Step → Run Unit
  | .call c path => do
    match B.refuses received c with
    | some reason => throw (.rejected c.method.signature reason)
    | none =>
      modify (Session.receive (.step (.call c path)))
      wrapped c.method.signature (c.arguments.forM (runArgument B callback received c))
  | step => modify (Session.receive (.step step))

/-- The builder receives steps after others. -/
def applySteps (received : List Step) : List Step → Run Unit
  | [] => return
  | step :: rest => do
    applyStep B callback received step
    applySteps (received ++ [step]) rest

end Run

namespace Watch

/-- The watcher of a switch. -/
def watcher (o : Options) : Watch → Watcher
  | level label cell _ _ => .level label cell
  | filter label cell _ => .filter label cell o

/-- What the host is told of a switch. -/
def announcement (o : Options) : Watch → Option Event
  | level label cell _ declared =>
    if declared && o.announcesLevelSwitches then some (.declared .level label cell) else none
  | filter label cell _ =>
    if o.announcesFilterSwitches then some (.declared .filter label cell) else none

/-- Tells the host of a switch and lets it follow its entry; gives the subscription. -/
def start (o : Options) (w : Watch) : Run Nat := do
  match w.announcement o with
  | some e => modify (Session.receive e)
  | none => pure ()
  modifyGet (Session.subscribe w.node.segments (w.watcher o))

end Watch

namespace Plan

/-- Applies a plan, given how to run callbacks; gives the subscriptions. -/
def applyWith (p : Plan) (o : Options) (B : Builder) (callback : Value → Run Unit) :
    Run (List Nat) := do
  Run.applySteps B callback [] p.steps
  p.watches.mapM (Watch.start o)

end Plan

namespace Nested

/-- Runs a callback by configuring its section; only the last run of a sub-logger callback keeps its
subscriptions. -/
def keeping (c : Nested) (configured : Run (List Nat)) : Run Unit := do
  let ids ← configured
  if c.kind = .logger then modify (Session.keep c.identity ids)

end Nested

namespace Binder

/-- Configures a section as a callback of a kind does, given how to run the callbacks that arise;
gives the subscriptions. -/
def configureWith (b : Binder) (B : Builder) (kind : CallbackKind) (n : Node)
    (callback : Value → Run Unit) : Run (List Nat) := do
  match kind, kind.capability with
  | .logger, _ => (← b.plan n).applyWith b.options B callback
  | _, some capability =>
    Run.applySteps B callback [] (← b.directives capability n)
    return []
  | _, none => return []

/-- Configures a section as a callback of a kind does. -/
def run (b : Binder) (B : Builder) (kind : CallbackKind) (n : Node) : Run (List Nat) :=
  b.configureWith B kind n fun v => match v.nested? with
    | some c =>
      if _h : c.node.height < n.height then c.keeping (b.run B c.kind c.node) else return
    | none => return
termination_by n.height

/-- Runs a callback. -/
def invoke (b : Binder) (B : Builder) (v : Value) : Run Unit :=
  match v.nested? with
  | some c => c.keeping (b.run B c.kind c.node)
  | none => return

/-- Applies a plan; gives the subscriptions. -/
def apply (b : Binder) (B : Builder) (p : Plan) : Run (List Nat) :=
  p.applyWith b.options B (b.invoke B)

/-- Plans a section and applies the plan; gives the subscriptions. -/
def configure (b : Binder) (B : Builder) (n : Node) : Run (List Nat) := do
  b.apply B (← b.plan n)

end Binder

end LogBinder
