/-
  Log binder — plans.

  A plan lists what is to be done to a pipeline, in order, and the switches
  that are to follow their entries afterwards.
-/
import LogBinder.Binding.Call

namespace LogBinder

/-- Something to be done to a pipeline. -/
inductive Step where
  | minimumLevel (cell : Nat)
  | levelOverride (source : String) (cell : Nat)
  | property (name value : String)
  | call (call : Call) (path : String)

/-- A switch that is to follow the entry at a node. -/
inductive Watch where
  | level (label : String) (cell : Nat) (node : Node) (declared : Bool)
  | filter (label : String) (cell : Nat) (node : Node)

/-- The node that a switch follows. -/
def Watch.node : Watch → Node
  | level _ _ n _ => n
  | filter _ _ n => n

/-- What is to be done, and what is to be watched. -/
structure Plan where
  steps : List Step
  watches : List Watch

namespace Plan

/-- Nothing to be done. -/
def empty : Plan := ⟨[], []⟩

/-- One plan after another. -/
def append (p q : Plan) : Plan := ⟨p.steps ++ q.steps, p.watches ++ q.watches⟩

end Plan

end LogBinder
