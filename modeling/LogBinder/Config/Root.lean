/-
  Log binder — the configuration root.

  A root holds its sources, the tree of their entries when they were last
  loaded, and subscriptions.  A reload loads every source; only if all
  succeed the tree is replaced and every subscriber is notified, in the
  order of subscription, with the node at its path in the new tree.

  * `Root.load` builds a root, `Root.reload` loads it again;
  * `Root.subscribe` and `Root.unsubscribe` keep the subscriptions, whose
    ids are never used twice.
-/
import LogBinder.Config.Source

namespace LogBinder

/-- A wish to be notified. -/
structure Subscription (ω : Type) where
  id : Nat
  segments : List String
  watcher : ω

/-- Configuration that can be loaded again. -/
structure Root (ω : Type) where
  /-- The sources, later ones prevailing. -/
  sources : List Source
  /-- The tree of the last successful load. -/
  tree : Tree
  subscriptions : List (Subscription ω)
  nextId : Nat

/-- The tree of the entries of sources, or the first error. -/
def Tree.ofSources (h : Host) (sources : List Source) : Except ConfigError Tree := do
  let entries ← sources.mapM fun s => s.load h
  return Tree.ofEntries entries.flatten

namespace Root

variable {ω : Type}

/-- The root without sources. -/
def empty : Root ω := ⟨[], Tree.empty, [], 1⟩

/-- The root of some sources. -/
def load (h : Host) (sources : List Source) : Except ConfigError (Root ω) := do
  return { empty with sources, tree := ← Tree.ofSources h sources }

/-- The node at a path in the current tree. -/
def node (r : Root ω) (path : String) : Node :=
  Node.ofPath r.tree path

/-- The top of the current tree. -/
def top (r : Root ω) : Node :=
  Node.top r.tree

/-- The same place in the current tree. -/
def current (r : Root ω) (n : Node) : Node :=
  { n with tree := r.tree }

/-- The names of the sources. -/
def sourceNames (r : Root ω) : List String :=
  r.sources.map Source.name

/-- Adds a subscription; also gives its id. -/
def subscribe (r : Root ω) (segments : List String) (watcher : ω) : Nat × Root ω :=
  (r.nextId, { r with
    subscriptions := r.subscriptions ++ [⟨r.nextId, segments, watcher⟩]
    nextId := r.nextId + 1 })

/-- Whether a subscription is live. -/
def isLive (r : Root ω) (id : Nat) : Bool :=
  r.subscriptions.any fun s => s.id == id

/-- Removes a subscription. -/
def unsubscribe (r : Root ω) (id : Nat) : Root ω :=
  { r with subscriptions := r.subscriptions.filter fun s => s.id != id }

/-- Removes several subscriptions. -/
def unsubscribeAll (r : Root ω) (ids : List Nat) : Root ω :=
  ids.foldl unsubscribe r

/-- Loads every source again; gives the watchers to notify and the nodes to notify them with. -/
def reload (h : Host) (r : Root ω) : Except ConfigError (Root ω × List (ω × Node)) := do
  let tree ← Tree.ofSources h r.sources
  return ({ r with tree }, r.subscriptions.map fun s => (s.watcher, ⟨tree, s.segments⟩))

/-- Changes the values of a memory source. -/
def alterMemory (r : Root ω) (index : Nat) (f : Memory → Memory) : Root ω :=
  { r with sources := r.sources.modify index fun
      | .memory name values => .memory name (f values)
      | s => s }

/-- The values of a memory source. -/
def memory (r : Root ω) (index : Nat) : Memory :=
  match r.sources[index]? with
  | some (.memory _ values) => values
  | _ => []

end Root

end LogBinder
