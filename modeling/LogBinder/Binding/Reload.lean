/-
  Log binder — following the configuration.

  After a successful reload every watcher is told of the node at its place.
  A switch takes over what it finds there, if it can, and otherwise keeps
  its value and tells why.

  * `Session.followLevel` and `Session.followFilter` : what the switches do;
  * `Session.reload` loads the configuration again.
-/
import LogBinder.Binding.Session

namespace LogBinder

namespace Session

/-- A level switch takes over the level at a node. -/
def followLevel (label : String) (cell : Nat) (n : Node) (s : Session) : Session :=
  match Level.read (n.value.getD "") with
  | .ok l => if l = s.level cell then s else s.setLevel cell l
  | .error fault => s.tell (.reloadFailure label n.path (n.value.getD "") (.level fault))

/-- A filter switch takes over the expression at a node. -/
def followFilter (label : String) (cell : Nat) (o : Options) (n : Node) (s : Session) : Session :=
  match n.value with
  | none => s.tell (.reloadFailure label n.path "" .removed)
  | some text => match o.objection (Text.trim text) with
    | some reason => s.tell (.reloadFailure label n.path text (.rejected reason))
    | none => s.setFilter cell (some text)

/-- Tells a watcher of a node. -/
def notify (s : Session) (told : Watcher × Node) : Session :=
  match told.1 with
  | .host tag => s.receive (.notified tag told.2)
  | .level label cell => s.followLevel label cell told.2
  | .filter label cell o => s.followFilter label cell o told.2

/-- Loads the configuration again and tells every watcher; a failure changes nothing. -/
def reload (s : Session) : Except ConfigError Session := do
  let (root, told) ← s.root.reload s.host
  return told.foldl notify { s with root }

/-- Adds a watcher; also gives the id of its subscription. -/
def subscribe (segments : List String) (w : Watcher) (s : Session) : Nat × Session :=
  let (id, root) := s.root.subscribe segments w
  (id, { s with root })

end Session

end LogBinder
