/-
  Log binder — nodes: places in a snapshot of the configuration.

  A node is a tree and the keys that lead to a place in it, which need not
  exist.  Its shape is a scalar, a section (also where nothing is), or
  neither, where a scalar and keys stand at one place.

  * `Node.children` and `Node.child` move down;
  * `Node.height` bounds how far one can move down (`height_lt_of_mem_children`).
-/
import LogBinder.Config.Tree

namespace LogBinder

/-- Why configuration cannot be read. -/
inductive ConfigError where
  | unavailable (source reason : String)
  | malformed (source : String)
  | notAnObject (source : String)
  | ambiguousShape (path : String)
  deriving DecidableEq, Repr

/-- The wording of an error. -/
def ConfigError.message : ConfigError → String
  | .unavailable source reason =>
    "Configuration source '" ++ source ++ "' could not be read: " ++ reason
  | .malformed source =>
    "Failed to parse configuration source '" ++ source ++ "': malformed document"
  | .notAnObject source =>
    "Failed to parse configuration source '" ++ source
      ++ "': top-level JSON value must be an object"
  | .ambiguousShape path =>
    "Configuration node '" ++ path
      ++ "' has both a scalar value and child entries; the merged sources disagree on its shape"

/-- A place in a tree. -/
structure Node where
  tree : Tree
  segments : List String

/-- What stands at a place. -/
inductive Shape where
  | scalar (text : String)
  | structured
  deriving DecidableEq, Repr

/-- A place that holds a scalar and keys. -/
structure AmbiguousShape where
  path : String
  deriving DecidableEq, Repr

namespace Node

/-- The subtree at the place. -/
def located (n : Node) : Option Tree :=
  n.tree.descend n.segments

/-- The path of the place, as it was asked for. -/
def path (n : Node) : String :=
  Entry.pathOf n.segments

/-- The last key, as it was first written if the place exists. -/
def key (n : Node) : String :=
  match n.segments.getLast?, n.located with
  | none, _ => ""
  | some _, some t => t.key
  | some last, none => last

/-- The scalar at the place. -/
def value (n : Node) : Option String :=
  n.located.bind (·.value)

/-- Whether the place exists. -/
def isPresent (n : Node) : Bool :=
  n.located.isSome

/-- The trees below the place. -/
def subtrees (n : Node) : List Tree :=
  match n.located with
  | some t => t.children
  | none => []

/-- Whether there are keys below the place. -/
def hasChildren (n : Node) : Bool :=
  !n.subtrees.isEmpty

/-- The place below by the keys of a path. -/
def child (n : Node) (path : String) : Node :=
  { n with segments := n.segments ++ Tree.segments path }

/-- The place below by one key. -/
def below (n : Node) (key : String) : Node :=
  { n with segments := n.segments ++ [key] }

/-- The places below by one key that exist, in order. -/
def children (n : Node) : List Node :=
  n.subtrees.map fun t => n.below t.key

/-- What stands at the place. -/
def shape (n : Node) : Except AmbiguousShape Shape :=
  match n.value with
  | some text => if n.hasChildren then .error ⟨n.path⟩ else .ok (.scalar text)
  | none => .ok .structured

/-- The number of levels below the place, and one more if it exists. -/
def height (n : Node) : Nat :=
  match n.located with
  | some t => t.height + 1
  | none => 0

/-- The place by a path from the top of a tree. -/
def ofPath (tree : Tree) (path : String) : Node := ⟨tree, Tree.segments path⟩

/-- The top of a tree. -/
def top (tree : Tree) : Node := ⟨tree, []⟩

theorem located_below (n : Node) (key : String) :
    (n.below key).located = n.located.bind fun t => t.child? key := by
  simp only [located, below, Tree.descend_append]
  congr 1
  funext t
  simp only [Tree.descend]
  cases t.child? key <;> rfl

theorem child_eq_below (n : Node) {name : String} (h : Tree.segments name = [name]) :
    n.child name = n.below name := by
  rw [child, below, h]

/-- Moving down by a key lowers the height of a place that exists. -/
theorem height_below_lt {n : Node} (key : String) (h : n.isPresent = true) :
    (n.below key).height < n.height := by
  simp only [isPresent, Option.isSome_iff_exists] at h
  obtain ⟨t, ht⟩ := h
  simp only [height, located_below, ht, Option.bind_some]
  cases hc : t.child? key with
  | none => simp
  | some c =>
    have := Tree.height_lt_of_child? hc
    simp only
    omega

/-- Every child is lower than its parent. -/
theorem height_lt_of_mem_children {n c : Node} (h : c ∈ n.children) : c.height < n.height := by
  simp only [children, List.mem_map] at h
  obtain ⟨t, ht, rfl⟩ := h
  refine height_below_lt t.key ?_
  cases hn : n.located with
  | none => simp [subtrees, hn] at ht
  | some u => simp [isPresent, hn]

end Node

end LogBinder
