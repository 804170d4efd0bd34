/-
  Log binder — the merged configuration tree.

  Entries are merged one after the other.  Keys compare without regard to
  ASCII case; children keep the order and the spelling in which their key
  was first seen.  A later scalar replaces an earlier one, and an entry
  without a scalar replaces nothing.

  * `Tree.insert` merges one entry, `Tree.ofEntries` a list of them;
  * `Tree.descend` walks down keys.
-/
import LogBinder.Config.Entry
import LogBinder.Text.Ascii

namespace LogBinder

/-- A tree of keys, with a scalar at some of them. -/
structure Tree where
  key : String
  value : Option String
  /-- The trees below, in order of first appearance. -/
  children : List Tree

namespace Tree

/-- The tree of a key that nothing is known of. -/
def named (key : String) : Tree := ⟨key, none, []⟩

/-- The tree without entries. -/
def empty : Tree := named ""

instance : Inhabited Tree := ⟨empty⟩

/-- The child with a key. -/
def child? (t : Tree) (key : String) : Option Tree :=
  t.children.find? fun c => Text.alike c.key key

/-- The tree below some keys. -/
def descend (t : Tree) : List String → Option Tree
  | [] => some t
  | key :: rest => match t.child? key with
    | some c => c.descend rest
    | none => none

/-- Changes the tree with a key, or adds one at the end. -/
def alterChild (key : String) (f : Tree → Tree) : List Tree → List Tree
  | [] => [f (named key)]
  | c :: rest => if Text.alike c.key key then f c :: rest else c :: alterChild key f rest

/-- Puts a scalar below some keys, and makes sure that they exist. -/
def insert (value : Option String) : List String → Tree → Tree
  | [], t => { t with value := value.or t.value }
  | key :: rest, t => { t with children := alterChild key (insert value rest) t.children }

/-- The keys of a path. -/
def segments (path : String) : List String :=
  if path.isEmpty then [] else Text.split ':' path

/-- Merges one entry; one without a path says nothing. -/
def merge (t : Tree) (e : Entry) : Tree :=
  if e.path.isEmpty then t else insert e.value (segments e.path) t

/-- The tree of some entries. -/
def ofEntries (entries : List Entry) : Tree :=
  entries.foldl merge empty

mutual

/-- The number of keys in a tree, its own included. -/
def weight : Tree → Nat
  | ⟨_, _, children⟩ => weightAll children + 1

/-- The number of keys in some trees. -/
def weightAll : List Tree → Nat
  | [] => 0
  | t :: rest => weight t + weightAll rest

end

mutual

/-- The number of levels of a tree below its own key. -/
def height : Tree → Nat
  | ⟨_, _, children⟩ => heightAll children

/-- The number of levels of some trees. -/
def heightAll : List Tree → Nat
  | [] => 0
  | t :: rest => max (height t + 1) (heightAll rest)

end

theorem height_lt_of_mem {t : Tree} {ts : List Tree} (h : t ∈ ts) : t.height < heightAll ts := by
  induction ts with
  | nil => cases h
  | cons u rest ih =>
    rw [heightAll]
    rcases List.mem_cons.1 h with rfl | h
    · omega
    · have := ih h; omega

/-- A child is less high than its tree. -/
theorem height_lt_of_child? {t c : Tree} {key : String} (h : t.child? key = some c) :
    c.height < t.height := by
  obtain ⟨k, v, children⟩ := t
  rw [height]
  exact height_lt_of_mem (List.mem_of_find?_eq_some h)

theorem descend_append (t : Tree) (p q : List String) :
    t.descend (p ++ q) = (t.descend p).bind fun u => u.descend q := by
  induction p generalizing t with
  | nil => rfl
  | cons key rest ih =>
    rw [List.cons_append, descend, descend]
    cases t.child? key with
    | none => rfl
    | some c => exact ih c

end Tree

end LogBinder
