/-
  Log binder — nodes and the trees that they read.

  A node holds keys and no tree of its own: whenever it is read it goes down
  from the top again, each time to the first child whose key fits.  Which tree
  that is, among others that may be equal to it, is told by its position: the
  index of a child in each tree on the way.

  In a merged tree no two keys side by side are alike.  So a node that is
  reached from the top by taking children reads the tree at the position that
  was taken, and its path leads to that position in whatever case it is written.

  * `Tree.subtree?`, `Tree.position?` : the tree at a position, and the position
    that keys lead to (`descend_eq`: the tree there is the one they descend to);
  * `Node.position?_of_children` : one step down, `Node.position?_of_follow?` : many;
  * `Root.node_of_follow?` : paths address the nodes that they name.
-/
import LogBinder.Config.Root
import LogBinder.Proofs.Config.Paths
import LogBinder.Proofs.Text.Recasing

namespace LogBinder

/-! ## Positions in a tree -/

namespace Tree

/-- The tree at a position, which gives the index of a child in each tree on the way. -/
def subtree? (t : Tree) : List Nat → Option Tree
  | [] => some t
  | i :: rest => (t.children[i]?).bind fun c => c.subtree? rest

/-- The position that keys lead to, down to the first child with each key. -/
def position? (t : Tree) : List String → Option (List Nat)
  | [] => some []
  | key :: rest => (t.children.findIdx? fun c => Text.alike c.key key).bind fun i =>
      (t.children[i]?).bind fun c => (c.position? rest).map (i :: ·)

variable {t : Tree} {is : List Nat} {keys keys' : List String}

theorem subtree?_append (t : Tree) (is js : List Nat) :
    t.subtree? (is ++ js) = (t.subtree? is).bind fun u => u.subtree? js := by
  induction is generalizing t with
  | nil => rfl
  | cons i rest ih =>
    rw [List.cons_append, subtree?, subtree?, Option.bind_assoc]
    exact Option.bind_congr fun c _ => ih c

/-- Keys descend to the tree at the position that they lead to. -/
theorem descend_eq (t : Tree) (keys : List String) :
    t.descend keys = (t.position? keys).bind t.subtree? := by
  induction keys generalizing t with
  | nil => rfl
  | cons key rest ih =>
    rw [descend, child?, List.find?_eq_bind_findIdx?_getElem?, position?, Option.bind_assoc]
    cases hi : t.children.findIdx? fun c => Text.alike c.key key with
    | none => rfl
    | some i =>
      rw [Option.bind_some, Option.bind_some]
      cases hc : t.children[i]? with
      | none => rfl
      | some c => simp [ih, hc, subtree?, Option.bind_map, Function.comp_def]

theorem position?_append (t : Tree) (keys keys' : List String) :
    t.position? (keys ++ keys') = (t.position? keys).bind fun is =>
      (t.subtree? is).bind fun u => (u.position? keys').map (is ++ ·) := by
  induction keys generalizing t with
  | nil => simp [position?, subtree?]
  | cons key rest ih =>
    rw [List.cons_append, position?, position?]
    cases hi : t.children.findIdx? fun c => Text.alike c.key key with
    | none => rfl
    | some i =>
      rw [Option.bind_some, Option.bind_some]
      cases hc : t.children[i]? with
      | none => rfl
      | some c => simp [ih, hc, subtree?, Option.bind_map, Option.map_bind, Function.comp_def]

/-- Keys lead to a position only where something is stored. -/
theorem isSome_subtree? (h : t.position? keys = some is) : (t.subtree? is).isSome := by
  induction keys generalizing t is with
  | nil => rw [← Option.some.inj h]; rfl
  | cons key rest ih =>
    obtain ⟨i, -, h⟩ := Option.bind_eq_some_iff.1 h
    obtain ⟨c, hc, h⟩ := Option.bind_eq_some_iff.1 h
    obtain ⟨js, hjs, rfl⟩ := Option.map_eq_some_iff.1 h
    rw [subtree?, hc, Option.bind_some]
    exact ih hjs

/-- The case of keys does not matter. -/
theorem position?_congr (h : keys.map Text.folded = keys'.map Text.folded) :
    t.position? keys = t.position? keys' := by
  induction keys generalizing t keys' with
  | nil => rw [List.map_eq_nil_iff.1 h.symm]
  | cons key rest ih =>
    obtain ⟨key', rest', rfl, hkey, hrest⟩ := List.map_eq_cons_iff.1 h.symm
    have halike (c : Tree) : Text.alike c.key key = Text.alike c.key key' :=
      Text.alike_congr_right (Text.alike_iff.2 hkey.symm) c.key
    simp only [position?, halike, ih hrest.symm]

/-- Among keys that are not alike, the first child with the key of a child is the child. -/
theorem position?_key {i : Nat} {c : Tree}
    (hd : (t.children.map key).Pairwise fun a b => Text.alike a b = false)
    (hc : t.children[i]? = some c) : t.position? [c.key] = some [i] := by
  obtain ⟨hi, rfl⟩ := List.getElem?_eq_some_iff.1 hc
  have hfirst : t.children.findIdx? (fun d => Text.alike d.key t.children[i].key) = some i := by
    refine List.findIdx?_eq_some_iff_getElem.2 ⟨hi, Text.alike_refl _, fun j hj => ?_⟩
    rw [List.pairwise_map] at hd
    exact Bool.eq_false_iff.1 (List.pairwise_iff_getElem.1 hd j i (by omega) hi hj)
  rw [position?, hfirst, Option.bind_some, hc]
  rfl

end Tree

/-! ## Nodes that are reached from the top -/

namespace Node

/-- The position of the tree that a node reads, if the node exists. -/
def position? (n : Node) : Option (List Nat) :=
  n.tree.position? n.segments

/-- The node that is reached by taking the children with some indices, one below the other. -/
def follow? (n : Node) : List Nat → Option Node
  | [] => some n
  | i :: rest => (n.children[i]?).bind fun c => c.follow? rest

variable {n m c : Node} {tree : Tree} {entries : List Entry} {is js : List Nat} {i : Nat}

/-- The top node reads the whole tree. -/
theorem position?_top (tree : Tree) : (top tree).position? = some [] := rfl

theorem located_of_position? (hn : n.position? = some is) : n.located = n.tree.subtree? is := by
  rw [position?] at hn
  rw [located, Tree.descend_eq, hn, Option.bind_some]

/-- What is stored further down stands below one of the trees that the node shows. -/
theorem subtree?_below (hn : n.position? = some is) (i : Nat) (js : List Nat) :
    n.tree.subtree? (is ++ i :: js) = (n.subtrees[i]?).bind fun u => u.subtree? js := by
  rw [Tree.subtree?_append, ← located_of_position? hn, subtrees]
  cases n.located <;> rfl

theorem getElem?_children (n : Node) (i : Nat) :
    n.children[i]? = (n.subtrees[i]?).map fun t => n.below t.key :=
  List.getElem?_map

theorem tree_of_children (h : n.children[i]? = some c) : c.tree = n.tree := by
  rw [getElem?_children] at h
  obtain ⟨t, -, rfl⟩ := Option.map_eq_some_iff.1 h
  rfl

/-- **A child reads the tree from which it was made**: its position is that of its parent, and its
index among the children. -/
theorem position?_of_children (ht : n.tree = .ofEntries entries) (hn : n.position? = some is)
    (hc : n.children[i]? = some c) : c.position? = some (is ++ [i]) := by
  rw [getElem?_children] at hc
  obtain ⟨u, hu, rfl⟩ := Option.map_eq_some_iff.1 hc
  cases hlocated : n.located with
  | none => simp [subtrees, hlocated] at hu
  | some t =>
    have hkeys : (t.children.map Tree.key).Pairwise fun a b => Text.alike a b = false := by
      rw [located, ht] at hlocated
      exact Tree.pairwise_keys_of_descend hlocated
    rw [subtrees, hlocated] at hu
    rw [located_of_position? hn] at hlocated
    rw [position?] at hn
    rw [position?, below, Tree.position?_append, hn, Option.bind_some, hlocated, Option.bind_some,
      Tree.position?_key hkeys hu]
    rfl

theorem located_of_children (ht : n.tree = .ofEntries entries) (hn : n.position? = some is)
    (hc : n.children[i]? = some c) : c.located = n.subtrees[i]? := by
  rw [located_of_position? (position?_of_children ht hn hc), tree_of_children hc, subtree?_below hn]
  exact Option.bind_fun_some _

theorem tree_of_follow? (h : n.follow? is = some m) : m.tree = n.tree := by
  induction is generalizing n with
  | nil => rw [← Option.some.inj h]
  | cons i rest ih =>
    obtain ⟨c, hc, h⟩ := Option.bind_eq_some_iff.1 h
    rw [ih h, tree_of_children hc]

/-- A node that is reached by taking children reads the tree at the position that was taken. -/
theorem position?_of_follow? (ht : n.tree = .ofEntries entries) (hn : n.position? = some is)
    (h : n.follow? js = some m) : m.position? = some (is ++ js) := by
  induction js generalizing n is with
  | nil =>
    obtain rfl := Option.some.inj h
    rw [hn, List.append_nil]
  | cons j rest ih =>
    obtain ⟨c, hc, h⟩ := Option.bind_eq_some_iff.1 h
    rw [ih (tree_of_children hc ▸ ht) (position?_of_children ht hn hc) h, List.append_assoc,
      List.singleton_append]

/-- There is a node to reach wherever a tree is stored, and nowhere else. -/
theorem isSome_follow? (ht : n.tree = .ofEntries entries) (hn : n.position? = some is)
    (js : List Nat) : (n.follow? js).isSome = (n.tree.subtree? (is ++ js)).isSome := by
  induction js generalizing n is with
  | nil =>
    rw [List.append_nil, Tree.isSome_subtree? hn]
    rfl
  | cons j rest ih =>
    rw [follow?]
    cases hc : n.children[j]? with
    | some c =>
      rw [Option.bind_some, ih (tree_of_children hc ▸ ht) (position?_of_children ht hn hc),
        tree_of_children hc, List.append_assoc, List.singleton_append]
    | none =>
      rw [getElem?_children, Option.map_eq_none_iff] at hc
      rw [subtree?_below hn, hc]
      rfl

/-! ## Nodes and positions -/

/-- A node reads the tree at a position, and its children read the trees below it. -/
structure ReadsAt (n : Node) (tree : Tree) (is : List Nat) : Prop where
  tree_eq : n.tree = tree
  isPresent : n.isPresent = true
  position : n.position? = some is
  located : n.located = tree.subtree? is
  /-- The child with an index reads the tree that is stored with the index. -/
  children : ∀ i : Nat, (n.children[i]?).bind Node.located = n.subtrees[i]?

theorem readsAt (ht : n.tree = .ofEntries entries) (hn : n.position? = some is) :
    n.ReadsAt n.tree is where
  tree_eq := rfl
  isPresent := by
    rw [Node.isPresent, located_of_position? hn]
    exact Tree.isSome_subtree? hn
  position := hn
  located := located_of_position? hn
  children i := by
    cases hc : n.children[i]? with
    | some c => exact located_of_children ht hn hc
    | none =>
      rw [getElem?_children, Option.map_eq_none_iff] at hc
      rw [hc]
      rfl

theorem readsAt_of_follow? (ht : tree = .ofEntries entries)
    (h : (top tree).follow? is = some n) : n.ReadsAt tree is := by
  have htree : n.tree = tree := tree_of_follow? h
  rw [← htree]
  exact readsAt (htree.trans ht) (position?_of_follow? ht (position?_top tree) h)

/-- A path leads to the position of the node that it names, in whatever case it is written. -/
theorem ReadsAt.ofPath (hn : n.ReadsAt tree is) (ht : tree = .ofEntries entries) (hne : n.path ≠ "")
    {path : String} (h : Text.alike path n.path = true) : (ofPath tree path).ReadsAt tree is := by
  obtain rfl := hn.tree_eq
  have hpath : path ≠ "" := Text.ne_empty_of_alike h hne
  have hkeys (s : String) (hs : s ≠ "") : Tree.segments s = Text.split ':' s := by
    rw [Tree.segments, if_neg (by simpa using hs)]
  refine readsAt ht ?_
  calc (Node.ofPath n.tree path).position?
      = (Node.ofPath n.tree n.path).position? := by
        refine Tree.position?_congr ?_
        rw [Node.ofPath, Node.ofPath, hkeys path hpath, hkeys n.path hne]
        exact Text.folded_split_eq_iff.2 h
    _ = n.position? := by rw [ofPath_path ht hn.isPresent hne]
    _ = some is := hn.position

/-- Nodes with paths that are alike read one and the same tree. -/
theorem ReadsAt.unique (hn : n.ReadsAt tree is) (hm : m.ReadsAt tree js)
    (ht : tree = .ofEntries entries) (hne : n.path ≠ "") (h : Text.alike m.path n.path = true) :
    js = is := by
  have hmne : m.path ≠ "" := Text.ne_empty_of_alike h hne
  have his := (hn.ofPath ht hne h).position
  have hjs := (hm.ofPath ht hmne (Text.alike_refl _)).position
  exact Option.some.inj (hjs.symm.trans his)

/-- No key that is stored holds a colon. -/
theorem not_mem_key {t : Tree} (ht : tree = .ofEntries entries) (h : tree.subtree? is = some t) :
    ':' ∉ t.key.toList := by
  rcases List.eq_nil_or_concat is with rfl | ⟨js, i, rfl⟩
  · obtain rfl := Option.some.inj h
    rw [ht, Tree.ofEntries_eq_grown, Tree.grown_key]
    simp
  · rw [List.concat_eq_append] at h
    -- The parent is reached, and the key leads to one of its children.
    obtain ⟨p, hp⟩ : ∃ p, (top tree).follow? js = some p := by
      rw [Tree.subtree?_append] at h
      obtain ⟨u, hu, -⟩ := Option.bind_eq_some_iff.1 h
      rw [← Option.isSome_iff_exists, isSome_follow? ht (position?_top tree)]
      exact Option.isSome_of_eq_some hu
    obtain ⟨rfl, -, hposition, -, -⟩ := readsAt_of_follow? ht hp
    rw [subtree?_below hposition] at h
    have hc : p.children[i]? = some (p.below t.key) := by
      rw [getElem?_children, (Option.bind_fun_some _).symm.trans h]
      rfl
    obtain ⟨v, hv⟩ := Option.isSome_iff_exists.1
      (readsAt (n := p.below t.key) ht (position?_of_children ht hposition hc)).isPresent
    rw [located, below, ht] at hv
    exact Tree.not_mem_of_descend hv t.key (by simp)

end Node

namespace Root

variable {ω : Type}

/-- **Paths address the nodes that they name.**  Taking children from the top reaches a node for
every tree that is stored, and the node reads that tree.  If its path is not empty, the path leads
to the same tree wherever that snapshot is held and in whatever case it is written, and no other
node that is reached so has a path that is alike.  No key that is stored holds a colon. -/
theorem node_of_follow? {r r' : Root ω} {entries : List Entry} (ht : r.tree = .ofEntries entries)
    (hr : r'.tree = r.tree) :
    (∀ is, (r.top.follow? is).isSome = (r.tree.subtree? is).isSome) ∧
    (∀ is n, r.top.follow? is = some n → n.ReadsAt r.tree is ∧
      (n.path ≠ "" →
        (∀ path, Text.alike path n.path = true → (r'.node path).ReadsAt r.tree is) ∧
        ∀ js m, r.top.follow? js = some m → Text.alike m.path n.path = true → js = is ∧ m = n)) ∧
    ∀ is t, r.tree.subtree? is = some t → ':' ∉ t.key.toList := by
  refine ⟨Node.isSome_follow? ht (Node.position?_top r.tree), fun is n hn => ?_,
    fun is t h => Node.not_mem_key ht h⟩
  have hreads := Node.readsAt_of_follow? ht hn
  refine ⟨hreads, fun hne => ⟨fun path hpath => ?_, fun js m hm hpath => ?_⟩⟩
  · rw [node, hr]
    exact hreads.ofPath ht hne hpath
  · obtain rfl := hreads.unique (Node.readsAt_of_follow? ht hm) ht hne hpath
    exact ⟨rfl, Option.some.inj (hm.symm.trans hn)⟩

/-- A snapshot with an empty key at the top and another one below. -/
def blankKeyed : Root Unit :=
  { Root.empty with
    tree := .ofEntries [⟨":a", some "1"⟩, ⟨"B:", some "2"⟩, ⟨"b:C:d", some "3"⟩] }

/-- Paths that end in an empty key, and paths in another case, lead to the node; the empty path of
a node below the top leads to the top. -/
theorem node_of_follow?_blankKeyed :
    (∃ n, blankKeyed.top.follow? [1, 0] = some n ∧ n.path = "B:" ∧
      (blankKeyed.node "b:").ReadsAt blankKeyed.tree [1, 0]) ∧
    (∃ n, blankKeyed.top.follow? [1, 1] = some n ∧ n.path = "B:C" ∧
      (blankKeyed.node "b:c").ReadsAt blankKeyed.tree [1, 1]) ∧
    ∃ n, blankKeyed.top.follow? [0] = some n ∧ n.path = "" ∧
      (blankKeyed.node "").position? = some [] := by
  obtain ⟨-, hreads, -⟩ := node_of_follow? (r := blankKeyed) rfl (Eq.refl blankKeyed.tree)
  refine ⟨⟨_, rfl, ?_, ?_⟩, ⟨_, rfl, ?_, ?_⟩, _, rfl, ?_, rfl⟩
  · decide +kernel
  · exact ((hreads [1, 0] _ rfl).2 (by decide +kernel)).1 "b:" (by decide +kernel)
  · decide +kernel
  · exact ((hreads [1, 1] _ rfl).2 (by decide +kernel)).1 "b:c" (by decide +kernel)
  · decide +kernel

end Root

end LogBinder
