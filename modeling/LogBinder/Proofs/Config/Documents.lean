/-
  Log binder — documents are read back.

  A JSON document is flattened to entries, and these are merged again.  If
  its names hold no colons, and no two names in one object differ in case
  only, then every value of it stands at a place of its own in the tree, and
  nothing else does.

  * `Json.history` lists the leaves of a value, `history_ofJson` says that
    its entries put just these, and `grown_children_history` that the tree
    they are merged to holds the parts of the value, in order;
  * `Root.shows_document` : the places of a configuration that is read from
    one document.
-/
import LogBinder.Config.Root
import LogBinder.Proofs.Config.Paths
import LogBinder.Proofs.Json.Parts

namespace LogBinder

/-! ## Histories of several keys -/

namespace Text

theorem distinct_replicate_append {k : String} {ks : List String}
    (h : ∀ l ∈ ks, alike l k = false) (n : Nat) :
    distinct (List.replicate (n + 1) k ++ ks) = k :: distinct ks := by
  have hfilter : (distinct ks).filter (fun l => !alike l k) = distinct ks :=
    List.filter_eq_self.2 fun l hl => by simp [h l (mem_of_mem_distinct hl)]
  induction n with
  | zero => simp [distinct, hfilter]
  | succ n ih =>
    rw [List.replicate_succ, List.cons_append, distinct, ih]
    simp [hfilter]

end Text

namespace History

/-- A history below a key. -/
def within (key : String) (h : History) : History :=
  h.map fun e => (key :: e.1, e.2)

theorem heads_append (h k : History) : heads (h ++ k) = heads h ++ heads k :=
  List.filterMap_append

theorem below_append (h k : History) (key : String) :
    below (h ++ k) key = below h key ++ below k key :=
  List.filterMap_append

theorem heads_within (key : String) (h : History) :
    heads (within key h) = List.replicate h.length key := by
  simp [heads, within, List.filterMap_map, Function.comp_def]

theorem below_within (k key : String) (h : History) :
    below (within k h) key = if Text.alike k key then h else [] := by
  by_cases hk : Text.alike k key = true
  · simp [below, within, List.filterMap_map, Function.comp_def, entryBelow, hk]
  · simp [below, within, List.filterMap_map, Function.comp_def, entryBelow, hk]

variable {α : Type} {f : α → History} {ps : List (String × α)}

theorem heads_flatMap_within :
    heads (ps.flatMap fun p => within p.1 (f p.2)) =
      ps.flatMap fun p => List.replicate (f p.2).length p.1 := by
  induction ps with
  | nil => rfl
  | cons p rest ih => rw [List.flatMap_cons, List.flatMap_cons, heads_append, heads_within, ih]

/-- Histories below keys of which no two are alike begin with just these keys. -/
theorem distinct_heads_flatMap (hd : (ps.map (·.1)).Pairwise fun a b => Text.alike a b = false)
    (hf : ∀ p ∈ ps, f p.2 ≠ []) :
    Text.distinct (heads (ps.flatMap fun p => within p.1 (f p.2))) = ps.map (·.1) := by
  rw [heads_flatMap_within]
  induction ps with
  | nil => rfl
  | cons p rest ih =>
    rw [List.map_cons, List.pairwise_cons] at hd
    obtain ⟨n, hn⟩ := Nat.exists_eq_succ_of_ne_zero fun h =>
      hf p (List.mem_cons_self ..) (List.length_eq_zero_iff.1 h)
    have hne : ∀ l ∈ rest.flatMap fun q => List.replicate (f q.2).length q.1,
        Text.alike l p.1 = false := by
      intro l hl
      obtain ⟨q, hq, hl⟩ := List.mem_flatMap.1 hl
      obtain ⟨-, rfl⟩ := List.mem_replicate.1 hl
      have := hd.1 q.1 (List.mem_map_of_mem hq)
      exact Bool.eq_false_iff.2 fun h => Bool.eq_false_iff.1 this (Text.alike_symm h)
    rw [List.flatMap_cons, hn, Text.distinct_replicate_append hne,
      ih hd.2 fun q hq => hf q (List.mem_cons_of_mem _ hq), List.map_cons]

/-- Below one of several keys of which no two are alike stands just its own history. -/
theorem below_flatMap (hd : (ps.map (·.1)).Pairwise fun a b => Text.alike a b = false)
    {p : String × α} (hp : p ∈ ps) :
    below (ps.flatMap fun p => within p.1 (f p.2)) p.1 = f p.2 := by
  induction ps with
  | nil => cases hp
  | cons q rest ih =>
    rw [List.map_cons, List.pairwise_cons] at hd
    rw [List.flatMap_cons, below_append, below_within]
    rcases List.mem_cons.1 hp with rfl | hp
    · have hnone : below (rest.flatMap fun p => within p.1 (f p.2)) p.1 = [] := by
        by_contra hne
        obtain ⟨k, hk, hkey⟩ := below_ne_nil_iff.1 hne
        rw [heads_flatMap_within] at hk
        obtain ⟨q, hq, hk⟩ := List.mem_flatMap.1 hk
        obtain ⟨-, rfl⟩ := List.mem_replicate.1 hk
        exact Bool.eq_false_iff.1 (hd.1 q.1 (List.mem_map_of_mem hq)) (Text.alike_symm hkey)
      simp [hnone]
    · rw [if_neg (by simp [hd.1 p.1 (List.mem_map_of_mem hp)]), ih hd.2 hp, List.nil_append]

end History

/-! ## The leaves of a value -/

namespace Json

variable {d e : Json}

/-- The values in a document without parts of their own, by the keys that lead to them. -/
def history (d : Json) : History :=
  if d.parts.isEmpty then [([], d.scalar?)]
  else d.parts.attach.flatMap fun p => History.within p.1.1 p.1.2.history
termination_by d.depth
decreasing_by exact depth_lt_of_mem_parts p.2

theorem history_of_no_parts (h : d.parts = []) : d.history = [([], d.scalar?)] := by
  rw [history, h]
  rfl

theorem history_of_parts (h : d.parts ≠ []) :
    d.history = d.parts.flatMap fun p => History.within p.1 p.2.history := by
  rw [history, if_neg (by simpa using h)]
  conv_rhs => rw [← List.attach_map_subtype_val d.parts, List.flatMap_map]

theorem history_ne_nil (d : Json) : d.history ≠ [] := by
  induction d using parts_induction with
  | h d ih =>
    by_cases hparts : d.parts = []
    · simp [history_of_no_parts hparts]
    · obtain ⟨p, hp⟩ := List.exists_mem_of_ne_nil _ hparts
      rw [history_of_parts hparts]
      intro hnil
      rw [List.flatMap_eq_nil_iff] at hnil
      exact ih p hp (List.map_eq_nil_iff.1 (hnil p hp))

/-- A leaf stands at the top of a value without parts, or below the key of a part. -/
theorem mem_history {l : List String × Option String} (h : l ∈ d.history) :
    (d.parts = [] ∧ l.1 = []) ∨
      ∃ p ∈ d.parts, ∃ k ∈ p.2.history, l = (p.1 :: k.1, k.2) := by
  by_cases hparts : d.parts = []
  · rw [history_of_no_parts hparts, List.mem_singleton] at h
    exact .inl ⟨hparts, congrArg Prod.fst h⟩
  · rw [history_of_parts hparts] at h
    obtain ⟨p, hp, h⟩ := List.mem_flatMap.1 h
    obtain ⟨k, hk, rfl⟩ := List.mem_map.1 h
    exact .inr ⟨p, hp, k, hk, rfl⟩

theorem not_mem_of_mem_history {l : List String × Option String} (hd : d.isPlain = true)
    (h : l ∈ d.history) : ∀ key ∈ l.1, ':' ∉ key.toList := by
  induction d using parts_induction generalizing l with
  | h d ih =>
    rcases mem_history h with ⟨-, hnil⟩ | ⟨p, hp, k, hk, rfl⟩
    · simp [hnil]
    · intro key hkey
      rcases List.mem_cons.1 hkey with rfl | hkey
      · exact not_mem_key hd hp
      · exact ih p hp (isPlain_of_mem_parts hd hp) hk key hkey

/-! ## The tree of the leaves -/

/-- The leaves of a value without parts put its scalar at the top, those of others put none. -/
theorem grown_value_history (key : String) (d : Json) :
    (Tree.grown key d.history).value = d.scalar? := by
  rw [Tree.grown_value]
  by_cases hparts : d.parts = []
  · rw [history_of_no_parts hparts]
    cases d.scalar? <;> simp [History.value]
  · rw [scalar?_eq_none hparts, History.value, List.getLast?_eq_none_iff, List.filterMap_eq_nil_iff]
    intro l hl
    rcases mem_history hl with ⟨hnone, -⟩ | ⟨p, -, k, -, rfl⟩
    · exact absurd hnone hparts
    · rfl

/-- **The leaves of a plain value merge to its parts**, under their keys and in order. -/
theorem grown_children_history (hd : d.isPlain = true) (key : String) :
    (Tree.grown key d.history).children = d.parts.map fun p => Tree.grown p.1 p.2.history := by
  rw [Tree.grown_children]
  by_cases hparts : d.parts = []
  · rw [history_of_no_parts hparts, hparts]
    rfl
  · rw [history_of_parts hparts,
      History.distinct_heads_flatMap (pairwise_keys hd) fun p _ => history_ne_nil p.2, List.map_map]
    refine List.map_congr_left fun p hp => ?_
    rw [Function.comp_apply, History.below_flatMap (pairwise_keys hd) hp]

theorem find?_alike {ps : List (String × Json)}
    (hd : (ps.map (·.1)).Pairwise fun a b => Text.alike a b = false) {p : String × Json}
    (hp : p ∈ ps) {key : String} (hk : Text.alike p.1 key = true) :
    ps.find? (fun q => Text.alike q.1 key) = some p := by
  induction ps with
  | nil => cases hp
  | cons q rest ih =>
    rw [List.map_cons, List.pairwise_cons] at hd
    rw [List.find?_cons]
    rcases List.mem_cons.1 hp with rfl | hp
    · simp [hk]
    · have hq : Text.alike q.1 key = false := Bool.eq_false_iff.2 fun h =>
        Bool.eq_false_iff.1 (hd.1 p.1 (List.mem_map_of_mem hp))
          (Text.alike_trans h (Text.alike_symm hk))
      simp [hq, ih hd.2 hp]

theorem child?_history (hd : d.isPlain = true) {p : String × Json} (hp : p ∈ d.parts)
    {k : String} (hk : Text.alike p.1 k = true) (key : String) :
    (Tree.grown key d.history).child? k = some (Tree.grown p.1 p.2.history) := by
  rw [Tree.child?, grown_children_history hd, List.find?_map]
  simp only [Function.comp_def, Tree.grown_key]
  rw [find?_alike (pairwise_keys hd) hp hk, Option.map_some]

/-- What a plain value holds is found at its keys, in whatever case they are written. -/
theorem descend_of_holds {keys keys' : List String} (hd : d.isPlain = true) (h : d.Holds keys e)
    (hkeys : keys'.map Text.folded = keys.map Text.folded) (key : String) :
    ∃ l, (Tree.grown key d.history).descend keys' = some (Tree.grown l e.history) := by
  induction h generalizing keys' key with
  | here d =>
    obtain rfl := List.map_eq_nil_iff.1 hkeys
    exact ⟨key, rfl⟩
  | inPart hp h ih =>
    obtain ⟨k, rest, rfl, hk, hrest⟩ := List.map_eq_cons_iff.1 hkeys
    rw [Tree.descend, child?_history hd hp (Text.alike_iff.2 hk.symm)]
    exact ih (isPlain_of_mem_parts hd hp) hrest _

/-- Whatever is found in the tree of a plain value is something that the value holds. -/
theorem holds_of_descend {keys' : List String} {key : String} {t : Tree} (hd : d.isPlain = true)
    (h : (Tree.grown key d.history).descend keys' = some t) :
    ∃ keys e, d.Holds keys e ∧ keys'.map Text.folded = keys.map Text.folded := by
  induction keys' generalizing d key with
  | nil => exact ⟨[], d, .here d, rfl⟩
  | cons k rest ih =>
    rw [Tree.descend] at h
    split at h
    · next c hc =>
      have hk := List.find?_some hc
      have hmem := List.mem_of_find?_eq_some hc
      rw [grown_children_history hd] at hmem
      obtain ⟨p, hp, rfl⟩ := List.mem_map.1 hmem
      rw [Tree.grown_key] at hk
      obtain ⟨keys, e, hholds, hkeys⟩ := ih (isPlain_of_mem_parts hd hp) h
      exact ⟨p.1 :: keys, e, .inPart hp hholds, by simp [hkeys, Text.alike_iff.1 hk]⟩
    · cases h

theorem isPlain_of_holds {keys : List String} (hd : d.isPlain = true) (h : d.Holds keys e) :
    e.isPlain = true := by
  induction h with
  | here d => exact hd
  | inPart hp h ih => exact ih (isPlain_of_mem_parts hd hp)

end Json

/-! ## The entries of a value -/

namespace Entry

variable {d : Json} {keys : List String}

theorem ofJsonItems_eq (keys : List String) (index : Nat) (items : List Json) :
    ofJsonItems keys index items =
      (items.zipIdx index).flatMap fun e => ofJson (keys ++ [toString e.2]) e.1 := by
  induction items generalizing index with
  | nil => rfl
  | cons item rest ih => rw [ofJsonItems, ih, List.zipIdx_cons, List.flatMap_cons]

theorem ofJsonMembers_eq (keys : List String) (members : List (String × Json)) :
    ofJsonMembers keys members = members.flatMap fun m => ofJson (keys ++ [m.1]) m.2 := by
  induction members with
  | nil => rfl
  | cons m rest ih => rw [ofJsonMembers, ih, List.flatMap_cons]

/-- The entries of a value with parts are those of its parts. -/
theorem ofJson_of_parts (h : d.parts ≠ []) :
    ofJson keys d = d.parts.flatMap fun p => ofJson (keys ++ [p.1]) p.2 := by
  cases d with
  | array items =>
    cases items with
    | nil => exact absurd rfl h
    | cons item rest => rw [ofJson, ofJsonItems_eq, Json.parts, List.flatMap_map]; simp
  | object members =>
    cases members with
    | nil => exact absurd rfl h
    | cons m rest => rw [ofJson, ofJsonMembers_eq, Json.parts]; simp
  | _ => exact absurd rfl h

/-- A value without parts has one entry: a scalar, or a section without keys. -/
theorem ofJson_of_no_parts (hr : d.isReadable = true) (h : d.parts = []) (hk : keys ≠ []) :
    ofJson keys d = [⟨pathOf keys, d.scalar?⟩] := by
  cases d with
  | array items =>
    cases items with
    | nil => rfl
    | cons item rest => simp [Json.parts] at h
  | object members =>
    cases members with
    | nil => rw [ofJson, if_neg (by simpa using hk)]; rfl
    | cons m rest => simp [Json.parts] at h
  | unreadable => cases hr
  | bool b => cases b <;> rfl
  | _ => rfl

/-- **The entries of a readable value** are its leaves, by the paths that lead to them. -/
theorem ofJson_eq (hr : d.isReadable = true) (h : keys ≠ [] ∨ d.parts ≠ []) :
    ofJson keys d = d.history.map fun l => ⟨pathOf (keys ++ l.1), l.2⟩ := by
  induction d using Json.parts_induction generalizing keys with
  | h d ih =>
    by_cases hparts : d.parts = []
    · rw [ofJson_of_no_parts hr hparts (h.resolve_right (not_not_intro hparts)),
        Json.history_of_no_parts hparts]
      simp
    · rw [ofJson_of_parts hparts, Json.history_of_parts hparts, List.map_flatMap]
      refine List.flatMap_congr fun p hp => ?_
      rw [ih p hp (Json.isReadable_of_mem_parts hr hp) (.inl (by simp)), History.within,
        List.map_map]
      simp [Function.comp_def]

theorem history_of_paths {h : History} (hcolon : ∀ l ∈ h, ∀ key ∈ l.1, ':' ∉ key.toList)
    (hne : ∀ l ∈ h, ∃ key ∈ l.1, key ≠ "") :
    history (h.map fun l => ⟨pathOf l.1, l.2⟩) = h := by
  induction h with
  | nil => rfl
  | cons l rest ih =>
    obtain ⟨key, hkey, hkeyne⟩ := hne l (List.mem_cons_self ..)
    have hl := hcolon l (List.mem_cons_self ..)
    rw [List.map_cons, history_cons, if_neg (pathOf_ne_empty hl hkey hkeyne), keys,
      keys_of_pathOf (List.ne_nil_of_mem hkey) hl,
      ih (fun k hk => hcolon k (List.mem_cons_of_mem _ hk))
        fun k hk => hne k (List.mem_cons_of_mem _ hk)]

/-- The entries of a plain value whose own keys are not empty put just its leaves. -/
theorem history_ofJson (hr : d.isReadable = true) (hd : d.isPlain = true) (h : d.parts ≠ [])
    (hnames : ∀ p ∈ d.parts, p.1 ≠ "") : history (ofJson [] d) = d.history := by
  rw [ofJson_eq hr (.inr h)]
  refine history_of_paths (fun l hl => Json.not_mem_of_mem_history hd hl) fun l hl => ?_
  rcases Json.mem_history hl with ⟨hnone, -⟩ | ⟨p, hp, k, -, rfl⟩
  · exact absurd hnone h
  · exact ⟨p.1, List.mem_cons_self .., hnames p hp⟩

/-- The tree of an object is that of its leaves. -/
theorem ofEntries_ofJson {members : List (String × Json)}
    (hr : (Json.object members).isReadable = true) (hd : (Json.object members).isPlain = true)
    (hnames : ∀ m ∈ members, m.1 ≠ "") :
    Tree.ofEntries (ofJson [] (.object members)) = Tree.grown "" (Json.object members).history := by
  by_cases hparts : (Json.object members).parts = []
  · have hnil : members = [] := hparts
    subst hnil
    rw [Json.history_of_no_parts hparts]
    rfl
  · rw [Tree.ofEntries_eq_grown, history_ofJson hr hd hparts hnames]

end Entry

/-! ## Places of a document -/

/-- What stands at the place of a value. -/
def Json.shape (d : Json) : Shape :=
  match d.scalar? with
  | some text => .scalar text
  | none => .structured

/-- A place shows a value: its shape is that of the value, and the places below it are those of
the parts of the value, in order and by their keys. -/
structure Node.Shows (n : Node) (d : Json) : Prop where
  isPresent : n.isPresent = true
  shape : n.shape = .ok d.shape
  children : n.children = d.parts.map fun p => n.below p.1
  keys : n.children.map Node.key = d.parts.map (·.1)

theorem Node.shows_of_located {n : Node} {d : Json} {key : String} (hd : d.isPlain = true)
    (h : n.located = some (.grown key d.history)) : n.Shows d where
  isPresent := by rw [Node.isPresent, h]; rfl
  shape := by
    have hvalue : n.value = d.scalar? := by
      rw [Node.value, h, Option.bind_some, Json.grown_value_history]
    rw [Node.shape, hvalue, Json.shape]
    cases hs : d.scalar? with
    | none => rfl
    | some text =>
      -- a scalar has no parts
      have hparts : d.parts = [] := by
        by_contra hparts
        rw [Json.scalar?_eq_none hparts] at hs
        cases hs
      have hchildren : n.hasChildren = false := by
        rw [Node.hasChildren, Node.subtrees, h]
        simp [Json.grown_children_history hd, hparts]
      rw [hchildren]
      rfl
  children := by
    rw [Node.children, Node.subtrees, h]
    simp [Json.grown_children_history hd, Function.comp_def]
  keys := by
    rw [Node.children, Node.subtrees, h]
    simp only [Json.grown_children_history hd, List.map_map]
    refine List.map_congr_left fun p hp => ?_
    have hbelow : (n.below p.1).located = some (.grown p.1 p.2.history) := by
      rw [Node.located_below, h, Option.bind_some,
        Json.child?_history hd hp (Text.alike_refl p.1)]
    simp only [Function.comp_apply, Tree.grown_key]
    rw [Node.key, hbelow, Node.below]
    simp

/-- **A document is read back.**  The names of an object hold no colons, those at the top are not
empty, and no two in one object differ in case only.  Then the configuration that is read from it
alone shows every value of the document at the keys that lead to it, in whatever case they are
written, and nothing exists at other keys. -/
theorem Root.shows_document {ω : Type} {h : Host} {name text : String} {origin : Origin}
    {members : List (String × Json)} (hread : Source.read h name origin = .ok text)
    (hdoc : Json.document text.toList = some (.object members))
    (hplain : (Json.object members).isPlain = true) (hnames : ∀ m ∈ members, m.1 ≠ "") :
    ∃ r : Root ω, Root.load h [.json name origin] = .ok r ∧
      (∀ keys keys' d, (Json.object members).Holds keys d →
        keys'.map Text.folded = keys.map Text.folded → (⟨r.tree, keys'⟩ : Node).Shows d) ∧
      ∀ keys', (⟨r.tree, keys'⟩ : Node).isPresent = true →
        ∃ keys d, (Json.object members).Holds keys d ∧
          keys'.map Text.folded = keys.map Text.folded := by
  have hload : Source.load h (.json name origin) = .ok (Entry.ofJson [] (.object members)) := by
    rw [Source.load, hread]
    show Source.loadJson name text = _
    rw [Source.loadJson, hdoc]
  have htree : Tree.ofEntries (Entry.ofJson [] (.object members)) = _ :=
    Entry.ofEntries_ofJson (Json.isReadable_of_document hdoc) hplain hnames
  refine ⟨⟨[.json name origin], Tree.ofEntries (Entry.ofJson [] (.object members)), [], 1⟩,
    ?_, ?_, ?_⟩
  · simp only [Root.load, Tree.ofSources, List.mapM_cons, List.mapM_nil, hload]
    simp [bind, Except.bind, pure, Except.pure, Root.empty]
  · intro keys keys' d hholds hkeys
    obtain ⟨l, hl⟩ := Json.descend_of_holds hplain hholds hkeys ""
    rw [← htree] at hl
    exact Node.shows_of_located (Json.isPlain_of_holds hplain hholds) hl
  · intro keys' hpresent
    obtain ⟨t, ht⟩ := Option.isSome_iff_exists.1 hpresent
    rw [Node.located, htree] at ht
    exact Json.holds_of_descend hplain ht

namespace Sample

/-- A document with a null, a number, empty containers and an empty name. -/
def nestedText : String := "\x7b\"A\": \x7b\"\": [null, 1.50], \"b\": \x7b\x7d\x7d, \"L\": []\x7d"

/-- Whether that is what was read, whatever the number is read as. -/
def isNested : Option Json → Bool
  | some (.object [(a, .object [(e, .array [.null, .number n]), (b, .object [])]),
      (l, .array [])]) =>
    a == "A" && e == "" && b == "b" && l == "L" && n.text == "1.5"
  | _ => false

theorem document_nestedText : ∃ n : Json.Number, n.text = "1.5" ∧
    Json.document nestedText.toList = some (.object
      [("A", .object [("", .array [.null, .number n]), ("b", .object [])]), ("L", .array [])]) := by
  have h : isNested (Json.document nestedText.toList) = true := by decide +kernel
  unfold isNested at h
  split at h
  · next hdoc =>
    simp only [Bool.and_eq_true, beq_iff_eq] at h
    obtain ⟨⟨⟨⟨rfl, rfl⟩, rfl⟩, rfl⟩, htext⟩ := h
    exact ⟨_, htext, hdoc⟩
  · cases h

/-- The number in it is found in another case too. -/
theorem shows_nestedText :
    ∃ r : Root Unit, Root.load ⟨[], []⟩ [.json "nested" (.inline nestedText)] = .ok r ∧
      (⟨r.tree, ["a", "", "1"]⟩ : Node).shape = .ok (.scalar "1.5") ∧
      (⟨r.tree, ["A", "B"]⟩ : Node).children = [] := by
  obtain ⟨n, htext, hdoc⟩ := document_nestedText
  have hplain : (Json.object [("A", .object [("", .array [.null, .number n]), ("b", .object [])]),
      ("L", .array [])]).isPlain = true := by
    simp [Json.isPlain, Json.plainMembers, Json.plainItems, Json.plainNames]
    decide
  have hread : Source.read ⟨[], []⟩ "nested" (.inline nestedText) = .ok nestedText := rfl
  obtain ⟨r, hr, hshows, -⟩ := Root.shows_document (ω := Unit) hread hdoc hplain (by simp)
  refine ⟨r, hr, ?_, ?_⟩
  · have hindex : toString 1 = "1" := by decide +kernel
    have hone : ("1", Json.number n) ∈ (Json.array [.null, .number n]).parts :=
      List.mem_map.2 ⟨(.number n, 1), by simp, by rw [hindex]⟩
    have hn := hshows ["A", "", "1"] ["a", "", "1"] (.number n)
      (.inPart (List.mem_cons_self ..) (.inPart (List.mem_cons_self ..)
        (.inPart hone (.here _)))) (by decide)
    rw [hn.shape, Json.shape, Json.scalar?, htext]
  · have hb := hshows ["A", "b"] ["A", "B"] (.object [])
      (.inPart (List.mem_cons_self ..)
        (.inPart (List.mem_cons_of_mem _ (List.mem_cons_self ..)) (.here _))) (by decide)
    exact hb.children

end Sample

end LogBinder
