/-
  Log binder — the construction of objects.

  An object section is constructed as a type by the best of its exported
  constructors.  A constructor comes into question if each parameter has a
  field, which is an entry of its name in whatever case, or may be left out;
  it is the better the more parameters have fields, and then the more of
  these take plain text.  The keys right below a place differ in more than
  case, so a parameter has one field at most, and the order of the fields
  makes no difference.

  * `Node.fields`, `Node.field?` : the fields of a section;
  * `Constructor.Suits`, `Constructor.key` : which constructors come into
    question, and how good they are;
  * `Scope.given` : the arguments of a constructor;
  * `Node.Reordered` : sections with the same fields in another order;
  * `Scope.convert_object` : what is constructed for a section.
-/
import LogBinder.Proofs.Binding.Arguments
import LogBinder.Proofs.Binding.Choices
import LogBinder.Proofs.Binding.Faults
import LogBinder.Proofs.Binding.Likeness
import LogBinder.Proofs.Config.History
import Mathlib.Data.List.Pairwise

namespace LogBinder

/-! ## Fields -/

namespace Node

/-- The places right below that are fields of an object: all but the one that names its type. -/
def fields (n : Node) : List Node :=
  n.children.filter fun c => !Text.alike c.key Scope.typeKey

/-- The field for a parameter. -/
def field? (n : Node) (p : Parameter) : Option Node :=
  n.fields.find? fun c => Text.alike c.key p.name

/-- Whether there is a field for a parameter. -/
def hasField (n : Node) (p : Parameter) : Bool :=
  n.fields.any fun c => Text.alike c.key p.name

theorem isSome_field? (n : Node) (p : Parameter) : (n.field? p).isSome = n.hasField p :=
  List.isSome_find?

/-- A field stands right below, has the name of its parameter, and is not the entry that names the
type. -/
theorem of_field? {n c : Node} {p : Parameter} (h : n.field? p = some c) :
    c ∈ n.children ∧ Text.alike c.key p.name = true ∧ ¬ Text.alike c.key Scope.typeKey = true := by
  obtain ⟨hmem, htype⟩ := List.mem_filter.1 (List.mem_of_find?_eq_some h)
  have hkey := List.find?_some (p := fun c : Node => Text.alike c.key p.name) h
  exact ⟨hmem, hkey, by simpa using htype⟩

end Node

/-! ## Constructors -/

namespace Constructor

/-- A constructor is exported, and each parameter has a field, has a default or is injected. -/
structure Suits (n : Node) (c : Constructor) : Prop where
  exported : c.visibility = .exported
  takes : ∀ p ∈ c.parameters,
    n.hasField p = true ∨ p.default.isSome = true ∨ p.type.isImplicit = true

/-- How many parameters have fields, and how many of these take plain text. -/
def key (n : Node) (c : Constructor) : ℕ ×ₗ ℕ :=
  toLex (c.parameters.countP n.hasField,
    c.parameters.countP fun p => n.hasField p && p.type.isString)

variable {n : Node} {c : Constructor} {fit : Fit { c : Node // c ∈ n.children }}

theorem map_field?_fields (n : Node) (p : Parameter) :
    (field? (Scope.fields n) p).map (·.1) = n.field? p := by
  have hfields : n.fields = (n.children.attach.filter fun c =>
      !Text.alike c.1.key Scope.typeKey).map (·.1) := by
    rw [Node.fields]
    conv_lhs => rw [← List.attach_map_subtype_val n.children, List.filter_map]
    rfl
  rw [Node.field?, hfields, field?, Scope.fields, List.find?_map, List.find?_map, Option.map_map,
    Option.map_map]
  rfl

theorem isSome_field?_fields (n : Node) (p : Parameter) :
    (field? (Scope.fields n) p).isSome = n.hasField p := by
  rw [← n.isSome_field?, ← map_field?_fields, Option.isSome_map]

/-- The fit of an exported constructor for the fields of a section. -/
def fitTo? (n : Node) (c : Constructor) : Option (Fit { c : Node // c ∈ n.children }) :=
  if c.visibility = .exported then fit? (Scope.fields n) c else none

theorem select_publicConstructors (t : TypeSpec) (n : Node) :
    select t.publicConstructors (Scope.fields n) =
      best Fit.rank (t.constructors.filterMap (fitTo? n)) := by
  rw [select, TypeSpec.publicConstructors, List.filterMap_filter]
  simp only [decide_eq_true_eq]
  rfl

theorem fitTo?_eq_some_iff :
    fitTo? n c = some fit ↔
      Suits n c ∧ fit = ⟨c, c.parameters.map fun p => (p, field? (Scope.fields n) p)⟩ := by
  have htakes : (c.parameters.all fun p => p.canOmit || (field? (Scope.fields n) p).isSome) = true ↔
      ∀ p ∈ c.parameters,
        n.hasField p = true ∨ p.default.isSome = true ∨ p.type.isImplicit = true := by
    simp only [List.all_eq_true, isSome_field?_fields, Parameter.canOmit, Bool.or_eq_true, or_comm]
  rw [fitTo?]
  by_cases hexported : c.visibility = .exported
  · rw [if_pos hexported, fit?]
    by_cases hall : (c.parameters.all fun p =>
        p.canOmit || (field? (Scope.fields n) p).isSome) = true
    · rw [if_pos hall, Option.some_inj, eq_comm]
      exact (and_iff_right ⟨hexported, htakes.1 hall⟩).symm
    · rw [if_neg hall]
      exact iff_of_false (Option.some_ne_none fit).symm fun h => hall (htakes.2 h.1.takes)
  · rw [if_neg hexported]
    exact iff_of_false (Option.some_ne_none fit).symm fun h => hexported h.1.exported

theorem exists_fitTo?_iff : Suits n c ↔ ∃ fit, fitTo? n c = some fit :=
  ⟨fun h => ⟨_, fitTo?_eq_some_iff.2 ⟨h, rfl⟩⟩, fun ⟨_, h⟩ => (fitTo?_eq_some_iff.1 h).1⟩

theorem rank_of_fit (c : Constructor) (n : Node) :
    Fit.rank ⟨c, c.parameters.map fun p => (p, field? (Scope.fields n) p)⟩ =
      ⟨c.parameters.countP n.hasField,
        c.parameters.countP fun p => n.hasField p && p.type.isString, 0⟩ := by
  have hbound : ((c.parameters.map fun p => (p, field? (Scope.fields n) p)).filter
      fun b => b.2.isSome).map (·.1) = c.parameters.filter n.hasField := by
    rw [List.filter_map, List.map_map]
    simp only [Function.comp_def, isSome_field?_fields, List.map_id']
  simp only [Fit.rank, Rank.of, Rank.coarse, hbound, List.filter_filter, Bool.true_and,
    List.countP_eq_length_filter, Bool.and_comm]

/-- Fits rank as their constructors do by their keys. -/
theorem exceeds_of_fitTo? {c' : Constructor} {fit' : Fit { c : Node // c ∈ n.children }}
    (h : fitTo? n c = some fit) (h' : fitTo? n c' = some fit') :
    fit.rank.exceeds fit'.rank = true ↔ key n c' < key n c := by
  rw [(fitTo?_eq_some_iff.1 h).2, (fitTo?_eq_some_iff.1 h').2, rank_of_fit, rank_of_fit,
    Rank.exceeds_iff]
  simp only [Rank.key, key, Prod.Lex.toLex_lt_toLex, lt_irrefl, and_false, or_false]

/-- The constructor that is selected is the first of those that suit best. -/
theorem firstBest_of_select {t : TypeSpec}
    (h : select t.publicConstructors (Scope.fields n) = some fit) :
    ∃ c, FirstBest (Suits n) (key n) t.constructors c ∧
      fit = ⟨c, c.parameters.map fun p => (p, field? (Scope.fields n) p)⟩ := by
  rw [select_publicConstructors] at h
  obtain ⟨c, hc, hbest⟩ := firstBest_of_best (p := Suits n) (k := key n)
    (fun c => exists_fitTo?_iff) (fun c c' z w hz hw => exceeds_of_fitTo? hz hw) h
  exact ⟨c, hbest, (fitTo?_eq_some_iff.1 hc).2⟩

theorem not_suits_of_select {t : TypeSpec}
    (h : select t.publicConstructors (Scope.fields n) = none) :
    ∀ c ∈ t.constructors, ¬ Suits n c := by
  rw [select_publicConstructors, best_eq_none_iff, List.filterMap_eq_nil_iff] at h
  intro c hc hsuits
  obtain ⟨fit, hfit⟩ := exists_fitTo?_iff.1 hsuits
  rw [h c hc] at hfit
  cases hfit

end Constructor

/-! ## Arguments -/

namespace Scope

open Fresh

/-- The value for a parameter: its field, converted; without a field what is injected, or the
default. -/
def given (s : Scope) (n : Node) (p : Parameter) : Fresh Value :=
  match n.field? p with
  | some c => s.convert c p.type
  | none => liftM (if p.type.isImplicit then s.injected p.type p.name n.path
      else .ok (p.default.getD .null))

/-- The arguments of a constructor: a value for each parameter, in order. -/
def arguments (s : Scope) (n : Node) (c : Constructor) : Fresh Arguments :=
  c.parameters.mapM fun p => do return (p.name, ← s.given n p)

/-- The object that a constructor of a type makes of a section. -/
def constructed (s : Scope) (n : Node) (t : TypeSpec) (c : Constructor) : Fresh Value := do
  construct t c (← s.arguments n c) n.path

variable {s : Scope} {n : Node} {declared : String} {t : TypeSpec}

theorem arguments_eq_argumentsOr (s : Scope) (n : Node) (c : Constructor) :
    s.arguments n c = s.argumentsOr (.ok .null) n.path n.field? c.parameters := by
  refine mapM_congr fun p _ => ?_
  rw [given]
  cases n.field? p with
  | some a => rfl
  | none =>
    dsimp only
    rw [omittedOr_null, omitted]

theorem areCovered_of_suits {n : Node} {c : Constructor} (h : c.Suits n) :
    Parameter.AreCovered n.field? c.parameters := by
  intro p hp
  rw [n.isSome_field?, Parameter.canOmit, Bool.or_eq_true]
  exact h.takes p hp

theorem argument_eq_given (s : Scope) (n : Node) (p : Parameter) :
    argument s n (fun c _ u => s.convert c u) (p, Constructor.field? (fields n) p) = (do
      return (p.name, ← s.given n p)) := by
  rw [argument, given, ← Constructor.map_field?_fields]
  cases Constructor.field? (fields n) p <;> rfl

theorem liftM_ok_bind {α β : Type} (a : α) (f : α → Fresh β) :
    (liftM (.ok a : Except ResolveError α) : Fresh α) >>= f = f a := rfl

/-- The names of the fields. -/
theorem map_fields (n : Node) : (fields n).map (·.1) = n.fields.map Node.key := by
  rw [fields, List.map_map, Node.fields]
  conv_rhs => rw [← List.attach_map_subtype_val n.children, List.filter_map, List.map_map]
  rfl

/-- A section is constructed by the first of the constructors that suit it best, or none does. -/
theorem convert_eq_constructed (hform : n.form = .ok .structured)
    (ht : s.objectType n declared = .ok t) :
    (∀ c ∈ t.constructors, ¬ c.Suits n) ∧ s.convert n (.object declared) =
      throw (.noMatchingConstructor t.fullName (n.fields.map Node.key) n.path) ∨
    ∃ c, FirstBest (Constructor.Suits n) (Constructor.key n) t.constructors c ∧
      s.convert n (.object declared) = s.constructed n t c := by
  rw [convert, if_neg (by simp [TypeRef.isImplicit]), hform]
  change _ ∧ object s n (fun c _ u => s.convert c u) declared = _ ∨
    ∃ c, _ ∧ object s n (fun c _ u => s.convert c u) declared = _
  rw [object, ht, ← map_fields, liftM_ok_bind]
  cases hselect : Constructor.select t.publicConstructors (fields n) with
  | none => exact .inl ⟨Constructor.not_suits_of_select hselect, rfl⟩
  | some fit =>
    obtain ⟨c, hbest, rfl⟩ := Constructor.firstBest_of_select hselect
    refine .inr ⟨c, hbest, ?_⟩
    dsimp only
    rw [List.mapM_map]
    simp only [Function.comp_def, argument_eq_given]
    rfl

end Scope

/-! ## Errors -/

/-- What stands below a named place has another path. -/
theorem Node.IsWithin.path_ne {a c n : Node} (h : a.IsWithin c) (hc : c ∈ n.children)
    (hn : n.segments ≠ []) : a.path ≠ n.path := by
  obtain ⟨keys, hkeys⟩ := h.exists_segments
  obtain ⟨t, -, rfl⟩ := List.mem_map.1 hc
  have hpath : a.path = n.path ++ ":" ++ Entry.pathOf (t.key :: keys) := by
    rw [Node.path, hkeys, Node.below, List.append_assoc, Node.path]
    exact String.intercalate_append_of_ne_nil hn (by simp)
  intro heq
  have hlength := congrArg String.length (hpath.symm.trans heq)
  simp only [String.length_append] at hlength
  have hcolon : ":".length = 1 := rfl
  omega

namespace Scope

open Ending Fresh

variable {s : Scope} {n : Node} {t : TypeSpec} {c : Constructor}

theorem ends_omitted_unmatched (s : Scope) (p : Parameter) (path : String) :
    Ends (s.omitted p path) (fun _ => True)
      fun e => ∀ type keys path', e ≠ .noMatchingConstructor type keys path' := by
  refine ⟨fun _ _ => trivial, fun e he type keys path' heq => ?_⟩
  subst heq
  rw [omitted] at he
  split at he
  · unfold injected at he
    split at he
    · split at he <;> cases he
    all_goals cases he
  · cases he

/-- A constructor that suits does not fail for want of one. -/
theorem ends_constructed (hn : n.segments ≠ []) (t : TypeSpec) (c : Constructor) :
    Ends (s.constructed n t c) (fun _ => True)
      fun e => ∀ type keys, e ≠ .noMatchingConstructor type keys n.path := by
  refine ends_bind (R := fun _ => True) ?_ fun args _ => ?_
  · refine ends_imp (ends_mapM (P := fun _ => True) fun p _ => ?_) (fun _ _ => trivial) fun _ => id
    refine ends_bind (R := fun _ => True) ?_ fun _ _ => ends_pure trivial
    unfold given
    split
    · next a ha =>
      refine ends_imp (s.keeps_pointsAt.ends_convert a p.type) (fun _ _ => trivial) ?_
      rintro _ ⟨b, hb, hpath⟩ type keys rfl
      exact hb.path_ne (Node.of_field? ha).1 hn (Option.some.inj hpath).symm
    · refine ends_lift (ends_imp (ends_omitted_unmatched s p _) (fun _ => id) ?_)
      exact fun e he type keys => he type keys _
  · refine ends_bind (R := fun _ => True) ends_identity fun identity _ => ?_
    split
    · exact ends_pure trivial
    · exact ends_throw nofun

/-- What a constructor that suits makes holds an argument for each parameter, in order. -/
theorem eq_object_of_constructed (hsuits : c.Suits n) {v : Value} {k m : Nat}
    (h : Yields (s.constructed n t c) k v m) :
    ∃ args identity, s.AreSupplied n.path n.field? c.parameters args ∧
      v = .object t.fullName identity c.label (some args) := by
  obtain ⟨args, identity, hargs, h⟩ := yields_bind.1 h
  rw [arguments_eq_argumentsOr] at hargs
  have hsupplied := areSupplied_of_areCovered (areCovered_of_suits hsuits) hargs
  exact ⟨args, identity, hsupplied, (eq_of_construct h).1⟩

end Scope

/-! ## The order of the fields -/

/-- If at most one item has a property, it is found in any order. -/
theorem find?_perm {α : Type} {p : α → Bool} {xs ys : List α} (h : xs.Perm ys)
    (hunique : ∀ x ∈ xs, ∀ y ∈ xs, p x = true → p y = true → x = y) :
    xs.find? p = ys.find? p := by
  cases hx : xs.find? p with
  | none =>
    rw [List.find?_eq_none] at hx
    exact (List.find?_eq_none.2 fun y hy => hx y (h.mem_iff.2 hy)).symm
  | some x =>
    have hmem := List.mem_of_find?_eq_some hx
    cases hy : ys.find? p with
    | none => exact absurd (List.find?_some hx) (List.find?_eq_none.1 hy x (h.mem_iff.1 hmem))
    | some y =>
      have hmem' := h.mem_iff.2 (List.mem_of_find?_eq_some hy)
      rw [hunique x hmem y hmem' (List.find?_some hx) (List.find?_some hy)]

namespace Node

/-- No two trees right below a place have keys that are alike. -/
def HasDistinctKeys (n : Node) : Prop :=
  ∀ t ∈ n.subtrees, ∀ u ∈ n.subtrees, Text.alike t.key u.key = true → t = u

/-- The same keys lead to two places with the same scalar and, in some order, the same trees. -/
structure Reordered (n n' : Node) : Prop where
  segments : n.segments = n'.segments
  value : n.value = n'.value
  subtrees : n.subtrees.Perm n'.subtrees

variable {n n' : Node}

theorem hasDistinctKeys_of_ofEntries {entries : List Entry} (h : n.tree = .ofEntries entries) :
    n.HasDistinctKeys := by
  intro t ht u hu halike
  rw [Node.subtrees] at ht hu
  cases hlocated : n.located with
  | none =>
    rw [hlocated] at ht
    cases ht
  | some parent =>
    rw [hlocated] at ht hu
    rw [located, h] at hlocated
    have hkeys := Tree.pairwise_keys_of_descend hlocated
    have hsymm : Std.Symm fun t u : Tree => Text.alike t.key u.key = false :=
      ⟨fun t u htu => Bool.eq_false_iff.2 fun hut => Bool.eq_false_iff.1 htu (Text.alike_symm hut)⟩
    by_contra hne
    exact Bool.eq_false_iff.1 ((List.pairwise_map.1 hkeys).forall ht hu hne) halike

/-- A key determines the tree under it. -/
theorem HasDistinctKeys.eq (h : n.HasDistinctKeys) {t u : Tree} {key : String}
    (ht : t ∈ n.subtrees) (hu : u ∈ n.subtrees) (htkey : Text.alike t.key key = true)
    (hukey : Text.alike u.key key = true) : t = u :=
  h t ht u hu (Text.alike_trans htkey (Text.alike_symm hukey))

theorem HasDistinctKeys.perm (h : n.HasDistinctKeys) (hn : n.Reordered n') :
    n'.HasDistinctKeys := fun t ht u hu =>
  h t (hn.subtrees.mem_iff.2 ht) u (hn.subtrees.mem_iff.2 hu)

theorem located_below_eq (n : Node) (key : String) :
    (n.below key).located = n.subtrees.find? fun t => Text.alike t.key key := by
  rw [located_below, Node.subtrees]
  cases n.located <;> rfl

/-- Below a tree's own key stands the tree, with that key. -/
theorem HasDistinctKeys.key_below (h : n.HasDistinctKeys) {t : Tree} (ht : t ∈ n.subtrees) :
    (n.below t.key).key = t.key := by
  have hlocated : (n.below t.key).located = some t := by
    rw [located_below_eq]
    cases hu : n.subtrees.find? fun u => Text.alike u.key t.key with
    | none => exact absurd (Text.alike_refl _) (List.find?_eq_none.1 hu t ht)
    | some u =>
      have halike : Text.alike u.key t.key = true :=
        List.find?_some (p := fun u : Tree => Text.alike u.key t.key) hu
      rw [h u (List.mem_of_find?_eq_some hu) t ht halike]
  rw [Node.key, hlocated, Node.below, List.getLast?_concat]

/-- The field for a parameter stands below the tree of its name. -/
theorem HasDistinctKeys.field?_eq (h : n.HasDistinctKeys) (p : Parameter) :
    n.field? p = (n.subtrees.find? fun t =>
      !Text.alike t.key Scope.typeKey && Text.alike t.key p.name).map fun t => n.below t.key := by
  rw [field?, fields, List.find?_filter, Node.children, List.find?_map]
  congr 1
  rw [← List.head?_filter, ← List.head?_filter]
  congr 1
  refine List.filter_congr fun t ht => ?_
  simp [h.key_below ht]

theorem Reordered.below (h : n.Reordered n') (hn : n.HasDistinctKeys) (key : String) :
    (n.below key).Like (n'.below key) where
  segments := by rw [Node.below, Node.below, h.segments]
  located := by
    rw [located_below_eq, located_below_eq]
    exact find?_perm h.subtrees fun t ht u hu => hn.eq ht hu

/-- The fields for a parameter are alike. -/
theorem Reordered.field?_rel (h : n.Reordered n') (hn : n.HasDistinctKeys) (p : Parameter) :
    Option.Rel Like (n.field? p) (n'.field? p) := by
  rw [hn.field?_eq, (hn.perm h).field?_eq, ← find?_perm h.subtrees]
  · cases n.subtrees.find? fun t =>
        !Text.alike t.key Scope.typeKey && Text.alike t.key p.name with
    | none => exact .none
    | some t => exact .some (h.below hn t.key)
  · intro t ht u hu htp hup
    rw [Bool.and_eq_true] at htp hup
    exact hn.eq ht hu htp.2 hup.2

theorem Reordered.hasField_eq (h : n.Reordered n') (hn : n.HasDistinctKeys) :
    n.hasField = n'.hasField := by
  funext p
  rw [← isSome_field?, ← isSome_field?]
  exact Constructor.isSome_eq_of_rel (h.field?_rel hn p)

theorem Reordered.form_eq (h : n.Reordered n') : n.form = n'.form := by
  have hpath : n.path = n'.path := by rw [path, path, h.segments]
  have hchildren : n.hasChildren = n'.hasChildren := by
    rw [hasChildren, hasChildren, h.subtrees.isEmpty_eq]
  rw [form, form, shape, shape, h.value, hchildren, hpath]

theorem Reordered.child_typeKey (h : n.Reordered n') (hn : n.HasDistinctKeys) :
    (n.child Scope.typeKey).Like (n'.child Scope.typeKey) :=
  h.below hn Scope.typeKey

end Node

/-- The same constructors come into question, and are as good. -/
theorem Constructor.firstBest_of_reordered {n n' : Node} (h : n.Reordered n')
    (hn : n.HasDistinctKeys) (cs : List Constructor) (c : Constructor) :
    FirstBest (Suits n') (key n') cs c ↔ FirstBest (Suits n) (key n) cs c := by
  have hsuits : Suits n' = Suits n := by
    funext c
    refine propext ⟨fun hc => ⟨hc.exported, ?_⟩, fun hc => ⟨hc.exported, ?_⟩⟩
    · rw [h.hasField_eq hn]
      exact hc.takes
    · rw [← h.hasField_eq hn]
      exact hc.takes
  have hkey : key n' = key n := by
    funext c
    rw [key, key, h.hasField_eq hn]
  rw [hsuits, hkey]

namespace Scope

variable {s : Scope} {n n' : Node} {declared : String} {t : TypeSpec}

/-- The arguments are alike. -/
theorem agree_arguments (h : n.Reordered n') (hn : n.HasDistinctKeys) (c : Constructor) :
    Fresh.Agree (Arguments.Like Node.Like) (s.arguments n c) (s.arguments n' c) := by
  refine Fresh.agree_mapM (R := Eq) (List.forall₂_refl _) fun p p' hp => ?_
  obtain rfl := hp
  refine Fresh.agree_bind ?_ fun v w hvw => Fresh.agree_pure ⟨rfl, hvw⟩
  have hfield := h.field?_rel hn p
  unfold given
  generalize n.field? p = o, n'.field? p = o' at hfield
  cases hfield with
  | some hc =>
    have hsame : Option.Rel Node.Like s.application s.application := by
      cases s.application with
      | none => exact .none
      | some a => exact .some (.refl a)
    exact agree_convert hsame (fun _ _ => id) hc p.type
  | none =>
    rw [show n.path = n'.path by rw [Node.path, Node.path, h.segments]]
    exact Fresh.agree_lift (.refl Value.Like.refl _)

/-- **Object sections pick the best constructor and bind it faithfully.**  If no constructor of the
type suits the section, this is the error; otherwise the first of those that suit best makes the
object, and the object holds, for each parameter in order, what its field is converted to, or what
is injected or the default.  For a place with a name, this error arises there only if no constructor
suits.  A field has the name of its parameter in whatever case, and is not the entry that names the
type.  In whatever order the fields come, type, constructor and arguments are the same. -/
theorem convert_object (hform : n.form = .ok .structured) (ht : s.objectType n declared = .ok t) :
    ((∀ c ∈ t.constructors, ¬ c.Suits n) ∧ s.convert n (.object declared) =
        throw (.noMatchingConstructor t.fullName (n.fields.map Node.key) n.path) ∨
      ∃ c, FirstBest (Constructor.Suits n) (Constructor.key n) t.constructors c ∧
        s.convert n (.object declared) = s.constructed n t c ∧
        ∀ k v m, Fresh.Yields (s.convert n (.object declared)) k v m → ∃ args identity,
          s.AreSupplied n.path n.field? c.parameters args ∧
            v = .object t.fullName identity c.label (some args)) ∧
    (n.segments ≠ [] → ∀ k,
      (∃ type keys, (s.convert n (.object declared)).run k =
        .error (.noMatchingConstructor type keys n.path)) ↔
        ∀ c ∈ t.constructors, ¬ c.Suits n) ∧
    (∀ p c, n.field? p = some c → c ∈ n.children ∧ Text.alike c.key p.name = true ∧
      ¬ Text.alike c.key typeKey = true) ∧
    ∀ entries n', n.tree = .ofEntries entries → n.Reordered n' →
      n'.form = .ok .structured ∧ s.objectType n' declared = .ok t ∧
      ∀ c, (FirstBest (Constructor.Suits n') (Constructor.key n') t.constructors c ↔
          FirstBest (Constructor.Suits n) (Constructor.key n) t.constructors c) ∧
        Fresh.Agree (Arguments.Like Node.Like) (s.arguments n c) (s.arguments n' c) := by
  have hconvert := convert_eq_constructed hform ht
  refine ⟨hconvert.imp_right ?_, fun hn k => ⟨?_, fun hnone => ?_⟩, fun p c => Node.of_field?, ?_⟩
  · rintro ⟨c, hbest, hobject⟩
    refine ⟨c, hbest, hobject, fun k v m hv => ?_⟩
    rw [hobject] at hv
    exact eq_object_of_constructed hbest.holds hv
  · rintro ⟨type, keys, herror⟩
    rcases hconvert with ⟨hnone, -⟩ | ⟨c, -, hobject⟩
    · exact hnone
    · rw [hobject] at herror
      exact absurd rfl ((ends_constructed hn t c k).of_error _ herror type keys)
  · rcases hconvert with ⟨-, hobject⟩ | ⟨c, hbest, -⟩
    · exact ⟨_, _, by rw [hobject]; rfl⟩
    · exact absurd hbest.holds (hnone c hbest.mem)
  · intro entries n' hentries hreordered
    have hn := Node.hasDistinctKeys_of_ofEntries hentries
    refine ⟨by rw [← hreordered.form_eq, hform], ?_, fun c => ⟨?_, ?_⟩⟩
    · rw [← ht]
      refine (objectType_eq (a := s.application) (hreordered.child_typeKey hn) ?_ declared).symm
      rw [Node.path, Node.path, hreordered.segments]
    · exact Constructor.firstBest_of_reordered hreordered hn _ c
    · exact agree_arguments hreordered hn c

end Scope

/-! ## A theme with its fields in another order -/

namespace Sample

/-- The section of a theme with its entries the other way round. -/
def reorderedSection : Node :=
  .ofPath (.ofEntries [⟨"Theme:ACCENT", some "red"⟩, ⟨"Theme:$type", some "Sample.ConsoleTheme"⟩])
    "Theme"

/-- The type of the theme. -/
def consoleTheme : TypeSpec :=
  { TypeSpec.of "Sample.ConsoleTheme" [theme] themeConstructors [] with
    package := "Sample.Console" }

/-- The constructor that takes an accent. -/
def accentConstructor : Constructor :=
  { Constructor.of "custom" [.optional "name" .string .null, .required "accent" .string] with
    demands := [.string "accent"] }

theorem firstBest_accent :
    FirstBest (Constructor.Suits themeSection) (Constructor.key themeSection)
      consoleTheme.constructors accentConstructor := by
  refine .head ⟨rfl, by decide +kernel⟩ fun c hc _ => ?_
  obtain rfl := List.mem_singleton.1 hc
  change toLex (0, 0) ≤ toLex (1, 1)
  exact Prod.Lex.toLex_le_toLex.2 (.inl (by decide))

/-- The theme of a section is made by the constructor that takes its accent, whatever the order of
its entries is; the entry that names the type is no field. -/
theorem convert_object_theme :
    scope.objectType themeSection theme = .ok consoleTheme ∧
      scope.convert themeSection (.object theme) =
        scope.constructed themeSection consoleTheme accentConstructor ∧
      scope.objectType reorderedSection theme = .ok consoleTheme ∧
      FirstBest (Constructor.Suits reorderedSection) (Constructor.key reorderedSection)
        consoleTheme.constructors accentConstructor ∧
      Fresh.Agree (Arguments.Like Node.Like) (scope.arguments themeSection accentConstructor)
        (scope.arguments reorderedSection accentConstructor) ∧
      ∀ p, themeSection.field? p ≠ some (themeSection.below "$type") := by
  have ht : scope.objectType themeSection theme = .ok consoleTheme := by with_unfolding_all rfl
  have hreordered : themeSection.Reordered reorderedSection := ⟨rfl, rfl, .swap ..⟩
  obtain ⟨hobject, -, hfield, horder⟩ := Scope.convert_object rfl ht
  obtain ⟨-, htype, hsame⟩ := horder _ reorderedSection rfl hreordered
  obtain ⟨hbest, harguments⟩ := hsame accentConstructor
  refine ⟨ht, ?_, htype, hbest.2 firstBest_accent, harguments, fun p hp => ?_⟩
  · rcases hobject with ⟨hnone, -⟩ | ⟨c, hc, hobject, -⟩
    · exact absurd firstBest_accent.holds (hnone _ firstBest_accent.mem)
    · rw [hobject, hc.unique firstBest_accent]
  · exact (hfield p _ hp).2.2 (by decide +kernel)

end Sample

end LogBinder
