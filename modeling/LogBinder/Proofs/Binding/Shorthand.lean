/-
  Log binder — directives written short or in full.

  A directive without arguments is written as a scalar, its name, or in full:
  as a section with the name and no arguments, or an empty section of them.

  * `Tree.Spells`, `Tree.Expands` : an entry in full, for a scalar or as it is;
  * `Node.ExpandsBelow` : a section of which some entries are written in full;
  * `Binder.directives_of_expands` : the directives of both sections are
    alike, and so is what becomes of them.
-/
import LogBinder.Proofs.Binding.Faults
import LogBinder.Proofs.Binding.Phases

namespace LogBinder

/-! ## Entries in full -/

/-- A section spells out a directive without arguments: it has its name, and no arguments or an
empty section of them. -/
structure Tree.Spells (t : Tree) (text : String) : Prop where
  value : t.value = none
  name : ∃ key, t.child? Directive.nameKey = some ⟨key, some text, []⟩
  arguments : ∀ a ∈ t.child? Directive.argumentsKey, a.value = none ∧ a.children = []

/-- An entry stays as it is, or a scalar that is a name is written in full. -/
inductive Tree.Expands : Tree → Tree → Prop
  | kept (t : Tree) : Expands t t
  | spelled {t : Tree} {key text : String} (hkey : t.key = key) (hname : Text.trim text ≠ "")
      (h : t.Spells text) : Expands ⟨key, some text, []⟩ t

theorem Tree.Expands.key_eq {t t' : Tree} (h : t.Expands t') : t.key = t'.key := by
  cases h with
  | kept => rfl
  | spelled hkey => exact hkey.symm

/-- The first entries of a key are both as they are, or one is written in full. -/
theorem Tree.find?_expands {ts ts' : List Tree} (h : List.Forall₂ Expands ts ts') (key : String) :
    Option.Rel Expands (ts.find? fun t => Text.alike t.key key)
      (ts'.find? fun t => Text.alike t.key key) := by
  induction h with
  | nil => exact .none
  | cons ht _ ih =>
    rw [List.find?_cons, List.find?_cons, ht.key_eq]
    split
    · exact .some ht
    · exact ih

namespace Node

/-- Two places of the same keys hold an entry as it is, or in full. -/
structure Expands (n n' : Node) : Prop where
  segments : n.segments = n'.segments
  located : Option.Rel Tree.Expands n.located n'.located

/-- Two sections of the same keys have the same entries, of which some that are scalars in the first
one are written in full in the second one. -/
structure ExpandsBelow (n n' : Node) : Prop where
  segments : n.segments = n'.segments
  located : Option.Rel (fun t t' => t.value = t'.value ∧
    List.Forall₂ Tree.Expands t.children t'.children) n.located n'.located

variable {n n' : Node} {key text : String}

theorem form_of_scalar (h : n.located = some ⟨key, some text, []⟩) :
    n.form = .ok (.scalar text) := by
  simp [form, shape, value, hasChildren, subtrees, h, Except.mapError]

theorem form_of_value (h : n.value = none) : n.form = .ok .structured := by
  simp [form, shape, h, Except.mapError]

namespace ExpandsBelow

variable (h : n.ExpandsBelow n')
include h

theorem path_eq : n.path = n'.path := by rw [path, path, h.segments]

theorem isPresent_eq : n.isPresent = n'.isPresent := by
  have hlocated := h.located
  rw [isPresent, isPresent]
  generalize n.located = o, n'.located = o' at hlocated
  cases hlocated <;> rfl

theorem value_eq : n.value = n'.value := by
  have hlocated := h.located
  rw [value, value]
  generalize n.located = o, n'.located = o' at hlocated
  cases hlocated with
  | none => rfl
  | some ht => exact ht.1

theorem subtrees : List.Forall₂ Tree.Expands n.subtrees n'.subtrees := by
  have hlocated := h.located
  rw [Node.subtrees, Node.subtrees]
  generalize n.located = o, n'.located = o' at hlocated
  cases hlocated with
  | none => exact .nil
  | some ht => exact ht.2

theorem form_eq : n.form = n'.form := by
  have hempty : n.hasChildren = n'.hasChildren := by
    have hsubtrees := h.subtrees
    rw [hasChildren, hasChildren]
    generalize n.subtrees = ts, n'.subtrees = ts' at hsubtrees
    cases hsubtrees <;> rfl
  rw [form, form, shape, shape, h.value_eq, hempty, h.path_eq]

theorem below (key : String) : (n.below key).Expands (n'.below key) where
  segments := by rw [Node.below, Node.below, h.segments]
  located := by
    have hlocated := h.located
    rw [located_below, located_below]
    generalize n.located = o, n'.located = o' at hlocated
    cases hlocated with
    | none => exact .none
    | some ht => exact Tree.find?_expands ht.2 key

theorem children : List.Forall₂ Expands n.children n'.children := by
  rw [Node.children, Node.children, List.forall₂_map_left_iff, List.forall₂_map_right_iff]
  refine h.subtrees.imp fun t t' ht => ?_
  rw [ht.key_eq]
  exact h.below t'.key

end ExpandsBelow

end Node

/-! ## Directives -/

namespace Directive

variable {n n' : Node}

/-- A directive in full has no arguments. -/
theorem ofNode_of_spells {t : Tree} {text : String} (hlocated : n.located = some t)
    (hname : Text.trim text ≠ "") (h : t.Spells text) :
    ofNode n = .ok ⟨Text.trim text, n.path, []⟩ := by
  have hform : n.form = .ok .structured := by
    refine Node.form_of_value ?_
    rw [Node.value, hlocated, Option.bind_some, h.value]
  have hnameOf : nameOf n = .ok (Text.trim text) := by
    obtain ⟨key, hkey⟩ := h.name
    have hchild : (n.child nameKey).located = some ⟨key, some text, []⟩ := by
      rw [n.child_eq_below rfl, Node.located_below, hlocated, Option.bind_some, hkey]
    rw [nameOf, Node.form_of_scalar hchild]
    simp [bind, Except.bind, pure, Except.pure, hname]
  have hargumentsOf : argumentsOf n = .ok [] := by
    have hchild : (n.child argumentsKey).located = t.child? argumentsKey := by
      rw [n.child_eq_below rfl, Node.located_below, hlocated, Option.bind_some]
    cases ha : t.child? argumentsKey with
    | none =>
      rw [ha] at hchild
      simp [argumentsOf, Node.isPresent, hchild, pure, Except.pure]
    | some a =>
      obtain ⟨hvalue, hchildren⟩ := h.arguments a ha
      rw [ha] at hchild
      have hform : (n.child argumentsKey).form = .ok .structured := by
        refine Node.form_of_value ?_
        rw [Node.value, hchild, Option.bind_some, hvalue]
      simp [argumentsOf, Node.isPresent, Node.children, Node.subtrees, hform, hchild, hchildren,
        bind, Except.bind, pure, Except.pure]
  rw [ofNode, hform, hnameOf, hargumentsOf]
  rfl

/-- An entry in full holds the directive that the scalar holds. -/
theorem agree_ofNode_of_expands (h : n.Expands n') :
    Except.Agree Like (ofNode n) (ofNode n') := by
  obtain ⟨hsegments, hlocated⟩ := h
  generalize ho : n.located = o, ho' : n'.located = o' at hlocated
  cases hlocated with
  | none => exact agree_ofNode ⟨hsegments, ho.trans ho'.symm⟩
  | some ht =>
    cases ht with
    | kept => exact agree_ofNode ⟨hsegments, ho.trans ho'.symm⟩
    | spelled _ hname h =>
      have hpath : n.path = n'.path := by rw [Node.path, Node.path, hsegments]
      rw [ofNode_of_spells ho' hname h, ofNode, Node.form_of_scalar ho, hpath]
      exact .ok ⟨rfl, rfl, .nil⟩

/-- Sections with entries in full hold directives that are alike, or are malformed alike. -/
theorem agree_ofSection_of_expands (h : n.ExpandsBelow n') :
    Except.Agree (List.Forall₂ Like) (ofSection n) (ofSection n') := by
  have hentries : Except.Agree (List.Forall₂ Node.Expands) (entries n) (entries n') := by
    rw [entries, entries, h.form_eq]
    exact .bind_same _ fun _ => .ok h.children
  exact hentries.bind fun _ _ hes => .mapM hes fun _ _ he => agree_ofNode_of_expands he

end Directive

theorem Node.likeOr_self (top : Node) : LikeOr top top = Like := by
  funext c c'
  refine propext ⟨?_, .inl⟩
  rintro (h | ⟨rfl, rfl⟩)
  · exact h
  · exact .refl _

/-- **Directives may be written short or in full**: a section and one with some of its entries in
full hold directives that are alike, or are malformed alike.  So the calls are alike, with the same
errors and diagnostics, in the same session and in twin sessions, where the configuration itself is
the other one. -/
theorem Binder.directives_of_expands {n n' : Node} (h : n.ExpandsBelow n') :
    Except.Agree (List.Forall₂ Directive.Like) (Directive.ofSection n) (Directive.ofSection n') ∧
      (∀ (b : Binder) (capability : Capability) (s : Session),
        Except.Agree (List.Forall₂ (Step.Like Node.Like)) (b.directives capability n s).1
            (b.directives capability n' s).1 ∧
          (b.directives capability n s).2.diagnostics =
            (b.directives capability n' s).2.diagnostics) ∧
      ∀ (b : Binder) (capability : Capability) (top top' : Node),
        Run.Agree top top' (List.Forall₂ (Step.Like (Node.LikeOr top top')))
          (b.directives capability n) (b.directives capability n') := by
  have hsection := Directive.agree_ofSection_of_expands h
  refine ⟨hsection, fun b capability s => ?_, fun b capability top top' => ?_⟩
  · have hself : s.Twins s.root.top s.root.top s := ⟨rfl, rfl, rfl, rfl, rfl, rfl, rfl⟩
    obtain ⟨hsteps, htwins⟩ := agree_directives capability h.isPresent_eq hsection s s hself
    rw [Node.likeOr_self] at hsteps
    exact ⟨hsteps, htwins.diagnostics⟩
  · exact agree_directives capability h.isPresent_eq hsection

namespace Sample

/-- A sink by its name, one in full with an argument, and another one by its name. -/
def shortRoot : Root Watcher := listedRoot
  [⟨"WriteTo:0", some "Console"⟩, ⟨"WriteTo:1:Name", some "File"⟩,
    ⟨"WriteTo:1:Args:path", some "a.log"⟩, ⟨"WriteTo:2", some " Missing "⟩]

/-- The same sinks in full. -/
def fullRoot : Root Watcher := listedRoot
  [⟨"WriteTo:0:Name", some "Console"⟩, ⟨"WriteTo:1:Name", some "File"⟩,
    ⟨"WriteTo:1:Args:path", some "a.log"⟩, ⟨"WriteTo:2:ARGS", none⟩,
    ⟨"WriteTo:2:name", some " Missing "⟩]

/-- Of the three sinks two are found. -/
theorem directives_of_expands_sinks :
    let n := shortRoot.node "WriteTo"
    let n' := fullRoot.node "WriteTo"
    let s := Session.start ⟨[], []⟩ shortRoot
    n.ExpandsBelow n' ∧
      (match (themedBinder.directives .sink n s).1 with
        | .ok steps => steps.length
        | .error _ => 0) = 2 ∧
      Except.Agree (List.Forall₂ (Step.Like Node.Like)) (themedBinder.directives .sink n s).1
        (themedBinder.directives .sink n' s).1 := by
  intro n n' s
  have hlocated : n.located = some ⟨"WriteTo", none, [⟨"0", some "Console", []⟩,
      ⟨"1", none, [⟨"Name", some "File", []⟩, ⟨"Args", none, [⟨"path", some "a.log", []⟩]⟩]⟩,
      ⟨"2", some " Missing ", []⟩]⟩ := by decide +kernel
  have hlocated' : n'.located = some ⟨"WriteTo", none, [⟨"0", none, [⟨"Name", some "Console", []⟩]⟩,
      ⟨"1", none, [⟨"Name", some "File", []⟩, ⟨"Args", none, [⟨"path", some "a.log", []⟩]⟩]⟩,
      ⟨"2", none, [⟨"ARGS", none, []⟩, ⟨"name", some " Missing ", []⟩]⟩]⟩ := by decide +kernel
  have hconsole : Tree.Expands ⟨"0", some "Console", []⟩
      ⟨"0", none, [⟨"Name", some "Console", []⟩]⟩ :=
    .spelled rfl (by decide +kernel) ⟨rfl, ⟨"Name", by decide +kernel⟩, by decide +kernel⟩
  have hmissing : Tree.Expands ⟨"2", some " Missing ", []⟩
      ⟨"2", none, [⟨"ARGS", none, []⟩, ⟨"name", some " Missing ", []⟩]⟩ :=
    .spelled rfl (by decide +kernel) ⟨rfl, ⟨"name", by decide +kernel⟩, by decide +kernel⟩
  have hexpands : n.ExpandsBelow n' := by
    refine ⟨rfl, ?_⟩
    rw [hlocated, hlocated']
    exact .some ⟨rfl, .cons hconsole (.cons (.kept _) (.cons hmissing .nil))⟩
  exact ⟨hexpands, by decide +kernel, ((Binder.directives_of_expands hexpands).2.1 _ _ s).1⟩

end Sample

end LogBinder
