/-
  Log binder — the callbacks of a section.

  Which callbacks a section hands to builders, and how many switches it
  watches, is read off the configuration and the catalog:

  * `Binder.callbacks` : the sections that the callbacks of a plan configure;
  * `Node.watches` : the number of switches that a plan watches;
  * `Binder.subscriptions` : the number of subscriptions that come from a
    section when every callback is run once.
-/
import LogBinder.Binding.Application
import LogBinder.Proofs.Binding.Yields
import Mathlib.Algebra.GroupWithZero.Nat

namespace LogBinder

/-! ## Callbacks -/

/-- The kind of the callbacks that a type stands for. -/
def TypeRef.callback? : TypeRef → Option CallbackKind
  | .callback kind => some kind
  | .nullable inner => callback? inner
  | _ => none

/-- What a callback configures: the section that a node is, for a type of callbacks. -/
def Node.callback? (n : Node) (t : TypeRef) : Option (CallbackKind × Node) :=
  match n.form with
  | .ok .structured => t.callback?.map fun kind => (kind, n)
  | _ => none

theorem Node.callback?_of_isImplicit {n : Node} {t : TypeRef} (h : t.isImplicit = true) :
    n.callback? t = none := by
  have hnone : t.callback? = none := by
    cases t <;> simp_all [TypeRef.isImplicit, TypeRef.callback?]
  rw [callback?, hnone]
  split <;> rfl

/-- What the callbacks among the arguments of a method configure. -/
def Directive.callbacks (d : Directive) (m : Method) : List (CallbackKind × Node) :=
  m.parameters.flatMap fun p => ((d.argument? p.name).bind fun n => n.callback? p.type).toList

namespace Binder

/-- What the callbacks of a directive configure. -/
def directiveCallbacks (b : Binder) (capability : Capability) (d : Directive) :
    List (CallbackKind × Node) :=
  match Overload.select
      (b.catalog.candidates capability b.selection b.options.allowInternalMethods)
      d.name capability d.supplied with
  | some m => d.callbacks m
  | none => []

/-- What the callbacks of a section of directives configure. -/
def sectionCallbacks (b : Binder) (capability : Capability) (n : Node) :
    List (CallbackKind × Node) :=
  if n.isPresent then
    match Directive.ofSection n with
    | .ok directives => directives.flatMap (b.directiveCallbacks capability)
    | .error _ => []
  else []

/-- The extension points in the order in which a plan reads them. -/
def phases : List Capability := [.enrich, .filter, .destructure, .sink, .auditSink]

/-- What the callbacks configure that a callback of a kind hands on. -/
def callbacks (b : Binder) (kind : CallbackKind) (n : Node) : List (CallbackKind × Node) :=
  match kind, kind.capability with
  | .logger, _ => phases.flatMap fun c => b.sectionCallbacks c (n.child c.sectionName)
  | _, some c => b.sectionCallbacks c n
  | _, none => []

end Binder

/-! ## Nesting ends -/

theorem Tree.height_le_of_descend {t u : Tree} {keys : List String}
    (h : t.descend keys = some u) : u.height ≤ t.height := by
  induction keys generalizing t with
  | nil =>
    cases h
    exact Nat.le_refl _
  | cons key rest ih =>
    rw [descend] at h
    split at h
    · next c hc => exact Nat.le_trans (ih h) (Nat.le_of_lt (height_lt_of_child? hc))
    · cases h

theorem Node.height_child_le (n : Node) (path : String) : (n.child path).height ≤ n.height := by
  have hlocated : (n.child path).located =
      n.located.bind fun t => t.descend (Tree.segments path) := Tree.descend_append ..
  rw [height, height, hlocated]
  cases n.located with
  | none => exact Nat.le_refl _
  | some t =>
    rw [Option.bind_some]
    cases hu : t.descend (Tree.segments path) with
    | none => exact Nat.zero_le _
    | some u => exact Nat.succ_le_succ (Tree.height_le_of_descend hu)

theorem Directive.height_lt_of_mem_arguments {n : Node} {d : Directive} {a : String × Node}
    (h : ofNode n = .ok d) (ha : a ∈ d.arguments) : a.2.height < n.height := by
  rw [ofNode] at h
  obtain ⟨shape, -, h⟩ := Except.bind_eq_ok.1 h
  cases shape with
  | scalar name =>
    cases h
    cases ha
  | structured =>
    obtain ⟨name, -, h⟩ := Except.bind_eq_ok.1 h
    obtain ⟨arguments, harguments, h⟩ := Except.bind_eq_ok.1 h
    cases h
    rw [argumentsOf] at harguments
    split at harguments
    · obtain ⟨shape, -, harguments⟩ := Except.bind_eq_ok.1 harguments
      cases shape with
      | scalar text => cases harguments
      | structured =>
        cases harguments
        obtain ⟨c, hc, rfl⟩ := List.mem_map.1 ha
        exact Nat.lt_of_lt_of_le (Node.height_lt_of_mem_children hc) (Node.height_child_le n _)
    · cases harguments
      cases ha

theorem Directive.exists_of_mem_ofSection {n : Node} {ds : List Directive} {d : Directive}
    (h : ofSection n = .ok ds) (hd : d ∈ ds) : ∃ e ∈ n.children, ofNode e = .ok d := by
  obtain ⟨es, hes, h⟩ := Except.bind_eq_ok.1 h
  obtain ⟨shape, -, hes⟩ := Except.bind_eq_ok.1 hes
  cases hes
  exact exists_of_forall₂ (Except.forall₂_of_mapM h) hd

theorem Node.callback?_eq_some {n : Node} {t : TypeRef} {c : CallbackKind × Node}
    (h : n.callback? t = some c) : c.2 = n := by
  rw [callback?] at h
  split at h
  · obtain ⟨k, -, he⟩ := Option.map_eq_some_iff.1 h
    cases he
    rfl
  · cases h

namespace Binder

variable {b : Binder}

theorem height_lt_of_mem_sectionCallbacks {capability : Capability} {n : Node}
    {c : CallbackKind × Node} (h : c ∈ b.sectionCallbacks capability n) :
    c.2.height < n.height := by
  rw [sectionCallbacks] at h
  split at h
  · split at h
    · next directives hd =>
      obtain ⟨d, hmem, hc⟩ := List.mem_flatMap.1 h
      obtain ⟨e, he, hd⟩ := Directive.exists_of_mem_ofSection hd hmem
      rw [directiveCallbacks] at hc
      split at hc
      · obtain ⟨p, -, hp⟩ := List.mem_flatMap.1 hc
        obtain ⟨a, ha, hp⟩ := Option.bind_eq_some_iff.1 (Option.mem_toList.1 hp)
        obtain ⟨before, after, ha, -⟩ := List.lookup_eq_some_iff.1 ha
        rw [Node.callback?_eq_some hp]
        refine Nat.lt_trans ?_ (Node.height_lt_of_mem_children he)
        exact Directive.height_lt_of_mem_arguments (a := (p.name, a)) hd (by simp [ha])
      · cases hc
    · cases h
  · cases h

/-- What the callbacks of a section configure is lower than the section. -/
theorem height_lt_of_mem_callbacks {kind : CallbackKind} {n : Node} {c : CallbackKind × Node}
    (h : c ∈ b.callbacks kind n) : c.2.height < n.height := by
  cases kind with
  | logger =>
    obtain ⟨capability, -, hc⟩ := List.mem_flatMap.1 h
    exact Nat.lt_of_lt_of_le (height_lt_of_mem_sectionCallbacks hc) (Node.height_child_le n _)
  | other name => cases h
  | _ => exact height_lt_of_mem_sectionCallbacks h

end Binder

/-! ## Subscriptions -/

/-- Whether a place holds a literal level, to be watched: 1 if so, else 0. -/
def LevelText.watches (n : Node) : Nat :=
  match ofNode n with
  | .ok text => if text.isEmpty || text.startsWith "$" then 0 else 1
  | .error _ => 0

/-- The number of literal levels among the minimum levels. -/
def MinimumLevel.watches (n : Node) : Nat :=
  match n.form with
  | .ok (.scalar _) => LevelText.watches n
  | _ =>
    (if (n.child defaultKey).isPresent then LevelText.watches (n.child defaultKey) else 0) +
      ((n.child overrideKey).children.map LevelText.watches).sum

/-- The number of switches that the plan of a section watches: those it declares, and those made
for literal minimum levels. -/
def Node.watches (n : Node) : Nat :=
  (n.child (SwitchKind.sectionName .level)).children.length +
    (n.child (SwitchKind.sectionName .filter)).children.length +
    if (n.child MinimumLevel.sectionName).isPresent then
      MinimumLevel.watches (n.child MinimumLevel.sectionName)
    else 0

namespace Binder

variable {b : Binder}

/-- The number of subscriptions that configuring a section makes, if every callback is run once:
a sub-logger follows its own switches, and all callbacks follow those of the callbacks they hand
on. -/
def subscriptions (b : Binder) (kind : CallbackKind) (n : Node) : Nat :=
  (if kind = .logger then n.watches else 0) +
    ((b.callbacks kind n).attach.map fun c => b.subscriptions c.1.1 c.1.2).sum
termination_by n.height
decreasing_by exact height_lt_of_mem_callbacks c.2

/-- The number of those that the callbacks handed on make. -/
def nestedSubscriptions (b : Binder) (kind : CallbackKind) (n : Node) : Nat :=
  ((b.callbacks kind n).map fun c => b.subscriptions c.1 c.2).sum

theorem subscriptions_eq (kind : CallbackKind) (n : Node) :
    b.subscriptions kind n =
      (if kind = .logger then n.watches else 0) + b.nestedSubscriptions kind n := by
  rw [subscriptions, nestedSubscriptions]
  congr 2
  exact List.attach_map_val (f := fun c : CallbackKind × Node => b.subscriptions c.1 c.2)

end Binder

end LogBinder
