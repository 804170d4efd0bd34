/-
  Log binder — where errors point.

  An error of binding carries the path of a place.  For a conversion this is
  the place that is converted or one below it; for a plan it is a place that
  exists, at or below one of the sections that plans read.

  * `ResolveError.PointsAt` : an error at a node or below;
  * `Binder.ends_plan` : which section an error of a plan points into;
  * `Binder.points_of_error` : the two statements, by paths.
-/
import LogBinder.Proofs.Binding.Drafting
import LogBinder.Proofs.Binding.Preserved
import LogBinder.Proofs.Binding.Receivers
import LogBinder.Proofs.Config.Paths

namespace LogBinder

open Ending Run

/-! ## Places of errors -/

namespace Node

variable {a c n : Node}

theorem IsWithin.trans_isWithin (h : c.IsWithin a) (h' : a.IsWithin n) : c.IsWithin n := by
  rcases h' with rfl | h'
  · exact h
  · exact .inr (h.trans_isBelow h')

theorem IsWithin.isPresent (h : c.IsWithin n) (hn : n.isPresent = true) : c.isPresent = true := by
  rcases h with rfl | h
  · exact hn
  · exact IsBelow.isPresent h

theorem IsWithin.tree_eq (h : c.IsWithin n) : c.tree = n.tree := by
  rcases h with rfl | h
  · rfl
  · exact h.tree

theorem IsWithin.exists_segments (h : c.IsWithin n) : ∃ keys, c.segments = n.segments ++ keys := by
  rcases h with rfl | h
  · exact ⟨[], (List.append_nil _).symm⟩
  · obtain ⟨keys, -, hkeys⟩ := h.segments
    exact ⟨keys, hkeys⟩

theorem isWithin_of_mem_children (h : c ∈ n.children) : c.IsWithin n :=
  .inr (isBelow_of_mem_children h)

theorem isPresent_of_mem_children (h : c ∈ n.children) : c.isPresent = true :=
  (isBelow_of_mem_children h).isPresent

/-- A named entry of a node that exists stands below the node. -/
theorem isBelow_child {path : String} (hne : path ≠ "") (h : (n.child path).isPresent = true) :
    (n.child path).IsBelow n := by
  refine ⟨rfl, ⟨Tree.segments path, ?_, rfl⟩, h⟩
  rw [Tree.segments, if_neg (by simpa using hne), Text.split, ne_eq, List.map_eq_nil_iff]
  exact Text.pieces_ne_nil ':' path.toList

end Node

namespace ResolveError

/-- An error carries the path of a node or of a place below it. -/
def PointsAt (e : ResolveError) (n : Node) : Prop :=
  ∃ c : Node, c.IsWithin n ∧ e.path? = some c.path

/-- An error carries the path of a place that exists, at a node or below it. -/
def PointsInto (e : ResolveError) (n : Node) : Prop :=
  ∃ c : Node, c.IsWithin n ∧ c.isPresent = true ∧ e.path? = some c.path

variable {e : ResolveError} {c n : Node}

theorem pointsAt_self (h : e.path? = some n.path) : e.PointsAt n := ⟨n, .inl rfl, h⟩

theorem PointsAt.up (h : e.PointsAt c) (hc : c.IsWithin n) : e.PointsAt n := by
  obtain ⟨a, ha, hpath⟩ := h
  exact ⟨a, ha.trans_isWithin hc, hpath⟩

theorem PointsAt.into (h : e.PointsAt c) (hc : c.IsWithin n) (hpresent : c.isPresent = true) :
    e.PointsInto n := by
  obtain ⟨a, ha, hpath⟩ := h
  exact ⟨a, ha.trans_isWithin hc, ha.isPresent hpresent, hpath⟩

theorem PointsInto.of_child {path : String} (hne : path ≠ "")
    (h : e.PointsInto (n.child path)) : e.PointsInto n := by
  obtain ⟨c, hc, hpresent, hpath⟩ := h
  refine ⟨c, .inr ?_, hpresent, hpath⟩
  rcases hc with rfl | hc
  · exact Node.isBelow_child hne hpresent
  · exact hc.of_child

end ResolveError

open ResolveError (PointsAt PointsInto pointsAt_self)

/-- Errors of conversions point at the node that is converted. -/
theorem Scope.keeps_pointsAt (s : Scope) :
    s.Keeps (fun _ _ => True) fun n e => e.PointsAt n where
  takes _ :=
    ⟨fun _ _ => trivial, fun _ _ => trivial, fun _ _ _ _ => trivial, fun _ => pointsAt_self⟩
  own _ _ _ := trivial
  refers _ _ _ _ _ _ := trivial
  refersKey _ _ _ _ _ _ := trivial
  below _ _ _ _ _ := trivial
  failsBelow _ _ hc _ he := he.up (Node.isWithin_of_mem_children hc)
  failsType _ hpresent _ he :=
    (pointsAt_self he).up (.inr (Node.isBelow_child (by decide) hpresent))

/-! ## Levels -/

section Levels

variable {n : Node} {Q : ResolveError → Prop} (hq : ∀ e, e.path? = some n.path → Q e)
include hq

theorem LevelText.ends_ofNode : Ends (LevelText.ofNode n) (fun _ => True) Q := by
  refine ends_bind (n.ends_form fun _ => hq) fun shape _ => ?_
  cases shape with
  | scalar text => exact ends_ok trivial
  | structured => exact ends_error (hq _ rfl)

theorem LevelText.ends_read (text : String) :
    Ends (LevelText.read text n.path) (fun _ => True) Q := by
  unfold LevelText.read
  split
  · exact ends_ok trivial
  · exact ends_error (hq _ rfl)

theorem LevelText.ends_declared : Ends (LevelText.declared n) (fun _ => True) Q := by
  refine ends_bind (LevelText.ends_ofNode hq) fun text _ => ?_
  split
  · exact ends_ok trivial
  · exact LevelText.ends_read hq text

theorem Run.ends_levelPlan (label : String) (step : Nat → Step) :
    Ends (levelPlan n label step) (fun _ => True) Q := by
  refine ends_bind (R := fun _ => True) ?_ fun target _ => ?_
  · refine ends_bind (ends_lift (LevelText.ends_ofNode hq)) fun text _ => ?_
    split
    · exact ends_pure trivial
    · split
      · refine ends_bind ends_get fun s _ => ?_
        exact ends_bind (ends_lift (Scope.ends_cell hq s.registry .level text)) fun _ _ =>
          ends_pure trivial
      · refine ends_bind (ends_lift (LevelText.ends_read hq text)) fun l _ => ?_
        exact ends_bind ends_modifyGet fun _ _ => ends_pure trivial
  · split
    · exact ends_pure trivial
    · exact ends_pure trivial

theorem Run.ends_controlPlan : Ends (controlPlan n) (fun _ => True) Q := by
  refine ends_bind (ends_lift (LevelText.ends_ofNode hq)) fun text _ => ?_
  split
  · exact ends_pure trivial
  · refine ends_bind ends_get fun s _ => ?_
    exact ends_bind (ends_lift (Scope.ends_cell hq s.registry .level text)) fun _ _ =>
      ends_pure trivial

end Levels

/-! ## Sections -/

namespace Run

variable {n : Node}

theorem ends_entries (n : Node) :
    Ends (Directive.entries n) (fun es => es = n.children) (PointsInto · n) := by
  refine ends_bind (n.ends_form fun hn e he => ?_) fun _ _ => ends_ok rfl
  exact (pointsAt_self he).into (.inl rfl) hn

/-- Going through the entries of a section fails where one of them does. -/
theorem ends_mapEntries {m : Type → Type} [Monad m] [LawfulMonad m] [Ending m] {α : Type}
    {f : Node → m α} {P : α → Prop} (h : ∀ c ∈ n.children, Ends (f c) P (PointsAt · c)) :
    Ends (n.children.mapM f) (fun ys => ∀ y ∈ ys, P y) (PointsInto · n) := by
  refine ends_mapM fun c hc => ends_imp_error (h c hc) fun e he => ?_
  exact he.into (Node.isWithin_of_mem_children hc) (Node.isPresent_of_mem_children hc)

theorem ends_forEntries {α : Type} {f : Node → Run α}
    (h : ∀ c ∈ n.children, Ends (f c) (fun _ => True) (PointsAt · c)) :
    Ends ((liftM (Directive.entries n) : Run (List Node)) >>= fun es => es.mapM f)
      (fun _ => True) (PointsInto · n) := by
  refine ends_bind (ends_lift (ends_entries n)) ?_
  rintro _ rfl
  exact ends_imp (ends_mapEntries h) (fun _ _ => trivial) fun _ => id

theorem ends_declare {kind : SwitchKind} {name : String} {cell : Nat} :
    Ends (declare kind name cell n.path) (fun _ => True) (PointsAt · n) := by
  refine ends_bind (ends_lift (P := fun _ => True) ?_) fun canonical _ =>
    ends_bind ends_modify fun _ _ => ends_pure trivial
  rw [Registry.declaredName]
  split
  · exact ends_ok trivial
  · exact ends_error (pointsAt_self rfl)

theorem ends_declareSwitches (o : Options) (kind : SwitchKind) :
    Ends (declareSwitches o n kind) (fun _ => True) (PointsInto · (n.child kind.sectionName)) := by
  refine ends_forEntries fun c _ => ?_
  cases kind with
  | level =>
    refine ends_bind (ends_lift (LevelText.ends_declared fun _ => pointsAt_self)) fun l _ => ?_
    refine ends_bind (R := fun _ => True) ends_modifyGet fun cell _ => ?_
    exact ends_bind ends_declare fun _ _ => ends_pure trivial
  | filter =>
    refine ends_bind (ends_lift (P := fun _ => True) ?_) fun text _ => ?_
    · refine ends_bind (c.ends_form fun _ _ => pointsAt_self) fun shape _ => ?_
      cases shape with
      | structured => exact ends_error (pointsAt_self rfl)
      | scalar text =>
        dsimp only
        split
        · exact ends_error (pointsAt_self rfl)
        · exact ends_ok trivial
    · refine ends_bind (R := fun _ => True) ends_modifyGet fun cell _ => ?_
      exact ends_bind ends_declare fun _ _ => ends_pure trivial

theorem ends_properties :
    Ends (properties n) (fun _ => True) (PointsInto · (n.child propertiesName)) := by
  refine ends_forEntries fun c _ => ?_
  refine ends_bind (ends_lift (c.ends_form fun _ _ => pointsAt_self)) fun shape _ => ?_
  cases shape with
  | scalar text => exact ends_bind ends_get fun _ _ => ends_pure trivial
  | structured => exact ends_throw (pointsAt_self rfl)

/-- The plan of a place is read only if the place exists, and its errors point into it. -/
theorem ends_ifPresent {plan : Node → Run Plan} {Q : ResolveError → Prop}
    (h : n.isPresent = true → Ends (plan n) (fun _ => True) Q) :
    Ends (ifPresent n plan) (fun _ => True) Q := by
  rw [ifPresent]
  split
  · next hn => exact h hn
  · exact ends_pure trivial

theorem ends_minimumLevels :
    Ends (minimumLevels n) (fun _ => True)
      (PointsInto · (n.child MinimumLevel.sectionName)) := by
  refine ends_ifPresent fun hpresent => ?_
  have hself : ∀ e : ResolveError, e.path? = some (n.child MinimumLevel.sectionName).path →
      e.PointsInto (n.child MinimumLevel.sectionName) :=
    fun e he => (pointsAt_self he).into (.inl rfl) hpresent
  generalize n.child MinimumLevel.sectionName = m at hself
  have hchild : ∀ {key : String}, key ≠ "" → (m.child key).isPresent = true →
      ∀ e : ResolveError, e.path? = some (m.child key).path → e.PointsInto m :=
    fun hne hkey e he => (pointsAt_self he).into (.inr (Node.isBelow_child hne hkey)) hkey
  refine ends_bind (ends_lift (m.ends_form fun _ => hself)) fun shape _ => ?_
  cases shape with
  | scalar text => exact ends_levelPlan hself _ _
  | structured =>
    refine ends_bind (R := fun _ => True)
      (ends_ifPresent fun hkey => ends_levelPlan (hchild (by decide) hkey) _ _) fun _ _ => ?_
    refine ends_bind (R := fun _ => True)
      (ends_ifPresent fun hkey => ends_controlPlan (hchild (by decide) hkey)) fun _ _ => ?_
    have hoverrides : ∀ e : ResolveError, e.PointsInto (m.child MinimumLevel.overrideKey) →
        e.PointsInto m := fun e he => he.of_child (by decide)
    refine ends_bind (ends_imp_error (ends_lift (ends_entries _)) hoverrides) ?_
    rintro _ rfl
    refine ends_bind (ends_imp_error (ends_mapEntries (P := fun _ => True) fun c _ => ?_)
      hoverrides) fun _ _ => ends_pure trivial
    exact ends_levelPlan (fun _ => pointsAt_self) _ _

end Run

/-! ## Directives -/

namespace Directive

variable {n : Node}

theorem ends_nameOf : Ends (nameOf n) (fun _ => True) (PointsAt · n) := by
  refine ends_bind ((n.child nameKey).ends_form fun hname e he => ?_) fun shape _ => ?_
  · exact (pointsAt_self he).up (.inr (Node.isBelow_child (by decide) hname))
  · cases shape with
    | scalar name =>
      dsimp only
      split
      · exact ends_error (pointsAt_self rfl)
      · exact ends_ok trivial
    | structured => exact ends_error (pointsAt_self rfl)

theorem ends_argumentsOf : Ends (argumentsOf n) (fun _ => True) (PointsAt · n) := by
  unfold argumentsOf
  dsimp only
  split
  · next hargs =>
    have hq : ∀ e : ResolveError, e.path? = some (n.child argumentsKey).path → e.PointsAt n :=
      fun e he => (pointsAt_self he).up (.inr (Node.isBelow_child (by decide) hargs))
    refine ends_bind ((n.child argumentsKey).ends_form fun _ => hq) fun shape _ => ?_
    cases shape with
    | scalar text => exact ends_error (hq _ rfl)
    | structured => exact ends_ok trivial
  · exact ends_ok trivial

theorem path_of_ofNode {d : Directive} (h : ofNode n = .ok d) : d.path = n.path := by
  rw [ofNode] at h
  obtain ⟨shape, -, h⟩ := Except.bind_eq_ok.1 h
  cases shape with
  | scalar name =>
    cases h
    rfl
  | structured =>
    obtain ⟨name, -, h⟩ := Except.bind_eq_ok.1 h
    obtain ⟨args, -, h⟩ := Except.bind_eq_ok.1 h
    cases h
    rfl

theorem ends_ofNode : Ends (ofNode n) (fun d => ofNode n = .ok d) (PointsAt · n) := by
  have hends : Ends (ofNode n) (fun _ => True) (PointsAt · n) := by
    refine ends_bind (n.ends_form fun _ _ => pointsAt_self) fun shape _ => ?_
    cases shape with
    | scalar name => exact ends_ok trivial
    | structured =>
      refine ends_bind ends_nameOf fun name _ => ?_
      exact ends_bind ends_argumentsOf fun args _ => ends_ok trivial
  exact ⟨fun _ => id, hends.of_error⟩

theorem ends_ofSection :
    Ends (ofSection n) (fun ds => ∀ d ∈ ds, ∃ c ∈ n.children, ofNode c = .ok d)
      (PointsInto · n) := by
  refine ends_bind (ends_entries n) ?_
  rintro _ rfl
  exact ends_mapEntries fun c hc => ends_imp ends_ofNode (fun _ hd => ⟨c, hc, hd⟩) fun _ => id

end Directive

/-! ## Plans -/

/-- The names of the sections that plans read, in order. -/
def Binder.sectionNames : List String :=
  [SwitchKind.sectionName .level, SwitchKind.sectionName .filter, MinimumLevel.sectionName,
    Capability.sectionName .enrich, propertiesName, Capability.sectionName .filter,
    Capability.sectionName .destructure, Capability.sectionName .sink,
    Capability.sectionName .auditSink]

namespace Binder

variable {b : Binder} {n : Node}

theorem ends_directive {capability : Capability} {d : Directive}
    (hd : Directive.ofNode n = .ok d) :
    Ends (b.directive capability (b.candidates capability) d) (fun _ => True) (PointsAt · n) := by
  unfold directive
  split
  · next m hm =>
    refine ends_bind (R := fun _ => True) (ends_converted fun s => ?_) fun _ _ => ends_pure trivial
    have htakes : (b.scope s).Takes d.path (fun _ => True) (PointsAt · n) :=
      ⟨fun _ _ => trivial, fun _ _ => trivial, fun _ _ _ _ => trivial,
        fun _ he => pointsAt_self (Directive.path_of_ofNode hd ▸ he)⟩
    refine ends_imp ((b.scope s).keeps_pointsAt.ends_bindCall htakes (mem_methods_of_select hm)
      (fun _ _ _ _ => trivial) fun a ha e he => ?_) (fun _ _ => trivial) fun _ => id
    exact he.up (.inr (Directive.isBelow_of_mem_arguments hd ha))
  · exact ends_bind ends_modify fun _ _ => ends_pure trivial

theorem ends_directives (capability : Capability) :
    Ends (b.directives capability n) (fun _ => True) (PointsInto · n) := by
  unfold directives
  split
  · refine ends_bind (ends_lift Directive.ends_ofSection) fun ds hds => ?_
    refine ends_bind (ends_mapM (P := fun _ => True) fun d hd => ?_) fun _ _ => ends_pure trivial
    obtain ⟨c, hc, hd⟩ := hds d hd
    exact ends_imp_error (ends_directive hd) fun e he =>
      he.into (Node.isWithin_of_mem_children hc) (Node.isPresent_of_mem_children hc)
  · exact ends_pure trivial

/-- Errors of plans point into one of the sections that plans read. -/
theorem ends_plan (b : Binder) (n : Node) :
    Ends (b.plan n) (fun _ => True) fun e =>
      ∃ name ∈ sectionNames, e.PointsInto (n.child name) := by
  have stage : ∀ {α : Type} {m : Run α} {name : String}, name ∈ sectionNames →
      Ends m (fun _ => True) (PointsInto · (n.child name)) →
      Ends m (fun _ => True) fun e => ∃ name ∈ sectionNames, e.PointsInto (n.child name) :=
    fun hname h => ends_imp_error h fun e he => ⟨_, hname, he⟩
  refine ends_bind (stage (by decide) (ends_declareSwitches b.options .level)) fun _ _ => ?_
  refine ends_bind (stage (by decide) (ends_declareSwitches b.options .filter)) fun _ _ => ?_
  refine ends_bind (stage (by decide) ends_minimumLevels) fun _ _ => ?_
  refine ends_bind (stage (by decide) (ends_directives .enrich)) fun _ _ => ?_
  refine ends_bind (stage (by decide) ends_properties) fun _ _ => ?_
  refine ends_bind (stage (by decide) (ends_directives .filter)) fun _ _ => ?_
  refine ends_bind (stage (by decide) (ends_directives .destructure)) fun _ _ => ?_
  refine ends_bind (stage (by decide) (ends_directives .sink)) fun _ _ => ?_
  exact ends_bind (stage (by decide) (ends_directives .auditSink)) fun _ _ => ends_pure trivial

theorem segments_of_mem_sectionNames {name : String} (h : name ∈ sectionNames) :
    Tree.segments name = [name] ∧ name ≠ "" := by
  have hall : ∀ name ∈ sectionNames, Tree.segments name = [name] ∧ name ≠ "" := by decide
  exact hall name h

/-- **Errors point into the configuration.**  The path that an error of a conversion carries is that
of the node, possibly with more keys.  The path that an error of a plan carries leads to one of the
sections that plans read or goes on below it, and it names a place that exists in the tree that the
plan reads. -/
theorem points_of_error :
    (∀ (s : Scope) (n : Node) (t : TypeRef) (k : Nat) (e : ResolveError),
      (s.convert n t).run k = .error e →
      ∃ keys, e.path? = some (Entry.pathOf (n.segments ++ keys))) ∧
    ∀ (b : Binder) (n : Node) (entries : List Entry) (s : Session) (e : ResolveError),
      n.tree = .ofEntries entries → (b.plan n s).1 = .error e →
      ∃ name ∈ sectionNames, ∃ keys path, path = Entry.pathOf (n.segments ++ name :: keys) ∧
        e.path? = some path ∧ (Node.ofPath n.tree path).isPresent = true := by
  constructor
  · intro s n t k e he
    obtain ⟨c, hc, hpath⟩ := (s.keeps_pointsAt.ends_convert n t k).of_error e he
    obtain ⟨keys, hkeys⟩ := hc.exists_segments
    exact ⟨keys, by rw [hpath, Node.path, hkeys]⟩
  · intro b n entries s e ht he
    obtain ⟨name, hname, c, hc, hpresent, hpath⟩ := (b.ends_plan n s).of_error e he
    obtain ⟨keys, hkeys⟩ := hc.exists_segments
    obtain ⟨hsegments, hne⟩ := segments_of_mem_sectionNames hname
    rw [Node.child, hsegments, List.append_assoc, List.singleton_append] at hkeys
    refine ⟨name, hname, keys, c.path, by rw [Node.path, hkeys], hpath, ?_⟩
    -- The name of the section is not empty, so the path is not either.
    have htree : c.tree = n.tree := hc.tree_eq
    obtain ⟨u, hu⟩ := Option.isSome_iff_exists.1 hpresent
    rw [Node.located, htree, ht] at hu
    have hmem : name ∈ c.segments := by simp [hkeys]
    have hpathne : c.path ≠ "" := Entry.pathOf_ne_empty (Tree.not_mem_of_descend hu) hmem hne
    rw [← htree, Node.ofPath_path (htree.trans ht) hpresent hpathne]
    exact hpresent

end Binder

/-! ## A theme of an unknown type -/

namespace Sample

/-- A reader that knows the sample packages. -/
def themedBinder : Binder := ⟨.ofList packages, {}, .all, true⟩

/-- A sink whose theme is of a type that nobody registered. -/
def unknownRoot : Root Watcher := listedRoot
  [⟨"Logging:WriteTo:0:Name", some "Themed"⟩, ⟨"Logging:WriteTo:0:Args:theme:$type", some "Gone"⟩]

/-- The error of planning carries the path of the entry that names the type, which exists; so does
the error of converting the theme. -/
theorem points_of_error_unknown :
    (∃ e, (themedBinder.plan (unknownRoot.node "Logging") (.start ⟨[], []⟩ unknownRoot)).1 =
        .error e ∧ e.path? = some "Logging:WriteTo:0:Args:theme:$type" ∧
      ∃ name ∈ Binder.sectionNames, ∃ keys path,
        path = Entry.pathOf (["Logging"] ++ name :: keys) ∧ e.path? = some path ∧
        (Node.ofPath unknownRoot.tree path).isPresent = true) ∧
    ∃ e, (scope.convert (unknownRoot.node "Logging:WriteTo:0:Args:theme") (.object theme)).run 0 =
        .error e ∧
      ∃ keys, e.path? =
        some (Entry.pathOf (["Logging", "WriteTo", "0", "Args", "theme"] ++ keys)) := by
  obtain ⟨hconvert, hplan⟩ := Binder.points_of_error
  constructor
  · have hfails : (match (themedBinder.plan (unknownRoot.node "Logging")
        (.start ⟨[], []⟩ unknownRoot)).1 with
      | .ok _ => none
      | .error e => e.path?) = some "Logging:WriteTo:0:Args:theme:$type" := by decide +kernel
    split at hfails
    · cases hfails
    · next e he => exact ⟨e, he, hfails, hplan _ _ _ _ e rfl he⟩
  · have hfails : (match (scope.convert (unknownRoot.node "Logging:WriteTo:0:Args:theme")
        (.object theme)).run 0 with
      | .ok _ => false
      | .error _ => true) = true := by decide +kernel
    split at hfails
    · cases hfails
    · next e he => exact ⟨e, he, hconvert _ _ _ _ e he⟩

end Sample

end LogBinder
