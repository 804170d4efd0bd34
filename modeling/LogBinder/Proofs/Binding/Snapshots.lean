/-
  Log binder — which snapshots a plan reads.

  A reader keeps the section that it was made with, and with it the tree
  that was loaded then.  The configuration that is injected is the top of
  the tree that is loaded when the reader plans.  So the places that the
  arguments of a plan refer to lie in one of two trees.

  * `Value.Embeds` : a value refers to a place, itself or deep inside;
  * `Scope.keeps_sources` : the places in what a conversion gives;
  * `Reader.snapshots_of_plan` : the two trees, and when they are one.
-/
import LogBinder.Binding.Reader
import LogBinder.Proofs.Binding.Calls
import LogBinder.Proofs.Binding.Following
import LogBinder.Proofs.Binding.Preserved
import LogBinder.Proofs.Binding.Receivers

namespace LogBinder

open Ending
open Run (Returns)

/-! ## Places in values -/

/-- A value refers to a place, or a part of it does. -/
inductive Value.Embeds : Value → Node → Prop
  | self {v : Value} {c : Node} (h : v.place? = some c) : Embeds v c
  | part {v w : Value} {c : Node} (hw : w ∈ v.parts) (h : Embeds w c) : Embeds v c

/-- A value that a catalog holds refers to a place. -/
def Catalog.Embeds (k : Catalog) (c : Node) : Prop := ∃ v, k.Gives v ∧ v.Embeds c

/-- An argument of a step refers to a place. -/
def Step.Embeds : Step → Node → Prop
  | .call k _, c => ∃ a ∈ k.arguments, a.2.Embeds c
  | _, _ => False

/-- A step of a plan refers to a place. -/
def Plan.Embeds (p : Plan) (c : Node) : Prop := ∃ step ∈ p.steps, step.Embeds c

theorem Step.not_embeds_of_isPlain {step : Step} (h : step.IsPlain) (c : Node) :
    ¬ step.Embeds c := by
  cases step with
  | call k path => exact h.elim
  | _ => exact id

theorem Value.parts_of_place? {v : Value} {n : Node} (h : v.place? = some n) : v.parts = [] := by
  cases v with
  | node | callback => rfl
  | _ => cases h

/-- A value that refers to a place itself refers to no other. -/
theorem Value.Embeds.eq_of_place? {v : Value} {c n : Node} (h : v.Embeds c)
    (hn : v.place? = some n) : c = n := by
  cases h with
  | self hc => exact Option.some.inj (hc.symm.trans hn)
  | part hw _ =>
    rw [Value.parts_of_place? hn] at hw
    cases hw

theorem Value.not_embeds_ofSwitch (kind : SwitchKind) (cell : Nat) (c : Node) :
    ¬ (ofSwitch kind cell).Embeds c := by
  intro h
  cases kind with
  | level | filter =>
    cases h with
    | self hc => cases hc
    | part hw _ => cases hw

/-! ## Where the places come from -/

namespace Scope

variable {s : Scope}

/-- A place has an origin: it is in the catalog, it is the configuration that is injected, or it is
one of some places. -/
def Sourced (s : Scope) (place : Node → Prop) (v : Value) : Prop :=
  ∀ c, v.Embeds c → s.catalog.Embeds c ∨ s.application = some c ∨ place c

theorem takes_sourced (path : String) (place : Node → Prop) :
    s.Takes path (s.Sourced place) fun _ => True where
  given v hv _ hc := .inl ⟨v, hv, hc⟩
  injected n hn c hc := by
    obtain rfl := hc.eq_of_place? (n := n) rfl
    exact .inr (.inl hn)
  whole _ hplace _ hparts c hc := by
    cases hc with
    | self hc =>
      rw [hplace] at hc
      cases hc
    | part hw hc => exact hparts _ hw c hc
  fails _ _ := trivial

theorem Sourced.imp {place place' : Node → Prop} {v : Value} (h : s.Sourced place v)
    (hplace : ∀ c, place c → place' c) : s.Sourced place' v :=
  fun c hc => (h c hc).imp_right fun h => h.imp_right (hplace c)

/-- The places in what a conversion gives are in the catalog, injected, or at the node or below. -/
theorem keeps_sources (s : Scope) :
    s.Keeps (fun n => s.Sourced (·.IsWithin n)) fun _ _ => True where
  takes n := takes_sourced n.path _
  own _ _ hv _ hc := .inr (.inr (.inl (hc.eq_of_place? hv)))
  refers _ _ _ kind cell _ _ hc := absurd hc (Value.not_embeds_ofSwitch kind cell _)
  refersKey _ _ _ kind cell _ _ hc := absurd hc (Value.not_embeds_ofSwitch kind cell _)
  below _ _ hc _ hv := hv.imp fun _ hd => .inr (hd.trans_isBelow (Node.isBelow_of_mem_children hc))
  failsBelow _ _ _ _ _ := trivial
  failsType _ _ _ _ := trivial

end Scope

namespace Binder

variable {b : Binder} {n : Node} {s s' : Session}

theorem sourced_of_binds {capability : Capability} {step : Step}
    (h : b.Binds capability n s step) {c : Node} (hc : step.Embeds c) :
    b.catalog.Embeds c ∨ (if b.injects then some s.root.top else none) = some c ∨ c.IsBelow n := by
  cases h with
  | @of e d m t call next he hd hm ht hcall =>
    obtain ⟨a, ha, hc⟩ := hc
    have hsourced : ∀ a ∈ call.arguments, (b.scope t).Sourced (·.IsBelow n) a.2 :=
      ((b.scope t).keeps_sources.ends_bindCall (Scope.takes_sourced d.path _)
        (mem_methods_of_select hm)
        (fun a ha v hv => hv.imp fun c hc => (hc.trans_isBelow
          (Directive.isBelow_of_mem_arguments hd ha)).trans (Node.isBelow_of_mem_children he))
        (fun _ _ _ _ => trivial) t.nextIdentity).of_ok _ hcall
    have hroot : (b.scope t).application = if b.injects then some s.root.top else none := by
      rw [Binder.scope, ht.root]
    rw [← hroot]
    exact hsourced a ha c hc

/-- The places in the arguments of a plan are in the catalog, injected, or below the section. -/
theorem sourced_of_plan {p : Plan} (h : Returns (b.plan n) s p s') {c : Node}
    (hc : p.Embeds c) :
    b.catalog.Embeds c ∨ (if b.injects then some s.root.top else none) = some c ∨ c.IsBelow n := by
  obtain ⟨step, hstep, hc⟩ := hc
  rcases binds_of_plan h step hstep with hplain | ⟨capability, hbinds⟩
  · exact absurd hc (Step.not_embeds_of_isPlain hplain c)
  · exact (sourced_of_binds hbinds hc).imp_right fun h => h.imp_right Node.IsBelow.of_child

end Binder

/-! ## Two trees -/

namespace Reader

/-- A reader of a whole configuration keeps the section of the tree that is loaded, and the whole is
injected. -/
theorem eq_of_make {catalog : Catalog} {options : Options} {top : Node} {r : Reader}
    (h : make (some catalog) options none (some top) = .ok r) :
    r.node = top.child options.sectionName ∧ r.binder.catalog = catalog ∧
      r.binder.injects = true := by
  change (Selection.ofSection catalog (top.child options.sectionName) >>= fun _ => _) = _ at h
  obtain ⟨selection, -, h⟩ := Except.bind_eq_ok.1 h
  cases h
  exact ⟨rfl, rfl, rfl⟩

/-- **A plan reads up to two snapshots.**  Apart from places that the catalog holds, the places that
the arguments of a plan refer to lie below the section, in the tree that was loaded when the reader
was made, or are the top of the tree that was loaded last.  So all of them lie in the tree of the
section if and only if that is still the tree, or the top is not referred to. -/
theorem snapshots_of_plan {catalog : Catalog} {options : Options} {s t : Session} {r : Reader}
    {p : Plan} {changes : List Change} {loaded : Tree}
    (hmake : make (some catalog) options none (some s.root.top) = .ok r)
    (hloaded : (s.snapshots changes).getLast?.getD s.root.tree = loaded)
    (hplan : Returns (r.binder.plan r.node) (s.changed changes) p t) :
    (∀ c, p.Embeds c → catalog.Embeds c ∨ c = .top loaded ∨
      c.IsBelow r.node ∧ c.tree = s.root.tree) ∧
    ((∀ c, p.Embeds c → catalog.Embeds c ∨ c.tree = s.root.tree) ↔
      loaded = s.root.tree ∨ (p.Embeds (.top loaded) → catalog.Embeds (.top loaded))) := by
  obtain ⟨hnode, rfl, hinjects⟩ := eq_of_make hmake
  have hsources : ∀ c, p.Embeds c → r.binder.catalog.Embeds c ∨ c = .top loaded ∨
      c.IsBelow r.node ∧ c.tree = s.root.tree := by
    intro c hc
    rcases Binder.sourced_of_plan hplan hc with hc | hc | hc
    · exact .inl hc
    · rw [if_pos hinjects, Root.top, Session.tree_changed, hloaded] at hc
      exact .inr (.inl (Option.some.inj hc).symm)
    · refine .inr (.inr ⟨hc, ?_⟩)
      rw [hc.tree, hnode]
      rfl
  refine ⟨hsources, ?_, ?_⟩
  · intro hall
    by_cases htree : loaded = s.root.tree
    · exact .inl htree
    · exact .inr fun htop => (hall _ htop).resolve_right htree
  · intro hone c hc
    rcases hsources c hc with hc' | rfl | ⟨-, htree⟩
    · exact .inl hc'
    · exact hone.elim .inr fun htop => .inl (htop hc)
    · exact .inr htree

end Reader

/-! ## A configuration that is loaded again before it is planned -/

namespace Sample

/-- A sink that takes the whole configuration and a place in it. -/
def injected : Catalog := ⟨[.of "Sample.Injected"
  [.of "Injected" .sink [.required "configuration" .appConfiguration, .required "entry" .node]] []]⟩

/-- A section that calls it. -/
def injectedEntries : List Entry :=
  [⟨"Logging:WriteTo:0:Name", some "Injected"⟩, ⟨"Logging:WriteTo:0:Args:entry", some "here"⟩]

/-- The sources get a further entry and are loaded. -/
def injectedChanges : List Change :=
  [.edit ⟨[], []⟩ [.listed "list" (injectedEntries ++ [⟨"Added", some "1"⟩])], .reload]

/-- The session in which the reader is made. -/
def injectedSession : Session := .start ⟨[], []⟩ (listedRoot injectedEntries)

/-- The reader. -/
def injectedReader : Reader :=
  ⟨⟨injected, {}, .all, true⟩, (listedRoot injectedEntries).node "Logging"⟩

/-- What it plans. -/
def injectedPlan : Plan :=
  (injectedReader.binder.plan injectedReader.node
    (injectedSession.changed injectedChanges)).1.toOption.getD .empty

/-- Whether an argument of a step refers to a place with some keys. -/
def refersTo (keys : List String) : Step → Bool
  | .call k _ => k.arguments.any fun a => a.2.place?.any fun c => c.segments == keys
  | _ => false

theorem exists_of_refersTo {keys : List String} {p : Plan}
    (h : p.steps.any (refersTo keys) = true) : ∃ c, p.Embeds c ∧ c.segments = keys := by
  obtain ⟨step, hstep, h⟩ := List.any_eq_true.1 h
  cases step with
  | call k path =>
    obtain ⟨a, ha, h⟩ := List.any_eq_true.1 h
    obtain ⟨c, hc, h⟩ := (Option.any_eq_true ..).1 h
    exact ⟨c, ⟨_, hstep, a, ha, .self hc⟩, by simpa using h⟩
  | _ => cases h

/-- The whole configuration has the further entry, but the section is read without it. -/
theorem snapshots_of_plan_edited :
    injectedPlan.Embeds (.top (.ofEntries (injectedEntries ++ [⟨"Added", some "1"⟩]))) ∧
      ¬ ∀ c, injectedPlan.Embeds c → injected.Embeds c ∨ c.tree = .ofEntries injectedEntries := by
  have hplans : (injectedReader.binder.plan injectedReader.node
      (injectedSession.changed injectedChanges)).1.isOk = true := by decide +kernel
  have hmake : Reader.make (some injected) {} none (some (listedRoot injectedEntries).top) =
      .ok injectedReader := rfl
  have hloaded : (injectedSession.snapshots injectedChanges).getLast?.getD
      injectedSession.root.tree = .ofEntries (injectedEntries ++ [⟨"Added", some "1"⟩]) := rfl
  obtain ⟨hsources, hone⟩ := Reader.snapshots_of_plan hmake hloaded
    (Run.returns_of_isOk hplans Plan.empty)
  change ∀ c, injectedPlan.Embeds c → _ at hsources
  have hnone : ∀ c, ¬ injected.Embeds c := fun c ⟨v, hv, _⟩ =>
    Catalog.not_gives (by decide) (by decide) v hv
  have htop : injectedPlan.Embeds
      (.top (.ofEntries (injectedEntries ++ [⟨"Added", some "1"⟩]))) := by
    have hrefers : injectedPlan.steps.any (refersTo []) = true := by decide +kernel
    obtain ⟨c, hc, hsegments⟩ := exists_of_refersTo hrefers
    rcases hsources c hc with hcatalog | rfl | ⟨hbelow, -⟩
    · exact absurd hcatalog (hnone c)
    · exact hc
    · obtain ⟨keys, -, hkeys⟩ := hbelow.segments
      rw [hsegments] at hkeys
      cases hkeys
  refine ⟨htop, fun hall => ?_⟩
  rcases hone.1 hall with htree | himp
  · have hlength := congrArg (fun t : Tree => t.children.length) htree
    exact absurd hlength (by decide +kernel)
  · exact hnone _ (himp htop)

end Sample

end LogBinder
