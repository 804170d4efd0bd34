/-
  Log binder — what a plan hands on and watches.

  * `Run.LevelPlans` and the lemmas beside it : what each stage of planning
    returns;
  * `Binder.Stages` : what a plan consists of, stage by stage;
  * `Binder.planned` : the callbacks of a plan are new and configure what the
    section says, and the plan watches as many switches as the section says;
  * `Binder.traced_of_plan` : also the callbacks deep inside its arguments are
    new and configure places below the section, if the catalog does not hold
    them.
-/
import LogBinder.Proofs.Binding.Callbacks
import LogBinder.Proofs.Binding.Drafting
import Mathlib.Data.List.ReduceOption

namespace LogBinder

open Nested (Made)

/-! ## Directives -/

/-- The callbacks that a step carries. -/
def Step.callbacks : Step → List Nested
  | .call c _ => c.callbacks
  | _ => []

namespace Binder

open Run (Returns returns_bind returns_pure returns_lift)

variable {b : Binder}

theorem directiveCallbacks_of_select {capability : Capability} {d : Directive} {o : Option Method}
    (h : Overload.select (b.candidates capability) d.name capability d.supplied = o) :
    b.directiveCallbacks capability d = o.elim [] d.callbacks := by
  rw [candidates] at h
  rw [directiveCallbacks, h]
  cases o <;> rfl

theorem made_of_directive (hb : b.catalog.IsPassive) {capability : Capability} {d : Directive}
    {o : Option Step} {s s' : Session}
    (h : Returns (b.directive capability (b.candidates capability) d) s o s') :
    Made s.nextIdentity s'.nextIdentity (b.directiveCallbacks capability d)
      (o.toList.flatMap Step.callbacks) := by
  have hle := (drafts_directive capability d).le h
  cases hselect : Overload.select (b.candidates capability) d.name capability d.supplied with
  | some m =>
    rw [directiveCallbacks_of_select hselect]
    simp only [directive, hselect, returns_bind] at h
    obtain ⟨c, t, hc, h⟩ := h
    obtain ⟨rfl, rfl⟩ := returns_pure.1 h
    simpa [Step.callbacks] using
      Call.made_of_bind (s := b.scope s) hb (mem_methods_of_select hselect) (yields_of_converted hc)
  | none =>
    rw [directiveCallbacks_of_select hselect]
    simp only [directive, hselect, returns_bind] at h
    obtain ⟨_, t, -, h⟩ := h
    obtain ⟨rfl, rfl⟩ := returns_pure.1 h
    exact .nil hle

theorem flatMap_reduceOption {α β : Type} (f : α → List β) (xs : List (Option α)) :
    xs.reduceOption.flatMap f = xs.flatMap fun o => o.toList.flatMap f := by
  induction xs with
  | nil => rfl
  | cons o rest ih => cases o <;> simp [ih]

/-- The steps of a section of directives carry new callbacks for what the section says. -/
theorem made_of_directives (hb : b.catalog.IsPassive) {capability : Capability} {n : Node}
    {steps : List Step} {s s' : Session} (h : Returns (b.directives capability n) s steps s') :
    Made s.nextIdentity s'.nextIdentity (b.sectionCallbacks capability n)
      (steps.flatMap Step.callbacks) := by
  rw [directives] at h
  rw [sectionCallbacks]
  split at h
  · next hn =>
    rw [returns_bind] at h
    obtain ⟨ds, t, hds, h⟩ := h
    rw [returns_bind] at h
    obtain ⟨os, t', hos, h⟩ := h
    obtain ⟨hsection, rfl⟩ := returns_lift.1 hds
    obtain ⟨rfl, rfl⟩ := returns_pure.1 h
    rw [if_pos hn, hsection, flatMap_reduceOption]
    exact hos.threaded.made Session.nextIdentity fun d _ s o s' ho => made_of_directive hb ho
  · next hn =>
    obtain ⟨rfl, rfl⟩ := returns_pure.1 h
    rw [if_neg hn]
    exact .nil (Nat.le_refl _)

theorem traced_of_directive {capability : Capability} {n : Node} {d : Directive}
    {o : Option Step} {s s' : Session} (hd : ∀ a ∈ d.arguments, a.2.IsBelow n)
    (h : Returns (b.directive capability (b.candidates capability) d) s o s') {step : Step}
    (ho : o = some step) {v : Value} (hv : step.Carries v) :
    b.catalog.Holds v ∨ v.IsBound (·.IsBelow n) s.nextIdentity s'.nextIdentity := by
  subst ho
  cases hselect : Overload.select (b.candidates capability) d.name capability d.supplied with
  | some m =>
    simp only [directive, hselect, returns_bind] at h
    obtain ⟨c, t, hc, h⟩ := h
    obtain ⟨hstep, rfl⟩ := returns_pure.1 h
    cases hstep
    obtain ⟨a, ha, hv⟩ := hv
    have htraced : _ ∧ ∀ a ∈ c.arguments,
        a.2.Traced b.catalog (·.IsBelow n) s.nextIdentity s'.nextIdentity :=
      Call.traced_of_bind (s := b.scope s) (mem_methods_of_select hselect)
        (fun a ha e he => he.trans_isBelow (hd a ha)) (yields_of_converted hc)
    exact (htraced.2 a ha).carried v hv
  | none =>
    simp only [directive, hselect, returns_bind] at h
    obtain ⟨_, t, -, h⟩ := h
    cases (returns_pure.1 h).1

/-- The callbacks in the steps of a section of directives are held by the catalog, or bound below
the section. -/
theorem traced_of_directives {capability : Capability} {n : Node} {steps : List Step}
    {s s' : Session} (h : Returns (b.directives capability n) s steps s') {v : Value}
    (hv : Step.AnyCarries steps v) :
    b.catalog.Holds v ∨ v.IsBound (·.IsBelow n) s.nextIdentity s'.nextIdentity := by
  obtain ⟨step, hstep, hv⟩ := hv
  rw [directives] at h
  split at h
  · rw [returns_bind] at h
    obtain ⟨ds, t, hds, h⟩ := h
    rw [returns_bind] at h
    obtain ⟨os, t', hos, h⟩ := h
    obtain ⟨hsection, rfl⟩ := returns_lift.1 hds
    obtain ⟨rfl, rfl⟩ := returns_pure.1 h
    obtain ⟨-, hall⟩ := hos.threaded.between Session.Drafted.refl Session.Drafted.trans
      fun d _ s o s' ho => (drafts_directive capability d).of_returns ho
    obtain ⟨d, hd, i, j, hi, ho, hj⟩ := hall _ (List.reduceOption_mem_iff.1 hstep)
    have harguments : ∀ a ∈ d.arguments, a.2.IsBelow n := fun a ha =>
      Directive.isBelow_of_mem_ofSection hsection hd ha
    exact (traced_of_directive harguments ho rfl hv).imp id fun hv =>
      hv.mono (fun _ => id) hi.nextIdentity hj.nextIdentity
  · obtain ⟨rfl, rfl⟩ := returns_pure.1 h
    cases hstep

end Binder

/-! ## What the stages of planning return -/

theorem Directive.eq_of_entries {n : Node} {es : List Node} (h : entries n = .ok es) :
    es = n.children := by
  obtain ⟨shape, -, h⟩ := Except.bind_eq_ok.1 h
  cases h
  rfl

namespace Run

variable {o : Options} {n : Node} {s t : Session}

/-- The plan for a place that holds a level, by the text there. -/
inductive LevelPlans (n : Node) (label : String) (step : Nat → Step) (s : Session) :
    Plan → Session → Prop
  | blank {text : String} : LevelText.ofNode n = .ok text → text.isEmpty = true →
      LevelPlans n label step s .empty s
  | reference {text : String} {cell : Nat} : LevelText.ofNode n = .ok text →
      text.isEmpty = false → text.startsWith "$" = true →
      s.registry.cell .level text n.path = .ok cell → LevelPlans n label step s ⟨[step cell], []⟩ s
  | literal {text : String} {l : Level} : LevelText.ofNode n = .ok text →
      text.isEmpty = false → text.startsWith "$" = false → LevelText.read text n.path = .ok l →
      LevelPlans n label step s
        ⟨[step s.levels.length], [.level label s.levels.length n false]⟩ (s.addLevel l).2

theorem levelPlans_of_returns {label : String} {step : Nat → Step} {p : Plan}
    (h : Returns (levelPlan n label step) s p t) : LevelPlans n label step s p t := by
  rw [levelPlan, returns_bind] at h
  obtain ⟨target, s₁, htarget, h⟩ := h
  rw [levelTarget, returns_bind] at htarget
  obtain ⟨text, s₂, htext, htarget⟩ := htarget
  obtain ⟨hnode, rfl⟩ := returns_lift.1 htext
  split at htarget
  · next hblank =>
    obtain ⟨rfl, rfl⟩ := returns_pure.1 htarget
    obtain ⟨rfl, rfl⟩ := returns_pure.1 h
    exact .blank hnode hblank
  · next hblank =>
    rw [Bool.not_eq_true] at hblank
    split at htarget
    · next hsign =>
      rw [returns_bind] at htarget
      obtain ⟨u, s₃, hu, htarget⟩ := htarget
      obtain ⟨rfl, rfl⟩ := returns_get.1 hu
      rw [returns_bind] at htarget
      obtain ⟨cell, s₄, hcell, htarget⟩ := htarget
      obtain ⟨hcell, rfl⟩ := returns_lift.1 hcell
      obtain ⟨rfl, rfl⟩ := returns_pure.1 htarget
      obtain ⟨rfl, rfl⟩ := returns_pure.1 h
      exact .reference hnode hblank hsign hcell
    · next hsign =>
      rw [returns_bind] at htarget
      obtain ⟨l, s₃, hl, htarget⟩ := htarget
      obtain ⟨hread, rfl⟩ := returns_lift.1 hl
      rw [returns_bind] at htarget
      obtain ⟨cell, s₄, hcell, htarget⟩ := htarget
      obtain ⟨rfl, rfl⟩ := returns_modifyGet.1 hcell
      obtain ⟨rfl, rfl⟩ := returns_pure.1 htarget
      obtain ⟨rfl, rfl⟩ := returns_pure.1 h
      exact .literal hnode hblank (by simpa using hsign) hread

/-- A place that controls the level is blank, or refers to a declared switch. -/
theorem controlPlan_cases {p : Plan} (h : Returns (controlPlan n) s p t) :
    t = s ∧ ∃ text, LevelText.ofNode n = .ok text ∧
      (text.isEmpty = true ∧ p = .empty ∨
        text.isEmpty = false ∧ ∃ cell, s.registry.cell .level text n.path = .ok cell ∧
          p = ⟨[.minimumLevel cell], []⟩) := by
  rw [controlPlan, returns_bind] at h
  obtain ⟨text, s₁, htext, h⟩ := h
  obtain ⟨hnode, rfl⟩ := returns_lift.1 htext
  split at h
  · next hblank =>
    obtain ⟨rfl, rfl⟩ := returns_pure.1 h
    exact ⟨rfl, text, hnode, .inl ⟨hblank, rfl⟩⟩
  · next hblank =>
    rw [returns_bind] at h
    obtain ⟨u, s₂, hu, h⟩ := h
    obtain ⟨rfl, rfl⟩ := returns_get.1 hu
    rw [returns_bind] at h
    obtain ⟨cell, s₃, hcell, h⟩ := h
    obtain ⟨hcell, rfl⟩ := returns_lift.1 hcell
    obtain ⟨rfl, rfl⟩ := returns_pure.1 h
    exact ⟨rfl, text, hnode, .inr ⟨by simpa using hblank, cell, hcell, rfl⟩⟩

/-- A section of minimum levels is read place by place. -/
theorem levelSection_cases {p : Plan} (h : Returns (levelSection n) s p t) :
    ∃ whole controlled overrides s₁ s₂,
      Returns (ifPresent (n.child MinimumLevel.defaultKey) defaultPlan) s whole s₁ ∧
      Returns (ifPresent (n.child MinimumLevel.controlKey) controlPlan) s₁ controlled s₂ ∧
      Threaded (fun e => Returns (overridePlan e)) (n.child MinimumLevel.overrideKey).children s₂
        overrides t ∧
      p = collect (whole :: controlled :: overrides) := by
  rw [levelSection, returns_bind] at h
  obtain ⟨whole, s₁, hwhole, h⟩ := h
  rw [returns_bind] at h
  obtain ⟨controlled, s₂, hcontrolled, h⟩ := h
  rw [returns_bind] at h
  obtain ⟨es, s₃, hes, h⟩ := h
  obtain ⟨hentries, rfl⟩ := returns_lift.1 hes
  obtain rfl := Directive.eq_of_entries hentries
  rw [returns_bind] at h
  obtain ⟨overrides, s₄, hoverrides, h⟩ := h
  obtain ⟨rfl, rfl⟩ := returns_pure.1 h
  exact ⟨whole, controlled, overrides, s₁, s₃, hwhole, hcontrolled, hoverrides.threaded, rfl⟩

/-- A declared level switch is new. -/
theorem declareLevel_cases {w : Watch} (h : Returns (declareLevel n) s w t) :
    ∃ l label, LevelText.declared n = .ok l ∧
      Returns (declare .level n.key s.levels.length n.path) (s.addLevel l).2 label t ∧
      w = .level label s.levels.length n true := by
  rw [declareLevel, returns_bind] at h
  obtain ⟨l, s₁, hl, h⟩ := h
  obtain ⟨hdeclared, rfl⟩ := returns_lift.1 hl
  rw [returns_bind] at h
  obtain ⟨cell, s₂, hcell, h⟩ := h
  obtain ⟨rfl, rfl⟩ := returns_modifyGet.1 hcell
  rw [returns_bind] at h
  obtain ⟨label, s₃, hlabel, h⟩ := h
  obtain ⟨rfl, rfl⟩ := returns_pure.1 h
  exact ⟨l, label, hdeclared, hlabel, rfl⟩

/-- A declared filter switch is new. -/
theorem declareFilter_cases {w : Watch} (h : Returns (declareFilter o n) s w t) :
    ∃ expression label, filterText o n = .ok expression ∧
      Returns (declare .filter n.key s.filters.length n.path) (s.addFilter (some expression)).2
        label t ∧
      w = .filter label s.filters.length n := by
  rw [declareFilter, returns_bind] at h
  obtain ⟨expression, s₁, hexpression, h⟩ := h
  obtain ⟨htext, rfl⟩ := returns_lift.1 hexpression
  rw [returns_bind] at h
  obtain ⟨cell, s₂, hcell, h⟩ := h
  obtain ⟨rfl, rfl⟩ := returns_modifyGet.1 hcell
  rw [returns_bind] at h
  obtain ⟨label, s₃, hlabel, h⟩ := h
  obtain ⟨rfl, rfl⟩ := returns_pure.1 h
  exact ⟨expression, label, htext, hlabel, rfl⟩

/-- Declares the switch of an entry. -/
def declareSwitch (o : Options) (kind : SwitchKind) (e : Node) : Run Watch :=
  match kind with
  | .level => declareLevel e
  | .filter => declareFilter o e

/-- Switches are declared entry by entry. -/
theorem threaded_of_declareSwitches {kind : SwitchKind} {ws : List Watch}
    (h : Returns (declareSwitches o n kind) s ws t) :
    Threaded (fun e => Returns (declareSwitch o kind e)) (n.child kind.sectionName).children s ws
      t := by
  rw [declareSwitches, returns_bind] at h
  obtain ⟨es, s₁, hes, h⟩ := h
  obtain ⟨hentries, rfl⟩ := returns_lift.1 hes
  obtain rfl := Directive.eq_of_entries hentries
  cases kind <;> exact h.threaded

/-- Properties are read entry by entry. -/
theorem threaded_of_properties {steps : List Step} (h : Returns (properties n) s steps t) :
    Threaded (fun e => Returns (propertyStep e)) (n.child propertiesName).children s steps t := by
  rw [properties, returns_bind] at h
  obtain ⟨es, s₁, hes, h⟩ := h
  obtain ⟨hentries, rfl⟩ := returns_lift.1 hes
  obtain rfl := Directive.eq_of_entries hentries
  exact h.threaded

end Run

/-! ## Watches -/

/-- A step that calls no method. -/
def Step.IsPlain : Step → Prop
  | .call _ _ => False
  | _ => True

theorem Step.callbacks_of_isPlain {steps : List Step} (h : ∀ step ∈ steps, step.IsPlain) :
    steps.flatMap callbacks = [] := by
  rw [List.flatMap_eq_nil_iff]
  intro step hstep
  cases step with
  | call c path => exact (h _ hstep).elim
  | _ => rfl

theorem Step.not_carries_of_isPlain {step : Step} (h : step.IsPlain) (v : Value) :
    ¬ step.Carries v := by
  cases step with
  | call c path => exact h.elim
  | _ => exact id

/-- A plan watches a number of switches and calls no method. -/
structure Plan.Watching (count : Nat) (p : Plan) : Prop where
  watches : p.watches.length = count
  isPlain : ∀ step ∈ p.steps, step.IsPlain

theorem Plan.Watching.append {j k : Nat} {p q : Plan} (h : Watching j p) (h' : Watching k q) :
    Watching (j + k) (p.append q) := by
  refine ⟨?_, ?_⟩
  · rw [Plan.append, List.length_append, h.watches, h'.watches]
  · intro step hstep
    rcases List.mem_append.1 hstep with hstep | hstep
    · exact h.isPlain step hstep
    · exact h'.isPlain step hstep

theorem Plan.watching_empty : Watching 0 .empty := ⟨rfl, fun _ h => absurd h List.not_mem_nil⟩

namespace Run

open Plan (Watching)

/-- What holds of plans one by one, and adds up, holds of all of them together. -/
theorem collect_of_forall₂ {ι : Type} {P : ι → Plan → Prop} {op : ι → ι → ι} {start : ι}
    (hempty : P start .empty)
    (happend : ∀ {i j p q}, P i p → P j q → P (op i j) (p.append q)) {is : List ι}
    {plans : List Plan} (h : List.Forall₂ P is plans) : P (is.foldl op start) (collect plans) := by
  have hfold : ∀ i p, P i p → P (is.foldl op i) (plans.foldl Plan.append p) := by
    induction h with
    | nil => exact fun i p hp => hp
    | cons hq _ ih => exact fun i p hp => ih _ _ (happend hp hq)
  exact hfold start .empty hempty

theorem watching_collect {counts : List Nat} {plans : List Plan}
    (h : List.Forall₂ Watching counts plans) : Watching counts.sum (collect plans) := by
  rw [List.sum_eq_foldl]
  exact collect_of_forall₂ Plan.watching_empty .append h

theorem watching_levelPlan {n : Node} {label : String} {step : Nat → Step} {s s' : Session}
    {p : Plan} (hstep : ∀ cell, (step cell).IsPlain)
    (h : Returns (levelPlan n label step) s p s') : Watching (LevelText.watches n) p := by
  have hplain : ∀ cell, ∀ planned ∈ [step cell], planned.IsPlain := by simp [hstep]
  cases levelPlans_of_returns h with
  | blank htext hblank =>
    refine ⟨?_, nofun⟩
    simp [LevelText.watches, htext, hblank, Plan.empty]
  | reference htext hblank hsign _ =>
    refine ⟨?_, hplain _⟩
    simp [LevelText.watches, htext, hsign]
  | literal htext hblank hsign _ =>
    refine ⟨?_, hplain _⟩
    simp [LevelText.watches, htext, hblank, hsign]

theorem watching_controlPlan {n : Node} {s s' : Session} {p : Plan}
    (h : Returns (controlPlan n) s p s') : Watching 0 p := by
  obtain ⟨-, text, -, ⟨-, rfl⟩ | ⟨-, cell, -, rfl⟩⟩ := controlPlan_cases h
  · exact Plan.watching_empty
  · exact ⟨rfl, by simp [Step.IsPlain]⟩

theorem watching_ifPresent {plan : Node → Run Plan} {n : Node} {count : Nat} {s s' : Session}
    {p : Plan} (hplan : ∀ {s p s'}, Returns (plan n) s p s' → Watching count p)
    (h : Returns (ifPresent n plan) s p s') : Watching (if n.isPresent then count else 0) p := by
  rw [ifPresent] at h
  split at h
  · next hn =>
    rw [if_pos hn]
    exact hplan h
  · next hn =>
    rw [if_neg hn, (returns_pure.1 h).1]
    exact Plan.watching_empty

theorem watching_levelSection {n : Node} {s s' : Session} {p : Plan}
    (hn : n.form = .ok .structured) (h : Returns (levelSection n) s p s') :
    Watching (MinimumLevel.watches n) p := by
  obtain ⟨whole, controlled, overrides, _, _, hwhole, hcontrolled, hoverrides, rfl⟩ :=
    levelSection_cases h
  rw [MinimumLevel.watches, hn]
  have hw := watching_ifPresent (watching_levelPlan fun _ => by trivial) hwhole
  have hc := watching_ifPresent watching_controlPlan hcontrolled
  have ho : List.Forall₂ Watching
      ((n.child MinimumLevel.overrideKey).children.map LevelText.watches) overrides := by
    rw [List.forall₂_map_left_iff]
    refine hoverrides.forall₂.imp ?_
    rintro e q ⟨_, _, hq⟩
    exact watching_levelPlan (fun _ => by trivial) hq
  simpa using watching_collect (.cons hw (.cons hc ho))

theorem watching_minimumLevels {n : Node} {s s' : Session} {p : Plan}
    (h : Returns (minimumLevels n) s p s') :
    Watching (if (n.child MinimumLevel.sectionName).isPresent then
      MinimumLevel.watches (n.child MinimumLevel.sectionName) else 0) p := by
  refine watching_ifPresent ?_ h
  intro s p s' h
  rw [returns_bind] at h
  obtain ⟨shape, _, hshape, h⟩ := h
  replace hshape := (returns_lift.1 hshape).1
  cases shape with
  | scalar text =>
    rw [MinimumLevel.watches, hshape]
    exact watching_levelPlan (fun _ => by trivial) h
  | structured => exact watching_levelSection hshape h

theorem length_of_declareSwitches {o : Options} {n : Node} {kind : SwitchKind} {s s' : Session}
    {ws : List Watch} (h : Returns (declareSwitches o n kind) s ws s') :
    ws.length = (n.child kind.sectionName).children.length :=
  (threaded_of_declareSwitches h).forall₂.length_eq.symm

theorem isPlain_of_properties {n : Node} {s s' : Session} {steps : List Step}
    (h : Returns (properties n) s steps s') : ∀ step ∈ steps, step.IsPlain := by
  intro step hstep
  obtain ⟨e, -, _, _, he⟩ := exists_of_forall₂ (threaded_of_properties h).forall₂ hstep
  rw [propertyStep, returns_bind] at he
  obtain ⟨shape, _, -, he⟩ := he
  cases shape with
  | scalar text =>
    simp only [returns_bind, returns_pure] at he
    obtain ⟨_, _, -, rfl, -⟩ := he
    trivial
  | structured => exact absurd he returns_throw

end Run

/-! ## Plans -/

namespace Binder

open Run (Returns returns_bind returns_pure)

variable {b : Binder}

/-- What a plan consists of, stage by stage. -/
inductive Stages (b : Binder) (n : Node) (s : Session) : Plan → Session → Prop
  | of {levels filters : List Watch} {minimum : Plan}
      {enrichers properties filtering policies sinks audits : List Step}
      {s₁ s₂ s₃ s₄ s₅ s₆ s₇ s₈ s₉ : Session} :
      Returns (Run.declareSwitches b.options n .level) s levels s₁ →
      Returns (Run.declareSwitches b.options n .filter) s₁ filters s₂ →
      Returns (Run.minimumLevels n) s₂ minimum s₃ →
      Returns (b.phase n .enrich) s₃ enrichers s₄ →
      Returns (Run.properties n) s₄ properties s₅ →
      Returns (b.phase n .filter) s₅ filtering s₆ →
      Returns (b.phase n .destructure) s₆ policies s₇ →
      Returns (b.phase n .sink) s₇ sinks s₈ →
      Returns (b.phase n .auditSink) s₈ audits s₉ →
      Stages b n s ⟨minimum.steps ++ enrichers ++ properties ++ filtering ++ policies ++ sinks ++
        audits, levels ++ filters ++ minimum.watches⟩ s₉

theorem stages_of_plan {n : Node} {p : Plan} {s s' : Session} (h : Returns (b.plan n) s p s') :
    b.Stages n s p s' := by
  rw [plan, returns_bind] at h
  obtain ⟨levels, s₁, hlevels, h⟩ := h
  rw [returns_bind] at h
  obtain ⟨filters, s₂, hfilters, h⟩ := h
  rw [returns_bind] at h
  obtain ⟨minimum, s₃, hminimum, h⟩ := h
  rw [returns_bind] at h
  obtain ⟨enrichers, s₄, henrichers, h⟩ := h
  rw [returns_bind] at h
  obtain ⟨properties, s₅, hproperties, h⟩ := h
  rw [returns_bind] at h
  obtain ⟨filtering, s₆, hfiltering, h⟩ := h
  rw [returns_bind] at h
  obtain ⟨policies, s₇, hpolicies, h⟩ := h
  rw [returns_bind] at h
  obtain ⟨sinks, s₈, hsinks, h⟩ := h
  rw [returns_bind] at h
  obtain ⟨audits, s₉, haudits, h⟩ := h
  obtain ⟨rfl, rfl⟩ := returns_pure.1 h
  exact .of hlevels hfilters hminimum henrichers hproperties hfiltering hpolicies hsinks haudits

/-- **What a plan hands on and watches is what its section says.** -/
theorem planned (hb : b.catalog.IsPassive) {n : Node} {p : Plan} {s s' : Session}
    (h : Returns (b.plan n) s p s') :
    Made s.nextIdentity s'.nextIdentity (b.callbacks .logger n) (p.steps.flatMap Step.callbacks) ∧
      p.watches.length = n.watches := by
  cases stages_of_plan h with
  | of hlevels hfilters hminimum henrichers hproperties hfiltering hpolicies hsinks haudits =>
    have hwatching := Run.watching_minimumLevels hminimum
    constructor
    · have hbefore : Made s.nextIdentity _ [] [] := .nil <|
        Nat.le_trans ((Run.drafts_declareSwitches ..).le hlevels) <|
          Nat.le_trans ((Run.drafts_declareSwitches ..).le hfilters)
            ((Run.drafts_minimumLevels _).le hminimum)
      have hbetween : Made _ _ [] [] := .nil ((Run.drafts_properties _).le hproperties)
      have hall := hbefore.append <| (made_of_directives hb henrichers).append <|
        hbetween.append <| (made_of_directives hb hfiltering).append <|
        (made_of_directives hb hpolicies).append <| (made_of_directives hb hsinks).append
        (made_of_directives hb haudits)
      simpa [callbacks, phases, Step.callbacks_of_isPlain hwatching.isPlain,
        Step.callbacks_of_isPlain (Run.isPlain_of_properties hproperties)] using hall
    · simp [Run.length_of_declareSwitches hlevels, Run.length_of_declareSwitches hfilters,
        hwatching.watches, Node.watches, Nat.add_assoc]

theorem traced_of_phase {capability : Capability} {n : Node} {steps : List Step} {s s' : Session}
    (h : Returns (b.phase n capability) s steps s') {v : Value} (hv : Step.AnyCarries steps v) :
    b.catalog.Holds v ∨ v.IsBound (·.IsBelow n) s.nextIdentity s'.nextIdentity :=
  (traced_of_directives h hv).imp id fun hv =>
    hv.mono (fun _ hd => hd.of_child) (Nat.le_refl _) (Nat.le_refl _)

/-- **The callbacks in the steps of a plan are held by the catalog, or bound below its section.** -/
theorem traced_of_plan {n : Node} {p : Plan} {s s' : Session} (h : Returns (b.plan n) s p s')
    {v : Value} (hv : Step.AnyCarries p.steps v) :
    b.catalog.Holds v ∨ v.IsBound (·.IsBelow n) s.nextIdentity s'.nextIdentity := by
  cases stages_of_plan h with
  | of hlevels hfilters hminimum henrichers hproperties hfiltering hpolicies hsinks haudits =>
    have h₁ := (Run.drafts_declareSwitches ..).le hlevels
    have h₂ := (Run.drafts_declareSwitches ..).le hfilters
    have h₃ := (Run.drafts_minimumLevels _).le hminimum
    have h₄ := (drafts_phase ..).le henrichers
    have h₅ := (Run.drafts_properties _).le hproperties
    have h₆ := (drafts_phase ..).le hfiltering
    have h₇ := (drafts_phase ..).le hpolicies
    have h₈ := (drafts_phase ..).le hsinks
    have h₉ := (drafts_phase ..).le haudits
    obtain ⟨step, hstep, hv⟩ := hv
    simp only [List.mem_append] at hstep
    have hphase : ∀ {capability steps i j}, Returns (b.phase n capability) i steps j →
        step ∈ steps → s.nextIdentity ≤ i.nextIdentity → j.nextIdentity ≤ s'.nextIdentity →
        b.catalog.Holds v ∨ v.IsBound (·.IsBelow n) s.nextIdentity s'.nextIdentity :=
      fun hs hstep hi hj => (traced_of_phase hs ⟨step, hstep, hv⟩).imp id fun hv =>
        hv.mono (fun _ => id) hi hj
    rcases hstep with (((((hstep | hstep) | hstep) | hstep) | hstep) | hstep) | hstep
    · have hplain := (Run.watching_minimumLevels hminimum).isPlain step hstep
      exact absurd hv (Step.not_carries_of_isPlain hplain v)
    · exact hphase henrichers hstep (by omega) (by omega)
    · have hplain := Run.isPlain_of_properties hproperties step hstep
      exact absurd hv (Step.not_carries_of_isPlain hplain v)
    · exact hphase hfiltering hstep (by omega) (by omega)
    · exact hphase hpolicies hstep (by omega) (by omega)
    · exact hphase hsinks hstep (by omega) (by omega)
    · exact hphase haudits hstep (by omega) (by omega)

end Binder

end LogBinder
