/-
  Log binder — how a plan is laid out.

  The parts of a plan stand in a fixed order: the steps of the minimum
  levels, the calls of enrichers, the properties, and the calls of filters,
  destructuring policies, sinks and audit sinks.  After the levels have been
  read nothing is declared any more, so all calls are bound with the same
  declared switches.

  * `Binder.Plans` : a step that is the fate of an entry of a section;
  * `Binder.Layout` : the parts of a plan (`Binder.layout_of_plan`).
-/
import LogBinder.Proofs.Binding.Conservation
import LogBinder.Proofs.Binding.Levels

namespace LogBinder

open Run (Returns returns_bind returns_pure returns_lift returns_throw returns_get)

/-! ## Properties and calls -/

namespace Run

variable {n : Node} {s t : Session}

theorem threaded_properties {es : List Node} {steps : List Step}
    (h : Threaded (fun e => Returns (propertyStep e)) es s steps t) :
    t = s ∧ List.Forall₂ (fun e step => ∃ text, e.form = .ok (.scalar text) ∧
      step = .property e.key (s.host.environment.expand text)) es steps := by
  induction h with
  | nil s => exact ⟨rfl, .nil⟩
  | @cons e es step steps s i t hstep _ ih =>
    rw [propertyStep, returns_bind] at hstep
    obtain ⟨shape, s₁, hshape, hstep⟩ := hstep
    obtain ⟨hform, rfl⟩ := returns_lift.1 hshape
    cases shape with
    | structured => exact absurd hstep returns_throw
    | scalar text =>
      rw [returns_bind] at hstep
      obtain ⟨u, s₂, hu, hstep⟩ := hstep
      obtain ⟨rfl, rfl⟩ := returns_get.1 hu
      obtain ⟨rfl, rfl⟩ := returns_pure.1 hstep
      obtain ⟨rfl, hrest⟩ := ih
      exact ⟨rfl, .cons ⟨text, hform, rfl⟩ hrest⟩

/-- Reading properties changes nothing, and there is a step for every entry. -/
theorem steps_of_properties {steps : List Step} (h : Returns (properties n) s steps t) :
    t = s ∧ List.Forall₂ (fun e step => ∃ text, e.form = .ok (.scalar text) ∧
      step = .property e.key (s.host.environment.expand text))
        (n.child propertiesName).children steps :=
  threaded_properties (threaded_of_properties h)

end Run

namespace Binder

variable {b : Binder} {capability : Capability} {n : Node} {s t : Session}

/-- Reading directives declares nothing, and every step is the fate of an entry. -/
theorem steps_of_phase {steps : List Step} (h : Returns (b.phase n capability) s steps t) :
    t.registry = s.registry ∧ t.host = s.host ∧ ∀ step ∈ steps,
      ∃ e ∈ (n.child capability.sectionName).children, ∃ f : Fate,
        b.Befalls capability s e f ∧ f.step? = some step := by
  have hresolution := resolution_of_directives b capability (n.child capability.sectionName) s
  rw [show b.directives capability (n.child capability.sectionName) s = _ from h] at hresolution
  cases hresolution with
  | @done fates next _ hfates =>
    refine ⟨rfl, rfl, fun step hstep => ?_⟩
    obtain ⟨f, hf, hstep⟩ := List.mem_filterMap.1 hstep
    obtain ⟨e, he, hbefalls⟩ := exists_of_forall₂ hfates hf
    exact ⟨e, he, f, hbefalls, hstep⟩

/-- A step that is the fate of an entry calls the method that was chosen for the directive there. -/
theorem call_of_befalls {e : Node} {f : Fate} {step : Step} (h : b.Befalls capability s e f)
    (hstep : f.step? = some step) : ∃ d m c i j, Directive.ofNode e = .ok d ∧
      Overload.select (b.candidates capability) d.name capability d.supplied = some m ∧
      Fresh.Yields (Call.bind (b.scope s) d m) i c j ∧ step = .call c d.path := by
  obtain ⟨i, j, hf⟩ := h.yields
  rw [fate, Fresh.yields_bind] at hf
  obtain ⟨d, l, hnode, hf⟩ := hf
  obtain ⟨hd, rfl⟩ := Fresh.yields_lift.1 hnode
  unfold settle at hf
  split at hf
  · next m hm =>
    obtain ⟨c, l, hc, hf⟩ := Fresh.yields_bind.1 hf
    obtain ⟨rfl, rfl⟩ := Fresh.yields_pure.1 hf
    cases hstep
    exact ⟨d, m, c, _, _, hd, hm, hc, rfl⟩
  · obtain ⟨rfl, rfl⟩ := Fresh.yields_pure.1 hf
    cases hstep

end Binder

/-! ## Parts -/

namespace Binder

variable {b : Binder} {n : Node} {s t : Session} {p : Plan}

/-- A step was planned for an entry of a section of directives, when the declared switches and the
host were those of a session. -/
def Plans (b : Binder) (capability : Capability) (n : Node) (t : Session) (step : Step) : Prop :=
  ∃ e ∈ (n.child capability.sectionName).children, ∃ (u : Session) (f : Fate),
    u.registry = t.registry ∧ u.host = t.host ∧ b.Befalls capability u e f ∧ f.step? = some step

/-- What the parts of a plan are, and where they come from. -/
inductive Layout (b : Binder) (n : Node) (s : Session) : Plan → Session → Prop
  | of {levels filters : List Watch} {minimum : Plan}
      {enrichers properties filtering policies sinks audits : List Step} {s₁ s₂ s₃ t : Session} :
      Returns (Run.declareSwitches b.options n .level) s levels s₁ →
      Returns (Run.declareSwitches b.options n .filter) s₁ filters s₂ →
      Returns (Run.minimumLevels n) s₂ minimum s₃ →
      t.registry = s₃.registry →
      (∀ step ∈ enrichers, b.Plans .enrich n t step) →
      List.Forall₂ (fun e step => ∃ text, e.form = .ok (.scalar text) ∧
        step = .property e.key (t.host.environment.expand text))
          (n.child propertiesName).children properties →
      (∀ step ∈ filtering, b.Plans .filter n t step) →
      (∀ step ∈ policies, b.Plans .destructure n t step) →
      (∀ step ∈ sinks, b.Plans .sink n t step) →
      (∀ step ∈ audits, b.Plans .auditSink n t step) →
      Layout b n s ⟨minimum.steps ++ enrichers ++ properties ++ filtering ++ policies ++ sinks ++
        audits, levels ++ filters ++ minimum.watches⟩ t

theorem plans_of_phase {capability : Capability} {steps : List Step} {u : Session}
    (h : Returns (b.phase n capability) s steps u) (hregistry : t.registry = u.registry)
    (hhost : t.host = u.host) : t.registry = s.registry ∧ t.host = s.host ∧
      ∀ step ∈ steps, b.Plans capability n t step := by
  obtain ⟨hr, hh, hsteps⟩ := steps_of_phase h
  have hr := hregistry.trans hr
  have hh := hhost.trans hh
  refine ⟨hr, hh, fun step hstep => ?_⟩
  obtain ⟨e, he, f, hbefalls, hf⟩ := hsteps step hstep
  exact ⟨e, he, s, f, hr.symm, hh.symm, hbefalls, hf⟩

theorem layout_of_plan (h : Returns (b.plan n) s p t) : b.Layout n s p t := by
  cases stages_of_plan h with
  | of hlevels hfilters hminimum henrichers hproperties hfiltering hpolicies hsinks haudits =>
    -- Nothing is declared any more after the minimum levels, so we go back from the end.
    obtain ⟨hr, hh, haudits⟩ := plans_of_phase haudits rfl rfl
    obtain ⟨hr, hh, hsinks⟩ := plans_of_phase hsinks hr hh
    obtain ⟨hr, hh, hpolicies⟩ := plans_of_phase hpolicies hr hh
    obtain ⟨hr, hh, hfiltering⟩ := plans_of_phase hfiltering hr hh
    obtain ⟨rfl, hproperties⟩ := Run.steps_of_properties hproperties
    rw [← hh] at hproperties
    obtain ⟨hr, hh, henrichers⟩ := plans_of_phase henrichers hr hh
    exact .of hlevels hfilters hminimum hr henrichers hproperties hfiltering hpolicies hsinks
      haudits

theorem not_isLevel_of_plans {capability : Capability} {step : Step}
    (h : b.Plans capability n t step) : ¬ step.isLevel = true := by
  obtain ⟨e, he, u, f, -, -, hbefalls, hf⟩ := h
  obtain ⟨_, _, _, _, _, -, -, -, rfl⟩ := call_of_befalls hbefalls hf
  exact Bool.false_ne_true

/-- The level steps of a plan are those of the minimum levels, and its calls those of entries. -/
theorem Layout.steps_cases (h : b.Layout n s p t) :
    ∃ levels filters minimum s₁ s₂ s₃,
      Returns (Run.declareSwitches b.options n .level) s levels s₁ ∧
      Returns (Run.declareSwitches b.options n .filter) s₁ filters s₂ ∧
      Returns (Run.minimumLevels n) s₂ minimum s₃ ∧ t.registry = s₃.registry ∧
      p.watches = levels ++ filters ++ minimum.watches ∧
      p.steps.filter Step.isLevel = minimum.steps ∧
      ∀ call path, .call call path ∈ p.steps →
        ∃ capability, b.Plans capability n t (.call call path) := by
  cases h with
  | @of levels filters minimum _ properties _ _ _ _ s₁ s₂ s₃ _ hlevels hfilters hminimum hregistry
      henrichers hproperties hfiltering hpolicies hsinks haudits =>
    refine ⟨levels, filters, minimum, s₁, s₂, s₃, hlevels, hfilters, hminimum, hregistry, rfl, ?_,
      ?_⟩
    · have hlevel : ∀ step ∈ minimum.steps, step.isLevel = true := by
        intro step hstep
        obtain ⟨src, -, hdrawn⟩ :=
          exists_of_forall₂ (Run.draws_minimumLevels hminimum).2.steps hstep
        cases hdrawn <;> rw [LevelSource.step] <;> split <;> rfl
      have hother : ∀ {capability : Capability} {steps : List Step},
          (∀ step ∈ steps, b.Plans capability n t step) → steps.filter Step.isLevel = [] :=
        fun hsteps => List.filter_eq_nil_iff.2 fun step hstep =>
          not_isLevel_of_plans (hsteps step hstep)
      have hproperties : properties.filter Step.isLevel = [] := by
        rw [List.filter_eq_nil_iff]
        intro step hstep
        obtain ⟨e, -, text, -, rfl⟩ := exists_of_forall₂ hproperties hstep
        exact Bool.false_ne_true
      simp only [List.filter_append, List.filter_eq_self.2 hlevel, hother henrichers, hproperties,
        hother hfiltering, hother hpolicies, hother hsinks, hother haudits, List.append_nil]
    · intro call path hstep
      simp only [List.mem_append] at hstep
      rcases hstep with (((((hstep | hstep) | hstep) | hstep) | hstep) | hstep) | hstep
      · have hplain := (Run.watching_minimumLevels hminimum).isPlain _ hstep
        exact hplain.elim
      · exact ⟨_, henrichers _ hstep⟩
      · obtain ⟨e, -, text, -, hproperty⟩ := exists_of_forall₂ hproperties hstep
        cases hproperty
      · exact ⟨_, hfiltering _ hstep⟩
      · exact ⟨_, hpolicies _ hstep⟩
      · exact ⟨_, hsinks _ hstep⟩
      · exact ⟨_, haudits _ hstep⟩

end Binder

end LogBinder
