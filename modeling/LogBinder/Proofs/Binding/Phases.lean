/-
  Log binder — phases and the order of sections.

  A plan reads its nine sections by name, in a fixed order.  So only what
  stands in these sections matters, not where they stand in the document, how
  their keys are written or what else is there; and the steps of a plan come
  phase by phase.

  * `Step.Like`, `Watch.Like`, `Plan.Like` : plans that do the same;
  * `Plan.IsPhased` : the steps come phase by phase;
  * `Binder.plan_of_sections` : sections with the same contents have plans
    that do the same, and every plan is in phases.
-/
import LogBinder.Proofs.Binding.Layout
import LogBinder.Proofs.Binding.Twins

namespace LogBinder

open Run (Returns)

/-! ## Plans that do the same -/

/-- Two steps do the same, up to the identities of what was made for them. -/
inductive Step.Like (N : Node → Node → Prop) : Step → Step → Prop
  | same (step : Step) : Like N step step
  | call {c c' : Call} (h : c.Like N c') (path : String) : Like N (.call c path) (.call c' path)

/-- Two watches are of the same switch, at places that match. -/
inductive Watch.Like : Watch → Watch → Prop
  | level (label : String) (cell : Nat) (declared : Bool) {n n' : Node} (h : n.Matches n') :
      Like (.level label cell n declared) (.level label cell n' declared)
  | filter (label : String) (cell : Nat) {n n' : Node} (h : n.Matches n') :
      Like (.filter label cell n) (.filter label cell n')

/-- Two plans have steps that do the same and watch the same switches. -/
structure Plan.Like (N : Node → Node → Prop) (p p' : Plan) : Prop where
  steps : List.Forall₂ (Step.Like N) p.steps p'.steps
  watches : List.Forall₂ Watch.Like p.watches p'.watches

variable {N : Node → Node → Prop}

theorem Step.like_refl (steps : List Step) : List.Forall₂ (Step.Like N) steps steps :=
  List.forall₂_same.2 fun step _ => .same step

theorem Plan.like_empty : Plan.empty.Like N .empty := ⟨.nil, .nil⟩

theorem Plan.Like.append {p p' q q' : Plan} (h : p.Like N p') (h' : q.Like N q') :
    (p.append q).Like N (p'.append q') :=
  ⟨List.rel_append h.steps h'.steps, List.rel_append h.watches h'.watches⟩

theorem Run.like_collect {ps ps' : List Plan} (h : List.Forall₂ (Plan.Like N) ps ps') :
    (collect ps).Like N (collect ps') :=
  collect_of_forall₂ Plan.like_empty .append h

/-! ## Levels and switches -/

theorem LevelText.ofNode_eq {n n' : Node} (h : n.Matches n') : ofNode n = ofNode n' := by
  rw [ofNode, ofNode, h.form_eq, h.path_eq]

namespace Run

variable {top top' n n' : Node}

theorem agree_newLevel (l : Level) : Agree top top' Eq (newLevel l) (newLevel l) := by
  refine agree_modifyGet fun s s' hs => ⟨?_, ?_⟩
  · rw [Session.addLevel, Session.addLevel, hs.levels]
  · exact { hs with levels := congrArg (· ++ [l]) hs.levels }

theorem agree_newFilter (expression : String) :
    Agree top top' Eq (newFilter expression) (newFilter expression) := by
  refine agree_modifyGet fun s s' hs => ⟨?_, ?_⟩
  · rw [Session.addFilter, Session.addFilter, hs.filters]
  · exact { hs with filters := congrArg (· ++ [Filter.normal (some expression)]) hs.filters }

theorem agree_tell (d : Diagnostic) :
    Agree top top' (fun _ _ => True) (modify (Session.tell d)) (modify (Session.tell d)) :=
  agree_modify fun _ _ hs => { hs with diagnostics := congrArg (· ++ [d]) hs.diagnostics }

theorem agree_declare (kind : SwitchKind) (name : String) (cell : Nat) (path : String) :
    Agree top top' Eq (declare kind name cell path) (declare kind name cell path) := by
  refine agree_bind_lift _ fun canonical => ?_
  refine agree_bind (agree_modify fun s s' hs => ?_) fun _ _ _ => agree_pure rfl
  have hput : ({ s with registry := s.registry.put kind canonical cell } : Session).Twins top top'
      { s' with registry := s'.registry.put kind canonical cell } :=
    { hs with registry := congrArg (·.put kind canonical cell) hs.registry }
  unfold Session.declare
  rw [hs.registry] at hput ⊢
  split
  · exact { hput with diagnostics := congrArg (· ++ [_]) hs.diagnostics }
  · exact hput

/-- Looking up a reference gives the same cell. -/
theorem agree_cell (kind : SwitchKind) (reference path : String) {f f' : Nat → Run Plan}
    (hf : ∀ cell, Agree top top' (Plan.Like N) (f cell) (f' cell)) :
    Agree top top' (Plan.Like N)
      (do let s ← get; let cell ← s.registry.cell kind reference path; f cell)
      (do let s ← get; let cell ← s.registry.cell kind reference path; f' cell) := by
  refine agree_bind agree_get fun s s' hs => ?_
  rw [hs.registry]
  exact agree_bind_lift _ hf

theorem agree_levelPlan (h : n.Matches n') (label : String) (step : Nat → Step) :
    Agree top top' (Plan.Like N) (levelPlan n label step) (levelPlan n' label step) := by
  unfold levelPlan levelTarget
  simp only [LevelText.ofNode_eq h, h.path_eq, bind_assoc]
  refine agree_bind_lift _ fun text => ?_
  split
  · exact agree_pure Plan.like_empty
  · split
    · simp only [bind_assoc, pure_bind]
      exact agree_cell _ _ _ fun cell => agree_pure ⟨Step.like_refl _, .nil⟩
    · simp only [bind_assoc, pure_bind]
      refine agree_bind_lift _ fun l => agree_bind_eq (agree_newLevel l) fun cell => ?_
      exact agree_pure ⟨Step.like_refl _, .cons (.level label cell false h) .nil⟩

theorem agree_controlPlan (h : n.Matches n') :
    Agree top top' (Plan.Like N) (controlPlan n) (controlPlan n') := by
  unfold controlPlan
  rw [LevelText.ofNode_eq h, h.path_eq]
  refine agree_bind_lift _ fun text => ?_
  split
  · exact agree_pure Plan.like_empty
  · exact agree_cell _ _ _ fun cell => agree_pure ⟨Step.like_refl _, .nil⟩

theorem agree_ifPresent {plan : Node → Run Plan} (h : n.Matches n')
    (hplan : Agree top top' (Plan.Like N) (plan n) (plan n')) :
    Agree top top' (Plan.Like N) (ifPresent n plan) (ifPresent n' plan) := by
  unfold ifPresent
  rw [h.isPresent_eq]
  split
  · exact hplan
  · exact agree_pure Plan.like_empty

theorem agree_levelSection (h : n.Matches n') :
    Agree top top' (Plan.Like N) (levelSection n) (levelSection n') := by
  have hdefault := (h.child (show Tree.segments MinimumLevel.defaultKey = _ from rfl)).matches
  have hcontrol := (h.child (show Tree.segments MinimumLevel.controlKey = _ from rfl)).matches
  have hoverride := (h.child (show Tree.segments MinimumLevel.overrideKey = _ from rfl)).matches
  refine agree_bind (agree_ifPresent (N := N) hdefault (agree_levelPlan hdefault _ _))
    fun w w' hw => ?_
  refine agree_bind (agree_ifPresent (N := N) hcontrol (agree_controlPlan hcontrol))
    fun c c' hc => ?_
  refine agree_bind (agree_lift hoverride.agree_entries) fun es es' hes => ?_
  refine agree_bind (agree_mapM hes fun e e' he => ?_) fun qs qs' hqs =>
    agree_pure (like_collect (.cons hw (.cons hc hqs)))
  unfold overridePlan
  rw [he.key_eq]
  exact agree_levelPlan he.matches _ _

theorem agree_minimumLevels
    (h : (n.child MinimumLevel.sectionName).Matches (n'.child MinimumLevel.sectionName)) :
    Agree top top' (Plan.Like N) (minimumLevels n) (minimumLevels n') := by
  refine agree_ifPresent h ?_
  rw [h.form_eq]
  refine agree_bind_lift _ fun shape => ?_
  cases shape with
  | scalar text => exact agree_levelPlan h _ _
  | structured => exact agree_levelSection h

theorem agree_declareSwitches {kind : SwitchKind} (o : Options)
    (h : (n.child kind.sectionName).Matches (n'.child kind.sectionName)) :
    Agree top top' (List.Forall₂ Watch.Like) (declareSwitches o n kind)
      (declareSwitches o n' kind) := by
  refine agree_bind (agree_lift h.agree_entries) fun es es' hes => ?_
  refine agree_mapM hes fun e e' he => ?_
  cases kind with
  | level =>
    dsimp only
    unfold declareLevel LevelText.declared
    rw [LevelText.ofNode_eq he.matches, he.key_eq, he.path_eq]
    refine agree_bind_lift _ fun l => agree_bind_eq (agree_newLevel l) fun cell => ?_
    refine agree_bind_eq (agree_declare _ _ _ _) fun label => ?_
    exact agree_pure (.level label cell true he.matches)
  | filter =>
    dsimp only
    unfold declareFilter filterText
    rw [he.form_eq, he.key_eq, he.path_eq]
    refine agree_bind_lift _ fun text => agree_bind_eq (agree_newFilter text) fun cell => ?_
    refine agree_bind_eq (agree_declare _ _ _ _) fun label => ?_
    exact agree_pure (.filter label cell he.matches)

theorem agree_properties (h : (n.child propertiesName).Matches (n'.child propertiesName)) :
    Agree top top' (List.Forall₂ (Step.Like N)) (properties n) (properties n') := by
  refine agree_bind (agree_lift h.agree_entries) fun es es' hes => ?_
  refine agree_mapM hes fun e e' he => ?_
  unfold propertyStep
  rw [he.form_eq, he.key_eq, he.path_eq]
  refine agree_bind_lift _ fun shape => ?_
  cases shape with
  | scalar text =>
    refine agree_bind agree_get fun s s' hs => ?_
    rw [hs.environment]
    exact agree_pure (.same _)
  | structured => exact agree_throw _

end Run

/-! ## Directives and plans -/

/-- Sections that match hold directives that are alike, or are malformed alike. -/
theorem Directive.agree_ofSection {n n' : Node} (h : n.Matches n') :
    Except.Agree (List.Forall₂ Like) (ofSection n) (ofSection n') :=
  h.agree_entries.bind fun _ _ hes => .mapM hes fun _ _ he => agree_ofNode he

theorem Step.like_reduceOption {os os' : List (Option Step)}
    (h : List.Forall₂ (Option.Rel (Step.Like N)) os os') :
    List.Forall₂ (Step.Like N) os.reduceOption os'.reduceOption :=
  List.rel_filterMap (fun _ _ ho => ho) h

namespace Binder

open Run (Agree agree_pure agree_lift agree_bind agree_mapM agree_converted agree_tell)

variable {b : Binder} {top top' n n' : Node}

theorem agree_directive (capability : Capability) {d d' : Directive} (h : d.Like d') :
    Agree top top' (Option.Rel (Step.Like (Node.LikeOr top top')))
      (b.directive capability (b.candidates capability) d)
      (b.directive capability (b.candidates capability) d') := by
  unfold directive
  rw [← h.name, ← h.supplied_eq, ← h.path]
  split
  · next m _ =>
    refine agree_bind (agree_converted fun s s' hs => ?_) fun c c' hc =>
      agree_pure (.some (.call hc _))
    rw [b.scope_twins hs]
    exact Call.agree_bind (b.application_twins hs) (fun _ _ => .inl) h m
  · exact agree_bind (agree_tell _) fun _ _ _ => agree_pure .none

/-- Sections with directives that are alike have steps that do the same. -/
theorem agree_directives (capability : Capability) (hpresent : n.isPresent = n'.isPresent)
    (h : Except.Agree (List.Forall₂ Directive.Like) (Directive.ofSection n)
      (Directive.ofSection n')) :
    Agree top top' (List.Forall₂ (Step.Like (Node.LikeOr top top'))) (b.directives capability n)
      (b.directives capability n') := by
  unfold directives
  rw [hpresent]
  split
  · refine agree_bind (agree_lift h) fun ds ds' hds => ?_
    exact agree_bind (agree_mapM hds fun d d' hd => agree_directive capability hd)
      fun os os' hos => agree_pure (Step.like_reduceOption hos)
  · exact agree_pure .nil

theorem agree_phase (capability : Capability)
    (h : (n.child capability.sectionName).Matches (n'.child capability.sectionName)) :
    Agree top top' (List.Forall₂ (Step.Like (Node.LikeOr top top'))) (b.phase n capability)
      (b.phase n' capability) :=
  agree_directives capability h.isPresent_eq (Directive.agree_ofSection h)

/-- Sections whose phases match have plans that do the same. -/
theorem agree_plan (b : Binder)
    (h : ∀ name ∈ sectionNames, (n.child name).Matches (n'.child name)) :
    Agree top top' (Plan.Like (Node.LikeOr top top')) (b.plan n) (b.plan n') := by
  refine agree_bind (Run.agree_declareSwitches b.options (h _ (by decide))) fun ls ls' hls => ?_
  refine agree_bind (Run.agree_declareSwitches b.options (h _ (by decide))) fun fs fs' hfs => ?_
  refine agree_bind (Run.agree_minimumLevels (N := Node.LikeOr top top') (h _ (by decide)))
    fun m m' hm => ?_
  refine agree_bind (agree_phase .enrich (h _ (by decide))) fun en en' hen => ?_
  refine agree_bind (Run.agree_properties (N := Node.LikeOr top top') (h _ (by decide)))
    fun pr pr' hpr => ?_
  refine agree_bind (agree_phase .filter (h _ (by decide))) fun fi fi' hfi => ?_
  refine agree_bind (agree_phase .destructure (h _ (by decide))) fun de de' hde => ?_
  refine agree_bind (agree_phase .sink (h _ (by decide))) fun si si' hsi => ?_
  refine agree_bind (agree_phase .auditSink (h _ (by decide))) fun au au' hau => ?_
  refine agree_pure ⟨?_, List.rel_append (List.rel_append hls hfs) hm.watches⟩
  exact List.rel_append (List.rel_append (List.rel_append (List.rel_append
    (List.rel_append (List.rel_append hm.steps hen) hpr) hfi) hde) hsi) hau

end Binder

/-! ## Phases -/

/-- A step calls a method of a capability, for an entry of the section of that capability which
names it. -/
def Step.IsCallFor (n : Node) (capability : Capability) (step : Step) : Prop :=
  ∃ e ∈ (n.child capability.sectionName).children, ∃ c : Call, step = .call c e.path ∧
    c.method.capability = capability ∧ c.method.name = Directive.nameText e

/-- The steps of a plan come phase by phase. -/
inductive Plan.IsPhased (n : Node) : Plan → Prop
  | of {minimums overrides enrichers properties filtering policies sinks audits : List Step}
      {watches : List Watch} :
      (∀ step ∈ minimums, ∃ cell, step = .minimumLevel cell) →
      (∀ step ∈ overrides, ∃ name cell, step = .levelOverride name cell) →
      (∀ step ∈ enrichers, step.IsCallFor n .enrich) →
      (∀ step ∈ properties, ∃ name value, step = .property name value) →
      (∀ step ∈ filtering, step.IsCallFor n .filter) →
      (∀ step ∈ policies, step.IsCallFor n .destructure) →
      (∀ step ∈ sinks, step.IsCallFor n .sink) →
      (∀ step ∈ audits, step.IsCallFor n .auditSink) →
      IsPhased n ⟨minimums ++ overrides ++ enrichers ++ properties ++ filtering ++ policies ++
        sinks ++ audits, watches⟩

/-- The places of minimum levels are first those for all events, then those for some. -/
theorem MinimumLevel.places_eq (m : Node) : ∃ whole some, places m = whole ++ some ∧
    (∀ src ∈ whole, src.events = none) ∧ ∀ src ∈ some, ∃ name, src.events = .some name := by
  unfold places
  split
  · exact ⟨[_], [], rfl, by simp, nofun⟩
  · refine ⟨_, _, rfl, by simp, fun src hsrc => ?_⟩
    obtain ⟨e, -, rfl⟩ := List.mem_map.1 hsrc
    exact ⟨e.key, rfl⟩

namespace Plan

variable {r : Registry} {places : List LevelSource} {q : Plan} {m : Node}

/-- Of the steps for minimum levels, those for all events come first. -/
theorem Draws.steps_eq (h : q.Draws r (MinimumLevel.places m)) :
    ∃ minimums overrides, q.steps = minimums ++ overrides ∧
      (∀ step ∈ minimums, ∃ cell, step = .minimumLevel cell) ∧
      ∀ step ∈ overrides, ∃ name cell, step = .levelOverride name cell := by
  obtain ⟨whole, some, hplaces, hwhole, hsome⟩ := MinimumLevel.places_eq m
  have hsteps := h.steps
  rw [hplaces, List.filter_append] at hsteps
  obtain ⟨minimums, overrides, hq, hminimums, hoverrides⟩ := exists_append_of_forall₂ hsteps
  refine ⟨minimums, overrides, hq, fun step hstep => ?_, fun step hstep => ?_⟩
  · obtain ⟨src, hsrc, hdrawn⟩ := exists_of_forall₂ hminimums hstep
    have hevents := hwhole src (List.mem_filter.1 hsrc).1
    cases hdrawn <;> exact ⟨_, by rw [LevelSource.step, hevents]⟩
  · obtain ⟨src, hsrc, hdrawn⟩ := exists_of_forall₂ hoverrides hstep
    obtain ⟨name, hevents⟩ := hsome src (List.mem_filter.1 hsrc).1
    cases hdrawn <;> exact ⟨name, _, by rw [LevelSource.step, hevents]⟩

end Plan

namespace Binder

variable {b : Binder} {n n' : Node} {s s' t : Session} {p : Plan}

theorem isCallFor_of_plans {capability : Capability} {step : Step}
    (h : b.Plans capability n t step) : step.IsCallFor n capability := by
  obtain ⟨e, he, u, f, -, -, hbefalls, hf⟩ := h
  cases hbefalls.isOf with
  | @called c hname hcapability =>
    cases hf
    exact ⟨e, he, c, rfl, hcapability, hname⟩
  | unmatched => cases hf

theorem isPhased_of_plan (h : Returns (b.plan n) s p t) : p.IsPhased n := by
  cases layout_of_plan h with
  | of _ _ hminimum _ henrichers hproperties hfiltering hpolicies hsinks haudits =>
    obtain ⟨minimums, overrides, hsteps, hminimums, hoverrides⟩ :=
      (Run.draws_minimumLevels hminimum).2.steps_eq
    have hcalls : ∀ {capability : Capability} {steps : List Step},
        (∀ step ∈ steps, b.Plans capability n t step) →
          ∀ step ∈ steps, step.IsCallFor n capability :=
      fun hplans step hstep => isCallFor_of_plans (hplans step hstep)
    rw [hsteps]
    refine .of hminimums hoverrides (hcalls henrichers) ?_ (hcalls hfiltering) (hcalls hpolicies)
      (hcalls hsinks) (hcalls haudits)
    intro step hstep
    obtain ⟨e, -, text, -, rfl⟩ := exists_of_forall₂ hproperties hstep
    exact ⟨_, _, rfl⟩

/-- **Only the contents of the sections matter, and the phases have an order.**  If the nine
sections of two places with the same path have the same contents, then planning the two places in
sessions that are otherwise twins ends with the same error, or with plans that do the same, and the
same is told.  The steps of every plan come phase by phase. -/
theorem plan_of_sections (b : Binder) :
    (∀ (n n' : Node) (s s' : Session), n.segments = n'.segments →
      (∀ name ∈ sectionNames, (n.child name).contents = (n'.child name).contents) →
      s.Twins s.root.top s'.root.top s' →
      Except.Agree (Plan.Like (Node.LikeOr s.root.top s'.root.top)) (b.plan n s).1
        (b.plan n' s').1 ∧
      (b.plan n s).2.Twins s.root.top s'.root.top (b.plan n' s').2) ∧
    ∀ n p s t, Returns (b.plan n) s p t → p.IsPhased n := by
  refine ⟨fun n n' s s' hsegments hcontents hs => ?_, fun n p s t h => isPhased_of_plan h⟩
  refine agree_plan b (fun name hname => ⟨?_, hcontents name hname⟩) s s' hs
  rw [Node.child, Node.child, hsegments]

end Binder

/-! ## A section that is written in another order -/

namespace Sample

/-- A section with a switch, a level, a property and a sink. -/
def orderedRoot : Root Watcher := listedRoot
  [⟨"Logging:LevelSwitches:$low", some "Debug"⟩, ⟨"Logging:MinimumLevel:ControlledBy", some "$low"⟩,
   ⟨"Logging:Properties:App", some "demo"⟩, ⟨"Logging:WriteTo:0", some "Console"⟩]

/-- The same in another order and spelling, amid other keys. -/
def shuffledRoot : Root Watcher := listedRoot
  [⟨"Other", some "x"⟩, ⟨"logging:WRITETO:0", some "Console"⟩, ⟨"Logging:extra:1", some "y"⟩,
   ⟨"Logging:properties:App", some "demo"⟩, ⟨"Logging:minimumLevel:ControlledBy", some "$low"⟩,
   ⟨"Logging:levelSwitches:$low", some "Debug"⟩]

/-- The two sections have plans that do the same, in phases. -/
theorem plan_of_sections_shuffled :
    Except.Agree (Plan.Like (Node.LikeOr orderedRoot.top shuffledRoot.top))
      (themedBinder.plan (orderedRoot.node "Logging") (.start ⟨[], []⟩ orderedRoot)).1
      (themedBinder.plan (shuffledRoot.node "Logging") (.start ⟨[], []⟩ shuffledRoot)).1 ∧
    ∃ p t, Returns (themedBinder.plan (orderedRoot.node "Logging")) (.start ⟨[], []⟩ orderedRoot)
      p t ∧ p.steps.length = 3 ∧ p.IsPhased (orderedRoot.node "Logging") := by
  obtain ⟨hagree, hphased⟩ := themedBinder.plan_of_sections
  constructor
  · have hcontents : ∀ name ∈ Binder.sectionNames,
        ((orderedRoot.node "Logging").child name).contents =
          ((shuffledRoot.node "Logging").child name).contents := by
      decide +kernel
    have hsegments : (orderedRoot.node "Logging").segments =
        (shuffledRoot.node "Logging").segments := by
      simp only [Root.node, Node.ofPath]
    have htwins : (Session.start ⟨[], []⟩ orderedRoot).Twins orderedRoot.top shuffledRoot.top
        (.start ⟨[], []⟩ shuffledRoot) :=
      ⟨rfl, rfl, rfl, rfl, rfl, rfl, rfl⟩
    exact (hagree _ _ (.start ⟨[], []⟩ orderedRoot) (.start ⟨[], []⟩ shuffledRoot) hsegments
      hcontents htwins).1
  · have hok : (themedBinder.plan (orderedRoot.node "Logging")
        (.start ⟨[], []⟩ orderedRoot)).1.isOk = true := by
      decide +kernel
    have hreturns := Run.returns_of_isOk hok .empty
    exact ⟨_, _, hreturns, by decide +kernel, hphased _ _ _ _ hreturns⟩

end Sample

end LogBinder
