/-
  Log binder — application is all or nothing, up to calls that fail.

  A builder is given nothing of a section that cannot be planned.  Otherwise
  it is given the steps of the plan one by one, until it fails one of its
  calls.  Only when it has accepted all of them is the host told of the
  declared switches, and only then do the switches follow their entries.  A
  callback configures its section in the same way, so a nested builder is
  given nothing either unless that whole section has been planned.

  * `Receiver.take`, `Receiver.Accepts` : a builder is given one step, and
    accepts steps one after the other;
  * `Binder.Delivers` : how configuring a section ends for a builder;
  * `Plan.Tells` : what the host is told of the switches of a plan;
  * `Binder.Receives` : the same for a builder without a memory, by what it
    has received;
  * `Binder.delivered` : so it is at the top and in all callbacks.
-/
import LogBinder.Proofs.Binding.Termination

namespace LogBinder

open Run (Returns returns_bind returns_pure returns_lift)

variable {σ : Type}

/-! ## Calls that fail -/

/-- The errors of a call of a method: the builder rejects it, or it fails as a nested callback
did. -/
inductive ResolveError.Reports (signature : String) : ResolveError → Prop
  | rejected (reason : String) : Reports signature (.rejected signature reason)
  | nested (cause : ResolveError) : Reports signature (.nested signature cause)

/-- A call fails with nothing but an error of its method. -/
theorem Reaction.reports_of_perform {r : Reaction σ} {signature : String}
    {invoke : Value → σ → StateM Session (Outcome σ Unit)} {s t : Session} {e : ResolveError}
    {after : σ} (h : r.perform signature invoke s = ((.error e, after), t)) :
    e.Reports signature := by
  induction r generalizing s with
  | accept memory => cases h
  | refuse memory reason =>
    cases h
    exact .rejected reason
  | fail memory cause =>
    cases h
    exact .nested cause
  | note event rest ih => exact ih h
  | run argument v memory rest ih =>
    rw [perform, Outcome.bind_apply] at h
    exact ih _ _ h

/-! ## Steps one by one -/

namespace Receiver

variable (R : Receiver σ) (invoke : Value → σ → StateM Session (Outcome σ Unit))

/-- The builder is given one step after others. -/
def take (received : List Step) : Step → σ → StateM Session (Outcome σ Unit)
  | .call c path, memory => (R.react received c path memory).perform c.method.signature invoke
  | step, memory => do
    modify (Session.receive (.step step))
    return (.ok (), R.observe received step memory)

/-- The builder is given steps after others, one after the other, and accepts each of them. -/
inductive Accepts : List Step → List Step → σ → Session → σ → Session → Prop
  | nil {received : List Step} {memory : σ} {s : Session} :
      Accepts received [] memory s memory s
  | cons {received rest : List Step} {step : Step} {memory after last : σ} {s t u : Session} :
      R.take invoke received step memory s = ((.ok (), after), t) →
      Accepts (received ++ [step]) rest after t last u →
      Accepts received (step :: rest) memory s last u

variable {R invoke} {received : List Step} {memory : σ} {s : Session}

theorem serve_cons (step : Step) (rest : List Step) :
    R.serve invoke received (step :: rest) memory =
      Outcome.andThen (R.take invoke received step memory) fun _ after =>
        R.serve invoke (received ++ [step]) rest after := by
  cases step <;> rfl

theorem reports_of_take {step : Step} {e : ResolveError} {after : σ} {t : Session}
    (h : R.take invoke received step memory s = ((.error e, after), t)) :
    ∃ c path, step = .call c path ∧ e.Reports c.method.signature := by
  cases step with
  | call c path => exact ⟨c, path, rfl, Reaction.reports_of_perform h⟩
  | _ => cases h

/-- A builder accepts all steps, or it accepts some and fails the call that follows. -/
theorem serve_cases (received steps : List Step) (memory : σ) (s : Session) :
    (∃ after t, R.Accepts invoke received steps memory s after t ∧
      R.serve invoke received steps memory s = ((.ok (), after), t)) ∨
    ∃ before c path rest after t e last u, steps = before ++ .call c path :: rest ∧
      R.Accepts invoke received before memory s after t ∧
      R.take invoke (received ++ before) (.call c path) after t = ((.error e, last), u) ∧
      e.Reports c.method.signature ∧
      R.serve invoke received steps memory s = ((.error e, last), u) := by
  induction steps generalizing received memory s with
  | nil => exact .inl ⟨memory, s, .nil, rfl⟩
  | cons step rest ih =>
    rw [serve_cons, Outcome.andThen, Outcome.bind_apply]
    rcases htake : R.take invoke received step memory s with ⟨⟨_ | _, after⟩, t⟩
    · next e =>
      obtain ⟨c, path, rfl, hreports⟩ := reports_of_take htake
      refine .inr ⟨[], c, path, rest, memory, s, e, after, t, rfl, .nil, ?_, hreports, rfl⟩
      rwa [List.append_nil]
    · rcases ih (received ++ [step]) after t with
        ⟨last, u, haccepts, hserve⟩ |
        ⟨before, c, path, rest, last, u, e, final, v, rfl, haccepts, hfails, hreports, hserve⟩
      · exact .inl ⟨last, u, .cons htake haccepts, hserve⟩
      · refine .inr ⟨step :: before, c, path, rest, last, u, e, final, v, rfl,
          .cons htake haccepts, ?_, hreports, hserve⟩
        rwa [List.append_assoc, List.singleton_append] at hfails

end Receiver

/-! ## Sections -/

namespace Binder

/-- How configuring a section as a callback of a kind does ends for a builder, given how callbacks
are run. -/
inductive Delivers (b : Binder) (R : Receiver σ)
    (invoke : Value → σ → StateM Session (Outcome σ Unit)) (kind : CallbackKind) (n : Node)
    (memory : σ) (s : Session) : Outcome σ (List Nat) × Session → Prop
  | unplanned {e : ResolveError} {t : Session} (hplan : b.planOf kind n s = (.error e, t))
      (hevents : t.events = s.events) : Delivers b R invoke kind n memory s ((.error e, memory), t)
  /-- The builder accepts some steps of the plan and fails the call that follows them; it is given
  no more, and the host is told nothing. -/
  | stopped {p : Plan} {t u v : Session} {before rest : List Step} {c : Call} {path : String}
      {after last : σ} {e : ResolveError} (hplan : Returns (b.planOf kind n) s p t)
      (hevents : t.events = s.events) (hsteps : p.steps = before ++ .call c path :: rest)
      (haccepts : R.Accepts invoke [] before memory t after u)
      (hfails : R.take invoke before (.call c path) after u = ((.error e, last), v))
      (hreports : e.Reports c.method.signature) :
      Delivers b R invoke kind n memory s ((.error e, last), v)
  | completed {p : Plan} {t u : Session} {after : σ} (hplan : Returns (b.planOf kind n) s p t)
      (hevents : t.events = s.events) (haccepts : R.Accepts invoke [] p.steps memory t after u) :
      Delivers b R invoke kind n memory s
        ((.ok (List.range' u.root.nextId p.watches.length), after),
          Watch.begun b.options p.watches u)

variable {b : Binder} {R : Receiver σ} {invoke : Value → σ → StateM Session (Outcome σ Unit)}
  {kind : CallbackKind} {n : Node} {memory : σ} {s : Session}

theorem delivers_configureWithFor :
    b.Delivers R invoke kind n memory s (b.configureWithFor R kind n invoke memory s) := by
  have hevents := (drafts_planOf (b := b) kind n).events s
  rw [configureWithFor, Outcome.andThen, Outcome.bind_apply, Run.beside_apply]
  rcases hplan : b.planOf kind n s with ⟨_ | p, t⟩
  · rw [hplan] at hevents
    exact .unplanned hplan hevents
  · rw [hplan] at hevents
    dsimp only
    rw [Receiver.applyWith, Outcome.andThen, Outcome.bind_apply]
    rcases R.serve_cases [] p.steps memory t with
      ⟨after, u, haccepts, hserve⟩ |
      ⟨before, c, path, rest, after, u, e, last, v, hsteps, haccepts, hfails, hreports, hserve⟩
    · rw [hserve]
      dsimp only
      rw [Run.beside_apply, Watch.returns_mapM_start]
      exact .completed hplan hevents haccepts
    · rw [hserve]
      exact .stopped hplan hevents hsteps haccepts hfails hreports

/-- Callbacks are run as those of a reader are; only one that a catalog holds may do nothing. -/
structure Guards (b : Binder) (R : Receiver σ)
    (invoke : Value → σ → StateM Session (Outcome σ Unit)) : Prop where
  runs : ∀ v memory s, invoke v memory s = b.invokeFor R v memory s ∨
    invoke v memory s = ((.ok (), memory), s)
  spared : R.Spares b.catalog → invoke = b.invokeFor R

/-- Running a callback of a kind is configuring its section. -/
theorem exists_guards (b : Binder) (R : Receiver σ) (kind : CallbackKind) (n : Node) :
    ∃ invoke, b.Guards R invoke ∧
      ∀ memory, b.runFor R kind n memory = b.configureWithFor R kind n invoke memory := by
  by_cases hR : R.Spares b.catalog
  · exact ⟨b.invokeFor R, ⟨fun _ _ _ => .inl rfl, fun _ => rfl⟩, fun memory =>
      congrFun (runFor_eq hR kind n) memory⟩
  · refine ⟨_, ⟨fun v memory s => ?_, fun h => absurd h hR⟩, fun memory => by rw [runFor]⟩
    rw [invokeFor]
    cases v.nested? with
    | none => exact .inr rfl
    | some c =>
      dsimp only
      split
      · exact .inl rfl
      · exact .inr rfl

end Binder

/-- How running a callback ends, by how configuring its section ends. -/
inductive Nested.Ends (c : Nested) :
    Outcome σ (List Nat) × Session → Outcome σ Unit × Session → Prop
  | error {e : ResolveError} {after : σ} {t : Session} :
      Ends c ((.error e, after), t) ((.error e, after), t)
  | ok {ids : List Nat} {after : σ} {t : Session} :
      Ends c ((.ok ids, after), t) ((.ok (), after), c.kept ids t)

theorem Nested.events_kept (c : Nested) (ids : List Nat) (s : Session) :
    (c.kept ids s).events = s.events := by
  rw [kept]
  split <;> rfl

theorem Binder.ends_invokeFor (b : Binder) (R : Receiver σ) {v : Value} {c : Nested}
    (hv : v.nested? = some c) (memory : σ) (s : Session) :
    c.Ends (b.runFor R c.kind c.node memory s) (b.invokeFor R v memory s) := by
  rw [invokeFor, hv]
  dsimp only
  rw [Nested.keepingFor, Outcome.andThen, Outcome.bind_apply]
  rcases b.runFor R c.kind c.node memory s with ⟨⟨_ | ids, after⟩, t⟩
  · exact .error
  · exact .ok

/-! ## What the host is told -/

/-- A watch is that of an entry that declares a switch. -/
inductive Watch.Declares (e : Node) : SwitchKind → Watch → Prop
  | level {cell : Nat} (hname : SwitchName.isValid e.key = true) :
      Declares e .level (.level (SwitchName.canonical e.key) cell e true)
  | filter {cell : Nat} (hname : SwitchName.isValid e.key = true) :
      Declares e .filter (.filter (SwitchName.canonical e.key) cell e)

/-- A watch is that of a place that names a level. -/
def Watch.IsLiteral (w : Watch) : Prop := ∃ label cell n, w = .level label cell n false

/-- Whether the host wants to know of the declared switches of a kind. -/
def Options.announces (o : Options) : SwitchKind → Bool
  | .level => o.announcesLevelSwitches
  | .filter => o.announcesFilterSwitches

/-- What there is to tell of a declared switch. -/
def Watch.declaration (w : Watch) : Event :=
  .declared w.switch.1 (SwitchName.canonical w.node.key) w.switch.2

/-- The watches of a plan are first those of the entries that declare level switches, then those of
the entries that declare filter switches, and then those of levels; the host is told of the declared
switches, if it wants to know. -/
def Plan.Tells (o : Options) (n : Node) (p : Plan) : Prop :=
  ∃ levels filters literals : List Watch, p.watches = levels ++ filters ++ literals ∧
    List.Forall₂ (fun e w => w.Declares e .level)
      (n.child SwitchKind.level.sectionName).children levels ∧
    List.Forall₂ (fun e w => w.Declares e .filter)
      (n.child SwitchKind.filter.sectionName).children filters ∧
    (∀ w ∈ literals, w.IsLiteral) ∧
    p.watches.filterMap (Watch.announcement o) =
      (if o.announces .level then levels.map Watch.declaration else []) ++
        if o.announces .filter then filters.map Watch.declaration else []

namespace Run

variable {o : Options} {n : Node} {s t : Session} {kind : SwitchKind}

theorem label_of_declare {name path label : String} {cell : Nat}
    (h : Returns (declare kind name cell path) s label t) :
    SwitchName.isValid name = true ∧ label = SwitchName.canonical name := by
  rw [declare, returns_bind] at h
  obtain ⟨canonical, s₁, hname, h⟩ := h
  rw [returns_bind] at h
  obtain ⟨_, s₂, -, h⟩ := h
  obtain ⟨rfl, -⟩ := returns_pure.1 h
  have hname := (returns_lift.1 hname).1
  rw [Registry.declaredName] at hname
  split at hname
  · next hvalid =>
    cases hname
    exact ⟨hvalid, rfl⟩
  · cases hname

/-- The watches of declared switches, entry by entry. -/
theorem declares_of_declareSwitches {ws : List Watch}
    (h : Returns (declareSwitches o n kind) s ws t) :
    List.Forall₂ (fun e w => w.Declares e kind) (n.child kind.sectionName).children ws := by
  refine (threaded_of_declareSwitches h).forall₂.imp ?_
  rintro e w ⟨i, j, hw⟩
  cases kind with
  | level =>
    obtain ⟨l, label, -, hlabel, rfl⟩ := declareLevel_cases hw
    obtain ⟨hname, rfl⟩ := label_of_declare hlabel
    exact .level hname
  | filter =>
    obtain ⟨expression, label, -, hlabel, rfl⟩ := declareFilter_cases hw
    obtain ⟨hname, rfl⟩ := label_of_declare hlabel
    exact .filter hname

theorem literal_levelPlan {label : String} {step : Nat → Step} {p : Plan}
    (h : Returns (levelPlan n label step) s p t) : ∀ w ∈ p.watches, w.IsLiteral := by
  intro w hw
  cases levelPlans_of_returns h with
  | blank | reference => cases hw
  | literal =>
    obtain rfl := List.mem_singleton.1 hw
    exact ⟨_, _, _, rfl⟩

theorem literal_ifPresent {plan : Node → Run Plan} {p : Plan}
    (hplan : ∀ {s t}, Returns (plan n) s p t → ∀ w ∈ p.watches, w.IsLiteral)
    (h : Returns (ifPresent n plan) s p t) : ∀ w ∈ p.watches, w.IsLiteral := by
  rw [ifPresent] at h
  split at h
  · exact hplan h
  · obtain ⟨rfl, -⟩ := returns_pure.1 h
    exact fun w hw => absurd hw List.not_mem_nil

theorem literal_controlPlan {p : Plan} (h : Returns (controlPlan n) s p t) :
    ∀ w ∈ p.watches, w.IsLiteral := by
  obtain ⟨-, _, -, ⟨-, rfl⟩ | ⟨-, _, -, rfl⟩⟩ := controlPlan_cases h <;>
    exact fun w hw => absurd hw List.not_mem_nil

theorem literal_levelSection {p : Plan} (h : Returns (levelSection n) s p t) :
    ∀ w ∈ p.watches, w.IsLiteral := by
  obtain ⟨whole, controlled, overrides, s₁, s₂, hwhole, hcontrolled, hoverrides, rfl⟩ :=
    levelSection_cases h
  intro w hw
  rw [watches_collect, List.flatMap_cons, List.flatMap_cons] at hw
  rcases List.mem_append.1 hw with hw | hw
  · exact literal_ifPresent literal_levelPlan hwhole w hw
  rcases List.mem_append.1 hw with hw | hw
  · exact literal_ifPresent literal_controlPlan hcontrolled w hw
  · obtain ⟨q, hq, hw⟩ := List.mem_flatMap.1 hw
    obtain ⟨e, -, i, j, hplan⟩ := exists_of_forall₂ hoverrides.forall₂ hq
    exact literal_levelPlan hplan w hw

/-- The watches of minimum levels are those of levels that are named. -/
theorem literal_minimumLevels {p : Plan} (h : Returns (minimumLevels n) s p t) :
    ∀ w ∈ p.watches, w.IsLiteral := by
  refine literal_ifPresent (fun h => ?_) h
  rw [returns_bind] at h
  obtain ⟨shape, u, -, h⟩ := h
  cases shape with
  | scalar text => exact literal_levelPlan h
  | structured => exact literal_levelSection h

end Run

namespace Watch

variable {o : Options} {kind : SwitchKind} {ws : List Watch}

theorem announcement_of_declares {e : Node} {w : Watch} (h : w.Declares e kind) :
    w.announcement o = if o.announces kind then some w.declaration else none := by
  cases h <;> simp only [announcement, declaration, Options.announces, switch, node,
    Bool.true_and] <;> rfl

theorem filterMap_announcement {es : List Node}
    (h : List.Forall₂ (fun e w => w.Declares e kind) es ws) :
    ws.filterMap (announcement o) = if o.announces kind then ws.map declaration else [] := by
  have hall : ∀ w ∈ ws, w.announcement o = if o.announces kind then some w.declaration else none :=
    fun w hw =>
      have ⟨_, _, he⟩ := exists_of_forall₂ h hw
      announcement_of_declares he
  rw [List.filterMap_congr hall]
  cases o.announces kind <;> simp

theorem filterMap_announcement_literals (h : ∀ w ∈ ws, w.IsLiteral) :
    ws.filterMap (announcement o) = [] := by
  rw [List.filterMap_eq_nil_iff]
  intro w hw
  obtain ⟨label, cell, n, rfl⟩ := h w hw
  rfl

end Watch

/-- What the host is told of the switches of a plan. -/
theorem Binder.tells_of_plan {b : Binder} {n : Node} {p : Plan} {s t : Session}
    (h : Returns (b.plan n) s p t) : p.Tells b.options n := by
  cases stages_of_plan h with
  | @of levels filters minimum _ _ _ _ _ _ _ _ _ _ _ _ _ _ _ hlevels hfilters hminimum =>
    have hdeclared := Run.declares_of_declareSwitches hlevels
    have hfiltering := Run.declares_of_declareSwitches hfilters
    have hliterals := Run.literal_minimumLevels hminimum
    refine ⟨levels, filters, minimum.watches, rfl, hdeclared, hfiltering, hliterals, ?_⟩
    rw [List.filterMap_append, List.filterMap_append, Watch.filterMap_announcement hdeclared,
      Watch.filterMap_announcement hfiltering, Watch.filterMap_announcement_literals hliterals,
      List.append_nil]

/-! ## What a builder without a memory has received -/

/-- The step that is recorded. -/
def Event.step? : Event → Option Step
  | .step x => some x
  | _ => none

/-- What a builder has received is a step, or what the builder of one of its callbacks has
received. -/
inductive Event.Given (callback : Value → Run Unit) : Event → Prop
  | step (step : Step) : Given callback (.step step)
  | nested {argument : String} {v : Value} {s : Session} (hs : s.events = []) :
      Given callback (.nested argument (callback v s).2.events)

namespace Builder

variable {B : Builder} {callback : Value → Run Unit}
  {invoke : Value → Unit → StateM Session (Outcome Unit Unit)}

/-- Running callbacks records them apart. -/
theorem events_reaction (h : ∀ v, invoke v () = (callback v).beside ()) (signature : String)
    (received : List Step) (c : Call) (args : Arguments) (s : Session) :
    ∃ given,
      ((B.reaction received c args).perform signature invoke s).2.events = s.events ++ given ∧
      (∀ x ∈ given, x.Given callback) ∧ given.filterMap Event.step? = [] := by
  induction args generalizing s with
  | nil => exact ⟨[], (List.append_nil _).symm, List.forall_mem_nil _, rfl⟩
  | cons a rest ih =>
    rw [reaction]
    split
    · rw [Reaction.perform, Outcome.bind_apply, h]
      simp only [Outcome.apart, Run.beside_apply]
      have hgiven : (Event.nested a.1 (callback a.2 { s with events := [] }).2.events).Given
          callback := .nested rfl
      rcases hrun : callback a.2 { s with events := [] } with ⟨_ | _, t⟩ <;> rw [hrun] at hgiven
      · exact ⟨[.nested a.1 t.events], rfl, by simpa using hgiven, rfl⟩
      · obtain ⟨given, hevents, hall, hsteps⟩ := ih
          { t with events := s.events ++ [.nested a.1 t.events] }
        refine ⟨.nested a.1 t.events :: given, ?_, List.forall_mem_cons.2 ⟨hgiven, hall⟩, ?_⟩
        · exact hevents.trans (by rw [List.append_assoc, List.singleton_append])
        · exact hsteps
    · exact ih s

/-- A builder records a step that it accepts, and a call also if one of its callbacks fails. -/
theorem events_take (h : ∀ v, invoke v () = (callback v).beside ()) (received : List Step)
    (step : Step) (s : Session) :
    ∃ given, (B.receiver.take invoke received step () s).2.events = s.events ++ given ∧
      (∀ x ∈ given, x.Given callback) ∧
      (given.filterMap Event.step? = [step] ∨ given = [] ∧
        (B.receiver.take invoke received step () s).1.1.isOk = false) := by
  cases step with
  | call c path =>
    rw [Receiver.take]
    cases hr : B.refuses received c with
    | some reason =>
      simp only [receiver, hr]
      exact ⟨[], (List.append_nil _).symm, List.forall_mem_nil _, .inr ⟨rfl, rfl⟩⟩
    | none =>
      simp only [receiver, hr]
      obtain ⟨given, hevents, hall, hsteps⟩ := events_reaction h c.method.signature received c
        c.arguments (s.receive (.step (.call c path)))
      refine ⟨.step (.call c path) :: given, ?_, List.forall_mem_cons.2 ⟨.step _, hall⟩, .inl ?_⟩
      · exact hevents.trans (by rw [Session.receive, List.append_assoc, List.singleton_append])
      · rw [List.filterMap_cons, hsteps]
        rfl
  | _ => exact ⟨[.step _], rfl, by simpa using Event.Given.step _, .inl rfl⟩

/-- A builder has received the steps that it accepts. -/
theorem events_accepts (h : ∀ v, invoke v () = (callback v).beside ()) {received steps : List Step}
    {memory last : Unit} {s t : Session}
    (haccepts : B.receiver.Accepts invoke received steps memory s last t) :
    ∃ given, t.events = s.events ++ given ∧ (∀ x ∈ given, x.Given callback) ∧
      given.filterMap Event.step? = steps := by
  induction haccepts with
  | nil => exact ⟨[], (List.append_nil _).symm, List.forall_mem_nil _, rfl⟩
  | @cons received rest step memory after last s u t htake _ ih =>
    obtain ⟨first, hfirst, hfirsts, hstep⟩ := events_take h received step s (B := B)
    rw [htake] at hfirst hstep
    obtain ⟨given, hevents, hall, hsteps⟩ := ih
    refine ⟨first ++ given, ?_, ?_, ?_⟩
    · rw [hevents, ← List.append_assoc]
      exact congrArg (· ++ given) hfirst
    · exact List.forall_mem_append.2 ⟨hfirsts, hall⟩
    · rcases hstep with hstep | ⟨-, hfails⟩
      · rw [List.filterMap_append, hstep, hsteps]
        rfl
      · cases hfails

end Builder

namespace Binder

/-- What a builder without a memory has received when configuring a section as a callback of a kind
has ended, given how callbacks are run. -/
inductive Receives (b : Binder) (callback : Value → Run Unit) (kind : CallbackKind) (n : Node)
    (s : Session) : Except ResolveError (List Nat) → List Event → Prop
  | unplanned {e : ResolveError} {t : Session} (hplan : b.planOf kind n s = (.error e, t)) :
      Receives b callback kind n s (.error e) []
  /-- The steps up to the call that failed have been received, and that call if it was one of its
  callbacks that failed. -/
  | stopped {p : Plan} {t : Session} {before rest : List Step} {c : Call} {path : String}
      {e : ResolveError} {events : List Event} (hplan : Returns (b.planOf kind n) s p t)
      (hsteps : p.steps = before ++ .call c path :: rest) (hreports : e.Reports c.method.signature)
      (hgiven : ∀ x ∈ events, x.Given callback)
      (hevents : events.filterMap Event.step? = before ∨
        events.filterMap Event.step? = before ++ [.call c path]) :
      Receives b callback kind n s (.error e) events
  | completed {p : Plan} {t : Session} {ids : List Nat} {events : List Event}
      (hplan : Returns (b.planOf kind n) s p t) (hgiven : ∀ x ∈ events, x.Given callback)
      (hevents : events.filterMap Event.step? = p.steps)
      (hids : ids.length = p.watches.length) :
      Receives b callback kind n s (.ok ids)
        (events ++ p.watches.filterMap (Watch.announcement b.options))

variable {b : Binder} {B : Builder} {callback : Value → Run Unit}
  {invoke : Value → Unit → StateM Session (Outcome Unit Unit)} {kind : CallbackKind} {n : Node}
  {s : Session}

theorem receives_of_delivers (h : ∀ v, invoke v () = (callback v).beside ())
    {r : Except ResolveError (List Nat)} {memory : Unit} {u : Session}
    (hdelivers : b.Delivers B.receiver invoke kind n () s ((r, memory), u)) :
    ∃ events, u.events = s.events ++ events ∧ b.Receives callback kind n s r events := by
  cases hdelivers with
  | unplanned hplan hevents =>
    exact ⟨[], by rw [hevents, List.append_nil], .unplanned hplan⟩
  | @stopped p t u' v before rest c path after last e hplan hevents hsteps haccepts hfails
      hreports =>
    obtain ⟨given, hgiven, hall, hbefore⟩ := Builder.events_accepts h haccepts
    obtain ⟨more, hmore, hmores, hstep⟩ := Builder.events_take h before (.call c path) u' (B := B)
    rw [hfails] at hmore
    refine ⟨given ++ more, ?_, .stopped hplan hsteps hreports
      (List.forall_mem_append.2 ⟨hall, hmores⟩) ?_⟩
    · rw [← List.append_assoc, ← hevents, ← hgiven]
      exact hmore
    · rw [List.filterMap_append, hbefore]
      rcases hstep with hstep | ⟨rfl, -⟩
      · rw [hstep]
        exact .inr rfl
      · rw [List.filterMap_nil, List.append_nil]
        exact .inl rfl
  | @completed p t u' after hplan hevents haccepts =>
    obtain ⟨given, hgiven, hall, hsteps⟩ := Builder.events_accepts h haccepts
    refine ⟨given ++ p.watches.filterMap (Watch.announcement b.options), ?_,
      .completed hplan hall hsteps List.length_range'⟩
    rw [← List.append_assoc, ← hevents, ← hgiven]
    rfl

/-- What has been received when a section has been configured. -/
theorem receives_configure (B : Builder) (n : Node) (s : Session) :
    ∃ events, (b.configure B n s).2.events = s.events ++ events ∧
      b.Receives (b.invoke B) .logger n s (b.configure B n s).1 events := by
  have hdelivers : b.Delivers B.receiver (b.invokeFor B.receiver) .logger n () s
      (b.configureFor B.receiver n () s) := delivers_configureWithFor
  rw [configureFor_receiver, Run.beside_apply] at hdelivers
  exact receives_of_delivers invokeFor_receiver hdelivers

theorem Receives.mono {callback callback' : Value → Run Unit}
    (h : ∀ x, Event.Given callback x → Event.Given callback' x)
    {r : Except ResolveError (List Nat)} {events : List Event}
    (hr : b.Receives callback kind n s r events) : b.Receives callback' kind n s r events := by
  cases hr with
  | unplanned hplan => exact .unplanned hplan
  | stopped hplan hsteps hreports hgiven hevents =>
    exact .stopped hplan hsteps hreports (fun x hx => h x (hgiven x hx)) hevents
  | completed hplan hgiven hevents hids =>
    exact .completed hplan (fun x hx => h x (hgiven x hx)) hevents hids

/-- What has been received when a section has been configured as a callback of a kind does. -/
theorem receives_run (B : Builder) (kind : CallbackKind) (n : Node) (s : Session) :
    ∃ events, (b.run B kind n s).2.events = s.events ++ events ∧
      b.Receives (b.invoke B) kind n s (b.run B kind n s).1 events := by
  obtain ⟨invoke, hguards, hrun⟩ := b.exists_guards B.receiver kind n
  have hdelivers : b.Delivers B.receiver invoke kind n () s (b.runFor B.receiver kind n () s) := by
    rw [hrun]
    exact delivers_configureWithFor
  rw [runFor_receiver, Run.beside_apply] at hdelivers
  obtain ⟨callback, hcallback⟩ : ∃ callback : Value → Run Unit,
      ∀ v, invoke v () = (callback v).beside () :=
    ⟨fun v t => ((invoke v () t).1.1, (invoke v () t).2), fun _ => rfl⟩
  obtain ⟨events, hevents, hreceives⟩ := receives_of_delivers hcallback hdelivers
  refine ⟨events, hevents, hreceives.mono fun x hx => ?_⟩
  cases hx with
  | step x => exact .step x
  | @nested argument v t ht =>
    have hsame : (callback v t).2 = (invoke v () t).2 := by rw [hcallback, Run.beside_apply]
    rw [hsame]
    rcases hguards.runs v () t with hrun | hnone
    · rw [hrun, invokeFor_receiver]
      exact .nested ht
    · -- It has received as little as if a value that is no callback had been run.
      have hnull : Event.Given (b.invoke B) (.nested argument (b.invoke B .null t).2.events) :=
        .nested ht
      rw [hnone]
      exact hnull

/-- Running a callback records what configuring its section does, and fails as that does. -/
theorem invoke_of_nested (B : Builder) {v : Value} {c : Nested} (hv : v.nested? = some c)
    (s : Session) :
    (b.invoke B v s).1 = (b.run B c.kind c.node s).1.map (fun _ => ()) ∧
      (b.invoke B v s).2.events = (b.run B c.kind c.node s).2.events := by
  have hends : c.Ends (b.runFor B.receiver c.kind c.node () s) (b.invokeFor B.receiver v () s) :=
    b.ends_invokeFor B.receiver hv () s
  rw [runFor_receiver, invokeFor_receiver, Run.beside_apply, Run.beside_apply] at hends
  rcases hrun : b.run B c.kind c.node s with ⟨r, t⟩
  rcases hinvoke : b.invoke B v s with ⟨r', t'⟩
  rw [hrun, hinvoke] at hends
  cases hends with
  | error => exact ⟨rfl, rfl⟩
  | ok => exact ⟨rfl, c.events_kept _ _⟩

/-- What has been received when a callback has been run. -/
theorem receives_invoke (B : Builder) {v : Value} {c : Nested} (hv : v.nested? = some c)
    (s : Session) :
    ∃ r events, (b.invoke B v s).2.events = s.events ++ events ∧
      b.Receives (b.invoke B) c.kind c.node s r events ∧
      (b.invoke B v s).1 = r.map fun _ => () := by
  obtain ⟨events, hevents, hreceives⟩ := b.receives_run B c.kind c.node s
  obtain ⟨hresult, hsame⟩ := invoke_of_nested (b := b) B hv s
  exact ⟨_, events, hsame.trans hevents, hreceives, hresult⟩

/-- **Application is all or nothing, up to calls that fail.**

Whatever the builder does, it is given nothing of a section that cannot be planned, and otherwise
the steps of the plan in order, up to the first call that it fails; when it has accepted them all
the host is told of the declared switches, level switches first, and each watch gets a
subscription.  So it is for callbacks, wherever they are run.  A builder without a memory has
received just this. -/
theorem delivered (b : Binder) :
    (∀ (σ : Type) (R : Receiver σ) (n : Node) (memory : σ) (s : Session),
      b.Delivers R (b.invokeFor R) .logger n memory s (b.configureFor R n memory s)) ∧
    (∀ (σ : Type) (R : Receiver σ) (v : Value) (c : Nested) (memory : σ) (s : Session),
      v.nested? = some c → ∃ invoke outcome, b.Guards R invoke ∧
        b.Delivers R invoke c.kind c.node memory s outcome ∧
        c.Ends outcome (b.invokeFor R v memory s)) ∧
    (∀ (n : Node) (s t : Session) (p : Plan), Returns (b.plan n) s p t → p.Tells b.options n) ∧
    (∀ (B : Builder) (n : Node) (s : Session), ∃ events,
      (b.configure B n s).2.events = s.events ++ events ∧
        b.Receives (b.invoke B) .logger n s (b.configure B n s).1 events) ∧
    ∀ (B : Builder) (v : Value) (c : Nested) (s : Session), v.nested? = some c → ∃ r events,
      (b.invoke B v s).2.events = s.events ++ events ∧
        b.Receives (b.invoke B) c.kind c.node s r events ∧
        (b.invoke B v s).1 = r.map fun _ => () := by
  refine ⟨fun _ _ _ _ _ => delivers_configureWithFor, fun σ R v c memory s hv => ?_,
    fun _ _ _ _ => tells_of_plan, receives_configure, fun B v c s hv => receives_invoke B hv s⟩
  obtain ⟨invoke, hguards, hrun⟩ := b.exists_guards R c.kind c.node
  refine ⟨invoke, b.runFor R c.kind c.node memory s, hguards, ?_, b.ends_invokeFor R hv memory s⟩
  rw [hrun]
  exact delivers_configureWithFor

end Binder

/-! ## A builder that rejects a call -/

namespace Sample

/-- A reader whose host wants to know of all declared switches. -/
def tellingBinder : Binder :=
  ⟨⟨[wrappers, .of "Sample.Refused" [.of "Reject" .sink []] []]⟩,
    { announcesLevelSwitches := true, announcesFilterSwitches := true }, .all, false⟩

/-- A builder that rejects one method, and runs every callback. -/
def rejecting : Builder :=
  ⟨fun _ c => if c.method.name = "Reject" then some "not accepted" else none, fun _ _ _ => true⟩

/-- A switch of each kind, a minimum level, a sub-logger and a sink that is rejected. -/
def tellingRoot : Root Watcher := listedRoot
  [⟨"LevelSwitches:low", some "Debug"⟩, ⟨"FilterSwitches:noisy", some "@Level = 'Debug'"⟩,
    ⟨"MinimumLevel", some "Warning"⟩, ⟨"WriteTo:0:Name", some "Logger"⟩,
    ⟨"WriteTo:0:Args:configureLogger:MinimumLevel", some "Debug"⟩, ⟨"WriteTo:1", some "Reject"⟩]

/-- The session before anything is read. -/
def tellingStart : Session := .start ⟨[], []⟩ tellingRoot

/-- The section of the sub-logger. -/
def tellingNested : Nested := ⟨0, .logger, tellingRoot.node "WriteTo:0:Args:configureLogger"⟩

/-- What planning the section gives. -/
def tellingPlan : Plan :=
  (tellingBinder.plan tellingRoot.top tellingStart).1.toOption.getD .empty

/-- What configuring it for that builder gives. -/
def rejectedOutcome : Except ResolveError (List Nat) × Session :=
  tellingBinder.configure rejecting tellingRoot.top tellingStart

/-- The host would be told of two of the three switches; the builder receives two of the three
steps and rejects the last one; and the sub-logger is configured as a section of its own. -/
theorem delivered_rejecting :
    (tellingPlan.Tells tellingBinder.options tellingRoot.top ∧ tellingPlan.steps.length = 3 ∧
      tellingPlan.watches.length = 3 ∧
      (tellingPlan.watches.filterMap (Watch.announcement tellingBinder.options)).length = 2) ∧
    (∃ events, rejectedOutcome.2.events = events ∧
      tellingBinder.Receives (tellingBinder.invoke rejecting) .logger tellingRoot.top tellingStart
        rejectedOutcome.1 events ∧
      rejectedOutcome.1.isOk = false ∧ (events.filterMap Event.step?).length = 2) ∧
    ∃ r events, tellingBinder.Receives (tellingBinder.invoke rejecting) .logger tellingNested.node
      tellingStart r events := by
  obtain ⟨-, -, htells, hreceives, hnested⟩ := tellingBinder.delivered
  refine ⟨?_, ?_, ?_⟩
  · have hplan : (tellingBinder.plan tellingRoot.top tellingStart).1.isOk = true ∧
        tellingPlan.steps.length = 3 ∧ tellingPlan.watches.length = 3 ∧
        (tellingPlan.watches.filterMap (Watch.announcement tellingBinder.options)).length = 2 := by
      decide +kernel
    have hreturns : Returns (tellingBinder.plan tellingRoot.top) tellingStart tellingPlan _ :=
      Run.returns_of_isOk hplan.1 .empty
    exact ⟨htells _ _ _ _ hreturns, hplan.2⟩
  · have hrejected : rejectedOutcome.1.isOk = false ∧
        (rejectedOutcome.2.events.filterMap Event.step?).length = 2 := by
      decide +kernel
    obtain ⟨events, hevents, hreceived⟩ := hreceives rejecting tellingRoot.top tellingStart
    rw [show tellingStart.events = [] from rfl, List.nil_append] at hevents
    rw [← rejectedOutcome] at hevents hreceived
    rw [hevents] at hrejected
    exact ⟨events, hevents, hreceived, hrejected⟩
  · obtain ⟨r, events, -, hsub, -⟩ := hnested rejecting
      (.callback .logger "WriteTo:0:Args:configureLogger" (.configures 0 tellingNested.node))
      tellingNested tellingStart rfl
    exact ⟨r, events, hsub⟩

end Sample

end LogBinder
