/-
  Log binder — what runs of callbacks preserve.

  Whatever builders do with the callbacks that they are handed, a session and
  the later ones are related by every preorder that the single actions
  respect: planning a section, recording something, and the end of a run.

  * `Binder.planOf` : plans only draft, their switches are new, and their
    callbacks have one of two origins;
  * `Watch.returns_mapM_start` : what is told and followed in the end;
  * `Service` : what the single actions have to respect;
  * `Service.invokeFor`, `Service.serve` : then all runs do.
-/
import LogBinder.Proofs.Binding.Receivers
import LogBinder.Proofs.Binding.Watched

namespace LogBinder

open Run (Drafts Returns returns_bind returns_pure)

/-! ## Plans of a kind -/

namespace Binder

variable {b : Binder} {kind : CallbackKind} {n : Node} {p : Plan} {s t : Session}

theorem drafts_planOf (kind : CallbackKind) (n : Node) : Drafts (b.planOf kind n) := by
  cases kind with
  | logger => exact drafts_plan n
  | other name => exact Run.drafts_pure _
  | _ => exact Run.drafts_bind (drafts_directives _ n) fun _ => Run.drafts_pure _

theorem equips_planOf (h : Returns (b.planOf kind n) s p t) :
    Session.Equips b.options n.tree s p.watches t := by
  have hdrafted := (drafts_planOf kind n).of_returns h
  cases kind with
  | logger => exact equips_plan h
  | other name =>
    obtain ⟨rfl, -⟩ := returns_pure.1 h
    exact hdrafted.equips
  | _ =>
    obtain ⟨steps, u, -, h⟩ := returns_bind.1 h
    obtain ⟨rfl, -⟩ := returns_pure.1 h
    exact hdrafted.equips

/-- The callbacks that a plan hands on are held by the catalog, or bound below its section. -/
theorem traced_of_planOf (h : Returns (b.planOf kind n) s p t) {v : Value}
    (hv : Step.AnyCarries p.steps v) :
    b.catalog.Holds v ∨ v.IsBound (·.IsBelow n) s.nextIdentity t.nextIdentity := by
  cases kind with
  | logger => exact traced_of_plan h hv
  | other name =>
    obtain ⟨rfl, -⟩ := returns_pure.1 h
    obtain ⟨step, hstep, -⟩ := hv
    cases hstep
  | _ =>
    obtain ⟨steps, u, hsteps, h⟩ := returns_bind.1 h
    obtain ⟨rfl, rfl⟩ := returns_pure.1 h
    exact traced_of_directives hsteps hv

/-- The callbacks that a plan hands on, and that the catalog does not hold, are new and configure
places below the section. -/
theorem nested_of_planOf (h : Returns (b.planOf kind n) s p t) {v : Value}
    (hv : Step.AnyCarries p.steps v) {d : Nested} (hd : v.nested? = some d) :
    b.catalog.Holds v ∨
      d.node.IsBelow n ∧ s.nextIdentity ≤ d.identity ∧ d.identity < t.nextIdentity := by
  rcases traced_of_planOf h hv with hheld | ⟨kind, c, identity, rfl, hbelow, hge, hlt⟩
  · exact .inl hheld
  · cases hd
    exact .inr ⟨hbelow, hge, hlt⟩

end Binder

/-! ## Starting to follow -/

/-- The subscriptions of some watches, under the ids from a number on. -/
def Watch.subscriptions (o : Options) (ws : List Watch) (next : Nat) :
    List (Subscription Watcher) :=
  (ws.zipIdx next).map fun e => ⟨e.2, e.1.node.segments, e.1.watcher o⟩

/-- A session with more subscriptions. -/
def Session.following (subscriptions : List (Subscription Watcher)) (s : Session) : Session :=
  { s with root := { s.root with
      subscriptions := s.root.subscriptions ++ subscriptions
      nextId := s.root.nextId + subscriptions.length } }

/-- The switches of some watches have begun to follow their entries; the host may have been told of
them, and nothing else has changed. -/
structure Watch.Started (o : Options) (ws : List Watch) (s : Session) (ids : List Nat)
    (t : Session) : Prop where
  ids : ids = List.range' s.root.nextId ws.length
  rest : ∃ events, t = { s.following (subscriptions o ws s.root.nextId) with events := events }

/-- A session in which the host has been told of the switches of some watches, and these have begun
to follow their entries. -/
def Watch.begun (o : Options) (ws : List Watch) (s : Session) : Session :=
  { s.following (subscriptions o ws s.root.nextId) with
    events := s.events ++ ws.filterMap (announcement o) }

theorem Watch.begun_cons (o : Options) (w : Watch) (ws : List Watch) (s : Session) :
    begun o (w :: ws) s = begun o ws (begun o [w] s) := by
  have hnext : (begun o [w] s).root.nextId = s.root.nextId + 1 := rfl
  have hevents : (w :: ws).filterMap (announcement o) =
      [w].filterMap (announcement o) ++ ws.filterMap (announcement o) := by
    rw [← List.filterMap_append, List.singleton_append]
  rw [begun, begun, hnext, hevents]
  simp only [begun, Session.following, subscriptions, List.zipIdx_cons, List.map_cons,
    List.append_assoc, List.cons_append, List.length_cons, List.zipIdx_nil, List.map_nil,
    List.nil_append, List.length_nil, List.length_map, List.length_zipIdx, Nat.add_assoc,
    Nat.add_comm 1]

/-- Beginning to follow gives one subscription for each watch, in order. -/
theorem Watch.returns_mapM_start (o : Options) (ws : List Watch) (s : Session) :
    Returns (ws.mapM (start o)) s (List.range' s.root.nextId ws.length) (begun o ws s) := by
  induction ws generalizing s with
  | nil => exact returns_pure.2 ⟨rfl, by simp [begun, subscriptions, Session.following]⟩
  | cons w rest ih =>
    have hstart : Returns (w.start o) s s.root.nextId (begun o [w] s) := by
      rw [start, begun, List.filterMap_cons]
      cases w.announcement o with
      | none => exact congrArg (Prod.mk _) (by simp [Session.following, subscriptions])
      | some e => rfl
    rw [List.mapM_cons, List.length_cons, List.range'_succ, begun_cons]
    exact returns_bind.2 ⟨_, _, hstart, returns_bind.2 ⟨_, _, ih _, returns_pure.2 ⟨rfl, rfl⟩⟩⟩

theorem Watch.exists_started (o : Options) (ws : List Watch) (s : Session) :
    ∃ ids t, Returns (ws.mapM (start o)) s ids t ∧ Started o ws s ids t :=
  ⟨_, _, returns_mapM_start o ws s, rfl, _, rfl⟩

theorem Nested.subscriptions_kept_sublist (c : Nested) (ids : List Nat) (s : Session) :
    (c.kept ids s).root.subscriptions.Sublist s.root.subscriptions := by
  rw [kept]
  split
  · rw [Session.keep, Root.subscriptions_unsubscribeAll]
    exact List.filter_sublist
  · exact .refl _

theorem Nested.spares_kept (c : Nested) (ids : List Nat) (s : Session) :
    s.Spares (c.kept ids s) := by
  rw [kept]
  split <;> exact ⟨List.prefix_rfl, List.prefix_rfl⟩

/-- Applying a plan fails with the steps, or goes on to follow the switches. -/
theorem Receiver.applyWith_cases {σ : Type} (R : Receiver σ)
    (invoke : Value → σ → StateM Session (Outcome σ Unit)) (o : Options) (p : Plan) (memory : σ)
    (s : Session) :
    (∃ e after, R.applyWith invoke o p memory s =
        ((.error e, after), (R.serve invoke [] p.steps memory s).2)) ∨
      ∃ ids after t, R.applyWith invoke o p memory s = ((.ok ids, after), t) ∧
        Watch.Started o p.watches (R.serve invoke [] p.steps memory s).2 ids t := by
  rw [applyWith, Outcome.andThen, Outcome.bind_apply]
  rcases R.serve invoke [] p.steps memory s with ⟨⟨outcome, after⟩, t⟩
  cases outcome with
  | error e => exact .inl ⟨e, after, rfl⟩
  | ok _ =>
    obtain ⟨ids, u, hu, hstarted⟩ := Watch.exists_started o p.watches t
    refine .inr ⟨ids, after, u, ?_, hstarted⟩
    change (p.watches.mapM (Watch.start o)).beside after t = _
    rw [Run.beside_apply, hu]

/-- Configuring a section fails with its plan, or goes on to apply it. -/
theorem Binder.configureWithFor_cases {σ : Type} (b : Binder) (R : Receiver σ)
    (kind : CallbackKind) (n : Node) (invoke : Value → σ → StateM Session (Outcome σ Unit))
    (memory : σ) (s : Session) :
    (∃ e, b.configureWithFor R kind n invoke memory s =
        ((.error e, memory), (b.planOf kind n s).2)) ∨
      ∃ p t, Returns (b.planOf kind n) s p t ∧
        b.configureWithFor R kind n invoke memory s = R.applyWith invoke b.options p memory t := by
  rw [configureWithFor, Outcome.andThen, Outcome.bind_apply, Run.beside_apply]
  rcases hplan : b.planOf kind n s with ⟨r, t⟩
  cases r with
  | error e => exact .inl ⟨e, rfl⟩
  | ok p => exact .inr ⟨p, t, hplan, rfl⟩

/-! ## Runs of callbacks -/

/-- Single actions respect a relation between sessions, as long as the callbacks that are run have a
property. -/
structure Service (b : Binder) (Q : Session → Session → Prop) (P : Session → Nested → Prop) :
    Prop where
  refl : ∀ s, Q s s
  trans : ∀ {s t u}, Q s t → Q t u → Q s u
  allows : ∀ {s t c}, Q s t → P s c → P t c
  records : ∀ (s : Session) (events : List Event), Q s { s with events := events }
  planned : ∀ {s c}, P s c → Q s (b.planOf c.kind c.node s).2
  handed : ∀ {s t c p v d}, P s c → Returns (b.planOf c.kind c.node) s p t →
    Step.AnyCarries p.steps v → v.nested? = some d → P t d
  completed : ∀ {s t u v c p ids}, P s c → Returns (b.planOf c.kind c.node) s p t → Q t u →
    Watch.Started b.options p.watches u ids v → Q s (c.kept ids v)

namespace Service

variable {σ : Type} {b : Binder} {Q : Session → Session → Prop} {P : Session → Nested → Prop}
  {R : Receiver σ} {invoke : Value → σ → StateM Session (Outcome σ Unit)}

/-- A value, if it is a callback that configures a section, has a property. -/
def Allows (P : Session → Nested → Prop) (s : Session) (v : Value) : Prop :=
  ∀ c, v.nested? = some c → P s c

/-- A way to run callbacks that respects a relation. -/
def Respects (Q : Session → Session → Prop) (P : Session → Nested → Prop)
    (invoke : Value → σ → StateM Session (Outcome σ Unit)) : Prop :=
  ∀ v memory s, Allows P s v → Q s (invoke v memory s).2

theorem apart (h : Service b Q P) (hi : Respects Q P invoke) (argument : String) {v : Value}
    {s : Session} (hv : Allows P s v) (memory : σ) :
    Q s (Outcome.apart argument (invoke v memory) s).2 := by
  have hcleared := h.records s []
  have hrun := hi v memory { s with events := [] } fun c hc => h.allows hcleared (hv c hc)
  exact h.trans hcleared (h.trans hrun (h.records _ _))

theorem perform (h : Service b Q P) (hi : Respects Q P invoke) (signature : String)
    {r : Reaction σ} {W : Value → Prop} (hr : r.Runs W) {s : Session}
    (hW : ∀ v, W v → Allows P s v) : Q s (r.perform signature invoke s).2 := by
  induction r generalizing s with
  | accept memory | refuse memory reason | fail memory cause => exact h.refl s
  | note e rest ih =>
    have hnoted := h.records s (s.events ++ [e])
    have hrest := @ih hr (s.receive e) fun v hv c hc => h.allows hnoted (hW v hv c hc)
    exact h.trans hnoted hrest
  | run argument v memory rest ih =>
    obtain ⟨hv, hrest⟩ := hr
    rw [Reaction.perform, Outcome.bind_apply]
    have hrun := h.apart hi argument (hW v hv) memory
    rcases hout : Outcome.apart argument (invoke v memory) s with ⟨⟨outcome, after⟩, t⟩
    rw [hout] at hrun
    exact h.trans hrun (ih after outcome (hrest after outcome) fun w hw c hc =>
      h.allows hrun (hW w hw c hc))

/-- What a builder does with the steps that it receives respects the relation. -/
theorem serve (h : Service b Q P) (hi : Respects Q P invoke) (received steps : List Step)
    (memory : σ) {s : Session}
    (hsteps : ∀ v, Step.AnyCarries (received ++ steps) v → Allows P s v) :
    Q s (R.serve invoke received steps memory s).2 := by
  induction steps generalizing received memory s with
  | nil => exact h.refl s
  | cons step rest ih =>
    have hwhole : received ++ step :: rest = received ++ [step] ++ rest := by simp
    rw [hwhole] at hsteps
    have hlater : ∀ {t memory}, Q s t →
        Q s (R.serve invoke (received ++ [step]) rest memory t).2 := fun hst =>
      h.trans hst (ih _ _ fun v hv c hc => h.allows hst (hsteps v hv c hc))
    cases step with
    | call c path =>
      have hperform := h.perform hi c.method.signature (R.handed received c path memory)
        (s := s) fun v ⟨step, hstep, hv⟩ =>
          hsteps v ⟨step, List.mem_append_left _ hstep, hv⟩
      rw [Receiver.serve, Outcome.andThen, Outcome.bind_apply]
      rcases hout : (R.react received c path memory).perform c.method.signature invoke s
        with ⟨⟨outcome, after⟩, t⟩
      rw [hout] at hperform
      cases outcome with
      | error e => exact hperform
      | ok _ => exact hlater hperform
    | _ => exact hlater (h.records s _)

theorem keepingFor (h : Service b Q P) (hi : Respects Q P invoke) {c : Nested} {s : Session}
    (hc : P s c) (memory : σ) :
    Q s (c.keepingFor (b.configureWithFor R c.kind c.node invoke memory) s).2 := by
  rw [Nested.keepingFor, Outcome.andThen, Outcome.bind_apply]
  rcases b.configureWithFor_cases R c.kind c.node invoke memory s with
    ⟨e, hfailed⟩ | ⟨p, t, hplan, hconfigured⟩
  · rw [hfailed]
    exact h.planned hc
  · have hplanned : Q s t := by
      rw [← hplan.snd_eq]
      exact h.planned hc
    have hserved : Q t (R.serve invoke [] p.steps memory t).2 :=
      h.serve hi [] p.steps memory fun v hv d hd => h.handed hc hplan hv hd
    rw [hconfigured]
    rcases R.applyWith_cases invoke b.options p memory t with
      ⟨e, after, hfailed⟩ | ⟨ids, after, u, happlied, hstarted⟩
    · rw [hfailed]
      exact h.trans hplanned hserved
    · rw [happlied]
      exact h.completed hc hplan hserved hstarted

/-- Running a callback respects the relation, whatever the callbacks in it and whatever the
builders. -/
theorem runFor (h : Service b Q P) {c : Nested} {s : Session} (hc : P s c) (memory : σ) :
    Q s (c.keepingFor (b.runFor R c.kind c.node memory) s).2 := by
  induction hh : c.node.height using Nat.strongRecOn generalizing c s memory with
  | ind height ih =>
    rw [Binder.runFor]
    refine h.keepingFor (fun v memory t hv => ?_) hc memory
    cases hd : v.nested? with
    | none => exact h.refl t
    | some d =>
      dsimp only
      split
      · next hlower => exact ih d.node.height (hh ▸ hlower) (hv d hd) memory rfl
      · exact h.refl t

theorem invokeFor (h : Service b Q P) : Respects Q P (b.invokeFor R) := by
  intro v memory s hv
  rw [Binder.invokeFor]
  cases hc : v.nested? with
  | none => exact h.refl s
  | some c => exact h.runFor (hv c hc) memory

/-- Applying a plan respects the relation, up to the subscriptions to its own switches. -/
theorem applyFor (h : Service b Q P) {p : Plan} {s : Session}
    (hp : ∀ v, Step.AnyCarries p.steps v → Allows P s v) (memory : σ) :
    (∃ e after t, b.applyFor R p memory s = ((.error e, after), t) ∧ Q s t) ∨
      ∃ ids after u t, b.applyFor R p memory s = ((.ok ids, after), t) ∧ Q s u ∧
        Watch.Started b.options p.watches u ids t := by
  have hserved : Q s (R.serve (b.invokeFor R) [] p.steps memory s).2 :=
    h.serve h.invokeFor [] p.steps memory hp
  rcases R.applyWith_cases (b.invokeFor R) b.options p memory s with
    ⟨e, after, hfailed⟩ | ⟨ids, after, t, happlied, hstarted⟩
  · exact .inl ⟨e, after, _, hfailed, hserved⟩
  · exact .inr ⟨ids, after, _, t, happlied, hserved, hstarted⟩

/-- So does configuring a section. -/
theorem configureFor (h : Service b Q P) {n : Node} {s : Session}
    (hplanned : Q s (b.plan n s).2)
    (hn : ∀ {p t}, Returns (b.plan n) s p t → ∀ v, Step.AnyCarries p.steps v → Allows P t v)
    (memory : σ) :
    (∃ e after t, b.configureFor R n memory s = ((.error e, after), t) ∧ Q s t) ∨
      ∃ p t ids after u v, b.configureFor R n memory s = ((.ok ids, after), v) ∧
        Returns (b.plan n) s p t ∧ Q t u ∧ Watch.Started b.options p.watches u ids v := by
  rw [Binder.configureFor]
  rcases b.configureWithFor_cases R .logger n (b.invokeFor R) memory s with
    ⟨e, hfailed⟩ | ⟨p, t, hplan, hconfigured⟩
  · exact .inl ⟨e, memory, _, hfailed, hplanned⟩
  · have ht : (b.plan n s).2 = t := hplan.snd_eq
    rw [ht] at hplanned
    rw [hconfigured]
    rcases h.applyFor (R := R) (hn hplan) memory with
      ⟨e, after, u, hfailed, hu⟩ | ⟨ids, after, u, v, happlied, hu, hstarted⟩
    · exact .inl ⟨e, after, u, hfailed, h.trans hplanned hu⟩
    · exact .inr ⟨p, t, ids, after, u, v, happlied, hplan, hu, hstarted⟩

end Service

end LogBinder
