/-
  Log binder — serving callbacks.

  What running callbacks does to the ledger of subscriptions: it stays
  orderly whatever happens, and with builders that run every callback a
  successful run adds as many subscriptions as the configuration says.

  * `Run.Serves` : what a computation does for the callbacks it is handed;
    applying steps serves the callbacks of the steps;
  * `Run.Configures` : what a computation does for a section; running a
    callback configures its section (`Binder.configures_run`).
-/
import LogBinder.Proofs.Binding.Planned

namespace LogBinder

open Ledger (Later Grows Raised)
open Nested (Made)
open Run (Drafts Returns returns_bind returns_pure returns_lift returns_throw)

/-- A builder that runs every callback it receives. -/
def Builder.InvokesAll (B : Builder) : Prop :=
  ∀ received c argument, B.invokes received c argument = true

/-- None of some callbacks keeps subscriptions yet, and no two of them are the same. -/
structure Ledger.Unkept (l : Ledger) (cs : List Nested) : Prop where
  nodup : (cs.map (·.identity)).Nodup
  unkept : ∀ c ∈ cs, l.kept.lookup c.identity = none

/-! ## Serving callbacks -/

/-- A computation serves callbacks: it leaves an orderly ledger, and it adds the subscriptions that
they make if it succeeds and every callback is run. -/
structure Run.Serves (b : Binder) (B : Builder) (cs : List Nested) (m : Run Unit) : Prop where
  later : ∀ s : Session, s.ledger.IsOrderly → (∀ c ∈ cs, c.identity < s.nextIdentity) →
    s.ledger.Later (m s).2.ledger
  grows : ∀ s s' : Session, B.InvokesAll → s.ledger.IsOrderly →
    (∀ c ∈ cs, c.identity < s.nextIdentity) → s.ledger.Unkept cs → Returns m s () s' →
    Grows (cs.map fun c => b.subscriptions c.kind c.node).sum (cs.map (·.identity))
      s.ledger s'.ledger

namespace Run

variable {b : Binder} {B : Builder} {cs ds : List Nested} {m m' : Run Unit}

theorem Serves.later_of_returns (h : Serves b B cs m) {s s' : Session} (hs : s.ledger.IsOrderly)
    (hcs : ∀ c ∈ cs, c.identity < s.nextIdentity) (hm : Returns m s () s') :
    s.ledger.Later s'.ledger := by
  rw [← hm.snd_eq]
  exact h.later s hs hcs

theorem serves_of_drafted (h : ∀ s : Session, s.Drafted (m s).2) : Serves b B [] m := by
  refine ⟨fun s _ _ => (h s).raised.later, fun s s' _ _ _ _ hm => ?_⟩
  have hdrafted : s.Drafted s' := hm.snd_eq ▸ h s
  exact hdrafted.raised.grows (.refl _) (by simp)

theorem Serves.seq (h : Serves b B cs m) (h' : Serves b B ds m') :
    Serves b B (cs ++ ds) (m >>= fun _ => m') := by
  constructor
  · intro s hs hcs
    have hlater := h.later s hs fun c hc => hcs c (List.mem_append_left _ hc)
    rw [bind_apply]
    rcases hms : m s with ⟨r, t⟩
    rw [hms] at hlater
    cases r with
    | error e => exact hlater
    | ok _ =>
      refine hlater.trans (h'.later t (hlater.isOrderly hs) fun d hd => ?_)
      exact Nat.lt_of_lt_of_le (hcs d (List.mem_append_right _ hd)) hlater.nextIdentity
  · intro s s' hB hs hcs hun hm
    obtain ⟨_, t, hm, hm'⟩ := returns_bind.1 hm
    have hknown := fun c hc => hcs c (List.mem_append_left _ hc)
    have hlater := h.later_of_returns hs hknown hm
    have hnodup := hun.nodup
    rw [List.map_append, List.nodup_append] at hnodup
    have hgrows := h.grows s t hB hs hknown
      ⟨hnodup.1, fun c hc => hun.unkept c (List.mem_append_left _ hc)⟩ hm
    -- The first callbacks are others than the second ones, so those are still without any.
    have hunkept : t.ledger.Unkept ds := by
      refine ⟨hnodup.2.1, fun d hd => ?_⟩
      rw [hgrows.kept _ (hcs d (List.mem_append_right _ hd)) fun hmem =>
        hnodup.2.2 _ hmem _ (List.mem_map_of_mem hd) rfl]
      exact hun.unkept d (List.mem_append_right _ hd)
    have hgrows' := h'.grows t s' hB (hlater.isOrderly hs) (fun d hd =>
      Nat.lt_of_lt_of_le (hcs d (List.mem_append_right _ hd)) hlater.nextIdentity) hunkept hm'
    rw [List.map_append, List.map_append, List.sum_append]
    exact hgrows.trans hgrows' hlater

theorem wrapped_apply (signature : String) (m : Run Unit) (s : Session) :
    wrapped signature m s = match m s with
      | (.ok a, t) => (.ok a, t)
      | (.error e, t) => (.error (.nested signature e), t) := by
  simp only [wrapped, tryCatch, tryCatchThe, MonadExceptOf.tryCatch, ExceptT.tryCatch, ExceptT.mk,
    bind, StateT.bind]
  rcases m s with ⟨r, t⟩
  cases r <;> rfl

theorem Serves.wrapped (h : Serves b B cs m) (signature : String) :
    Serves b B cs (wrapped signature m) := by
  constructor
  · intro s hs hcs
    have hlater := h.later s hs hcs
    rw [wrapped_apply]
    rcases hms : m s with ⟨r, t⟩
    rw [hms] at hlater
    cases r <;> exact hlater
  · intro s s' hB hs hcs hun hm
    refine h.grows s s' hB hs hcs hun ?_
    change Run.wrapped signature m s = _ at hm
    rw [wrapped_apply] at hm
    rcases hms : m s with ⟨r, t⟩
    rw [hms] at hm
    cases r with
    | error e => cases hm
    | ok a =>
      cases hm
      exact hms

theorem Serves.apart (h : Serves b B cs m) (argument : String) :
    Serves b B cs (apart argument m) := by
  constructor
  · intro s hs hcs
    exact h.later { s with events := [] } hs hcs
  · intro s s' hB hs hcs hun hm
    rcases hms : m { s with events := [] } with ⟨r, t⟩
    have happart : Run.apart argument m s =
        (r, { t with events := s.events ++ [.nested argument t.events] }) := by
      rw [Run.apart, hms]
    change Run.apart argument m s = _ at hm
    rw [happart] at hm
    cases hm
    exact h.grows { s with events := [] } t hB hs hcs hun hms

/-- How the callbacks of values are run: each callback is served, by what runs it. -/
def Served (b : Binder) (B : Builder) (P : Nested → Prop) (callback : Value → Run Unit) : Prop :=
  ∀ v, (∀ c, v.nested? = some c → P c) → Serves b B v.nested?.toList (callback v)

variable {P : Nested → Prop} {callback : Value → Run Unit}

theorem nested?_of_not_isCallback {v : Value} (h : ¬ v.isCallback = true) : v.nested? = none := by
  cases v <;> simp_all [Value.isCallback, Value.nested?]

theorem serves_runArgument (hcb : Served b B P callback) (received : List Step) (c : Call)
    (a : String × Value) (ha : ∀ d, a.2.nested? = some d → P d) :
    Serves b B a.2.nested?.toList (runArgument B callback received c a) := by
  unfold runArgument
  split
  · exact (hcb a.2 ha).apart a.1
  · next hn =>
    refine ⟨fun s _ _ => .refl _, fun s s' hB _ _ _ hm => ?_⟩
    rw [hB, Bool.and_true] at hn
    obtain ⟨-, rfl⟩ := returns_pure.1 hm
    rw [nested?_of_not_isCallback hn]
    exact .refl _

theorem serves_arguments (hcb : Served b B P callback) (received : List Step) (c : Call)
    (args : Arguments) (hargs : ∀ d ∈ args.flatMap fun a => a.2.nested?.toList, P d) :
    Serves b B (args.flatMap fun a => a.2.nested?.toList)
      (args.forM (runArgument B callback received c)) := by
  induction args with
  | nil => exact serves_of_drafted .refl
  | cons a rest ih =>
    rw [List.flatMap_cons] at hargs ⊢
    refine (serves_runArgument hcb received c a fun d hd => ?_).seq (ih fun d hd => ?_)
    · exact hargs d (List.mem_append_left _ (Option.mem_toList.2 hd))
    · exact hargs d (List.mem_append_right _ hd)

theorem serves_receive (e : Event) : Serves b B [] (modify (Session.receive e)) :=
  serves_of_drafted (Session.drafted_receive e)

theorem serves_applyStep (hcb : Served b B P callback) (received : List Step) (step : Step)
    (hstep : ∀ d ∈ step.callbacks, P d) :
    Serves b B step.callbacks (applyStep B callback received step) := by
  cases step with
  | call c path =>
    cases hr : B.refuses received c with
    | some reason =>
      simp only [applyStep, hr]
      refine ⟨fun s _ _ => .refl _, fun s s' _ _ _ _ hm => ?_⟩
      exact absurd hm returns_throw
    | none =>
      simp only [applyStep, hr]
      exact (serves_receive _).seq
        ((serves_arguments hcb received c c.arguments hstep).wrapped _)
  | _ => exact serves_receive _

/-- Applying steps serves their callbacks. -/
theorem serves_applySteps (hcb : Served b B P callback) (received steps : List Step)
    (hsteps : ∀ d ∈ steps.flatMap Step.callbacks, P d) :
    Serves b B (steps.flatMap Step.callbacks) (applySteps B callback received steps) := by
  induction steps generalizing received with
  | nil => exact serves_of_drafted .refl
  | cons step rest ih =>
    rw [List.flatMap_cons] at hsteps ⊢
    refine (serves_applyStep hcb received step fun d hd => ?_).seq (ih _ fun d hd => ?_)
    · exact hsteps d (List.mem_append_left _ hd)
    · exact hsteps d (List.mem_append_right _ hd)

end Run

/-! ## Following switches -/

/-- A computation that adds subscriptions under the next ids, and gives these. -/
def Run.Follows (count : Nat) (m : Run (List Nat)) : Prop :=
  ∀ s : Session, ∃ s', m s = (.ok (List.range' s.ledger.nextId count), s') ∧
    s'.ledger = s.ledger.follow count

theorem Run.follows_pure : Follows 0 (pure []) := fun s => ⟨s, rfl, by simp [Ledger.follow]⟩

theorem Watch.start_apply (o : Options) (w : Watch) (s : Session) :
    ∃ s', w.start o s = (.ok s.ledger.nextId, s') ∧ s'.ledger = s.ledger.follow 1 := by
  unfold start
  cases w.announcement o with
  | none => exact ⟨_, rfl, Session.ledger_subscribe ..⟩
  | some e => exact ⟨_, rfl, Session.ledger_subscribe _ _ (s.receive e)⟩

/-- The switches of a plan follow their entries. -/
theorem Watch.follows_mapM_start (o : Options) (ws : List Watch) :
    Run.Follows ws.length (ws.mapM (start o)) := by
  intro s
  induction ws generalizing s with
  | nil => exact Run.follows_pure s
  | cons w rest ih =>
    obtain ⟨t, ht, hlt⟩ := start_apply o w s
    obtain ⟨s', hs', hls⟩ := ih t
    refine ⟨s', ?_, ?_⟩
    · rw [List.mapM_cons, Run.bind_apply, ht]
      dsimp only
      rw [Run.bind_apply, hs', hlt]
      rfl
    · rw [hls, hlt]
      simp [Ledger.follow, List.range'_succ]
      omega

/-! ## Configuring sections -/

/-- A computation configures a section: it gives the subscriptions to the section's own switches,
and adds as many as the section says if every callback is run. -/
structure Run.Configures (b : Binder) (B : Builder) (kind : CallbackKind) (n : Node)
    (m : Run (List Nat)) : Prop where
  later : ∀ s : Session, s.ledger.IsOrderly → s.ledger.Later (m s).2.ledger
  given : ∀ (s : Session) (ids : List Nat) (s' : Session), s.ledger.IsOrderly → Returns m s ids s' →
    ∀ i ∈ ids, s.ledger.nextId ≤ i ∧ i < s'.ledger.nextId
  count : ∀ (s : Session) (ids : List Nat) (s' : Session), s.ledger.IsOrderly → Returns m s ids s' →
    s'.ledger.count ids = if kind = .logger then n.watches else 0
  grows : ∀ (s : Session) (ids : List Nat) (s' : Session), B.InvokesAll → s.ledger.IsOrderly →
    Returns m s ids s' → Grows (b.subscriptions kind n) [] s.ledger s'.ledger

namespace Run

variable {b : Binder} {B : Builder} {kind : CallbackKind} {n : Node}

theorem Configures.later_of_returns {m : Run (List Nat)} (h : Configures b B kind n m)
    {s s' : Session} {ids : List Nat} (hs : s.ledger.IsOrderly) (hm : Returns m s ids s') :
    s.ledger.Later s'.ledger := by
  rw [← hm.snd_eq]
  exact h.later s hs

/-- The parts of configuring a section: a plan that only gives identities, whose steps carry new
callbacks for what the section says; the service of lower callbacks; the subscriptions to the
switches of the plan. -/
structure Parts {α : Type} (b : Binder) (B : Builder) (kind : CallbackKind) (n : Node)
    (planned : Run α) (steps : α → List Step) (callback : Value → Run Unit)
    (follow : α → Run (List Nat)) : Prop where
  drafts : Drafts planned
  made : ∀ {s a t}, Returns planned s a t → Made s.nextIdentity t.nextIdentity
    (b.callbacks kind n) ((steps a).flatMap Step.callbacks)
  served : Served b B (fun c => c.node.height < n.height) callback
  follows : ∀ {s a t}, Returns planned s a t →
    Follows (if kind = .logger then n.watches else 0) (follow a)

namespace Parts

variable {α : Type} {planned : Run α} {steps : α → List Step} {callback : Value → Run Unit}
  {follow : α → Run (List Nat)} {s t u s' : Session} {a : α} {ids : List Nat}

theorem known (p : Parts b B kind n planned steps callback follow) (ha : Returns planned s a t) :
    ∀ c ∈ (steps a).flatMap Step.callbacks, c.identity < t.nextIdentity :=
  fun c hc => ((p.made ha).bounds c hc).2

theorem unkept (p : Parts b B kind n planned steps callback follow) (hs : s.ledger.IsOrderly)
    (ha : Returns planned s a t) : t.ledger.Unkept ((steps a).flatMap Step.callbacks) := by
  refine ⟨(p.made ha).rising.imp Nat.ne_of_lt, fun c hc => ?_⟩
  obtain ⟨_, -, ht⟩ := (p.drafts.of_returns ha).raised
  rw [ht]
  exact hs.lookup_eq_none ((p.made ha).bounds c hc).1

/-- The callbacks of the plan configure what is lower than the section, so they are served. -/
theorem serves (p : Parts b B kind n planned steps callback follow) (ha : Returns planned s a t) :
    Serves b B ((steps a).flatMap Step.callbacks) (applySteps B callback [] (steps a)) := by
  refine serves_applySteps p.served [] (steps a) fun c hc => ?_
  have hplace := List.mem_map_of_mem (f := Nested.place) hc
  rw [(p.made ha).places] at hplace
  exact Binder.height_lt_of_mem_callbacks hplace

theorem later_of_returns (p : Parts b B kind n planned steps callback follow)
    (hs : s.ledger.IsOrderly) (ha : Returns planned s a t)
    (hu : Returns (applySteps B callback [] (steps a)) t () u) : s.ledger.Later u.ledger := by
  have hlater := (p.drafts.of_returns ha).raised.later
  exact hlater.trans ((p.serves ha).later_of_returns (hlater.isOrderly hs) (p.known ha) hu)

/-- What a successful run consists of. -/
theorem exists_of_returns (p : Parts b B kind n planned steps callback follow)
    (h : Returns (planned >>= fun a => applySteps B callback [] (steps a) >>= fun _ => follow a)
      s ids s') :
    ∃ a t u, Returns planned s a t ∧ Returns (applySteps B callback [] (steps a)) t () u ∧
      ids = List.range' u.ledger.nextId (if kind = .logger then n.watches else 0) ∧
      s'.ledger = u.ledger.follow (if kind = .logger then n.watches else 0) := by
  obtain ⟨a, t, ha, h⟩ := returns_bind.1 h
  obtain ⟨_, u, hu, h⟩ := returns_bind.1 h
  obtain ⟨w, hw, hledger⟩ := p.follows ha u
  rw [show follow a u = (.ok ids, s') from h] at hw
  cases hw
  exact ⟨a, t, u, ha, hu, rfl, hledger⟩

/-- The ledger stays orderly, wherever the run ends. -/
theorem later (p : Parts b B kind n planned steps callback follow) (hs : s.ledger.IsOrderly) :
    s.ledger.Later ((planned >>= fun a =>
      applySteps B callback [] (steps a) >>= fun _ => follow a) s).2.ledger := by
  have hlater := (p.drafts.raised s).later
  rw [bind_apply]
  rcases ha : planned s with ⟨r, t⟩
  rw [ha] at hlater
  cases r with
  | error e => exact hlater
  | ok a =>
    have hlater' := (p.serves ha).later t (hlater.isOrderly hs) (p.known ha)
    dsimp only
    rw [bind_apply]
    rcases hu : applySteps B callback [] (steps a) t with ⟨r, u⟩
    rw [hu] at hlater'
    cases r with
    | error e => exact hlater.trans hlater'
    | ok _ =>
      obtain ⟨w, hw, hledger⟩ := p.follows ha u
      dsimp only
      rw [hw, hledger]
      exact (hlater.trans hlater').trans (Ledger.later_follow ..)

theorem sum_subscriptions (p : Parts b B kind n planned steps callback follow)
    (ha : Returns planned s a t) :
    (((steps a).flatMap Step.callbacks).map fun c => b.subscriptions c.kind c.node).sum =
      b.nestedSubscriptions kind n := by
  rw [Binder.nestedSubscriptions, ← (p.made ha).places, List.map_map]
  rfl

/-- A successful run adds the subscriptions of the callbacks, and then those to the switches. -/
theorem grows (p : Parts b B kind n planned steps callback follow) (hB : B.InvokesAll)
    (hs : s.ledger.IsOrderly)
    (h : Returns (planned >>= fun a => applySteps B callback [] (steps a) >>= fun _ => follow a)
      s ids s') : Grows (b.subscriptions kind n) [] s.ledger s'.ledger := by
  obtain ⟨a, t, u, ha, hu, rfl, hledger⟩ := p.exists_of_returns h
  have hraised := (p.drafts.of_returns ha).raised
  have horderly := hraised.later.isOrderly hs
  have hserved := (p.serves ha).grows t u hB horderly (p.known ha) (p.unkept hs ha) hu
  have hlater := (p.serves ha).later_of_returns horderly (p.known ha) hu
  have hall := hserved.trans
    (Ledger.grows_follow u.ledger (if kind = .logger then n.watches else 0)) hlater
  rw [p.sum_subscriptions ha, ← hledger, List.append_nil] at hall
  rw [Binder.subscriptions_eq, Nat.add_comm]
  refine hraised.grows hall fun i hi => ?_
  obtain ⟨c, hc, rfl⟩ := List.mem_map.1 hi
  exact ((p.made ha).bounds c hc).1

/-- To plan, to serve the callbacks of the plan and to follow its switches configures a section. -/
theorem configures (p : Parts b B kind n planned steps callback follow) :
    Configures b B kind n (planned >>= fun a =>
      applySteps B callback [] (steps a) >>= fun _ => follow a) := by
  refine ⟨fun s hs => p.later hs, fun s ids s' hs h i hi => ?_, fun s ids s' hs h => ?_,
    fun s ids s' hB hs h => p.grows hB hs h⟩
  · obtain ⟨a, t, u, ha, hu, rfl, hledger⟩ := p.exists_of_returns h
    obtain ⟨hge, hlt⟩ := List.mem_range'_1.1 hi
    rw [hledger]
    exact ⟨Nat.le_trans (p.later_of_returns hs ha hu).nextId hge, hlt⟩
  · obtain ⟨a, t, u, ha, hu, rfl, hledger⟩ := p.exists_of_returns h
    rw [hledger]
    exact Ledger.count_follow ((p.later_of_returns hs ha hu).isOrderly hs) _

end Parts

/-- A callback that is run keeps the subscriptions to its own switches. -/
theorem Configures.serves {c : Nested} {m : Run (List Nat)}
    (h : Configures b B c.kind c.node m) : Serves b B [c] (c.keeping m) := by
  constructor
  · intro s hs hc
    have hlater := h.later s hs
    rw [Nested.keeping, bind_apply]
    rcases hms : m s with ⟨r, t⟩
    rw [hms] at hlater
    cases r with
    | error e => exact hlater
    | ok ids =>
      dsimp only
      split
      · refine hlater.trans ?_
        change Later _ (t.keep c.identity ids).ledger
        rw [Session.ledger_keep]
        refine Ledger.later_keep ?_ fun i hi => (h.given s ids t hs hms i hi).2
        exact Nat.lt_of_lt_of_le (hc c (List.mem_singleton_self c)) hlater.nextIdentity
      · exact hlater
  · intro s s' hB hs hc hun hm
    obtain ⟨ids, t, hms, hm⟩ := returns_bind.1 hm
    have hlater := h.later_of_returns hs hms
    have hgrows := h.grows s ids t hB hs hms
    have hkept : t.ledger.kept.lookup c.identity = none := by
      rw [hgrows.kept _ (hc c (List.mem_singleton_self c)) List.not_mem_nil]
      exact hun.unkept c (List.mem_singleton_self c)
    split at hm
    · obtain rfl := returns_modify.1 hm
      rw [Session.ledger_keep]
      simpa using hgrows.trans (Ledger.grows_keep hkept ids) hlater
    · obtain ⟨-, rfl⟩ := returns_pure.1 hm
      simpa using hgrows.weaken (List.nil_subset _)

end Run

namespace Binder

variable {b : Binder} {B : Builder}

theorem configures_configureWith (hb : b.catalog.IsPassive) {kind : CallbackKind} {n : Node}
    {callback : Value → Run Unit}
    (hcb : Run.Served b B (fun c => c.node.height < n.height) callback) :
    Run.Configures b B kind n (b.configureWith B kind n callback) := by
  have hlist : ∀ capability, b.callbacks kind n = b.sectionCallbacks capability n →
      kind ≠ .logger → Run.Configures b B kind n (b.directives capability n >>= fun steps =>
        Run.applySteps B callback [] steps >>= fun _ => pure []) := by
    intro capability hcallbacks hkind
    have hparts : Run.Parts b B kind n (b.directives capability n) id callback
        fun _ => pure [] := by
      refine ⟨drafts_directives capability n, fun h => ?_, hcb, fun _ => ?_⟩
      · rw [hcallbacks]
        exact made_of_directives hb h
      · rw [if_neg hkind]
        exact Run.follows_pure
    exact hparts.configures
  cases kind with
  | logger =>
    have hparts : Run.Parts b B .logger n (b.plan n) Plan.steps callback
        fun p => p.watches.mapM (Watch.start b.options) := by
      refine ⟨drafts_plan n, fun h => (planned hb h).1, hcb, fun h => ?_⟩
      rw [if_pos rfl, ← (planned hb h).2]
      exact Watch.follows_mapM_start b.options _
    exact hparts.configures
  | sinks => exact hlist .sink rfl (by simp)
  | enrichers => exact hlist .enrich rfl (by simp)
  | auditSinks => exact hlist .auditSink rfl (by simp)
  | other name =>
    refine ⟨fun s _ => .refl _, fun s ids s' _ h => ?_, fun s ids s' _ h => ?_,
      fun s ids s' _ _ h => ?_⟩
    all_goals
      obtain ⟨rfl, rfl⟩ := returns_pure.1 h
    · exact fun i hi => absurd hi List.not_mem_nil
    · simp [Ledger.count]
    · rw [subscriptions_eq]
      exact .refl _

/-- Running a callback configures its section, whatever the callbacks in it. -/
theorem configures_run (hb : b.catalog.IsPassive) (kind : CallbackKind) (n : Node) :
    Run.Configures b B kind n (b.run B kind n) := by
  induction hh : n.height using Nat.strongRecOn generalizing kind n with
  | ind height ih =>
    rw [run]
    refine configures_configureWith hb fun v hv => ?_
    cases hc : v.nested? with
    | none => exact Run.serves_of_drafted .refl
    | some c =>
      dsimp only
      rw [dif_pos (hv c hc)]
      exact (ih c.node.height (hh ▸ hv c hc) c.kind c.node rfl).serves

/-- Invoking a value serves the callback that it is. -/
theorem serves_invoke (hb : b.catalog.IsPassive) (v : Value) :
    Run.Serves b B v.nested?.toList (b.invoke B v) := by
  unfold invoke
  cases v.nested? with
  | none => exact Run.serves_of_drafted .refl
  | some c => exact (configures_run hb c.kind c.node).serves

end Binder

end LogBinder
