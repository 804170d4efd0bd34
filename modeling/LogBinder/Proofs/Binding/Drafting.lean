/-
  Log binder — what planning leaves alone.

  Planning makes switches and gives identities; it declares names and tells
  what was wrong.  Nothing else changes: neither the configuration and its
  subscriptions nor any switch that was there before, and nobody receives
  anything.

  * `Session.Drafted` : what may be new in a session;
  * `Run.Drafts` : a computation that changes nothing else; all of planning
    does (`Binder.drafts_plan`), whatever the catalog holds.
-/
import LogBinder.Binding.Planning
import LogBinder.Proofs.Binding.Ledger
import LogBinder.Proofs.Binding.Origins
import LogBinder.Proofs.Binding.Returns

namespace LogBinder

/-! ## Drafts -/

namespace Session

/-- A session and a later one: there may be new switches, identities and declared names, and more
may have been told and received. -/
structure Drafted (s t : Session) : Prop where
  host : t.host = s.host
  root : t.root = s.root
  kept : t.kept = s.kept
  nextIdentity : s.nextIdentity ≤ t.nextIdentity
  levels : s.levels <+: t.levels
  filters : s.filters <+: t.filters

variable {s t u : Session}

theorem Drafted.refl (s : Session) : s.Drafted s :=
  ⟨rfl, rfl, rfl, Nat.le_refl _, List.prefix_rfl, List.prefix_rfl⟩

theorem Drafted.trans (h : s.Drafted t) (h' : t.Drafted u) : s.Drafted u :=
  ⟨h'.host.trans h.host, h'.root.trans h.root, h'.kept.trans h.kept,
    Nat.le_trans h.nextIdentity h'.nextIdentity, h.levels.trans h'.levels,
    h.filters.trans h'.filters⟩

theorem Drafted.raised (h : s.Drafted t) : s.ledger.Raised t.ledger := by
  refine ⟨t.nextIdentity, h.nextIdentity, ?_⟩
  simp only [ledger, h.root, h.kept]

theorem drafted_addLevel (l : Level) (s : Session) : s.Drafted (s.addLevel l).2 :=
  { Drafted.refl s with levels := List.prefix_append .. }

theorem drafted_addFilter (expression : Option String) (s : Session) :
    s.Drafted (s.addFilter expression).2 :=
  { Drafted.refl s with filters := List.prefix_append .. }

theorem drafted_tell (d : Diagnostic) (s : Session) : s.Drafted (s.tell d) :=
  { Drafted.refl s with }

theorem drafted_receive (e : Event) (s : Session) : s.Drafted (s.receive e) :=
  { Drafted.refl s with }

theorem drafted_declare (kind : SwitchKind) (name : String) (cell : Nat) (path : String)
    (s : Session) : s.Drafted (s.declare kind name cell path) := by
  have hput : s.Drafted { s with registry := s.registry.put kind name cell } :=
    { Drafted.refl s with }
  unfold declare
  split
  · exact hput.trans (drafted_tell ..)
  · exact hput

theorem events_declare (kind : SwitchKind) (name : String) (cell : Nat) (path : String)
    (s : Session) : (s.declare kind name cell path).events = s.events := by
  unfold declare
  split <;> rfl

end Session

namespace Run

variable {α β : Type}

/-- A computation that only drafts and receives nothing, whether it succeeds or not. -/
structure Drafts (m : Run α) : Prop where
  drafted : ∀ s : Session, s.Drafted (m s).2
  events : ∀ s : Session, (m s).2.events = s.events

theorem drafts_pure (a : α) : Drafts (pure a) := ⟨fun s => .refl s, fun _ => rfl⟩

theorem drafts_throw (e : ResolveError) : Drafts (throw e : Run α) :=
  ⟨fun s => .refl s, fun _ => rfl⟩

theorem drafts_lift (x : Except ResolveError α) : Drafts (liftM x : Run α) := by
  constructor <;> intro s <;> rw [lift_apply]
  exact .refl s

theorem drafts_get : Drafts get := ⟨fun s => .refl s, fun _ => rfl⟩

theorem drafts_modifyGet {f : Session → α × Session} (hf : ∀ s : Session, s.Drafted (f s).2)
    (hevents : ∀ s : Session, (f s).2.events = s.events) : Drafts (modifyGet f) :=
  ⟨hf, hevents⟩

theorem drafts_modify {f : Session → Session} (hf : ∀ s : Session, s.Drafted (f s))
    (hevents : ∀ s : Session, (f s).events = s.events) : Drafts (modify f) :=
  ⟨hf, hevents⟩

theorem drafts_bind {m : Run α} {f : α → Run β} (hm : Drafts m) (hf : ∀ a, Drafts (f a)) :
    Drafts (m >>= f) := by
  have hboth : ∀ s : Session,
      s.Drafted ((m >>= f) s).2 ∧ ((m >>= f) s).2.events = s.events := by
    intro s
    have hdrafted := hm.drafted s
    have hevents := hm.events s
    rw [bind_apply]
    rcases hms : m s with ⟨r, t⟩
    rw [hms] at hdrafted hevents
    cases r with
    | error e => exact ⟨hdrafted, hevents⟩
    | ok a => exact ⟨hdrafted.trans ((hf a).drafted t), ((hf a).events t).trans hevents⟩
  exact ⟨fun s => (hboth s).1, fun s => (hboth s).2⟩

theorem drafts_mapM {f : α → Run β} (hf : ∀ a, Drafts (f a)) (xs : List α) :
    Drafts (xs.mapM f) := by
  induction xs with
  | nil =>
    rw [List.mapM_nil]
    exact drafts_pure _
  | cons x rest ih =>
    rw [List.mapM_cons]
    exact drafts_bind (hf x) fun _ => drafts_bind ih fun _ => drafts_pure _

theorem Drafts.of_returns {m : Run α} {s s' : Session} {a : α} (hm : Drafts m)
    (h : Returns m s a s') : s.Drafted s' := by
  rw [← h.snd_eq]
  exact hm.drafted s

theorem Drafts.raised {m : Run α} (hm : Drafts m) (s : Session) :
    s.ledger.Raised (m s).2.ledger :=
  (hm.drafted s).raised

theorem Drafts.le {m : Run α} {s s' : Session} {a : α} (hm : Drafts m) (h : Returns m s a s') :
    s.nextIdentity ≤ s'.nextIdentity :=
  (hm.of_returns h).nextIdentity

/-! ## Levels, switches and properties -/

theorem drafts_levelTarget (n : Node) (label : String) : Drafts (levelTarget n label) := by
  unfold levelTarget
  refine drafts_bind (drafts_lift _) fun text => ?_
  split
  · exact drafts_pure _
  · split
    · exact drafts_bind drafts_get fun _ => drafts_bind (drafts_lift _) fun _ => drafts_pure _
    · refine drafts_bind (drafts_lift _) fun l => ?_
      exact drafts_bind (drafts_modifyGet (Session.drafted_addLevel l) fun _ => rfl) fun _ =>
        drafts_pure _

theorem drafts_levelPlan (n : Node) (label : String) (step : Nat → Step) :
    Drafts (levelPlan n label step) := by
  refine drafts_bind (drafts_levelTarget n label) fun target => ?_
  split <;> exact drafts_pure _

theorem drafts_controlPlan (n : Node) : Drafts (controlPlan n) := by
  refine drafts_bind (drafts_lift _) fun text => ?_
  split
  · exact drafts_pure _
  · exact drafts_bind drafts_get fun _ => drafts_bind (drafts_lift _) fun _ => drafts_pure _

theorem drafts_ifPresent {plan : Node → Run Plan} (h : ∀ n, Drafts (plan n)) (n : Node) :
    Drafts (ifPresent n plan) := by
  unfold ifPresent
  split
  · exact h n
  · exact drafts_pure _

theorem drafts_levelSection (n : Node) : Drafts (levelSection n) := by
  refine drafts_bind (drafts_ifPresent (fun _ => drafts_levelPlan ..) _) fun _ => ?_
  refine drafts_bind (drafts_ifPresent drafts_controlPlan _) fun _ => ?_
  refine drafts_bind (drafts_lift _) fun _ => ?_
  exact drafts_bind (drafts_mapM (fun _ => drafts_levelPlan ..) _) fun _ => drafts_pure _

theorem drafts_minimumLevels (n : Node) : Drafts (minimumLevels n) := by
  refine drafts_ifPresent (fun m => drafts_bind (drafts_lift _) fun shape => ?_) _
  cases shape with
  | scalar text => exact drafts_levelPlan ..
  | structured => exact drafts_levelSection m

theorem drafts_declare (kind : SwitchKind) (name : String) (cell : Nat) (path : String) :
    Drafts (declare kind name cell path) := by
  refine drafts_bind (drafts_lift _) fun canonical => ?_
  refine drafts_bind (drafts_modify (fun _ => Session.drafted_declare ..) fun s => ?_) fun _ =>
    drafts_pure _
  exact Session.events_declare ..

theorem drafts_declareSwitches (o : Options) (n : Node) (kind : SwitchKind) :
    Drafts (declareSwitches o n kind) := by
  refine drafts_bind (drafts_lift _) fun _ => drafts_mapM (fun e => ?_) _
  cases kind with
  | level =>
    refine drafts_bind (drafts_lift _) fun l => ?_
    refine drafts_bind (drafts_modifyGet (Session.drafted_addLevel l) fun _ => rfl) fun _ => ?_
    exact drafts_bind (drafts_declare ..) fun _ => drafts_pure _
  | filter =>
    refine drafts_bind (drafts_lift _) fun text => ?_
    refine drafts_bind (drafts_modifyGet (Session.drafted_addFilter (some text)) fun _ => rfl)
      fun _ => ?_
    exact drafts_bind (drafts_declare ..) fun _ => drafts_pure _

theorem drafts_properties (n : Node) : Drafts (properties n) := by
  refine drafts_bind (drafts_lift _) fun _ => drafts_mapM (fun e => ?_) _
  refine drafts_bind (drafts_lift _) fun shape => ?_
  cases shape with
  | scalar text => exact drafts_bind drafts_get fun _ => drafts_pure _
  | structured => exact drafts_throw _

end Run

/-! ## Directives -/

namespace Binder

open Run (Drafts Returns returns_bind returns_pure returns_lift drafts_bind drafts_pure drafts_lift
  drafts_mapM)

variable {b : Binder}

/-- The methods that a section of directives chooses from. -/
def candidates (b : Binder) (capability : Capability) : List Method :=
  b.catalog.candidates capability b.selection b.options.allowInternalMethods

theorem converted_apply {α : Type} (b : Binder) (f : Scope → Fresh α) (s : Session) :
    b.converted f s = match (f (b.scope s)).run s.nextIdentity with
      | .ok (a, m) => (.ok a, { s with nextIdentity := m })
      | .error e => (.error e, s) := by
  rw [converted, Run.bind_apply]
  change ((liftM ((f (b.scope s)).run s.nextIdentity) : Run (α × Nat)) >>= _) s = _
  rw [Run.bind_apply, Run.lift_apply]
  cases (f (b.scope s)).run s.nextIdentity <;> rfl

/-- A conversion takes identities and nothing else. -/
theorem drafts_converted {α : Type} {f : Scope → Fresh α}
    (hf : ∀ (s : Session) (r : α × Nat),
      (f (b.scope s)).run s.nextIdentity = .ok r → s.nextIdentity ≤ r.2) :
    Drafts (b.converted f) := by
  constructor <;> intro s <;> rw [converted_apply] <;>
    rcases hr : (f (b.scope s)).run s.nextIdentity with e | ⟨a, next⟩
  · exact .refl s
  · exact { Session.Drafted.refl s with nextIdentity := hf s (a, next) hr }
  · rfl
  · rfl

theorem yields_of_converted {α : Type} {f : Scope → Fresh α} {s s' : Session} {a : α}
    (h : Returns (b.converted f) s a s') :
    Fresh.Yields (f (b.scope s)) s.nextIdentity a s'.nextIdentity := by
  rw [converted, returns_bind] at h
  obtain ⟨t, _, ht, h⟩ := h
  obtain ⟨rfl, rfl⟩ := Run.returns_get.1 ht
  rw [returns_bind] at h
  obtain ⟨r, t', hr, h⟩ := h
  obtain ⟨hr, rfl⟩ := returns_lift.1 hr
  rw [returns_bind] at h
  obtain ⟨_, _, hu, h⟩ := h
  obtain rfl := Run.returns_modify.1 hu
  obtain ⟨rfl, rfl⟩ := returns_pure.1 h
  exact hr

theorem mem_methods_of_select {capability : Capability} {d : Directive} {m : Method}
    (h : Overload.select (b.candidates capability) d.name capability d.supplied = some m) :
    ∃ p ∈ b.catalog.packages, m ∈ p.methods := by
  have hmem := (List.mem_filter.1 (List.mem_filter.1 (best_mem h)).1).1
  obtain ⟨p, hp, hm⟩ := List.mem_flatMap.1 hmem
  exact ⟨p, (List.mem_filter.1 hp).1, hm⟩

theorem drafts_directive (capability : Capability) (d : Directive) :
    Drafts (b.directive capability (b.candidates capability) d) := by
  unfold directive
  split
  · next m hm =>
    refine drafts_bind (drafts_converted fun s r hr => ?_) fun _ => drafts_pure _
    have htraced : s.nextIdentity ≤ r.2 ∧ ∀ a ∈ r.1.arguments,
        a.2.Traced b.catalog (fun _ => True) s.nextIdentity r.2 :=
      Call.traced_of_bind (s := b.scope s) (mem_methods_of_select hm) (fun _ _ _ _ => trivial) hr
    exact htraced.1
  · exact drafts_bind (Run.drafts_modify (Session.drafted_tell _) fun _ => rfl) fun _ =>
      drafts_pure _

theorem drafts_directives (capability : Capability) (n : Node) :
    Drafts (b.directives capability n) := by
  unfold directives
  split
  · refine drafts_bind (drafts_lift _) fun _ => ?_
    exact drafts_bind (drafts_mapM (drafts_directive capability) _) fun _ => drafts_pure _
  · exact drafts_pure _

theorem drafts_phase (n : Node) (capability : Capability) :
    Drafts (b.phase n capability) :=
  drafts_directives capability _

/-- Planning only drafts. -/
theorem drafts_plan (n : Node) : Drafts (b.plan n) := by
  refine drafts_bind (Run.drafts_declareSwitches ..) fun _ => ?_
  refine drafts_bind (Run.drafts_declareSwitches ..) fun _ => ?_
  refine drafts_bind (Run.drafts_minimumLevels _) fun _ => ?_
  refine drafts_bind (drafts_phase ..) fun _ => ?_
  refine drafts_bind (Run.drafts_properties _) fun _ => ?_
  refine drafts_bind (drafts_phase ..) fun _ => ?_
  refine drafts_bind (drafts_phase ..) fun _ => ?_
  refine drafts_bind (drafts_phase ..) fun _ => ?_
  exact drafts_bind (drafts_phase ..) fun _ => drafts_pure _

end Binder

end LogBinder
