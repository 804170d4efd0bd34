/-
  Log binder — resolution ends.

  Running a callback plans its section, which may bind more callbacks, which
  may be run in turn.  Conversions bind callbacks to places strictly below
  the section that is planned; so runs are nested no deeper than the section
  is high, whatever the types and the methods of the catalog are, and it does
  not matter what would come of deeper ones.

  * `Receiver.Spares` : a builder that runs no callbacks but those that
    conversions have bound;
  * `Binder.invokeWithin` : runs that are nested a number of times, without
    looking at heights (`Binder.invokeWithin_eq`);
  * `Binder.resolution_ends` : conversions and runs end.
-/
import LogBinder.Proofs.Binding.Reinvocation
import LogBinder.Proofs.Binding.Requests
import LogBinder.Proofs.Binding.Service

namespace LogBinder

open Run (Returns)

variable {σ : Type}

/-! ## Builders that run bound callbacks -/

namespace Reaction

theorem Runs.and {P Q : Value → Prop} {r : Reaction σ} (hP : r.Runs P) (hQ : r.Runs Q) :
    r.Runs fun v => P v ∧ Q v := by
  induction r with
  | accept | refuse | fail => trivial
  | note e rest ih => exact ih hP hQ
  | run argument v memory rest ih =>
    exact ⟨⟨hP.1, hQ.1⟩, fun after outcome => ih after outcome (hP.2 after outcome)
      (hQ.2 after outcome)⟩

theorem runs_of_forall {P : Value → Prop} (h : ∀ v, P v) (r : Reaction σ) : r.Runs P := by
  induction r with
  | accept | refuse | fail => trivial
  | note e rest ih => exact ih
  | run argument v memory rest ih => exact ⟨h v, ih⟩

/-- A reaction depends on nothing but what comes of the callbacks that it runs. -/
theorem perform_congr (signature : String) {P : Value → Prop} {r : Reaction σ} (hr : r.Runs P)
    {invoke invoke' : Value → σ → StateM Session (Outcome σ Unit)}
    (h : ∀ v, P v → invoke v = invoke' v) :
    r.perform signature invoke = r.perform signature invoke' := by
  induction r with
  | accept | refuse | fail => rfl
  | note e rest ih => rw [perform, perform, ih hr]
  | run argument v memory rest ih =>
    obtain ⟨hv, hrest⟩ := hr
    rw [perform, perform, h v hv]
    refine bind_congr ?_
    intro result
    exact ih result.2 result.1 (hrest result.2 result.1)

end Reaction

namespace Receiver

variable {R : Receiver σ}

/-- A builder that runs no callback that a catalog holds. -/
def Spares (R : Receiver σ) (c : Catalog) : Prop :=
  ∀ received call path memory,
    (R.react received call path memory).Runs fun v => c.Holds v → v.nested? = none

theorem spares_of_isInert {c : Catalog} (h : c.IsInert) : R.Spares c := fun _ _ _ _ =>
  Reaction.runs_of_forall h _

theorem serve_congr {c : Catalog} (hR : R.Spares c)
    {invoke invoke' : Value → σ → StateM Session (Outcome σ Unit)} (received steps : List Step)
    (h : ∀ v, Step.AnyCarries (received ++ steps) v → (c.Holds v → v.nested? = none) →
      invoke v = invoke' v) :
    R.serve invoke received steps = R.serve invoke' received steps := by
  induction steps generalizing received with
  | nil => rfl
  | cons step rest ih =>
    have hwhole : received ++ step :: rest = received ++ [step] ++ rest := by simp
    rw [hwhole] at h
    have hrest := ih (received ++ [step]) h
    funext memory
    cases step with
    | call call path =>
      have hreact := Reaction.perform_congr call.method.signature
        ((R.handed received call path memory).and (hR received call path memory))
        fun v ⟨⟨step, hstep, hv⟩, hheld⟩ =>
          h v ⟨step, List.mem_append_left _ hstep, hv⟩ hheld
      rw [serve, serve, hreact, hrest]
    | _ => simp only [serve, hrest]

end Receiver

/-! ## Nested runs -/

theorem Step.exists_carries_of_mem {steps : List Step} {d : Nested}
    (h : d ∈ steps.flatMap callbacks) : ∃ v, AnyCarries steps v ∧ v.nested? = some d := by
  obtain ⟨step, hstep, hd⟩ := List.mem_flatMap.1 h
  cases step with
  | call c path =>
    obtain ⟨a, ha, hnested⟩ := List.mem_flatMap.1 hd
    rw [Option.mem_toList] at hnested
    refine ⟨a.2, ⟨_, hstep, a, ha, ?_⟩, hnested⟩
    cases hv : a.2 with
    | callback kind path body => exact .self kind path body
    | _ => simp [hv, Value.nested?] at hnested
  | _ => cases hd

theorem Node.height_pos {n : Node} (h : n.isPresent = true) : 0 < n.height := by
  obtain ⟨t, ht⟩ := Option.isSome_iff_exists.1 h
  rw [height, ht]
  exact Nat.succ_pos _

namespace Binder

variable {b : Binder} {R : Receiver σ} {kind : CallbackKind} {n : Node}

/-- Configuring a section depends on nothing but what comes of callbacks for places below. -/
theorem configureWithFor_congr (hR : R.Spares b.catalog)
    {invoke invoke' : Value → σ → StateM Session (Outcome σ Unit)}
    (h : ∀ v, (∀ d, v.nested? = some d → d.node.IsBelow n) → invoke v = invoke' v) :
    b.configureWithFor R kind n invoke = b.configureWithFor R kind n invoke' := by
  funext memory s
  rw [configureWithFor, configureWithFor, Outcome.andThen, Outcome.andThen, Outcome.bind_apply,
    Outcome.bind_apply, Run.beside_apply]
  rcases hplan : b.planOf kind n s with ⟨r, t⟩
  cases r with
  | error e => rfl
  | ok p =>
    dsimp only
    rw [Receiver.applyWith, Receiver.applyWith, Receiver.serve_congr hR [] p.steps]
    intro v hv hheld
    refine h v ?_
    intro d hd
    rcases nested_of_planOf hplan hv hd with hholds | ⟨hbelow, -⟩
    · rw [hheld hholds] at hd
      cases hd
    · exact hbelow

/-- Runs a callback, and the callbacks that arise, nested up to a number of times; a deeper one is
lost. -/
def invokeWithin (b : Binder) (R : Receiver σ)
    (lost : Nested → σ → StateM Session (Outcome σ Unit)) :
    Nat → Value → σ → StateM Session (Outcome σ Unit)
  | 0, v, memory => match v.nested? with
    | some c => lost c memory
    | none => return (.ok (), memory)
  | k + 1, v, memory => match v.nested? with
    | some c =>
      c.keepingFor (b.configureWithFor R c.kind c.node (invokeWithin b R lost k) memory)
    | none => return (.ok (), memory)

/-- Running a callback does not depend on how runs are guarded. -/
theorem runFor_eq (hR : R.Spares b.catalog) (kind : CallbackKind) (n : Node) :
    b.runFor R kind n = b.configureWithFor R kind n (b.invokeFor R) := by
  funext memory
  rw [runFor]
  refine congrFun (configureWithFor_congr hR fun v hv => ?_) memory
  funext after
  rw [invokeFor]
  cases hd : v.nested? with
  | none => rfl
  | some d => exact dif_pos (hv d hd).height_lt

/-- A callback for a place that exists needs no deeper nesting than the place is high. -/
theorem invokeWithin_eq (hR : R.Spares b.catalog)
    (lost : Nested → σ → StateM Session (Outcome σ Unit)) {k : Nat} {v : Value}
    (hv : ∀ d, v.nested? = some d → d.node.isPresent = true ∧ d.node.height ≤ k) :
    b.invokeWithin R lost k v = b.invokeFor R v := by
  induction k generalizing v with
  | zero =>
    funext memory
    rw [invokeWithin, invokeFor]
    cases hd : v.nested? with
    | none => rfl
    | some d =>
      obtain ⟨hpresent, hheight⟩ := hv d hd
      have hpos := Node.height_pos hpresent
      omega
  | succ k ih =>
    funext memory
    rw [invokeWithin, invokeFor]
    cases hd : v.nested? with
    | none => rfl
    | some d =>
      obtain ⟨-, hheight⟩ := hv d hd
      dsimp only
      rw [runFor_eq hR, configureWithFor_congr hR fun w hw => ih fun e he => ?_]
      have hlower := (hw e he).height_lt
      exact ⟨(hw e he).isPresent, by omega⟩

/-- **Resolution ends, whatever the catalog.**

What a conversion asks for is for a place below, or it leaves less of the type to do at the same
place; one round depends on nothing else, and finitely many rounds of asking suffice.  The callbacks
that conversions bind while a section is planned are bound to places below it, which are lower.  And
configuring a section with a builder that runs callbacks which conversions have bound, as often as
it likes, needs no deeper nesting of runs than there are levels below the section. -/
theorem resolution_ends (b : Binder) :
    (∀ (s : Scope) (r : Request), (∀ r' ∈ r.asks s, r.Leads r') ∧
      ∀ f g : Request → Fresh Value, (∀ r' ∈ r.asks s, f r' = g r') → r.step s f = r.step s g) ∧
    (∀ (s : Scope) (n : Node) (target : TypeRef), ∃ k, ∀ lost,
      Request.within s lost k (.convert n target) = s.convert n target) ∧
    (∀ (kind : CallbackKind) (n : Node) (s t : Session) (p : Plan),
      Returns (b.planOf kind n) s p t → ∀ v, Step.AnyCarries p.steps v → ¬ b.catalog.Holds v →
      ∀ d, v.nested? = some d → d.node.IsBelow n ∧ d.node.height < n.height) ∧
    (∀ (σ : Type) (R : Receiver σ), R.Spares b.catalog → ∀ (n : Node)
      (lost : Nested → σ → StateM Session (Outcome σ Unit)),
      b.configureWithFor R .logger n (b.invokeWithin R lost (n.height - 1)) =
        b.configureFor R n) := by
  refine ⟨fun s r => ⟨fun r' => Request.leads_of_mem_asks, fun f g => Request.step_congr⟩,
    fun s n target => Request.exists_within (.convert n target), ?_, ?_⟩
  · intro kind n s t p hplan v hv hnew d hd
    rcases nested_of_planOf hplan hv hd with hheld | ⟨hbelow, -⟩
    · exact absurd hheld hnew
    · exact ⟨hbelow, hbelow.height_lt⟩
  · intro σ R hR n lost
    rw [configureWithFor_congr hR fun v hv => invokeWithin_eq hR lost fun d hd => ?_]
    · rfl
    · have hlower := (hv d hd).height_lt
      exact ⟨(hv d hd).isPresent, by omega⟩

end Binder

/-! ## A type that refers to itself, and a sub-logger in a sub-logger -/

namespace Sample

/-- A type whose constructor takes an object of the type itself. -/
def chains : Package := .of "Sample.Chains" []
  [.of "Sample.Chain" [] [.of "chain" [.optional "next" (.object "Sample.Chain") .null]] []]

/-- What conversions see that know this type. -/
def chainScope : Scope := ⟨⟨[chains]⟩, {}, .all, [], .empty, none⟩

/-- Three objects in each other. -/
def chainNode : Node := .top (.ofEntries [⟨"next:next:next:$type", some "Sample.Chain"⟩])

/-- The plan of a sub-logger in a sub-logger. -/
def nestedPlan : Plan :=
  (binder.plan nestedRoot.top (.start ⟨[], []⟩ nestedRoot)).1.toOption.getD .empty

/-- The three objects are converted, the outer sub-logger is lower than the section, and its run
needs no deeper nesting than the section is high. -/
theorem resolution_ends_nested :
    (∃ k, ∀ lost, Request.within chainScope lost k (.convert chainNode (.object "Sample.Chain")) =
      chainScope.convert chainNode (.object "Sample.Chain")) ∧
    (∃ d ∈ nestedPlan.steps.flatMap Step.callbacks,
      d.node.height < nestedRoot.top.height) ∧
    ∀ lost, binder.configureWithFor builder.receiver .logger nestedRoot.top
      (binder.invokeWithin builder.receiver lost (nestedRoot.top.height - 1)) =
        binder.configureFor builder.receiver nestedRoot.top := by
  have hnone : ∀ v, ¬ binder.catalog.Holds v := Catalog.not_holds (by decide) (by decide)
  obtain ⟨-, hconverts, hlower, hends⟩ := Binder.resolution_ends binder
  refine ⟨hconverts chainScope chainNode _, ?_, hends Unit builder.receiver ?_ nestedRoot.top⟩
  · have hplans : (binder.plan nestedRoot.top (.start ⟨[], []⟩ nestedRoot)).1.isOk = true ∧
        0 < (nestedPlan.steps.flatMap Step.callbacks).length := by
      decide +kernel
    obtain ⟨d, hd⟩ := List.exists_mem_of_length_pos hplans.2
    obtain ⟨v, hv, hnested⟩ := Step.exists_carries_of_mem hd
    have hplan : Returns (binder.plan nestedRoot.top) (.start ⟨[], []⟩ nestedRoot) nestedPlan _ :=
      Run.returns_of_isOk hplans.1 .empty
    exact ⟨d, hd, (hlower .logger _ _ _ _ hplan v hv (hnone v) d hnested).2⟩
  · exact Receiver.spares_of_isInert fun v hv => absurd hv (hnone v)

end Sample

end LogBinder
