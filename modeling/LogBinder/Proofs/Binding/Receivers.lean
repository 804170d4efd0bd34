/-
  Log binder — builders with a memory.

  A builder may do more than to run callbacks once and one after the other:
  it remembers what it has seen, runs any callback that it was handed, deep
  inside an argument or with an earlier call, as often as it likes and
  against builders that share its memory, looks at the outcome, and only then
  accepts or refuses the call.

  * `Reaction`, `Receiver` : what such a builder does with a call, and with
    all it receives;
  * `Binder.planOf` : the plan that a callback of a kind follows;
  * `Binder.runFor`, `invokeFor`, `applyFor`, `configureFor` : running a
    callback, applying a plan and configuring a section for such a builder;
  * `Builder.receiver` : every builder is one, with the same runs
    (`Binder.configureFor_receiver`).
-/
import LogBinder.Proofs.Binding.Origins
import LogBinder.Proofs.Binding.Serving

namespace LogBinder

open Run (Returns returns_bind returns_pure)

variable {σ : Type}

/-! ## Builders -/

/-- How a computation in exchange with a builder ends, and what the builder remembers then. -/
abbrev Outcome (σ α : Type) := Except ResolveError α × σ

/-- A computation that the builder takes no part in. -/
def Run.beside {α : Type} (x : Run α) (memory : σ) : StateM Session (Outcome σ α) := do
  return (← x.run, memory)

/-- Goes on after a success. -/
def Outcome.andThen {α β : Type} (x : StateM Session (Outcome σ α))
    (f : α → σ → StateM Session (Outcome σ β)) : StateM Session (Outcome σ β) := do
  match ← x with
  | (.ok a, memory) => f a memory
  | (.error e, memory) => return (.error e, memory)

theorem Run.beside_apply {α : Type} (x : Run α) (memory : σ) (s : Session) :
    x.beside memory s = (((x s).1, memory), (x s).2) := rfl

theorem Outcome.bind_apply {α β : Type} (x : StateM Session α) (f : α → StateM Session β)
    (s : Session) : (x >>= f) s = f (x s).1 (x s).2 := rfl

theorem Outcome.eq_of_isOk {α : Type} {r : Outcome σ α × Session} (h : r.1.1.isOk = true) :
    ∃ a, r = ((.ok a, r.1.2), r.2) := by
  obtain ⟨⟨a, memory⟩, t⟩ := r
  cases a with
  | error e => cases h
  | ok a => exact ⟨a, rfl⟩

theorem Run.beside_bind {α β : Type} (x : Run α) (f : α → Run β) (memory : σ) :
    (x >>= f).beside memory =
      Outcome.andThen (x.beside memory) fun a memory => (f a).beside memory := by
  funext s
  rw [beside_apply, bind_apply, Outcome.andThen, Outcome.bind_apply, beside_apply]
  rcases x s with ⟨r, t⟩
  cases r <;> rfl

/-- Records what a computation receives apart, however it ends. -/
def Outcome.apart {α : Type} (argument : String) (body : StateM Session (Outcome σ α)) :
    StateM Session (Outcome σ α) := fun s =>
  let (outcome, after) := body { s with events := [] }
  (outcome, { after with events := s.events ++ [.nested argument after.events] })

/-- What a builder does with a call. -/
inductive Reaction (σ : Type) where
  | accept (memory : σ)
  | refuse (memory : σ) (reason : String)
  | fail (memory : σ) (cause : ResolveError)
  | note (event : Event) (rest : Reaction σ)
  /-- It runs a callback, the argument of a name, against a builder that remembers something, and
  goes on when it knows the outcome. -/
  | run (argument : String) (v : Value) (memory : σ)
      (rest : σ → Except ResolveError Unit → Reaction σ)

namespace Reaction

/-- Every callback that is run has a property. -/
def Runs (P : Value → Prop) : Reaction σ → Prop
  | accept _ | refuse _ _ | fail _ _ => True
  | note _ rest => rest.Runs P
  | run _ v _ rest => P v ∧ ∀ memory outcome, (rest memory outcome).Runs P

/-- What comes of a reaction to a call of a signature, given how callbacks are run. -/
def perform (signature : String) (invoke : Value → σ → StateM Session (Outcome σ Unit)) :
    Reaction σ → StateM Session (Outcome σ Unit)
  | accept memory => return (.ok (), memory)
  | refuse memory reason => return (.error (.rejected signature reason), memory)
  | fail memory cause => return (.error (.nested signature cause), memory)
  | note e rest => do
    modify (Session.receive e)
    rest.perform signature invoke
  | run argument v memory rest => do
    let (outcome, after) ← Outcome.apart argument (invoke v memory)
    (rest after outcome).perform signature invoke

end Reaction

/-- A builder with a memory, which runs callbacks that it was handed. -/
structure Receiver (σ : Type) where
  react : List Step → (c : Call) → (path : String) → σ → Reaction σ
  observe : List Step → Step → σ → σ
  handed : ∀ received c path memory,
    (react received c path memory).Runs (Step.AnyCarries (received ++ [.call c path]))

namespace Receiver

variable (R : Receiver σ) (invoke : Value → σ → StateM Session (Outcome σ Unit))

/-- The builder receives steps after others. -/
def serve (received : List Step) : List Step → σ → StateM Session (Outcome σ Unit)
  | [], memory => return (.ok (), memory)
  | .call c path :: rest, memory =>
    Outcome.andThen ((R.react received c path memory).perform c.method.signature invoke)
      fun _ after => serve (received ++ [.call c path]) rest after
  | step :: rest, memory => do
    modify (Session.receive (.step step))
    serve (received ++ [step]) rest (R.observe received step memory)

/-- The builder receives the steps of a plan, and then the switches follow their entries. -/
def applyWith (o : Options) (p : Plan) (memory : σ) : StateM Session (Outcome σ (List Nat)) :=
  Outcome.andThen (R.serve invoke [] p.steps memory) fun _ after =>
    (p.watches.mapM (Watch.start o)).beside after

end Receiver

/-! ## Sections -/

namespace Nested

/-- The session after a callback has been run and its section has given subscriptions. -/
def kept (c : Nested) (ids : List Nat) (s : Session) : Session :=
  if c.kind = .logger then s.keep c.identity ids else s

/-- Runs a callback by configuring its section. -/
def keepingFor (c : Nested) (configured : StateM Session (Outcome σ (List Nat))) :
    StateM Session (Outcome σ Unit) :=
  Outcome.andThen configured fun ids after => do
    modify (c.kept ids)
    return (.ok (), after)

end Nested

namespace Binder

variable (b : Binder) (R : Receiver σ)

/-- The plan that a callback of a kind follows: all of a section for a sub-logger, else the
directives of one extension point. -/
def planOf (b : Binder) (kind : CallbackKind) (n : Node) : Run Plan :=
  match kind, kind.capability with
  | .logger, _ => b.plan n
  | _, some capability => do return ⟨← b.directives capability n, []⟩
  | _, none => return .empty

/-- Configures a section as a callback of a kind does, given how callbacks are run. -/
def configureWithFor (kind : CallbackKind) (n : Node)
    (invoke : Value → σ → StateM Session (Outcome σ Unit)) (memory : σ) :
    StateM Session (Outcome σ (List Nat)) :=
  Outcome.andThen ((b.planOf kind n).beside memory) fun p after =>
    R.applyWith invoke b.options p after

/-- Configures a section as a callback of a kind does. -/
def runFor (kind : CallbackKind) (n : Node) (memory : σ) : StateM Session (Outcome σ (List Nat)) :=
  b.configureWithFor R kind n (fun v memory => match v.nested? with
    | some c =>
      if _h : c.node.height < n.height then c.keepingFor (runFor c.kind c.node memory)
      else return (.ok (), memory)
    | none => return (.ok (), memory)) memory
termination_by n.height

/-- Runs a callback. -/
def invokeFor (v : Value) (memory : σ) : StateM Session (Outcome σ Unit) :=
  match v.nested? with
  | some c => c.keepingFor (b.runFor R c.kind c.node memory)
  | none => return (.ok (), memory)

/-- Applies a plan; gives the subscriptions. -/
def applyFor (p : Plan) (memory : σ) : StateM Session (Outcome σ (List Nat)) :=
  R.applyWith (b.invokeFor R) b.options p memory

/-- Plans a section and applies the plan; gives the subscriptions. -/
def configureFor (n : Node) (memory : σ) : StateM Session (Outcome σ (List Nat)) :=
  b.configureWithFor R .logger n (b.invokeFor R) memory

end Binder

/-! ## Builders without a memory -/

namespace Builder

variable (B : Builder)

/-- A builder runs the callbacks among the arguments of a call that it likes, in order. -/
def reaction (received : List Step) (c : Call) : Arguments → Reaction Unit
  | [] => .accept ()
  | a :: rest =>
    if a.2.isCallback && B.invokes received c a.1 then
      .run a.1 a.2 () fun _ outcome => match outcome with
        | .ok _ => reaction received c rest
        | .error cause => .fail () cause
    else reaction received c rest

theorem carries_self {v : Value} (h : v.isCallback = true) : v.Carries v := by
  cases v with
  | callback kind path body => exact .self kind path body
  | _ => cases h

theorem runs_reaction (received : List Step) (c : Call) {P : Value → Prop} (args : Arguments)
    (hargs : ∀ a ∈ args, a.2.isCallback = true → P a.2) :
    (B.reaction received c args).Runs P := by
  induction args with
  | nil => trivial
  | cons a rest ih =>
    have hrest := ih fun x hx => hargs x (List.mem_cons_of_mem _ hx)
    rw [reaction]
    split
    · next hrun =>
      have ha : a.2.isCallback = true := (Bool.and_eq_true_iff.1 hrun).1
      refine ⟨hargs a (List.mem_cons_self ..) ha, ?_⟩
      intro _ outcome
      cases outcome with
      | ok _ => exact hrest
      | error cause => trivial
    · exact hrest

/-- A builder as one that remembers nothing. -/
def receiver : Receiver Unit where
  react received c path _ := match B.refuses received c with
    | some reason => .refuse () reason
    | none => .note (.step (.call c path)) (B.reaction received c c.arguments)
  observe _ _ _ := ()
  handed received c path _ := by
    split
    · trivial
    · refine B.runs_reaction received c c.arguments ?_
      intro a ha hv
      exact ⟨.call c path, by simp, a, ha, carries_self hv⟩

variable {B} {callback : Value → Run Unit}
  {invoke : Value → Unit → StateM Session (Outcome Unit Unit)}

theorem perform_reaction (h : ∀ v, invoke v () = (callback v).beside ()) (signature : String)
    (received : List Step) (c : Call) (args : Arguments) :
    (B.reaction received c args).perform signature invoke =
      (Run.wrapped signature (args.forM (Run.runArgument B callback received c))).beside () := by
  funext s
  induction args generalizing s with
  | nil => rfl
  | cons a rest ih =>
    simp only [Run.beside_apply, Run.wrapped_apply] at ih ⊢
    rw [reaction, show (a :: rest).forM (Run.runArgument B callback received c) =
      (Run.runArgument B callback received c a >>= fun _ =>
        rest.forM (Run.runArgument B callback received c)) from rfl, Run.bind_apply,
      Run.runArgument]
    split
    · rw [Reaction.perform, Outcome.bind_apply, h]
      simp only [Outcome.apart, Run.beside_apply, Run.apart]
      rcases callback a.2 { s with events := [] } with ⟨r, t⟩
      cases r with
      | error cause => rfl
      | ok _ => exact ih _
    · exact ih s

theorem perform_react (h : ∀ v, invoke v () = (callback v).beside ()) (received : List Step)
    (c : Call) (path : String) :
    (B.receiver.react received c path ()).perform c.method.signature invoke =
      (Run.applyStep B callback received (.call c path)).beside () := by
  rw [Run.applyStep]
  cases hr : B.refuses received c with
  | some reason =>
    simp only [receiver, hr]
    rfl
  | none =>
    simp only [receiver, hr]
    rw [Reaction.perform, perform_reaction h]
    rfl

theorem serve_receiver (h : ∀ v, invoke v () = (callback v).beside ())
    (received steps : List Step) :
    B.receiver.serve invoke received steps () =
      (Run.applySteps B callback received steps).beside () := by
  induction steps generalizing received with
  | nil => rfl
  | cons step rest ih =>
    cases step with
    | call c path =>
      rw [Run.applySteps, Run.beside_bind, Receiver.serve, perform_react h]
      simp only [ih]
    | _ => exact funext fun s => congrFun (ih _) (s.receive (.step _))

theorem applyWith_receiver (h : ∀ v, invoke v () = (callback v).beside ()) (o : Options)
    (p : Plan) :
    B.receiver.applyWith invoke o p () = (p.applyWith o B callback).beside () := by
  rw [Plan.applyWith, Run.beside_bind, Receiver.applyWith, serve_receiver h]

end Builder

namespace Binder

variable {b : Binder} {B : Builder}

theorem configureWith_eq (kind : CallbackKind) (n : Node) (callback : Value → Run Unit) :
    b.configureWith B kind n callback =
      b.planOf kind n >>= fun p => p.applyWith b.options B callback := by
  cases kind with
  | logger | other => rfl
  | _ => simp [configureWith, planOf, Plan.applyWith, CallbackKind.capability]

theorem configureWithFor_receiver {callback : Value → Run Unit}
    {invoke : Value → Unit → StateM Session (Outcome Unit Unit)}
    (h : ∀ v, invoke v () = (callback v).beside ()) (kind : CallbackKind) (n : Node) :
    b.configureWithFor B.receiver kind n invoke () =
      (b.configureWith B kind n callback).beside () := by
  rw [configureWith_eq, Run.beside_bind, configureWithFor]
  simp only [Builder.applyWith_receiver h]

theorem keepingFor_beside (c : Nested) (configured : Run (List Nat)) :
    c.keepingFor (configured.beside ()) = (c.keeping configured).beside () := by
  rw [Nested.keeping, Run.beside_bind, Nested.keepingFor]
  congr 1
  funext ids _ s
  change (((.ok () : Except ResolveError Unit), ()), c.kept ids s) = _
  rw [Run.beside_apply, Nested.kept]
  split <;> rfl

theorem runFor_receiver (kind : CallbackKind) (n : Node) :
    b.runFor B.receiver kind n () = (b.run B kind n).beside () := by
  induction hh : n.height using Nat.strongRecOn generalizing kind n with
  | ind height ih =>
    rw [runFor, run]
    refine configureWithFor_receiver (fun v => ?_) kind n
    cases v.nested? with
    | none => rfl
    | some c =>
      dsimp only
      split
      · next hlower => rw [ih c.node.height (hh ▸ hlower) c.kind c.node rfl, keepingFor_beside]
      · rfl

theorem invokeFor_receiver (v : Value) :
    b.invokeFor B.receiver v () = (b.invoke B v).beside () := by
  rw [invokeFor, invoke]
  cases v.nested? with
  | none => rfl
  | some c => exact (congrArg _ (runFor_receiver ..)).trans (keepingFor_beside ..)

/-- Applying a plan for a builder without a memory. -/
theorem applyFor_receiver (p : Plan) :
    b.applyFor B.receiver p () = (b.apply B p).beside () :=
  Builder.applyWith_receiver invokeFor_receiver b.options p

/-- Configuring a section for a builder without a memory. -/
theorem configureFor_receiver (n : Node) :
    b.configureFor B.receiver n () = (b.configure B n).beside () := by
  rw [configureFor, configureWithFor_receiver invokeFor_receiver, configureWith_eq]
  rfl

end Binder

/-! ## A reader without packages -/

namespace Sample

/-- A reader that knows no package. -/
def bareBinder : Binder := ⟨.empty, {}, .all, false⟩

/-- A builder that accepts every call and runs every callback. -/
def bareReceiver : Receiver Unit := Builder.receiver ⟨fun _ _ => none, fun _ _ _ => true⟩

/-- The configuration of some entries. -/
def listedRoot (entries : List Entry) : Root Watcher :=
  { Root.empty with sources := [.listed "list" entries], tree := .ofEntries entries }

theorem ofSources_listed (entries : List Entry) :
    Tree.ofSources ⟨[], []⟩ [.listed "list" entries] = .ok (listedRoot entries).tree := by
  simp [Tree.ofSources, Source.load, listedRoot, pure, Except.pure, bind, Except.bind]

theorem load_listedRoot (entries : List Entry) :
    Root.load ⟨[], []⟩ [.listed "list" entries] = .ok (listedRoot entries) := by
  rw [Root.load, ofSources_listed]
  rfl

end Sample

end LogBinder
