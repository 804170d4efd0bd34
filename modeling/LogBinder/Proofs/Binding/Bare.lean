/-
  Log binder — bare sections.

  A section that is read by itself has no configuration to inject, and a
  computation that would inject it fails.  That is all the difference there
  is: until then, reading goes as it does through the root.

  * `Completing` : computations that go on where others lack a configuration;
  * `Scope.completes_convert` : conversions with and without one;
  * `Binder.completes_plan`, `Reader.plan_of_bare` : plans, and the readers
    of a bare section and of its root.
-/
import LogBinder.Binding.Reader
import LogBinder.Proofs.Binding.Faults
import LogBinder.Proofs.Binding.Likeness

namespace LogBinder

/-! ## Computations that go on -/

/-- Kinds of computations of which one may go on where another one lacks a configuration. -/
class Completing (m : Type → Type) [Monad m] where
  /-- The second computation does what the first one does, unless the first one fails because there
  is no configuration to inject. -/
  Completes {α : Type} (x y : m α) : Prop
  completes_refl {α : Type} (x : m α) : Completes x x
  completes_bind {α β : Type} {x y : m α} {f g : α → m β} (h : Completes x y)
    (hf : ∀ a, Completes (f a) (g a)) : Completes (x >>= f) (y >>= g)

open Completing

namespace Completing

variable {m : Type → Type} [Monad m] [Completing m] {α β : Type}

theorem completes_bind_same (x : m α) {f g : α → m β} (hf : ∀ a, Completes (f a) (g a)) :
    Completes (x >>= f) (x >>= g) := completes_bind (completes_refl x) hf

theorem completes_bind_pure {x y : m α} (h : Completes x y) (f : α → m β) :
    Completes (x >>= f) (y >>= f) := completes_bind h fun a => completes_refl (f a)

/-- Going through a list is completed item by item. -/
theorem completes_mapM [LawfulMonad m] {f g : α → m β} (h : ∀ a, Completes (f a) (g a))
    (xs : List α) : Completes (xs.mapM f) (xs.mapM g) := by
  induction xs with
  | nil => exact completes_refl _
  | cons x rest ih =>
    rw [List.mapM_cons, List.mapM_cons]
    exact completes_bind (h x) fun y => completes_bind_pure ih _

end Completing

/-- There is no configuration to inject. -/
def ResolveError.Lacks (e : ResolveError) : Prop :=
  ∃ parameter path, e = .missingConfiguration parameter path

instance : Completing (Except ResolveError) where
  Completes x y := y = x ∨ ∃ e : ResolveError, e.Lacks ∧ x = .error e
  completes_refl _ := .inl rfl
  completes_bind {_ _ x y _ _} h hf := by
    rcases h with heq | ⟨e, he, rfl⟩
    · rw [heq]
      cases x with
      | ok a => exact hf a
      | error e => exact .inl rfl
    · exact .inr ⟨e, he, rfl⟩

instance : Completing Fresh where
  Completes x y := ∀ k, Completes (x.run k) (y.run k)
  completes_refl _ := fun _ => completes_refl _
  completes_bind h hf := fun k => by
    rw [StateT.run_bind, StateT.run_bind]
    exact completes_bind (h k) fun r => hf r.1 r.2

instance : Completing Run where
  Completes m m' := ∀ s, m' s = m s ∨ ∃ e : ResolveError, e.Lacks ∧ (m s).1 = .error e
  completes_refl _ := fun _ => .inl rfl
  completes_bind {_ _ m m' f g} h hf := fun s => by
    rw [Run.bind_apply, Run.bind_apply]
    rcases h s with heq | ⟨e, he, herror⟩
    · rw [heq]
      generalize m s = outcome
      obtain ⟨r, t⟩ := outcome
      cases r with
      | ok a => exact hf a t
      | error e => exact .inl rfl
    · generalize m s = outcome at herror ⊢
      obtain ⟨r, t⟩ := outcome
      obtain rfl : r = .error e := herror
      exact .inr ⟨e, he, rfl⟩

theorem Fresh.completes_lift {α : Type} {x y : Except ResolveError α} (h : Completes x y) :
    Completes (liftM x : Fresh α) (liftM y) := by
  intro k
  rcases h with rfl | ⟨e, he, rfl⟩
  · exact .inl rfl
  · exact .inr ⟨e, he, rfl⟩

theorem Run.completes_converted {b b' : Binder} {α : Type} {f : Scope → Fresh α}
    (h : ∀ s, Completes (f (b.scope s)) (f (b'.scope s))) :
    Completes (b.converted f) (b'.converted f) := by
  intro s
  rw [Binder.converted_apply, Binder.converted_apply]
  rcases h s s.nextIdentity with heq | ⟨e, he, herror⟩
  · rw [heq]
    exact .inl rfl
  · rw [herror]
    exact .inr ⟨e, he, rfl⟩

/-! ## Conversions -/

namespace Scope

open Fresh

variable {s : Scope} {a : Option Node} (ha : s.application = none)
include ha

theorem completes_injected (t : TypeRef) (parameter path : String) :
    Completes (s.injected t parameter path) ((s.injecting a).injected t parameter path) := by
  cases t with
  | appConfiguration =>
    refine .inr ⟨_, ⟨parameter, path, rfl⟩, ?_⟩
    rw [injected, ha]
  | _ => exact completes_refl _

theorem completes_omitted (p : Parameter) (path : String) :
    Completes (s.omitted p path) ((s.injecting a).omitted p path) := by
  rw [omitted, omitted]
  split
  · exact completes_injected ha ..
  · exact completes_refl _

theorem completes_constructNamed (name : String) (declared : TypeSpec) (path : String) :
    Completes (s.constructNamed name declared path)
      ((s.injecting a).constructNamed name declared path) := by
  unfold constructNamed
  rw [type_injecting]
  refine completes_bind_same _ fun t => ?_
  dsimp only
  split
  · cases t.publicConstructors.find? Constructor.isDefault with
    | none => exact completes_refl _
    | some c =>
      refine completes_bind_pure (completes_mapM (fun p => ?_) _) _
      exact completes_bind_pure (completes_lift (completes_omitted ha p path)) _
  · exact completes_refl _

theorem completes_convertNamed (text path : String) (t : TypeRef) :
    Completes (s.convertNamed text path t) ((s.injecting a).convertNamed text path t) := by
  rw [convertNamed, convertNamed]
  cases Accessor.read text with
  | some r =>
    dsimp only
    rw [value_injecting]
    exact completes_refl _
  | none =>
    dsimp only
    rw [primitive_injecting]
    split
    · exact completes_refl _
    · unfold convertPlain
      simp only [type_injecting, primitive_injecting]
      split
      · refine completes_bind_same _ fun declared => ?_
        split
        · exact completes_constructNamed ha _ declared path
        · exact completes_refl _
      · exact completes_refl _

theorem completes_convertScalar (n : Node) (text : String) (t : TypeRef) :
    Completes (s.convertScalar n text t) ((s.injecting a).convertScalar n text t) := by
  fun_induction convertScalar s n text t with
  | case4 inner hempty ih =>
    rw [convertScalar, if_neg hempty]
    exact ih
  | case13 t =>
    rw [convertScalar]
    · exact completes_convertNamed ha text _ t
    all_goals assumption
  | _ =>
    simp_all only [convertScalar, registry_injecting, type_injecting, primitive_injecting,
      reduceIte]
    exact completes_refl _

section Sections

variable {n : Node} {below below' : (c : Node) → c ∈ n.children → TypeRef → Fresh Value}
  (hb : ∀ c hc t, Completes (below c hc t) (below' c hc t))
include hb

omit ha in
theorem completes_items (t : TypeRef) : Completes (items n below t) (items n below' t) := by
  refine completes_mapM (fun c => ?_) _
  exact hb c.1 c.2 t

theorem completes_entries (t u : TypeRef) :
    Completes (entries s n below t u) (entries (s.injecting a) n below' t u) := by
  refine completes_mapM (fun c => ?_) _
  have hkey : Completes (s.entryKey c.1 t) ((s.injecting a).entryKey c.1 t) := by
    rw [entryKey, entryKey]
    split
    · exact completes_refl _
    · exact completes_convertScalar ha _ _ t
  exact completes_bind hkey fun k => completes_bind_pure (hb c.1 c.2 u) _

theorem completes_object (declared : String) :
    Completes (object s n below declared) (object (s.injecting a) n below' declared) := by
  rw [object, object, ← objectType_eq (.refl _) rfl]
  refine completes_bind_same _ fun t => ?_
  cases Constructor.select t.publicConstructors (fields n) with
  | none => exact completes_refl _
  | some fit =>
    refine completes_bind_pure (completes_mapM (fun binding => ?_) _) _
    obtain ⟨p, _ | c⟩ := binding
    · exact completes_bind_pure (completes_lift (completes_omitted ha p _)) _
    · exact completes_bind_pure (hb c.1 c.2 p.type) _

theorem completes_convertSection (t : TypeRef) :
    Completes (convertSection s n below t) (convertSection (s.injecting a) n below' t) := by
  fun_induction convertSection s n below t with
  | case2 inner ih => exact ih
  | case4 t => exact completes_bind_pure (completes_items hb t) _
  | case5 name t => exact completes_bind_pure (completes_items hb t) _
  | case6 name t u => exact completes_bind_pure (completes_entries ha hb t u) _
  | case8 name => exact completes_object ha hb name
  | case9 t =>
    rw [convertSection]
    · exact completes_refl _
    all_goals assumption
  | _ => exact completes_refl _

end Sections

/-- **A conversion with a configuration to inject** does what it does without one, unless it fails
without one because there is none. -/
theorem completes_convert (n : Node) (t : TypeRef) :
    Completes (s.convert n t) ((s.injecting a).convert n t) := by
  induction hh : n.height using Nat.strongRecOn generalizing n t with
  | ind height ih =>
    rw [convert, convert, environment_injecting]
    split
    · exact completes_lift (completes_injected ha ..)
    · refine completes_bind_same _ fun shape => ?_
      cases shape with
      | scalar text => exact completes_convertScalar ha n _ t
      | structured =>
        refine completes_convertSection ha (fun c hc u => ?_) t
        exact ih c.height (hh ▸ Node.height_lt_of_mem_children hc) c u rfl

end Scope

theorem Call.completes_bind {s : Scope} (ha : s.application = none) (a : Option Node)
    (d : Directive) (m : Method) : Completes (Call.bind s d m) (Call.bind (s.injecting a) d m) := by
  refine completes_bind_pure (completes_mapM (fun p => ?_) _) _
  unfold Call.argument
  cases d.argument? p.name with
  | some n => exact completes_bind_pure (Scope.completes_convert ha n p.type) _
  | none => exact completes_bind_pure (Fresh.completes_lift (Scope.completes_omitted ha p _)) _

/-! ## Plans -/

namespace Binder

/-- A binder that injects the configuration. -/
def injecting (b : Binder) : Binder := { b with injects := true }

variable {b : Binder} (hb : b.injects = false)
include hb

theorem completes_directive (capability : Capability) (methods : List Method) (d : Directive) :
    Completes (b.directive capability methods d) (b.injecting.directive capability methods d) := by
  unfold directive
  split
  · refine Completing.completes_bind_pure (Run.completes_converted fun s => ?_) _
    have hnone : (b.scope s).application = none := by rw [scope, hb]; rfl
    exact Call.completes_bind hnone (some s.root.top) d _
  · exact completes_refl _

theorem completes_phase (n : Node) (capability : Capability) :
    Completes (b.phase n capability) (b.injecting.phase n capability) := by
  unfold phase directives
  split
  · refine completes_bind_same _ fun ds => completes_bind_pure ?_ _
    exact completes_mapM (completes_directive hb capability _) ds
  · exact completes_refl _

/-- A plan with the configuration to inject is the plan without it, unless that fails for want of
it. -/
theorem completes_plan (n : Node) : Completes (b.plan n) (b.injecting.plan n) := by
  have hphase := completes_phase hb n
  refine completes_bind_same _ fun _ => completes_bind_same _ fun _ => ?_
  refine completes_bind_same _ fun _ => completes_bind (hphase .enrich) fun _ => ?_
  refine completes_bind_same _ fun _ => completes_bind (hphase .filter) fun _ => ?_
  refine completes_bind (hphase .destructure) fun _ => completes_bind (hphase .sink) fun _ => ?_
  exact completes_bind_pure (hphase .auditSink) _

end Binder

/-! ## Readers -/

namespace Reader

/-- **Reading a bare section agrees with reading through its root.**  Whatever the catalog, the
options and the root are, a reader of the section alone and a reader of the root are refused with
the same error, or both read the same place; and in every session the reader of the root plans what
the reader of the section plans, with the same diagnostics, or fails as it does, unless that one
fails because there is no configuration to inject. -/
theorem plan_of_bare (c : Catalog) (o : Options) (r : Root Watcher) :
    Except.Agree
      (fun bare rooted => rooted.node = bare.node ∧ ∀ s,
        rooted.binder.plan rooted.node s = bare.binder.plan bare.node s ∨
        ∃ parameter path,
          (bare.binder.plan bare.node s).1 = .error (.missingConfiguration parameter path))
      (make (some c) o (some (r.node o.sectionName)) none) (make (some c) o none (some r.top)) := by
  have hnode : r.top.child o.sectionName = r.node o.sectionName := rfl
  simp only [make, Option.or, Option.map_some, hnode]
  refine .bind_same _ fun selection => .ok ⟨rfl, fun s => ?_⟩
  have hcompletes := Binder.completes_plan (b := ⟨c, o, selection, false⟩) rfl
    (r.node o.sectionName) s
  rcases hcompletes with heq | ⟨_, ⟨parameter, path, rfl⟩, herror⟩
  · exact .inl heq
  · exact .inr ⟨parameter, path, herror⟩

end Reader

/-! ## A sink that takes the configuration -/

namespace Sample

/-- A reader that knows the sample packages and injects nothing. -/
def uninjectedBinder : Binder := ⟨.ofList packages, {}, .all, false⟩

/-- A sink that takes the whole configuration. -/
def injectedRoot : Root Watcher := listedRoot [⟨"Logging:WriteTo:0", some "Custom"⟩]

/-- A section that refers to an unknown type fails alike by itself and through its root; one with a
sink that takes the configuration can only be planned through its root. -/
theorem plan_of_bare_unknown :
    let n := unknownRoot.node "Logging"
    let s := Session.start ⟨[], []⟩ unknownRoot
    Reader.make (some (.ofList packages)) {} (some n) none = .ok ⟨uninjectedBinder, n⟩ ∧
      Reader.make (some (.ofList packages)) {} none (some unknownRoot.top) =
        .ok ⟨themedBinder, n⟩ ∧
      (themedBinder.plan n s).1.isOk = false ∧
      themedBinder.plan n s = uninjectedBinder.plan n s ∧
      (∃ e : ResolveError, e.Lacks ∧ (uninjectedBinder.plan (injectedRoot.node "Logging")
        (.start ⟨[], []⟩ injectedRoot)).1 = .error e) ∧
      (themedBinder.plan (injectedRoot.node "Logging")
        (.start ⟨[], []⟩ injectedRoot)).1.isOk = true := by
  intro n s
  have hbare : Reader.make (some (.ofList packages)) {} (some n) none =
      .ok ⟨uninjectedBinder, n⟩ := by rfl
  have hrooted : Reader.make (some (.ofList packages)) {} none (some unknownRoot.top) =
      .ok ⟨themedBinder, n⟩ := by rfl
  refine ⟨hbare, hrooted, by decide +kernel, ?_,
    ⟨_, ⟨"configuration", "Logging:WriteTo:0", rfl⟩, by rfl⟩, by decide +kernel⟩
  have hagree := Reader.plan_of_bare (.ofList packages) {} unknownRoot
  rw [show unknownRoot.node ({} : Options).sectionName = n from rfl, hbare, hrooted] at hagree
  cases hagree with
  | ok hplan =>
    refine (hplan.2 s).resolve_right ?_
    rintro ⟨parameter, path, herror⟩
    have hother : (match (uninjectedBinder.plan n s).1 with
      | .error (.missingConfiguration ..) => true
      | _ => false) = false := by decide +kernel
    rw [herror] at hother
    cases hother

end Sample

end LogBinder
