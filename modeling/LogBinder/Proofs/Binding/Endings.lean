/-
  Log binder — how computations end.

  A computation ends with a value or with an error.  `Ends x P Q` says that
  every value that `x` gives has the property `P`, and every error that it
  fails with has `Q`, in whatever state it starts.

  * `Ending` : the kinds of computations, with their steps;
  * `ends_mapM` : computations that go through a list.
-/
import LogBinder.Proofs.Binding.Returns

namespace LogBinder

/-- Computations that end with a value or an error. -/
class Ending (m : Type → Type) [Monad m] where
  /-- The values that a computation gives have one property, and its errors have another. -/
  Ends {α : Type} (x : m α) (P : α → Prop) (Q : ResolveError → Prop) : Prop
  ends_pure {α : Type} {P : α → Prop} {Q : ResolveError → Prop} {a : α} (h : P a) :
    Ends (pure a) P Q
  ends_bind {α β : Type} {R : α → Prop} {P : β → Prop} {Q : ResolveError → Prop} {x : m α}
    {f : α → m β} (h : Ends x R Q) (hf : ∀ a, R a → Ends (f a) P Q) : Ends (x >>= f) P Q
  ends_imp {α : Type} {P P' : α → Prop} {Q Q' : ResolveError → Prop} {x : m α} (h : Ends x P Q)
    (hP : ∀ a, P a → P' a) (hQ : ∀ e, Q e → Q' e) : Ends x P' Q'

namespace Ending

variable {m : Type → Type} [Monad m] [Ending m] {α β : Type} {P : β → Prop}
  {Q : ResolveError → Prop}

theorem ends_imp_error {α : Type} {P : α → Prop} {Q' : ResolveError → Prop} {x : m α}
    (h : Ends x P Q) (hQ : ∀ e, Q e → Q' e) : Ends x P Q' := ends_imp h (fun _ => id) hQ

/-- Going through a list ends well for all items, or badly for one. -/
theorem ends_mapM [LawfulMonad m] {f : α → m β} {xs : List α} (h : ∀ x ∈ xs, Ends (f x) P Q) :
    Ends (xs.mapM f) (fun ys => ∀ y ∈ ys, P y) Q := by
  induction xs with
  | nil =>
    rw [List.mapM_nil]
    exact ends_pure fun y hy => absurd hy List.not_mem_nil
  | cons x rest ih =>
    rw [List.mapM_cons]
    refine ends_bind (h x (List.mem_cons_self ..)) fun y hy => ?_
    refine ends_bind (ih fun z hz => h z (List.mem_cons_of_mem _ hz)) fun ys hys => ?_
    refine ends_pure ?_
    intro z hz
    rcases List.mem_cons.1 hz with rfl | hz
    · exact hy
    · exact hys z hz

end Ending

open Ending

/-! ## Outcomes -/

/-- The value of an outcome has one property, and its error another. -/
structure Except.EndsIn {α : Type} (x : Except ResolveError α) (P : α → Prop)
    (Q : ResolveError → Prop) : Prop where
  of_ok : ∀ a, x = .ok a → P a
  of_error : ∀ e, x = .error e → Q e

instance : Ending (Except ResolveError) where
  Ends := Except.EndsIn
  ends_pure h := ⟨fun _ ha => Except.ok.inj ha ▸ h, nofun⟩
  ends_bind {_ _ _ _ _ x _} h hf := by
    cases x with
    | ok a => exact hf a (h.of_ok a rfl)
    | error e => exact ⟨nofun, fun _ he => Except.error.inj he ▸ h.of_error e rfl⟩
  ends_imp h hP hQ := ⟨fun a ha => hP a (h.of_ok a ha), fun e he => hQ e (h.of_error e he)⟩

section Except

variable {α : Type} {P : α → Prop} {Q : ResolveError → Prop}

theorem ends_ok {a : α} (h : P a) : Ends (.ok a : Except ResolveError α) P Q := ends_pure h

theorem ends_error {e : ResolveError} (h : Q e) : Ends (.error e : Except ResolveError α) P Q :=
  ⟨nofun, fun _ he => Except.error.inj he ▸ h⟩

end Except

/-! ## Conversions -/

namespace Fresh

variable {α : Type} {P : α → Prop} {Q : ResolveError → Prop}

instance : Ending Fresh where
  Ends x P Q := ∀ k, Ends (x.run k) (fun r => P r.1) Q
  ends_pure h := fun _ => ends_ok h
  ends_bind h hf := fun k => by
    rw [StateT.run_bind]
    exact ends_bind (h k) fun r hr => hf r.1 hr r.2
  ends_imp h hP hQ := fun k => ends_imp (h k) (fun r => hP r.1) hQ

theorem ends_throw {e : ResolveError} (h : Q e) : Ends (throw e : Fresh α) P Q :=
  fun _ => ends_error h

theorem ends_lift {x : Except ResolveError α} (h : Ends x P Q) : Ends (liftM x : Fresh α) P Q := by
  intro k
  cases x with
  | ok a => exact ends_ok (h.of_ok a rfl)
  | error e => exact ends_error (h.of_error e rfl)

theorem ends_identity : Ends identity (fun _ => True) Q := fun _ => ends_ok trivial

end Fresh

/-! ## Computations on sessions -/

namespace Run

variable {α β : Type} {P : α → Prop} {Q : ResolveError → Prop}

instance : Ending Run where
  Ends x P Q := ∀ s, Ends (x s).1 P Q
  ends_pure h := fun _ => ends_ok h
  ends_bind {_ _ _ _ _ m f} h hf := fun s => by
    have hs := h s
    rw [bind_apply]
    generalize m s = outcome at hs ⊢
    obtain ⟨r, t⟩ := outcome
    cases r with
    | ok a => exact hf a (hs.of_ok a rfl) t
    | error e => exact ends_error (hs.of_error e rfl)
  ends_imp h hP hQ := fun s => ends_imp (h s) hP hQ

theorem ends_throw {e : ResolveError} (h : Q e) : Ends (throw e : Run α) P Q :=
  fun _ => ends_error h

theorem ends_lift {x : Except ResolveError α} (h : Ends x P Q) : Ends (liftM x : Run α) P Q := by
  intro s
  rw [lift_apply]
  exact h

theorem ends_get : Ends (get : Run Session) (fun _ => True) Q := fun _ => ends_ok trivial

theorem ends_modify {f : Session → Session} : Ends (modify f : Run PUnit) (fun _ => True) Q :=
  fun _ => ends_ok trivial

theorem ends_modifyGet {f : Session → α × Session} :
    Ends (modifyGet f : Run α) (fun _ => True) Q := fun _ => ends_ok trivial

/-- Running a conversion ends as the conversion does. -/
theorem ends_converted {b : Binder} {f : Scope → Fresh α} (h : ∀ s, Ends (f (b.scope s)) P Q) :
    Ends (b.converted f) P Q := by
  refine ends_bind (R := fun _ => True) ends_get fun s _ => ?_
  refine ends_bind (ends_lift (h s s.nextIdentity)) fun r hr => ?_
  exact ends_bind (R := fun _ => True) ends_modify fun _ _ => ends_pure hr

end Run

end LogBinder
