/-
  Log binder — runs that agree.

  Two outcomes agree if both are values, which are related, or both are the
  same error.  Two conversions agree if their outcomes do, whatever the next
  identities are with which they start: then the identities that they draw
  make no difference to how they end.

  * `Except.Agree`, `Fresh.Agree` : outcomes and conversions that agree;
  * `mapM_rel`, `Fresh.agree_bind` : agreement step by step;
  * `Paired` : lists of related items with the same names;
  * `best_rel` : a choice by rank among related items.
-/
import LogBinder.Binding.Ranking
import LogBinder.Binding.Scope
import Mathlib.Data.List.Forall2

namespace LogBinder

variable {α β γ δ : Type}

/-- If single results and steps that go on agree, then so do computations for related items, one
after the other. -/
theorem mapM_rel {m : Type → Type} [Monad m] [LawfulMonad m]
    {Q : {α β : Type} → (α → β → Prop) → m α → m β → Prop}
    (hpure : ∀ {α β : Type} {R : α → β → Prop} {a : α} {b : β}, R a b → Q R (pure a) (pure b))
    (hbind : ∀ {α β γ δ : Type} {R : α → β → Prop} {S : γ → δ → Prop} {x : m α} {y : m β}
      {f : α → m γ} {g : β → m δ}, Q R x y → (∀ a b, R a b → Q S (f a) (g b)) →
        Q S (x >>= f) (y >>= g))
    {R : α → β → Prop} {S : γ → δ → Prop} {xs : List α} {ys : List β} {f : α → m γ} {g : β → m δ}
    (h : List.Forall₂ R xs ys) (hf : ∀ a b, R a b → Q S (f a) (g b)) :
    Q (List.Forall₂ S) (xs.mapM f) (ys.mapM g) := by
  induction h with
  | nil =>
    rw [List.mapM_nil, List.mapM_nil]
    exact hpure .nil
  | cons hab _ ih =>
    rw [List.mapM_cons, List.mapM_cons]
    refine hbind (hf _ _ hab) fun c d hcd => ?_
    exact hbind ih fun cs ds hcds => hpure (.cons hcd hcds)

/-! ## Outcomes -/

/-- Two outcomes are related values or the same error. -/
inductive Except.Agree {ε : Type} (R : α → β → Prop) : Except ε α → Except ε β → Prop
  | ok {a : α} {b : β} (h : R a b) : Agree R (.ok a) (.ok b)
  | error (e : ε) : Agree R (.error e) (.error e)

namespace Except.Agree

variable {ε : Type} {R : α → β → Prop} {S : γ → δ → Prop} {x : Except ε α} {y : Except ε β}

theorem bind {f : α → Except ε γ} {g : β → Except ε δ} (h : Agree R x y)
    (hf : ∀ a b, R a b → Agree S (f a) (g b)) : Agree S (x >>= f) (y >>= g) := by
  cases h with
  | ok h => exact hf _ _ h
  | error e => exact .error e

/-- An outcome agrees with itself. -/
theorem refl {R : α → α → Prop} (hR : ∀ a, R a a) (x : Except ε α) : Agree R x x := by
  cases x with
  | ok a => exact .ok (hR a)
  | error e => exact .error e

/-- What goes on in agreement from the same outcome agrees. -/
theorem bind_same (x : Except ε α) {f : α → Except ε γ} {g : α → Except ε δ}
    (hf : ∀ a, Agree S (f a) (g a)) : Agree S (x >>= f) (x >>= g) := by
  cases x with
  | ok a => exact hf a
  | error e => exact .error e

/-- Outcomes of going through related lists agree. -/
theorem mapM {xs : List α} {ys : List β} {f : α → Except ε γ} {g : β → Except ε δ}
    (h : List.Forall₂ R xs ys) (hf : ∀ a b, R a b → Agree S (f a) (g b)) :
    Agree (List.Forall₂ S) (xs.mapM f) (ys.mapM g) :=
  mapM_rel (Q := Agree) .ok bind h hf

/-- What agrees is the same where values do not matter. -/
theorem map_eq (h : Agree R x y) (c : γ) : x.map (fun _ => c) = y.map fun _ => c := by
  cases h with
  | ok h => rfl
  | error e => rfl

end Except.Agree

/-! ## Conversions -/

namespace Fresh

/-- Two conversions agree, with whatever identities they start. -/
def Agree (R : α → β → Prop) (x : Fresh α) (y : Fresh β) : Prop :=
  ∀ k l, Except.Agree (fun r t => R r.1 t.1) (x.run k) (y.run l)

variable {R : α → β → Prop} {S : γ → δ → Prop}

theorem agree_pure {a : α} {b : β} (h : R a b) : Agree R (pure a) (pure b) :=
  fun _ _ => .ok h

theorem agree_throw (e : ResolveError) : Agree R (throw e) (throw e) := fun _ _ => .error e

theorem agree_lift {x : Except ResolveError α} {y : Except ResolveError β}
    (h : Except.Agree R x y) : Agree R (liftM x) (liftM y) := by
  intro k l
  cases h with
  | ok h => exact .ok h
  | error e => exact .error e

/-- Identities need not be the same. -/
theorem agree_identity : Agree (fun _ _ => True) identity identity := fun _ _ => .ok trivial

theorem agree_bind {x : Fresh α} {y : Fresh β} {f : α → Fresh γ} {g : β → Fresh δ}
    (h : Agree R x y) (hf : ∀ a b, R a b → Agree S (f a) (g b)) :
    Agree S (x >>= f) (y >>= g) := by
  intro k l
  rw [StateT.run_bind, StateT.run_bind]
  exact (h k l).bind fun r t hrt => hf r.1 t.1 hrt r.2 t.2

/-- Conversions that begin with the same outcome agree if they go on in agreement. -/
theorem agree_bind_lift {ε : Type} (x : Except ResolveError ε) {f : ε → Fresh α} {g : ε → Fresh β}
    (hf : ∀ a, Agree R (f a) (g a)) : Agree R (liftM x >>= f) (liftM x >>= g) := by
  refine agree_bind (agree_lift (.refl (R := Eq) (fun _ => rfl) x)) fun a b hab => ?_
  obtain rfl := hab
  exact hf a

/-- Conversions of related items, one after the other, give related items. -/
theorem agree_mapM {xs : List α} {ys : List β} {f : α → Fresh γ} {g : β → Fresh δ}
    (h : List.Forall₂ R xs ys) (hf : ∀ a b, R a b → Agree S (f a) (g b)) :
    Agree (List.Forall₂ S) (xs.mapM f) (ys.mapM g) :=
  mapM_rel (Q := Agree) agree_pure agree_bind h hf

end Fresh

/-! ## Items with names -/

/-- Two lists have the same names, in order, with related items. -/
def Paired (R : α → β → Prop) : List (String × α) → List (String × β) → Prop :=
  List.Forall₂ fun a b => a.1 = b.1 ∧ R a.2 b.2

namespace Paired

variable {R : α → β → Prop} {xs : List (String × α)} {ys : List (String × β)}

theorem names_eq (h : Paired R xs ys) : xs.map (·.1) = ys.map (·.1) := by
  rw [← List.forall₂_eq_eq_eq, List.forall₂_map_left_iff, List.forall₂_map_right_iff]
  exact h.imp fun _ _ hab => hab.1

theorem items (h : Paired R xs ys) : List.Forall₂ R (xs.map (·.2)) (ys.map (·.2)) := by
  rw [List.forall₂_map_left_iff, List.forall₂_map_right_iff]
  exact h.imp fun _ _ hab => hab.2

/-- The first items with names of a kind are related. -/
theorem find? (h : Paired R xs ys) (p : String → Bool) :
    Option.Rel R ((xs.find? fun a => p a.1).map (·.2)) ((ys.find? fun b => p b.1).map (·.2)) := by
  induction h with
  | nil => exact .none
  | @cons a b xs ys hab _ ih =>
    rw [List.find?_cons, List.find?_cons, hab.1]
    split
    · exact .some hab.2
    · exact ih

theorem lookup (h : Paired R xs ys) (name : String) :
    Option.Rel R (xs.lookup name) (ys.lookup name) := by
  induction h with
  | nil => exact .none
  | @cons a b xs ys hab _ ih =>
    obtain ⟨key, a⟩ := a
    obtain ⟨key', b⟩ := b
    obtain ⟨rfl, hab⟩ : key = key' ∧ R a b := hab
    rw [List.lookup_cons, List.lookup_cons]
    split
    · exact .some hab
    · exact ih

end Paired

/-! ## Choices -/

/-- Of related items with the same ranks, related ones are the best. -/
theorem best_rel {rank : α → Rank} {rank' : β → Rank} {R : α → β → Prop} {xs : List α}
    {ys : List β} (h : List.Forall₂ R xs ys) (hrank : ∀ a b, R a b → rank a = rank' b) :
    Option.Rel R (best rank xs) (best rank' ys) := by
  induction h with
  | nil => exact .none
  | @cons a b xs ys hab _ ih =>
    rw [best, best]
    cases hx : best rank xs with
    | none =>
      cases hy : best rank' ys with
      | none => exact .some hab
      | some y =>
        rw [hx, hy] at ih
        cases ih
    | some x =>
      cases hy : best rank' ys with
      | none =>
        rw [hx, hy] at ih
        cases ih
      | some y =>
        rw [hx, hy] at ih
        obtain ⟨hxy⟩ := ih
        dsimp only
        rw [hrank x y hxy, hrank a b hab]
        split
        · exact .some hxy
        · exact .some hab

end LogBinder
