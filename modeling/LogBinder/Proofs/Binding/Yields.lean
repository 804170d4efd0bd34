/-
  Log binder — what computations and conversions yield.

  `Fresh.Yields x k v m` says that the conversion `x`, when `k` is the next
  identity, succeeds with `v` and leaves `m` as the next one.  The lemmas take
  a conversion apart into its steps; one that goes through a list is
  `Threaded` from each item to the next.
-/
import LogBinder.Binding.Scope
import LogBinder.Proofs.Related

namespace LogBinder

/-! ## Outcomes -/

/-- Going through a list gives a result for each item, and each starts from the state in which the
one before ended. -/
inductive Threaded {α β σ : Type} (R : α → σ → β → σ → Prop) : List α → σ → List β → σ → Prop
  | nil (k : σ) : Threaded R [] k [] k
  | cons {x : α} {xs : List α} {y : β} {ys : List β} {k l m : σ} : R x k y l →
      Threaded R xs l ys m → Threaded R (x :: xs) k (y :: ys) m

theorem Threaded.forall₂ {α β σ : Type} {R : α → σ → β → σ → Prop} {xs : List α} {ys : List β}
    {k m : σ} (h : Threaded R xs k ys m) :
    List.Forall₂ (fun x y => ∃ l l', R x l y l') xs ys := by
  induction h with
  | nil => exact .nil
  | @cons x xs y ys k l m hx _ ih => exact .cons ⟨k, l, hx⟩ ih

/-- Going through a list, each result arises between the first state and the last one. -/
theorem Threaded.between {α β σ : Type} {R : α → σ → β → σ → Prop} {Q : σ → σ → Prop}
    (hrefl : ∀ k, Q k k) (htrans : ∀ {k l m}, Q k l → Q l m → Q k m) {xs : List α} {ys : List β}
    {k m : σ} (h : Threaded R xs k ys m) (hR : ∀ x ∈ xs, ∀ i y j, R x i y j → Q i j) :
    Q k m ∧ ∀ y ∈ ys, ∃ x ∈ xs, ∃ i j, Q k i ∧ R x i y j ∧ Q j m := by
  induction h with
  | nil k => exact ⟨hrefl k, fun y hy => absurd hy List.not_mem_nil⟩
  | @cons x xs y ys k l m hx _ ih =>
    have hkl := hR x (List.mem_cons_self ..) k y l hx
    obtain ⟨hlm, hys⟩ := ih fun x' hx' => hR x' (List.mem_cons_of_mem _ hx')
    refine ⟨htrans hkl hlm, fun y' hy' => ?_⟩
    rcases List.mem_cons.1 hy' with rfl | hy'
    · exact ⟨x, List.mem_cons_self .., k, l, hrefl k, hx, hlm⟩
    · obtain ⟨x', hx', i, j, hki, hxy, hjm⟩ := hys y' hy'
      exact ⟨x', List.mem_cons_of_mem _ hx', i, j, htrans hkl hki, hxy, hjm⟩

namespace Except

variable {ε α β γ : Type}

theorem bind_eq_ok {x : Except ε α} {f : α → Except ε β} {b : β} :
    x >>= f = .ok b ↔ ∃ a, x = .ok a ∧ f a = .ok b := by
  cases x <;> simp [bind, Except.bind]

theorem bind_map (x : Except ε α) (f : α → β) (g : β → Except ε γ) :
    x.map f >>= g = x >>= fun a => g (f a) := by
  cases x <;> rfl

theorem map_bind (x : Except ε α) (f : α → Except ε β) (g : β → γ) :
    (x >>= f).map g = x >>= fun a => (f a).map g := by
  cases x <;> rfl

/-- Going through a list gives a result for each item. -/
theorem forall₂_of_mapM {f : α → Except ε β} {xs : List α} {ys : List β}
    (h : xs.mapM f = .ok ys) : List.Forall₂ (fun x y => f x = .ok y) xs ys := by
  induction xs generalizing ys with
  | nil =>
    cases h
    exact .nil
  | cons x rest ih =>
    rw [List.mapM_cons] at h
    obtain ⟨y, hy, h⟩ := bind_eq_ok.1 h
    obtain ⟨zs, hzs, h⟩ := bind_eq_ok.1 h
    cases h
    exact .cons hy (ih hzs)

theorem mapM_eq_map {f : α → Except ε β} {g : α → β} {xs : List α}
    (h : ∀ x ∈ xs, f x = .ok (g x)) : xs.mapM f = .ok (xs.map g) := by
  induction xs with
  | nil => rfl
  | cons x rest ih =>
    obtain ⟨hx, hrest⟩ := List.forall_mem_cons.1 h
    rw [List.mapM_cons, hx, ih hrest]
    rfl

/-- Going through a list ends with its first error. -/
theorem mapM_eq_error {f : α → Except ε β} {g : α → β} {before after : List α} {x : α} {e : ε}
    (hbefore : ∀ y ∈ before, f y = .ok (g y)) (hx : f x = .error e) :
    (before ++ x :: after).mapM f = .error e := by
  rw [List.mapM_append, mapM_eq_map hbefore, List.mapM_cons, hx]
  rfl

/-- Going through a list gives a value for each item, or the error of the first item that has one
and none of the items before it. -/
theorem mapM_cases (f : α → Except ε β) (xs : List α) :
    (∃ ys, xs.mapM f = .ok ys ∧ List.Forall₂ (fun x y => f x = .ok y) xs ys) ∨
      ∃ before x after e, xs = before ++ x :: after ∧ (∀ y ∈ before, ∃ z, f y = .ok z) ∧
        f x = .error e ∧ xs.mapM f = .error e := by
  induction xs with
  | nil => exact .inl ⟨[], rfl, .nil⟩
  | cons x rest ih =>
    rw [List.mapM_cons]
    cases hx : f x with
    | error e => exact .inr ⟨[], x, rest, e, rfl, nofun, hx, rfl⟩
    | ok y =>
      rcases ih with ⟨ys, hys, hall⟩ | ⟨before, z, after, e, hrest, hbefore, hz, he⟩
      · rw [hys]
        exact .inl ⟨y :: ys, rfl, .cons hx hall⟩
      · rw [he]
        refine .inr ⟨x :: before, z, after, e, by rw [hrest]; rfl, ?_, hz, rfl⟩
        exact List.forall_mem_cons.2 ⟨⟨y, hx⟩, hbefore⟩

end Except

/-! ## Conversions -/

namespace Fresh

variable {α β : Type}

/-- A conversion succeeds with a value and a next identity. -/
def Yields (x : Fresh α) (k : Nat) (v : α) (m : Nat) : Prop :=
  x.run k = .ok (v, m)

theorem exists_yields {x : Fresh α} {k : Nat} (h : (x.run k).isOk = true) :
    ∃ v m, Yields x k v m := by
  cases hx : x.run k with
  | error e =>
    rw [hx] at h
    cases h
  | ok r => exact ⟨r.1, r.2, hx⟩

@[simp] theorem yields_pure {a v : α} {k m : Nat} :
    Yields (pure a) k v m ↔ v = a ∧ m = k := by
  change (.ok (a, k) : Except ResolveError (α × Nat)) = .ok (v, m) ↔ _
  simp [eq_comm]

@[simp] theorem yields_throw {e : ResolveError} {v : α} {k m : Nat} :
    ¬ Yields (throw e) k v m := by
  simp [Yields, throw, throwThe, MonadExceptOf.throw, StateT.run, StateT.lift, bind, Except.bind]

@[simp] theorem yields_lift {x : Except ResolveError α} {v : α} {k m : Nat} :
    Yields (liftM x) k v m ↔ x = .ok v ∧ m = k := by
  cases x <;> simp [Yields, liftM, monadLift, MonadLift.monadLift, StateT.run, StateT.lift, bind,
    Except.bind, pure, Except.pure, eq_comm]

@[simp] theorem yields_identity {v k m : Nat} :
    Yields identity k v m ↔ v = k ∧ m = k + 1 := by
  simp [Yields, identity, modifyGet, MonadStateOf.modifyGet, StateT.modifyGet, StateT.run, pure,
    Except.pure, eq_comm]

@[simp] theorem yields_bind {x : Fresh α} {f : α → Fresh β} {v : β} {k m : Nat} :
    Yields (x >>= f) k v m ↔ ∃ a l, Yields x k a l ∧ Yields (f a) l v m := by
  simp only [Yields, StateT.run_bind]
  cases hx : x.run k with
  | error e => simp [bind, Except.bind]
  | ok r =>
    obtain ⟨a, l⟩ := r
    simp [bind, Except.bind]

/-- Converting the items of a list yields a value for each of them. -/
theorem Yields.threaded {f : α → Fresh β} {xs : List α} {ys : List β} {k m : Nat}
    (h : Yields (xs.mapM f) k ys m) : Threaded (fun x => Yields (f x)) xs k ys m := by
  induction xs generalizing ys k m with
  | nil =>
    rw [List.mapM_nil, yields_pure] at h
    obtain ⟨rfl, rfl⟩ := h
    exact .nil m
  | cons x rest ih =>
    rw [List.mapM_cons, yields_bind] at h
    obtain ⟨y, l, hy, h⟩ := h
    rw [yields_bind] at h
    obtain ⟨zs, l', hzs, h⟩ := h
    obtain ⟨rfl, rfl⟩ := yields_pure.1 h
    exact .cons hy (ih hzs)

/-- Items that convert alike may be converted either way. -/
theorem mapM_congr {f g : α → Fresh β} {xs : List α} (h : ∀ x ∈ xs, f x = g x) :
    xs.mapM f = xs.mapM g := by
  induction xs with
  | nil => rfl
  | cons x rest ih =>
    rw [List.mapM_cons, List.mapM_cons, h x (List.mem_cons_self ..),
      ih fun y hy => h y (List.mem_cons_of_mem _ hy)]

end Fresh

end LogBinder
