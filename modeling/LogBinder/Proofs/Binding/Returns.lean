/-
  Log binder — how computations on sessions end.

  `Run.Returns m s a s'` says that the computation `m`, started in the
  session `s`, succeeds with `a` and leaves `s'`.  The lemmas take a
  computation apart into its steps; `bind_apply` also covers the session that
  a failure leaves.
-/
import LogBinder.Binding.Session
import LogBinder.Proofs.Binding.Yields

namespace LogBinder.Run

variable {α β : Type} {s s' : Session}

/-- A computation succeeds with a value and leaves a session. -/
def Returns (m : Run α) (s : Session) (a : α) (s' : Session) : Prop :=
  @Eq (Except ResolveError α × Session) (m s) (.ok a, s')

theorem Returns.snd_eq {m : Run α} {a : α} (h : Returns m s a s') : (m s).2 = s' :=
  congrArg Prod.snd h

/-- A computation that succeeds returns what it gives. -/
theorem returns_of_isOk {m : Run α} (h : (m s).1.isOk = true) (a : α) :
    Returns m s ((m s).1.toOption.getD a) (m s).2 := by
  unfold Returns
  generalize m s = outcome at h ⊢
  obtain ⟨r, t⟩ := outcome
  cases r with
  | error e => cases h
  | ok b => rfl

theorem bind_apply (m : Run α) (f : α → Run β) (s : Session) :
    (m >>= f) s = match m s with
      | (.ok a, t) => f a t
      | (.error e, t) => (.error e, t) := by
  change ExceptT.bindCont f (m s).1 (m s).2 = _
  obtain ⟨r, t⟩ := m s
  cases r <;> rfl

theorem lift_apply (x : Except ResolveError α) (s : Session) :
    (liftM x : Run α) s = (x, s) := by
  cases x <;> rfl

@[simp] theorem returns_pure {a b : α} : Returns (pure a) s b s' ↔ b = a ∧ s' = s := by
  change ((.ok a, s) : Except ResolveError α × Session) = (.ok b, s') ↔ _
  simp [eq_comm]

@[simp] theorem returns_throw {e : ResolveError} {a : α} : ¬ Returns (throw e) s a s' := by
  change ¬ ((.error e, s) : Except ResolveError α × Session) = (.ok a, s')
  simp

@[simp] theorem returns_lift {x : Except ResolveError α} {a : α} :
    Returns (liftM x) s a s' ↔ x = .ok a ∧ s' = s := by
  simp [Returns, lift_apply, eq_comm]

@[simp] theorem returns_get {t : Session} : Returns get s t s' ↔ t = s ∧ s' = s := by
  change ((.ok s, s) : Except ResolveError Session × Session) = (.ok t, s') ↔ _
  simp [eq_comm]

@[simp] theorem returns_modifyGet {f : Session → α × Session} {a : α} :
    Returns (modifyGet f) s a s' ↔ a = (f s).1 ∧ s' = (f s).2 := by
  change ((.ok (f s).1, (f s).2) : Except ResolveError α × Session) = (.ok a, s') ↔ _
  simp [eq_comm]

@[simp] theorem returns_modify {f : Session → Session} {a : PUnit} :
    Returns (modify f) s a s' ↔ s' = f s := by
  rw [show (modify f : Run PUnit) = modifyGet fun s => (⟨⟩, f s) from rfl, returns_modifyGet]
  simp

@[simp] theorem returns_bind {m : Run α} {f : α → Run β} {b : β} :
    Returns (m >>= f) s b s' ↔ ∃ a t, Returns m s a t ∧ Returns (f a) t b s' := by
  simp only [Returns, bind_apply]
  obtain ⟨r, t⟩ := m s
  cases r <;> simp

/-- Going through a list gives a result for each item. -/
theorem Returns.threaded {f : α → Run β} {xs : List α} {ys : List β}
    (h : Returns (xs.mapM f) s ys s') : Threaded (fun x => Returns (f x)) xs s ys s' := by
  induction xs generalizing ys s s' with
  | nil =>
    rw [List.mapM_nil, returns_pure] at h
    obtain ⟨rfl, rfl⟩ := h
    exact .nil s'
  | cons x rest ih =>
    rw [List.mapM_cons, returns_bind] at h
    obtain ⟨y, t, hy, h⟩ := h
    rw [returns_bind] at h
    obtain ⟨zs, t', hzs, h⟩ := h
    obtain ⟨rfl, rfl⟩ := returns_pure.1 h
    exact .cons hy (ih hzs)

end LogBinder.Run
