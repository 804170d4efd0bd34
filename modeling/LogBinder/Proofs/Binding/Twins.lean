/-
  Log binder — computations on twin sessions.

  Two sessions are twins if nothing that planning reads or changes tells
  them apart, except the configuration that they hold, whose tops are given,
  and the identities that come next.  Two computations agree if, on twins,
  they end with related values or the same error, and leave twins: also what
  they have told is the same then.

  * `Tree.same` : trees are compared;
  * `Node.Matches` : places that differ at most in how their key is written;
  * `Session.Twins`, `Run.Agree` : twins, and computations on them;
  * `Run.agree_bind`, `Run.agree_mapM`, `Run.agree_converted` : agreement
    step by step.
-/
import LogBinder.Proofs.Binding.Drafting
import LogBinder.Proofs.Binding.Likeness

namespace LogBinder

/-! ## Trees -/

namespace Tree

mutual

/-- Whether two trees are the same. -/
def same : Tree → Tree → Bool
  | ⟨key, value, children⟩, ⟨key', value', children'⟩ =>
    key == key' && value == value' && sameAll children children'

/-- Whether two lists of trees are the same. -/
def sameAll : List Tree → List Tree → Bool
  | [], [] => true
  | t :: ts, u :: us => same t u && sameAll ts us
  | _, _ => false

end

mutual

theorem same_iff : ∀ t u : Tree, same t u = true ↔ t = u
  | ⟨key, value, children⟩, ⟨key', value', children'⟩ => by
    rw [same, Bool.and_eq_true, Bool.and_eq_true, beq_iff_eq, beq_iff_eq,
      sameAll_iff children children', Tree.mk.injEq, and_assoc]

theorem sameAll_iff : ∀ ts us : List Tree, sameAll ts us = true ↔ ts = us
  | [], [] => by simp [sameAll]
  | t :: ts, u :: us => by
    rw [sameAll, Bool.and_eq_true, same_iff t u, sameAll_iff ts us, List.cons.injEq]
  | [], _ :: _ | _ :: _, [] => by simp [sameAll]

end

instance : DecidableEq Tree := fun t u => decidable_of_iff (same t u = true) (same_iff t u)

end Tree

/-! ## Places -/

namespace Node

/-- The scalar and the trees at a place, if it exists, whatever its key is. -/
def contents (n : Node) : Option (Option String × List Tree) :=
  n.located.map fun t => (t.value, t.children)

/-- The same keys lead to two places, and the same stands there, though the last key may have been
written differently. -/
structure Matches (n n' : Node) : Prop where
  segments : n.segments = n'.segments
  contents : n.contents = n'.contents

variable {n n' : Node}

theorem Like.matches (h : n.Like n') : n.Matches n' where
  segments := h.segments
  contents := by rw [Node.contents, Node.contents, h.located]

theorem Matches.path_eq (h : n.Matches n') : n.path = n'.path := by rw [path, path, h.segments]

theorem value_eq_contents (n : Node) : n.value = n.contents.bind (·.1) := by
  rw [value, contents]
  cases n.located <;> rfl

theorem subtrees_eq_contents (n : Node) : n.subtrees = n.contents.elim [] (·.2) := by
  rw [subtrees, contents]
  cases n.located <;> rfl

theorem Matches.value_eq (h : n.Matches n') : n.value = n'.value := by
  rw [value_eq_contents, value_eq_contents, h.contents]

theorem Matches.subtrees_eq (h : n.Matches n') : n.subtrees = n'.subtrees := by
  rw [subtrees_eq_contents, subtrees_eq_contents, h.contents]

theorem Matches.isPresent_eq (h : n.Matches n') : n.isPresent = n'.isPresent := by
  have hcontents := congrArg Option.isSome h.contents
  rwa [Node.contents, Node.contents, Option.isSome_map, Option.isSome_map] at hcontents

theorem Matches.form_eq (h : n.Matches n') : n.form = n'.form := by
  rw [form, form, shape, shape, hasChildren, hasChildren, h.value_eq, h.subtrees_eq, h.path_eq]

/-- The places below are alike in full. -/
theorem Matches.below (h : n.Matches n') (key : String) : (n.below key).Like (n'.below key) where
  segments := by rw [Node.below, Node.below, h.segments]
  located := by
    have hfind : ∀ n : Node, (n.below key).located =
        n.contents.bind fun c => c.2.find? fun t => Text.alike t.key key := by
      intro n
      rw [located_below, Node.contents]
      cases n.located <;> rfl
    rw [hfind, hfind, h.contents]

theorem Matches.child (h : n.Matches n') {path : String} (hpath : Tree.segments path = [path]) :
    (n.child path).Like (n'.child path) := by
  rw [child_eq_below n hpath, child_eq_below n' hpath]
  exact h.below path

theorem Matches.children (h : n.Matches n') : List.Forall₂ Like n.children n'.children := by
  rw [Node.children, Node.children, h.subtrees_eq, List.forall₂_map_left_iff,
    List.forall₂_map_right_iff, List.forall₂_same]
  exact fun t _ => h.below t.key

/-- The entries of places that match are alike, or the places are no sections alike. -/
theorem Matches.agree_entries (h : n.Matches n') :
    Except.Agree (List.Forall₂ Like) (Directive.entries n) (Directive.entries n') := by
  rw [Directive.entries, Directive.entries, h.form_eq]
  exact .bind_same _ fun _ => .ok h.children

/-- Two places are alike, or they are two given ones. -/
def LikeOr (top top' c c' : Node) : Prop :=
  c.Like c' ∨ c = top ∧ c' = top'

end Node

/-! ## Sessions -/

/-- Two sessions that planning cannot tell apart but by their configurations, whose tops are given,
and by the identities that come next. -/
structure Session.Twins (top top' : Node) (s s' : Session) : Prop where
  top : s.root.top = top
  top' : s'.root.top = top'
  environment : s.host.environment = s'.host.environment
  levels : s.levels = s'.levels
  filters : s.filters = s'.filters
  registry : s.registry = s'.registry
  diagnostics : s.diagnostics = s'.diagnostics

/-- What is injected in twins are their tops. -/
theorem Binder.application_twins (b : Binder) {top top' : Node} {s s' : Session}
    (h : s.Twins top top' s') :
    Option.Rel (Node.LikeOr top top') (b.scope s).application (b.scope s').application := by
  rw [scope, scope, h.top, h.top']
  cases b.injects with
  | false => exact .none
  | true => exact .some (.inr ⟨rfl, rfl⟩)

theorem Binder.scope_twins (b : Binder) {top top' : Node} {s s' : Session}
    (h : s.Twins top top' s') :
    b.scope s' = (b.scope s).injecting (b.scope s').application := by
  rw [scope, scope, Scope.injecting, h.environment, h.registry]

/-! ## Computations -/

namespace Run

variable {top top' : Node} {α β γ δ : Type} {R : α → β → Prop} {S : γ → δ → Prop}

/-- On twins, two computations end with related values or the same error, and leave twins. -/
def Agree (top top' : Node) (R : α → β → Prop) (m : Run α) (m' : Run β) : Prop :=
  ∀ s s' : Session, s.Twins top top' s' →
    Except.Agree R (m s).1 (m' s').1 ∧ (m s).2.Twins top top' (m' s').2

theorem agree_pure {a : α} {b : β} (h : R a b) : Agree top top' R (pure a) (pure b) :=
  fun _ _ hs => ⟨.ok h, hs⟩

theorem agree_throw (e : ResolveError) : Agree top top' R (throw e) (throw e) :=
  fun _ _ hs => ⟨.error e, hs⟩

theorem agree_lift {x : Except ResolveError α} {y : Except ResolveError β}
    (h : Except.Agree R x y) : Agree top top' R (liftM x) (liftM y) := by
  intro s s' hs
  rw [lift_apply, lift_apply]
  exact ⟨h, hs⟩

theorem agree_get : Agree top top' (Session.Twins top top') get get :=
  fun _ _ hs => ⟨.ok hs, hs⟩

theorem agree_modifyGet {f : Session → α × Session} {f' : Session → β × Session}
    (h : ∀ s s' : Session, s.Twins top top' s' →
      R (f s).1 (f' s').1 ∧ (f s).2.Twins top top' (f' s').2) :
    Agree top top' R (modifyGet f) (modifyGet f') :=
  fun s s' hs => ⟨.ok (h s s' hs).1, (h s s' hs).2⟩

theorem agree_modify {f f' : Session → Session}
    (h : ∀ s s' : Session, s.Twins top top' s' → (f s).Twins top top' (f' s')) :
    Agree top top' (fun _ _ => True) (modify f) (modify f') :=
  fun s s' hs => ⟨.ok trivial, h s s' hs⟩

theorem agree_bind {m : Run α} {m' : Run β} {f : α → Run γ} {f' : β → Run δ}
    (h : Agree top top' R m m') (hf : ∀ a b, R a b → Agree top top' S (f a) (f' b)) :
    Agree top top' S (m >>= f) (m' >>= f') := by
  intro s s' hs
  obtain ⟨hresult, ht⟩ := h s s' hs
  rw [bind_apply, bind_apply]
  generalize m s = outcome, m' s' = outcome' at hresult ht
  obtain ⟨r, t⟩ := outcome
  obtain ⟨r', t'⟩ := outcome'
  cases hresult with
  | error e => exact ⟨.error e, ht⟩
  | ok hab => exact hf _ _ hab t t' ht

/-- Computations that give the same first agree if they go on in agreement. -/
theorem agree_bind_eq {m m' : Run α} {f : α → Run γ} {f' : α → Run δ}
    (h : Agree top top' Eq m m') (hf : ∀ a, Agree top top' S (f a) (f' a)) :
    Agree top top' S (m >>= f) (m' >>= f') := by
  refine agree_bind h ?_
  rintro a _ rfl
  exact hf a

/-- Computations that begin with the same outcome agree if they go on in agreement. -/
theorem agree_bind_lift (x : Except ResolveError α) {f : α → Run γ} {f' : α → Run δ}
    (hf : ∀ a, Agree top top' S (f a) (f' a)) :
    Agree top top' S (liftM x >>= f) (liftM x >>= f') :=
  agree_bind_eq (agree_lift (.refl (fun _ => rfl) x)) hf

/-- Computations for related items, one after the other, agree. -/
theorem agree_mapM {xs : List α} {ys : List β} {f : α → Run γ} {f' : β → Run δ}
    (h : List.Forall₂ R xs ys) (hf : ∀ a b, R a b → Agree top top' S (f a) (f' b)) :
    Agree top top' (List.Forall₂ S) (xs.mapM f) (ys.mapM f') :=
  mapM_rel (Q := Agree top top') agree_pure agree_bind h hf

/-- Conversions that agree in the scopes of twins agree when they are run. -/
theorem agree_converted {b : Binder} {f f' : Scope → Fresh α} {R : α → α → Prop}
    (h : ∀ s s' : Session, s.Twins top top' s' →
      Fresh.Agree R (f (b.scope s)) (f' (b.scope s'))) :
    Agree top top' R (b.converted f) (b.converted f') := by
  intro s s' hs
  have hagree := h s s' hs s.nextIdentity s'.nextIdentity
  rw [Binder.converted_apply, Binder.converted_apply]
  generalize (f (b.scope s)).run s.nextIdentity = r,
    (f' (b.scope s')).run s'.nextIdentity = r' at hagree
  cases hagree with
  | error e => exact ⟨.error e, hs⟩
  | ok hab => exact ⟨.ok hab, { hs with }⟩

end Run

end LogBinder
