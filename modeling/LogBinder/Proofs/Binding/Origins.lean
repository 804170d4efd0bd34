/-
  Log binder — where callbacks come from.

  A value may be a callback, or carry callbacks deep inside containers and
  objects.  Every callback that a conversion hands on is either one that the
  catalog holds, in a default or a static member, or was bound by the
  conversion itself: to the node that was converted or to a place below it,
  with an identity that is new.

  * `Node.IsBelow` : a place that exists strictly below another one;
  * `Value.Carries`, `Catalog.Holds` : the callbacks in a value, and in those
    of a catalog;
  * `Value.Traced` : every callback in a value has one of the two origins
    (`Scope.traced_of_convert`, `Call.traced_of_bind`).
-/
import LogBinder.Binding.Plan
import LogBinder.Proofs.Binding.Nesting
import LogBinder.Proofs.Binding.Soundness

namespace LogBinder

open Fresh (Yields yields_pure yields_throw yields_lift yields_identity yields_bind)

/-! ## Places below -/

namespace Node

variable {a c n : Node}

/-- A place that exists, strictly below another one. -/
structure IsBelow (c n : Node) : Prop where
  tree : c.tree = n.tree
  segments : ∃ keys, keys ≠ [] ∧ c.segments = n.segments ++ keys
  isPresent : c.isPresent = true

/-- A place itself, or one below it. -/
def IsWithin (c n : Node) : Prop := c = n ∨ c.IsBelow n

theorem IsBelow.of_append (h : c.IsBelow a) {keys : List String} (ht : a.tree = n.tree)
    (hs : a.segments = n.segments ++ keys) : c.IsBelow n := by
  obtain ⟨more, hmore, hc⟩ := h.segments
  refine ⟨h.tree.trans ht, ⟨keys ++ more, ?_, ?_⟩, h.isPresent⟩
  · simp [hmore]
  · rw [hc, hs, List.append_assoc]

theorem IsBelow.trans (h : c.IsBelow a) (h' : a.IsBelow n) : c.IsBelow n := by
  obtain ⟨keys, -, hs⟩ := h'.segments
  exact h.of_append h'.tree hs

theorem IsBelow.of_child {path : String} (h : c.IsBelow (n.child path)) : c.IsBelow n :=
  h.of_append rfl rfl

theorem IsWithin.trans_isBelow (h : c.IsWithin a) (h' : a.IsBelow n) : c.IsBelow n := by
  rcases h with rfl | h
  · exact h'
  · exact h.trans h'

/-- The nodes below exist: the key of each is found again, at the latest by itself. -/
theorem isBelow_of_mem_children (h : c ∈ n.children) : c.IsBelow n := by
  rw [children, List.mem_map] at h
  obtain ⟨t, ht, rfl⟩ := h
  refine ⟨rfl, ⟨[t.key], by simp, rfl⟩, ?_⟩
  cases hn : n.located with
  | none => simp [subtrees, hn] at ht
  | some u =>
    have htu : t ∈ u.children := by simpa [subtrees, hn] using ht
    rw [isPresent, located_below, hn, Option.bind_some, Tree.child?, List.find?_isSome]
    exact ⟨t, htu, Text.alike_refl _⟩

theorem IsBelow.height_lt (h : c.IsBelow n) : c.height < n.height := by
  obtain ⟨keys, hkeys, hs⟩ := h.segments
  have hlocated : c.located = n.located.bind fun t => t.descend keys := by
    rw [located, located, h.tree, hs, Tree.descend_append]
  have hpresent : c.located.isSome = true := h.isPresent
  cases hn : n.located with
  | none => simp [hlocated, hn] at hpresent
  | some t =>
    rw [hn, Option.bind_some] at hlocated
    obtain ⟨key, rest, rfl⟩ := List.exists_cons_of_ne_nil hkeys
    rw [height, height, hlocated, hn]
    dsimp only
    rw [Tree.descend]
    cases hu : t.child? key with
    | none => exact Nat.succ_pos _
    | some u =>
      dsimp only
      cases hd : u.descend rest with
      | none => exact Nat.succ_pos _
      | some w =>
        have := Tree.height_le_of_descend hd
        have := Tree.height_lt_of_child? hu
        dsimp only
        omega

end Node

/-! ## Callbacks in values -/

/-- A value is a callback, or one is in it. -/
inductive Value.Carries : Value → Value → Prop
  | self (kind : CallbackKind) (path : String) (body : CallbackBody) :
      Carries (.callback kind path body) (.callback kind path body)
  | item {items : List Value} {v w : Value} : v ∈ items → Carries v w → Carries (.array items) w
  | element {name : String} {items : List Value} {v w : Value} : v ∈ items → Carries v w →
      Carries (.sequence name items) w
  | key {name : String} {entries : List (Value × Value)} {e : Value × Value} {w : Value} :
      e ∈ entries → Carries e.1 w → Carries (.map name entries) w
  | entry {name : String} {entries : List (Value × Value)} {e : Value × Value} {w : Value} :
      e ∈ entries → Carries e.2 w → Carries (.map name entries) w
  | argument {type label : String} {identity : Nat} {args : Arguments} {a : String × Value}
      {w : Value} : a ∈ args → Carries a.2 w → Carries (.object type identity label (some args)) w

/-- A callback is in an argument of a call. -/
def Call.Carries (c : Call) (w : Value) : Prop := ∃ a ∈ c.arguments, a.2.Carries w

/-- A callback is in an argument of a step. -/
def Step.Carries : Step → Value → Prop
  | .call c _, v => c.Carries v
  | _, _ => False

/-- A callback is in an argument of one of some steps. -/
def Step.AnyCarries (steps : List Step) (v : Value) : Prop := ∃ step ∈ steps, step.Carries v

/-- The values that a catalog holds. -/
inductive Catalog.Gives (c : Catalog) : Value → Prop
  | methodDefault {p : Package} {m : Method} {q : Parameter} {v : Value} : p ∈ c.packages →
      m ∈ p.methods → q ∈ m.parameters → q.default = some v → Gives c v
  | constructorDefault {p : Package} {t : TypeSpec} {k : Constructor} {q : Parameter} {v : Value} :
      p ∈ c.packages → t ∈ p.types → k ∈ t.constructors → q ∈ k.parameters →
      q.default = some v → Gives c v
  | property {p : Package} {t : TypeSpec} {m : Member} {v : Value} : p ∈ c.packages →
      t ∈ p.types → m ∈ t.members → m.property? = some v → Gives c v
  | field {p : Package} {t : TypeSpec} {m : Member} {v : Value} : p ∈ c.packages →
      t ∈ p.types → m ∈ t.members → m.field? = some v → Gives c v

/-- The callbacks in the values that a catalog holds. -/
def Catalog.Holds (c : Catalog) (w : Value) : Prop := ∃ v, c.Gives v ∧ v.Carries w

/-- No callback that a catalog holds configures a section, however deep it is in a value. -/
def Catalog.IsInert (c : Catalog) : Prop := ∀ v, c.Holds v → v.nested? = none

theorem Catalog.IsInert.nested?_ne {c : Catalog} (h : c.IsInert) {v : Value} (hv : c.Holds v)
    (d : Nested) : v.nested? ≠ some d := by
  simp [h v hv]

/-- A catalog of methods without defaults has no values. -/
theorem Catalog.not_gives {c : Catalog} (htypes : ∀ p ∈ c.packages, p.types.isEmpty = true)
    (hdefaults : ∀ p ∈ c.packages, ∀ m ∈ p.methods, ∀ q ∈ m.parameters, q.default.isNone = true)
    (v : Value) : ¬ c.Gives v := by
  intro hv
  have hnone : ∀ p ∈ c.packages, ∀ t, t ∉ p.types := by
    intro p hp t ht
    rw [List.isEmpty_iff.1 (htypes p hp)] at ht
    cases ht
  cases hv with
  | methodDefault hp hm hq hdefault =>
    have hempty := hdefaults _ hp _ hm _ hq
    rw [hdefault] at hempty
    cases hempty
  | constructorDefault hp ht => exact hnone _ hp _ ht
  | property hp ht => exact hnone _ hp _ ht
  | field hp ht => exact hnone _ hp _ ht

theorem Catalog.not_holds {c : Catalog} (htypes : ∀ p ∈ c.packages, p.types.isEmpty = true)
    (hdefaults : ∀ p ∈ c.packages, ∀ m ∈ p.methods, ∀ q ∈ m.parameters, q.default.isNone = true)
    (w : Value) : ¬ c.Holds w :=
  fun ⟨v, hv, _⟩ => not_gives htypes hdefaults v hv

/-- A callback for some place, with an identity between two bounds. -/
def Value.IsBound (place : Node → Prop) (lo hi : Nat) (w : Value) : Prop :=
  ∃ kind c identity, w = .callback kind c.path (.configures identity c) ∧ place c ∧
    lo ≤ identity ∧ identity < hi

/-- Every callback in a value is held by the catalog, or is for some place and has an identity
between two bounds. -/
structure Value.Traced (c : Catalog) (place : Node → Prop) (lo hi : Nat) (v : Value) : Prop where
  le : lo ≤ hi
  carried : ∀ w, v.Carries w → c.Holds w ∨ w.IsBound place lo hi

namespace Value

variable {c : Catalog} {place place' : Node → Prop} {lo lo' hi hi' : Nat} {v w : Value}

theorem IsBound.mono (h : w.IsBound place lo hi) (hplace : ∀ d, place d → place' d)
    (hlo : lo' ≤ lo) (hhi : hi ≤ hi') : w.IsBound place' lo' hi' := by
  obtain ⟨kind, d, identity, rfl, hd, hge, hlt⟩ := h
  exact ⟨kind, d, identity, rfl, hplace d hd, by omega, by omega⟩

theorem Traced.of_not_carries (h : lo ≤ hi) (hv : ∀ w, ¬ v.Carries w) : v.Traced c place lo hi :=
  ⟨h, fun w hw => absurd hw (hv w)⟩

theorem Traced.of_gives (h : lo ≤ hi) (hv : c.Gives v) : v.Traced c place lo hi :=
  ⟨h, fun _ hw => .inl ⟨v, hv, hw⟩⟩

theorem Traced.widen (h : v.Traced c place lo hi) (hlo : lo' ≤ lo) (hhi : hi ≤ hi') :
    v.Traced c place lo' hi' :=
  ⟨Nat.le_trans hlo (Nat.le_trans h.le hhi), fun w hw =>
    (h.carried w hw).imp id fun hw => hw.mono (fun _ => id) hlo hhi⟩

theorem Traced.imp (h : v.Traced c place lo hi) (hplace : ∀ d, place d → place' d) :
    v.Traced c place' lo hi :=
  ⟨h.le, fun w hw => (h.carried w hw).imp id fun hw =>
    hw.mono hplace (Nat.le_refl lo) (Nat.le_refl hi)⟩

end Value

open Value (Traced)

/-- Going through a list widens the bounds of each step to those of the whole. -/
theorem Threaded.within {α β : Type} {R : α → Nat → β → Nat → Prop} {P : α → β → Nat → Nat → Prop}
    (hP : ∀ {x y i j i' j'}, P x y i j → i' ≤ i → j ≤ j' → P x y i' j') {xs : List α} {ys : List β}
    {k m : Nat} (h : Threaded R xs k ys m)
    (hR : ∀ x ∈ xs, ∀ i y j, R x i y j → i ≤ j ∧ P x y i j) :
    k ≤ m ∧ List.Forall₂ (fun x y => P x y k m) xs ys := by
  induction h with
  | nil k => exact ⟨Nat.le_refl k, .nil⟩
  | @cons x xs y ys k l m hx _ ih =>
    obtain ⟨hkl, hxy⟩ := hR x (List.mem_cons_self ..) k y l hx
    obtain ⟨hlm, hall⟩ := ih fun x' hx' => hR x' (List.mem_cons_of_mem _ hx')
    refine ⟨Nat.le_trans hkl hlm, .cons (hP hxy (Nat.le_refl k) hlm) (hall.imp fun x' y' h' => ?_)⟩
    exact hP h' hkl (Nat.le_refl m)

theorem Threaded.widened {α β : Type} {R : α → Nat → β → Nat → Prop} {P : β → Nat → Nat → Prop}
    (hP : ∀ {y i j i' j'}, P y i j → i' ≤ i → j ≤ j' → P y i' j') {xs : List α} {ys : List β}
    {k m : Nat} (h : Threaded R xs k ys m)
    (hR : ∀ x ∈ xs, ∀ i y j, R x i y j → i ≤ j ∧ P y i j) : k ≤ m ∧ ∀ y ∈ ys, P y k m := by
  obtain ⟨hle, hall⟩ := h.within (P := fun _ y i j => P y i j) hP hR
  refine ⟨hle, ?_⟩
  intro y hy
  obtain ⟨x, -, hxy⟩ := exists_of_forall₂ hall hy
  exact hxy

/-- Converting the arguments of a list of parameters traces them. -/
theorem Threaded.traced {α : Type} {R : α → Nat → String × Value → Nat → Prop} {c : Catalog}
    {place : Node → Prop} {xs : List α} {args : Arguments} {k m : Nat}
    (h : Threaded R xs k args m) (hR : ∀ x ∈ xs, ∀ i a j, R x i a j → a.2.Traced c place i j) :
    k ≤ m ∧ ∀ a ∈ args, a.2.Traced c place k m :=
  Threaded.widened (P := fun a i j => a.2.Traced c place i j) (fun h hi hj => h.widen hi hj) h
    fun x hx i a j ha => ⟨(hR x hx i a j ha).le, hR x hx i a j ha⟩

/-! ## Values that conversions take from elsewhere -/

namespace Scope

variable {s : Scope} {t : TypeRef} {text path : String} {place : Node → Prop} {v w : Value}
  {k m : Nat}

theorem not_carries_of_injected {parameter : String} (h : s.injected t parameter path = .ok v) :
    ¬ v.Carries w := by
  intro hw
  cases injected_inhabits h with
  | appConfiguration | formatProvider => cases hw
  | _ => cases h

theorem not_carries_of_primitive (h : s.primitive text path t = .ok v) : ¬ v.Carries w := by
  intro hw
  cases primitive_inhabits h with
  | present | callback | array | list | dictionary | sealedContainer | object => cases h
  | _ => cases hw

/-- The types in sight are registered. -/
theorem exists_package_of_mem_types {u : TypeSpec} (h : u ∈ s.types) :
    ∃ p ∈ s.catalog.packages, u ∈ p.types :=
  List.mem_flatMap.1 (List.mem_filter.1 h).1

/-- An accessor denotes a function or a value of the catalog. -/
theorem gives_of_value {a : Accessor} (h : a.value s path t = .ok v) :
    s.catalog.Gives v ∨
      ∃ name signature identity body, v = .delegate name signature identity body := by
  rw [Accessor.value] at h
  obtain ⟨u, hu, h⟩ := Except.bind_eq_ok.1 h
  obtain ⟨p, hp, hu⟩ := exists_package_of_mem_types (mem_types_of_type hu)
  dsimp only at h
  split at h
  · next found hfound =>
    obtain ⟨x, hx, h⟩ := Except.bind_eq_ok.1 h
    obtain ⟨_, -, h⟩ := Except.bind_eq_ok.1 h
    cases hx
    cases h
    split at hfound
    · -- A function that is bound is a delegate.
      obtain ⟨f, -, hf⟩ := Option.bind_eq_some_iff.1 hfound
      rw [Member.bind?] at hf
      split at hf <;> cases hf
      exact .inr ⟨_, _, _, _, rfl⟩
    · rw [Accessor.data?, Option.or_eq_some_iff] at hfound
      rcases hfound with hfound | ⟨-, hfound⟩
      · obtain ⟨d, hd, hdata⟩ := List.exists_of_findSome?_eq_some hfound
        exact .inl (.property hp hu (List.mem_filter.1 hd).1 hdata)
      · obtain ⟨d, hd, hdata⟩ := List.exists_of_findSome?_eq_some hfound
        exact .inl (.field hp hu (List.mem_filter.1 hd).1 hdata)
  · cases h

theorem traced_of_value {a : Accessor} (h : a.value s path t = .ok v) (hkm : k ≤ m) :
    v.Traced s.catalog place k m := by
  rcases gives_of_value h with hv | ⟨name, signature, identity, body, rfl⟩
  · exact .of_gives hkm hv
  · exact .of_not_carries hkm fun w hw => by cases hw

/-- The parameters of a constructor or a method whose defaults the catalog holds. -/
def GivesDefaults (s : Scope) (ps : List Parameter) : Prop :=
  ∀ p ∈ ps, ∀ v, p.default = some v → s.catalog.Gives v

theorem traced_of_omitted {ps : List Parameter} {p : Parameter} (hs : s.GivesDefaults ps)
    (hp : p ∈ ps) (h : s.omitted p path = .ok v) (hkm : k ≤ m) : v.Traced s.catalog place k m := by
  rw [omitted] at h
  split at h
  · exact .of_not_carries hkm fun w => not_carries_of_injected h
  · cases h
    cases hd : p.default with
    | none => exact .of_not_carries hkm fun w hw => by cases hw
    | some v => exact .of_gives hkm (hs p hp v hd)

theorem givesDefaults_of_mem {u : TypeSpec} {c : Constructor} (hu : u ∈ s.types)
    (hc : c ∈ u.publicConstructors) : s.GivesDefaults c.parameters := by
  obtain ⟨p, hp, hu⟩ := exists_package_of_mem_types hu
  intro q hq v hv
  exact .constructorDefault hp hu (List.mem_filter.1 hc).1 hq hv

/-! ## Objects and scalars -/

theorem traced_of_construct {u : TypeSpec} {c : Constructor} {args : Arguments}
    (hargs : ∀ a ∈ args, a.2.Traced s.catalog place k m) {l : Nat} (hm : m ≤ l) (hkm : k ≤ m)
    {l' : Nat} (h : Yields (construct u c args path) l v l') : v.Traced s.catalog place k l' := by
  obtain ⟨rfl, rfl⟩ := eq_of_construct h
  refine ⟨by omega, ?_⟩
  intro w hw
  cases hw with
  | argument ha hw => exact ((hargs _ ha).widen (Nat.le_refl k) (by omega)).carried w hw

theorem traced_of_constructNamed {name : String} {declared : TypeSpec}
    (h : Yields (s.constructNamed name declared path) k v m) : v.Traced s.catalog place k m := by
  rw [constructNamed, yields_bind] at h
  obtain ⟨u, l, hu, h⟩ := h
  obtain ⟨htype, rfl⟩ := yields_lift.1 hu
  by_cases hassignable : u.isAssignableTo declared.fullName = true
  · rw [if_pos hassignable] at h
    split at h
    · exact absurd h yields_throw
    · next c hc =>
      rw [yields_bind] at h
      obtain ⟨args, l', hargs, h⟩ := h
      have hdefaults := givesDefaults_of_mem (mem_types_of_type htype)
        (List.mem_of_find?_eq_some hc)
      have htraced : l ≤ l' ∧ ∀ a ∈ args, a.2.Traced s.catalog place l l' := by
        refine hargs.threaded.traced ?_
        intro p hp i a j ha
        rw [yields_bind] at ha
        obtain ⟨x, i', hx, ha⟩ := ha
        obtain ⟨homitted, rfl⟩ := yields_lift.1 hx
        obtain ⟨rfl, rfl⟩ := yields_pure.1 ha
        exact traced_of_omitted hdefaults hp homitted (Nat.le_refl _)
      exact traced_of_construct htraced.2 (Nat.le_refl l') htraced.1 h
  · rw [if_neg hassignable] at h
    simp at h

theorem traced_of_convertNamed (h : Yields (s.convertNamed text path t) k v m) :
    v.Traced s.catalog place k m := by
  have hprimitive : ∀ {k m u}, Yields (liftM (s.primitive text path u)) k v m →
      v.Traced s.catalog place k m := by
    intro k m u h
    obtain ⟨hv, rfl⟩ := yields_lift.1 h
    exact .of_not_carries (Nat.le_refl m) fun w => not_carries_of_primitive hv
  rw [convertNamed] at h
  split at h
  · obtain ⟨hv, rfl⟩ := yields_lift.1 h
    exact traced_of_value hv (Nat.le_refl m)
  · split at h
    · exact hprimitive h
    · cases t with
      | object name =>
        rw [convertPlain, yields_bind] at h
        obtain ⟨declared, l, hd, h⟩ := h
        obtain ⟨-, rfl⟩ := yields_lift.1 hd
        split at h
        · exact traced_of_constructNamed h
        · exact hprimitive h
      | _ => exact hprimitive h

theorem traced_of_convertScalar {c : Node} (h : Yields (s.convertScalar c text t) k v m) :
    v.Traced s.catalog place k m := by
  fun_induction convertScalar s c text t with
  | case4 inner _ ih => exact ih h
  | case13 => exact traced_of_convertNamed h
  | case11 | case12 =>
    obtain ⟨hv, rfl⟩ := yields_lift.1 h
    exact .of_not_carries (Nat.le_refl m) fun w => not_carries_of_primitive hv
  | case7 | case9 => exact absurd h yields_throw
  | case3 | case5 | case6 | case8 =>
    obtain ⟨rfl, rfl⟩ := yields_pure.1 h
    exact .of_not_carries (Nat.le_refl m) fun w hw => by cases hw
  | case1 | case2 | case10 =>
    rw [yields_bind] at h
    obtain ⟨x, l, hx, h⟩ := h
    obtain ⟨-, rfl⟩ := yields_lift.1 hx
    obtain ⟨rfl, rfl⟩ := yields_pure.1 h
    exact .of_not_carries (Nat.le_refl m) fun w hw => by cases hw

/-! ## Sections -/

/-- Conversions of the nodes below trace the callbacks that they hand on. -/
def TracedBelow (s : Scope) (n : Node)
    (below : (c : Node) → c ∈ n.children → TypeRef → Fresh Value) : Prop :=
  ∀ c hc t k v m, Yields (below c hc t) k v m → v.Traced s.catalog (·.IsWithin n) k m

section Sections

variable {n : Node} {below : (c : Node) → c ∈ n.children → TypeRef → Fresh Value}

theorem traced_of_items (hb : TracedBelow s n below) {vs : List Value}
    (h : Yields (items n below t) k vs m) :
    k ≤ m ∧ ∀ v ∈ vs, v.Traced s.catalog (·.IsWithin n) k m := by
  refine Threaded.widened (P := fun v i j => v.Traced s.catalog (·.IsWithin n) i j)
    (fun h hi hj => h.widen hi hj) h.threaded fun c _ i v j hv => ?_
  have hv := hb c.1 c.2 t i v j hv
  exact ⟨hv.le, hv⟩

theorem traced_of_entries (hb : TracedBelow s n below) {u : TypeRef}
    {es : List (Value × Value)} (h : Yields (entries s n below t u) k es m) :
    k ≤ m ∧ ∀ e ∈ es, e.1.Traced s.catalog (·.IsWithin n) k m ∧
      e.2.Traced s.catalog (·.IsWithin n) k m := by
  refine Threaded.widened (P := fun e i j => e.1.Traced s.catalog (·.IsWithin n) i j ∧
      e.2.Traced s.catalog (·.IsWithin n) i j)
    (fun h hi hj => ⟨h.1.widen hi hj, h.2.widen hi hj⟩) h.threaded fun c _ i e j he => ?_
  rw [yields_bind] at he
  obtain ⟨key, l, hkey, he⟩ := he
  rw [yields_bind] at he
  obtain ⟨x, l', hx, he⟩ := he
  obtain ⟨rfl, rfl⟩ := yields_pure.1 he
  have hx := hb c.1 c.2 u l x j hx
  have hkey : key.Traced s.catalog (·.IsWithin n) i l := by
    rw [entryKey] at hkey
    split at hkey
    · obtain ⟨rfl, rfl⟩ := yields_pure.1 hkey
      exact .of_not_carries (Nat.le_refl l) fun w hw => by cases hw
    · exact traced_of_convertScalar hkey
  exact ⟨Nat.le_trans hkey.le hx.le, hkey.widen (Nat.le_refl i) hx.le,
    hx.widen hkey.le (Nat.le_refl j)⟩

theorem mem_types_of_objectType {name : String} {u : TypeSpec} (h : s.objectType n name = .ok u) :
    u ∈ s.types := by
  rw [objectType] at h
  split at h
  · obtain ⟨x, hx, h⟩ := Except.bind_eq_ok.1 h
    by_cases hassignable : x.isAssignableTo name = true
    · rw [if_pos hassignable] at h
      cases h
      exact mem_types_of_namedType hx
    · rw [if_neg hassignable] at h
      cases h
  · obtain ⟨x, hx, h⟩ := Except.bind_eq_ok.1 h
    split at h
    · cases h
    · cases h
      exact mem_types_of_type hx

theorem traced_of_object (hb : TracedBelow s n below) {declared : String}
    (h : Yields (object s n below declared) k v m) : v.Traced s.catalog (·.IsWithin n) k m := by
  rw [object, yields_bind] at h
  obtain ⟨u, l, hu, h⟩ := h
  obtain ⟨htype, rfl⟩ := yields_lift.1 hu
  split at h
  · exact absurd h yields_throw
  · next fit hfit =>
    obtain ⟨hc, hbindings, -⟩ := select_spec hfit
    have hdefaults := givesDefaults_of_mem (mem_types_of_objectType htype) hc
    rw [yields_bind] at h
    obtain ⟨args, l', hargs, h⟩ := h
    have htraced : l ≤ l' ∧ ∀ a ∈ args, a.2.Traced s.catalog (·.IsWithin n) l l' := by
      refine hargs.threaded.traced ?_
      intro binding hp i a j ha
      rw [argument] at ha
      split at ha
      · rw [yields_bind] at ha
        obtain ⟨x, i', hx, ha⟩ := ha
        obtain ⟨rfl, rfl⟩ := yields_pure.1 ha
        exact hb _ _ _ _ _ _ hx
      · rw [yields_bind] at ha
        obtain ⟨x, i', hx, ha⟩ := ha
        obtain ⟨homitted, rfl⟩ := yields_lift.1 hx
        obtain ⟨rfl, rfl⟩ := yields_pure.1 ha
        rw [hbindings] at hp
        obtain ⟨q, hq, rfl⟩ := List.mem_map.1 hp
        exact traced_of_omitted hdefaults hq homitted (Nat.le_refl _)
    exact traced_of_construct htraced.2 (Nat.le_refl l') htraced.1 h

theorem traced_of_callback {kind : CallbackKind} (h : Yields (callback n kind) k v m) :
    v.Traced s.catalog (·.IsWithin n) k m := by
  cases kind with
  | other name => exact absurd h yields_throw
  | _ =>
    obtain ⟨identity, l, hl, h⟩ := yields_bind.1 h
    obtain ⟨rfl, rfl⟩ := yields_identity.1 hl
    obtain ⟨rfl, rfl⟩ := yields_pure.1 h
    refine ⟨Nat.le_succ _, fun w hw => .inr ?_⟩
    cases hw
    exact ⟨_, n, identity, rfl, .inl rfl, Nat.le_refl _, Nat.lt_succ_self _⟩

theorem traced_of_convertSection (hb : TracedBelow s n below)
    (h : Yields (convertSection s n below t) k v m) : v.Traced s.catalog (·.IsWithin n) k m := by
  fun_induction convertSection s n below t with
  | case1 | case7 =>
    obtain ⟨rfl, rfl⟩ := yields_pure.1 h
    refine .of_not_carries (Nat.le_refl m) ?_
    intro w hw
    cases hw <;> simp_all
  | case2 inner ih => exact ih h
  | case3 kind => exact traced_of_callback h
  | case4 t =>
    obtain ⟨vs, l, hvs, h⟩ := yields_bind.1 h
    obtain ⟨rfl, rfl⟩ := yields_pure.1 h
    obtain ⟨hle, hvs⟩ := traced_of_items hb hvs
    refine ⟨hle, ?_⟩
    intro w hw
    cases hw with
    | item hv hw => exact (hvs _ hv).carried w hw
  | case5 name t =>
    obtain ⟨vs, l, hvs, h⟩ := yields_bind.1 h
    obtain ⟨rfl, rfl⟩ := yields_pure.1 h
    obtain ⟨hle, hvs⟩ := traced_of_items hb hvs
    refine ⟨hle, ?_⟩
    intro w hw
    cases hw with
    | element hv hw => exact (hvs _ hv).carried w hw
  | case6 name t u =>
    obtain ⟨es, l, hes, h⟩ := yields_bind.1 h
    obtain ⟨rfl, rfl⟩ := yields_pure.1 h
    obtain ⟨hle, hes⟩ := traced_of_entries hb hes
    refine ⟨hle, ?_⟩
    intro w hw
    cases hw with
    | key he hw => exact (hes _ he).1.carried w hw
    | entry he hw => exact (hes _ he).2.carried w hw
  | case8 name => exact traced_of_object hb h
  | case9 => exact absurd h yields_throw

end Sections

/-- Every callback that a conversion hands on is held by the catalog or bound at or below the
node. -/
theorem traced_of_convert {n : Node} (h : Yields (s.convert n t) k v m) :
    v.Traced s.catalog (·.IsWithin n) k m := by
  induction hh : n.height using Nat.strongRecOn generalizing n t v k m with
  | ind height ih =>
    rw [convert] at h
    split at h
    · obtain ⟨hv, rfl⟩ := yields_lift.1 h
      exact .of_not_carries (Nat.le_refl m) fun w => not_carries_of_injected hv
    · rw [yields_bind] at h
      obtain ⟨shape, l, hf, h⟩ := h
      obtain ⟨-, rfl⟩ := yields_lift.1 hf
      cases shape with
      | scalar text => exact traced_of_convertScalar h
      | structured =>
        refine traced_of_convertSection (fun c hc u i x j hx => ?_) h
        have hlower : c.height < height := hh ▸ Node.height_lt_of_mem_children hc
        exact (ih c.height hlower hx rfl).imp fun d hd =>
          .inr (hd.trans_isBelow (Node.isBelow_of_mem_children hc))

end Scope

/-! ## Calls -/

namespace Directive

/-- The arguments of a directive stand below its entry. -/
theorem isBelow_of_mem_arguments {n : Node} {d : Directive} {a : String × Node}
    (h : ofNode n = .ok d) (ha : a ∈ d.arguments) : a.2.IsBelow n := by
  rw [ofNode] at h
  obtain ⟨shape, -, h⟩ := Except.bind_eq_ok.1 h
  cases shape with
  | scalar name =>
    cases h
    cases ha
  | structured =>
    obtain ⟨name, -, h⟩ := Except.bind_eq_ok.1 h
    obtain ⟨arguments, harguments, h⟩ := Except.bind_eq_ok.1 h
    cases h
    rw [argumentsOf] at harguments
    split at harguments
    · obtain ⟨shape, -, harguments⟩ := Except.bind_eq_ok.1 harguments
      cases shape with
      | scalar text => cases harguments
      | structured =>
        cases harguments
        obtain ⟨c, hc, rfl⟩ := List.mem_map.1 ha
        exact (Node.isBelow_of_mem_children hc).of_child
    · cases harguments
      cases ha

/-- The arguments of the directives of a section stand below it. -/
theorem isBelow_of_mem_ofSection {n : Node} {ds : List Directive} {d : Directive}
    {a : String × Node} (h : ofSection n = .ok ds) (hd : d ∈ ds) (ha : a ∈ d.arguments) :
    a.2.IsBelow n := by
  obtain ⟨e, he, hd⟩ := exists_of_mem_ofSection h hd
  exact (isBelow_of_mem_arguments hd ha).trans (Node.isBelow_of_mem_children he)

end Directive

/-- The callbacks of a call are bound where the arguments of its directive stand. -/
theorem Call.traced_of_bind {s : Scope} {d : Directive} {method : Method} {place : Node → Prop}
    {c : Call} {k m : Nat} (hm : ∃ p ∈ s.catalog.packages, method ∈ p.methods)
    (hd : ∀ a ∈ d.arguments, ∀ e : Node, e.IsWithin a.2 → place e)
    (h : Yields (Call.bind s d method) k c m) :
    k ≤ m ∧ ∀ a ∈ c.arguments, a.2.Traced s.catalog place k m := by
  obtain ⟨package, hpackage, hm⟩ := hm
  rw [Call.bind, yields_bind] at h
  obtain ⟨args, l, hargs, h⟩ := h
  obtain ⟨rfl, rfl⟩ := yields_pure.1 h
  have hdefaults : s.GivesDefaults method.parameters := fun p hp v hv =>
    .methodDefault hpackage hm hp hv
  refine hargs.threaded.traced ?_
  intro p hp i a j ha
  rw [argument] at ha
  split at ha
  · next e he =>
    obtain ⟨before, after, he, -⟩ := List.lookup_eq_some_iff.1 he
    rw [yields_bind] at ha
    obtain ⟨x, i', hx, ha⟩ := ha
    obtain ⟨rfl, rfl⟩ := yields_pure.1 ha
    exact (Scope.traced_of_convert hx).imp (hd (p.name, e) (by simp [he]))
  · rw [yields_bind] at ha
    obtain ⟨x, i', hx, ha⟩ := ha
    obtain ⟨homitted, rfl⟩ := yields_lift.1 hx
    obtain ⟨rfl, rfl⟩ := yields_pure.1 ha
    exact Scope.traced_of_omitted hdefaults hp homitted (Nat.le_refl _)

end LogBinder
