/-
  Log binder — the callbacks that conversions make.

  `Nested.Made lo hi places cs` says that `cs` are callbacks for `places`,
  with identities that rise from `lo` and stay below `hi`.  The value that a
  node is converted to is a callback with an identity of its own if the node
  is a section and the type stands for callbacks, and no callback otherwise
  (`Scope.made_of_convert`), provided that the catalog holds no callbacks
  that configure sections.
-/
import LogBinder.Proofs.Binding.Nesting
import LogBinder.Proofs.Binding.Soundness

namespace LogBinder

open Fresh (Yields yields_pure yields_throw yields_lift yields_identity yields_bind)

/-! ## New callbacks -/

/-- What a callback configures. -/
def Nested.place (c : Nested) : CallbackKind × Node := (c.kind, c.node)

/-- Callbacks for some places, with rising identities between two bounds. -/
structure Nested.Made (lo hi : Nat) (places : List (CallbackKind × Node)) (cs : List Nested) :
    Prop where
  le : lo ≤ hi
  places : cs.map place = places
  rising : (cs.map (·.identity)).Pairwise (· < ·)
  bounds : ∀ c ∈ cs, lo ≤ c.identity ∧ c.identity < hi

namespace Nested.Made

variable {lo mid hi : Nat} {ps qs : List (CallbackKind × Node)} {cs ds : List Nested}

theorem nil (h : lo ≤ hi) : Made lo hi [] [] :=
  ⟨h, rfl, .nil, fun _ hc => absurd hc List.not_mem_nil⟩

theorem append (h : Made lo mid ps cs) (h' : Made mid hi qs ds) :
    Made lo hi (ps ++ qs) (cs ++ ds) := by
  refine ⟨Nat.le_trans h.le h'.le, ?_, ?_, ?_⟩
  · rw [List.map_append, h.places, h'.places]
  · rw [List.map_append, List.pairwise_append]
    refine ⟨h.rising, h'.rising, fun i hi j hj => ?_⟩
    obtain ⟨c, hc, rfl⟩ := List.mem_map.1 hi
    obtain ⟨d, hd, rfl⟩ := List.mem_map.1 hj
    exact Nat.lt_of_lt_of_le (h.bounds c hc).2 (h'.bounds d hd).1
  · intro c hc
    rcases List.mem_append.1 hc with hc | hc
    · exact ⟨(h.bounds c hc).1, Nat.lt_of_lt_of_le (h.bounds c hc).2 h'.le⟩
    · exact ⟨Nat.le_trans h.le (h'.bounds c hc).1, (h'.bounds c hc).2⟩

theorem of_le (h' : Made mid hi ps cs) (h : lo ≤ mid) : Made lo hi ps cs :=
  (nil h).append h'

end Nested.Made

open Nested (Made)

/-- Going through a list makes the callbacks of all items, when the state tells the next
identity. -/
theorem Threaded.made {α β σ : Type} {R : α → σ → β → σ → Prop}
    {places : α → List (CallbackKind × Node)} {callbacks : β → List Nested} {xs : List α}
    {ys : List β} {k m : σ} (h : Threaded R xs k ys m) (next : σ → Nat)
    (hR : ∀ x ∈ xs, ∀ k y m, R x k y m → Made (next k) (next m) (places x) (callbacks y)) :
    Made (next k) (next m) (xs.flatMap places) (ys.flatMap callbacks) := by
  induction h with
  | nil => exact .nil (Nat.le_refl _)
  | @cons x xs y ys k l m hx _ ih =>
    rw [List.flatMap_cons, List.flatMap_cons]
    exact (hR x (List.mem_cons_self ..) k y l hx).append
      (ih fun x' hx' => hR x' (List.mem_cons_of_mem _ hx'))

theorem Threaded.le {α β : Type} {R : α → Nat → β → Nat → Prop} {xs : List α} {ys : List β}
    {k m : Nat} (h : Threaded R xs k ys m) (hR : ∀ x ∈ xs, ∀ k y m, R x k y m → k ≤ m) : k ≤ m := by
  induction h with
  | nil => exact Nat.le_refl _
  | @cons x xs y ys k l m hx _ ih =>
    exact Nat.le_trans (hR x (List.mem_cons_self ..) k y l hx)
      (ih fun x' hx' => hR x' (List.mem_cons_of_mem _ hx'))

/-! ## Values of the catalog -/

/-- No value that a catalog holds is a callback that configures a section: those are made by
conversions only. -/
structure Catalog.IsPassive (c : Catalog) : Prop where
  default : ∀ p ∈ c.packages, ∀ m ∈ p.methods, ∀ q ∈ m.parameters, ∀ v ∈ q.default,
    v.nested? = none
  property : ∀ p ∈ c.packages, ∀ t ∈ p.types, ∀ m ∈ t.members, ∀ v ∈ m.property?,
    v.nested? = none
  field : ∀ p ∈ c.packages, ∀ t ∈ p.types, ∀ m ∈ t.members, ∀ v ∈ m.field?, v.nested? = none

namespace Scope

variable {s : Scope}

theorem nested?_of_injected {t : TypeRef} {parameter path : String} {v : Value}
    (h : s.injected t parameter path = .ok v) : v.nested? = none := by
  cases injected_inhabits h with
  | present | callback => cases h
  | _ => rfl

theorem nested?_of_primitive {text path : String} {t : TypeRef} {v : Value}
    (h : s.primitive text path t = .ok v) : v.nested? = none := by
  cases primitive_inhabits h with
  | present | callback => cases h
  | _ => rfl

theorem nested?_of_value (hs : s.catalog.IsPassive) {a : Accessor} {path : String} {t : TypeRef}
    {v : Value} (h : a.value s path t = .ok v) : v.nested? = none := by
  rw [Accessor.value] at h
  obtain ⟨u, hu, h⟩ := Except.bind_eq_ok.1 h
  obtain ⟨p, hp, hu⟩ := List.mem_flatMap.1 (List.mem_filter.1 (mem_types_of_type hu)).1
  dsimp only at h
  split at h
  · next w hw =>
    obtain ⟨x, hx, h⟩ := Except.bind_eq_ok.1 h
    obtain ⟨_, -, h⟩ := Except.bind_eq_ok.1 h
    cases hx
    cases h
    split at hw
    · obtain ⟨m, -, hm⟩ := Option.bind_eq_some_iff.1 hw
      rw [Member.bind?] at hm
      split at hm <;> cases hm
      rfl
    · rw [Accessor.data?, Option.or_eq_some_iff] at hw
      rcases hw with hw | ⟨-, hw⟩
      · obtain ⟨m, hm, hw⟩ := List.exists_of_findSome?_eq_some hw
        exact hs.property p hp u hu m (List.mem_filter.1 hm).1 v hw
      · obtain ⟨m, hm, hw⟩ := List.exists_of_findSome?_eq_some hw
        exact hs.field p hp u hu m (List.mem_filter.1 hm).1 v hw
  · cases h

/-! ## Conversions -/

theorem made_none {k m : Nat} {v : Value} (h : k ≤ m) (hv : v.nested? = none) :
    Made k m [] v.nested?.toList := by
  rw [hv]
  exact .nil h

theorem made_of_construct {t : TypeSpec} {c : Constructor} {args : Arguments} {path : String}
    {v : Value} {k m : Nat} (h : Yields (construct t c args path) k v m) :
    Made k m [] v.nested?.toList := by
  obtain ⟨rfl, rfl⟩ := eq_of_construct h
  exact made_none (Nat.le_succ _) rfl

theorem made_of_constructNamed {name path : String} {declared : TypeSpec} {v : Value} {k m : Nat}
    (h : Yields (s.constructNamed name declared path) k v m) : Made k m [] v.nested?.toList := by
  rw [constructNamed] at h
  rw [yields_bind] at h
  obtain ⟨t, l, ht, h⟩ := h
  obtain ⟨-, rfl⟩ := yields_lift.1 ht
  by_cases hn : t.isAssignableTo declared.fullName = true
  · rw [if_pos hn] at h
    split at h
    · exact absurd h yields_throw
    · next c hc =>
      rw [yields_bind] at h
      obtain ⟨args, l', hargs, h⟩ := h
      refine (made_of_construct h).of_le (hargs.threaded.le ?_)
      intro p _ i a j ha
      rw [yields_bind] at ha
      obtain ⟨w, i', hw, ha⟩ := ha
      exact Nat.le_of_eq ((yields_pure.1 ha).2.trans (yields_lift.1 hw).2).symm
  · rw [if_neg hn] at h
    simp at h

theorem made_of_convertNamed (hs : s.catalog.IsPassive) {text path : String} {t : TypeRef}
    {v : Value} {k m : Nat} (h : Yields (s.convertNamed text path t) k v m) :
    Made k m [] v.nested?.toList := by
  rw [convertNamed] at h
  split at h
  · obtain ⟨hv, rfl⟩ := yields_lift.1 h
    exact made_none (Nat.le_refl _) (nested?_of_value hs hv)
  · split at h
    · obtain ⟨hv, rfl⟩ := yields_lift.1 h
      exact made_none (Nat.le_refl _) (nested?_of_primitive hv)
    · cases t with
      | object name =>
        rw [convertPlain] at h
        rw [yields_bind] at h
        obtain ⟨declared, l, hd, h⟩ := h
        obtain ⟨-, rfl⟩ := yields_lift.1 hd
        split at h
        · exact made_of_constructNamed h
        · obtain ⟨hv, rfl⟩ := yields_lift.1 h
          exact made_none (Nat.le_refl _) (nested?_of_primitive hv)
      | _ =>
        obtain ⟨hv, rfl⟩ := yields_lift.1 h
        exact made_none (Nat.le_refl _) (nested?_of_primitive hv)

/-- No text is converted to a callback. -/
theorem made_of_convertScalar (hs : s.catalog.IsPassive) {n : Node} {text : String} {t : TypeRef}
    {v : Value} {k m : Nat} (h : Yields (s.convertScalar n text t) k v m) :
    Made k m [] v.nested?.toList := by
  fun_induction convertScalar s n text t with
  | case4 inner _ ih => exact ih h
  | case13 => exact made_of_convertNamed hs h
  | case11 | case12 =>
    obtain ⟨hv, rfl⟩ := yields_lift.1 h
    exact made_none (Nat.le_refl _) (nested?_of_primitive hv)
  | case7 | case9 => exact absurd h yields_throw
  | case3 | case5 | case6 | case8 =>
    obtain ⟨rfl, rfl⟩ := yields_pure.1 h
    exact made_none (Nat.le_refl _) rfl
  | case1 | case2 | case10 =>
    rw [yields_bind] at h
    obtain ⟨w, l, hw, h⟩ := h
    obtain ⟨-, rfl⟩ := yields_lift.1 hw
    obtain ⟨rfl, rfl⟩ := yields_pure.1 h
    exact made_none (Nat.le_refl _) rfl

section Sections

variable {n : Node} {below : (c : Node) → c ∈ n.children → TypeRef → Fresh Value}

theorem made_of_object (hb : ∀ c hc t k v m, Yields (below c hc t) k v m → k ≤ m)
    {declared : String} {v : Value} {k m : Nat} (h : Yields (object s n below declared) k v m) :
    Made k m [] v.nested?.toList := by
  rw [object, yields_bind] at h
  obtain ⟨t, l, ht, h⟩ := h
  obtain ⟨-, rfl⟩ := yields_lift.1 ht
  split at h
  · exact absurd h yields_throw
  · next fit hfit =>
    rw [yields_bind] at h
    obtain ⟨args, l', hargs, h⟩ := h
    refine (made_of_construct h).of_le (hargs.threaded.le ?_)
    rintro ⟨p, field⟩ - i a j ha
    rw [argument] at ha
    split at ha
    · rw [yields_bind] at ha
      obtain ⟨w, i', hw, ha⟩ := ha
      rw [(yields_pure.1 ha).2]
      exact hb _ _ _ _ _ _ hw
    · rw [yields_bind] at ha
      obtain ⟨w, i', hw, ha⟩ := ha
      exact Nat.le_of_eq ((yields_pure.1 ha).2.trans (yields_lift.1 hw).2).symm

theorem le_of_items (hb : ∀ c hc t k v m, Yields (below c hc t) k v m → k ≤ m) {t : TypeRef}
    {vs : List Value} {k m : Nat} (h : Yields (items n below t) k vs m) : k ≤ m :=
  h.threaded.le fun c _ i v j hv => hb c.1 c.2 t i v j hv

theorem le_of_entries (hs : s.catalog.IsPassive)
    (hb : ∀ c hc t k v m, Yields (below c hc t) k v m → k ≤ m) {t u : TypeRef}
    {es : List (Value × Value)} {k m : Nat} (h : Yields (entries s n below t u) k es m) :
    k ≤ m := by
  refine h.threaded.le fun c _ i e j he => ?_
  rw [yields_bind] at he
  obtain ⟨key, l, hkey, he⟩ := he
  rw [yields_bind] at he
  obtain ⟨w, l', hw, he⟩ := he
  rw [(yields_pure.1 he).2]
  refine Nat.le_trans ?_ (hb _ _ _ _ _ _ hw)
  rw [entryKey] at hkey
  split at hkey
  · exact Nat.le_of_eq (yields_pure.1 hkey).2.symm
  · exact (made_of_convertScalar hs hkey).le

theorem made_of_callback {kind : CallbackKind} {v : Value} {k m : Nat}
    (h : Yields (callback n kind) k v m) : Made k m [(kind, n)] v.nested?.toList := by
  cases kind with
  | other name => exact absurd h yields_throw
  | _ =>
    obtain ⟨identity, l, hl, h⟩ := yields_bind.1 h
    obtain ⟨rfl, rfl⟩ := yields_identity.1 hl
    obtain ⟨rfl, rfl⟩ := yields_pure.1 h
    refine ⟨Nat.le_succ _, rfl, List.pairwise_singleton .., fun c hc => ?_⟩
    cases List.mem_singleton.1 hc
    exact ⟨Nat.le_refl _, Nat.lt_succ_self _⟩

/-- A section is converted to a callback for it, if the type stands for callbacks. -/
theorem made_of_convertSection (hs : s.catalog.IsPassive)
    (hb : ∀ c hc t k v m, Yields (below c hc t) k v m → k ≤ m) {t : TypeRef} {v : Value}
    {k m : Nat} (h : Yields (convertSection s n below t) k v m) :
    Made k m (t.callback?.map fun kind => (kind, n)).toList v.nested?.toList := by
  fun_induction convertSection s n below t with
  | case1 | case7 =>
    obtain ⟨rfl, rfl⟩ := yields_pure.1 h
    exact .nil (Nat.le_refl _)
  | case2 inner ih => exact ih h
  | case3 kind => exact made_of_callback h
  | case4 t =>
    obtain ⟨vs, l, hvs, h⟩ := yields_bind.1 h
    obtain ⟨rfl, rfl⟩ := yields_pure.1 h
    exact .nil (le_of_items hb hvs)
  | case5 name t =>
    obtain ⟨vs, l, hvs, h⟩ := yields_bind.1 h
    obtain ⟨rfl, rfl⟩ := yields_pure.1 h
    exact .nil (le_of_items hb hvs)
  | case6 name t u =>
    obtain ⟨es, l, hes, h⟩ := yields_bind.1 h
    obtain ⟨rfl, rfl⟩ := yields_pure.1 h
    exact .nil (le_of_entries hs hb hes)
  | case8 name => exact made_of_object hb h
  | case9 => exact absurd h yields_throw

end Sections

/-- **A conversion makes a callback exactly where one is asked for.**  It has a new identity. -/
theorem made_of_convert (hs : s.catalog.IsPassive) {n : Node} {t : TypeRef} {v : Value} {k m : Nat}
    (h : Yields (s.convert n t) k v m) :
    Made k m (n.callback? t).toList v.nested?.toList := by
  induction hh : n.height using Nat.strongRecOn generalizing n t v k m with
  | ind height ih =>
    rw [convert] at h
    split at h
    · next hi =>
      obtain ⟨hv, rfl⟩ := yields_lift.1 h
      rw [Node.callback?_of_isImplicit hi]
      exact made_none (Nat.le_refl _) (nested?_of_injected hv)
    · rw [yields_bind] at h
      obtain ⟨shape, l, hf, h⟩ := h
      obtain ⟨hform, rfl⟩ := yields_lift.1 hf
      cases shape with
      | scalar text =>
        rw [Node.callback?, hform]
        exact made_of_convertScalar hs h
      | structured =>
        rw [Node.callback?, hform]
        refine made_of_convertSection hs ?_ h
        intro c hc u i w j hw
        exact (ih c.height (hh ▸ Node.height_lt_of_mem_children hc) hw rfl).le

end Scope

/-! ## Calls -/

namespace Call

variable {s : Scope}

/-- The callbacks among the arguments of a call. -/
def callbacks (c : Call) : List Nested :=
  c.arguments.flatMap fun a => a.2.nested?.toList

theorem made_of_argument (hs : s.catalog.IsPassive) {d : Directive} {p : Parameter}
    (hp : ∀ v, p.default = some v → v.nested? = none) {a : String × Value} {k m : Nat}
    (h : Yields (argument s d p) k a m) :
    Made k m ((d.argument? p.name).bind fun n => n.callback? p.type).toList
      a.2.nested?.toList := by
  rw [argument] at h
  split at h
  · next n hn =>
    rw [yields_bind] at h
    obtain ⟨v, l, hv, h⟩ := h
    obtain ⟨rfl, rfl⟩ := yields_pure.1 h
    rw [hn, Option.bind_some]
    exact Scope.made_of_convert hs hv
  · next hn =>
    rw [yields_bind] at h
    obtain ⟨v, l, hv, h⟩ := h
    obtain ⟨rfl, rfl⟩ := yields_pure.1 h
    obtain ⟨homitted, rfl⟩ := yields_lift.1 hv
    rw [hn, Option.bind_none]
    refine Scope.made_none (Nat.le_refl _) ?_
    rw [Scope.omitted] at homitted
    split at homitted
    · exact Scope.nested?_of_injected homitted
    · cases homitted
      cases hd : p.default with
      | none => rfl
      | some v => exact hp v hd

/-- A call is made with the callbacks that its directive asks for. -/
theorem made_of_bind (hs : s.catalog.IsPassive) {d : Directive} {method : Method}
    (hm : ∃ p ∈ s.catalog.packages, method ∈ p.methods) {c : Call} {k m : Nat}
    (h : Yields (Call.bind s d method) k c m) : Made k m (d.callbacks method) c.callbacks := by
  obtain ⟨package, hpackage, hm⟩ := hm
  rw [Call.bind, yields_bind] at h
  obtain ⟨args, l, hargs, h⟩ := h
  obtain ⟨rfl, rfl⟩ := yields_pure.1 h
  refine hargs.threaded.made id fun p hp i a j ha => made_of_argument hs (fun v hv => ?_) ha
  exact hs.default package hpackage method hm p hp v hv

end Call

end LogBinder
