/-
  Log binder — conversions yield values of the type asked for.
-/
import LogBinder.Plugin.Sample
import LogBinder.Proofs.Binding.Inhabitants
import LogBinder.Proofs.Binding.Yields

namespace LogBinder

open Fresh (Yields yields_pure yields_throw yields_lift yields_identity yields_bind)

theorem EnumSpec.getElem?_of_read {e : EnumSpec} {text member : String} {ordinal : Nat}
    (h : e.read text = some (ordinal, member)) : e.members[ordinal]? = some member := by
  rw [EnumSpec.read] at h
  split at h
  · obtain ⟨m, hm, he⟩ := Option.map_eq_some_iff.1 h
    cases he
    exact hm
  · split at h
    · obtain ⟨m, hm, he⟩ := Option.map_eq_some_iff.1 h
      cases he
      exact hm
    · cases h

theorem Constructor.eq_object_of_construct {c : Constructor} {type : String} {identity : Nat}
    {args : Arguments} {v : Value} (h : c.construct type identity args = .ok v) :
    v = .object type identity c.label (some args) := by
  rw [construct] at h
  obtain ⟨-, -, h⟩ := Except.bind_eq_ok.1 h
  split at h <;> cases h
  rfl

/-! ## Types that are looked up -/

namespace Scope

variable {s : Scope}

/-- A plain name finds the type that is registered under it. -/
theorem fullName_of_type {name path : String} {t : TypeSpec} (hn : TypeSpec.isPlainName name = true)
    (h : s.type name path = .ok t) : t.fullName = name := by
  simp only [TypeSpec.isPlainName, Bool.and_eq_true, beq_iff_eq, Bool.not_eq_true',
    List.contains_eq_mem, decide_eq_false_iff_not] at hn
  obtain ⟨htrim, hcomma⟩ := hn
  rw [type, htrim] at h
  split at h
  · next u hu =>
    cases h
    rw [Catalog.resolve, Text.split_of_not_mem hcomma] at hu
    simp only [List.map_cons, List.map_nil, List.head?_cons, Option.getD_some, htrim] at hu
    split at hu
    · cases hu
    · have hv := List.find?_some hu
      rw [Bool.and_eq_true, beq_iff_eq] at hv
      exact hv.1
  · cases h

/-! ## Injected and omitted values -/

theorem injected_inhabits {t : TypeRef} {parameter path : String} {v : Value}
    (h : s.injected t parameter path = .ok v) : Inhabits s t v := by
  cases t with
  | appConfiguration =>
    rw [injected] at h
    split at h
    · next n hn =>
      cases h
      exact .appConfiguration hn
    · cases h
  | formatProvider =>
    cases h
    exact .formatProvider
  | _ => cases h

theorem omitted_accepts {p : Parameter} {path : String} {v : Value} (hp : p.canOmit = true)
    (h : s.omitted p path = .ok v) : Accepts s p v := by
  rw [omitted] at h
  split at h
  · exact .given (injected_inhabits h)
  · next hi =>
    rw [Parameter.canOmit, Bool.or_eq_true, or_iff_left hi, Option.isSome_iff_exists] at hp
    obtain ⟨d, hd⟩ := hp
    rw [hd, Option.getD_some] at h
    cases h
    exact .default (by simpa using hi) hd

/-! ## Texts -/

theorem eq_of_read {ε α : Type} {x : Except ε α} {f : α → Value} {g : ε → ConversionFault}
    {v : Value} (h : (x.map f).mapError g = .ok v) : ∃ a, v = f a := by
  cases x with
  | error e => cases h
  | ok a =>
    cases h
    exact ⟨a, rfl⟩

theorem readText_inhabits {provider : FormatProvider} {text : String} {t : TypeRef} {v : Value}
    (h : Primitive.convert provider text t = some (.ok v)) : Inhabits s t v := by
  cases t with
  | string =>
    cases h
    exact .string _
  | bool =>
    simp only [Primitive.convert, Primitive.bool, Option.some.injEq] at h
    split_ifs at h <;> cases h <;> exact .bool _
  | char =>
    simp only [Primitive.convert, Primitive.character, Option.some.injEq] at h
    split at h <;> cases h
    exact .char _
  | int =>
    obtain ⟨n, rfl⟩ := eq_of_read (Option.some.inj h)
    exact .int n
  | uint =>
    obtain ⟨n, rfl⟩ := eq_of_read (Option.some.inj h)
    exact .uint n
  | float =>
    obtain ⟨x, rfl⟩ := eq_of_read (Option.some.inj h)
    exact .float x
  | decimal =>
    obtain ⟨d, rfl⟩ := eq_of_read (Option.some.inj h)
    exact .decimal d
  | moment =>
    simp only [Primitive.convert, Option.some.injEq] at h
    split at h <;> cases h
    exact .moment _
  | duration =>
    simp only [Primitive.convert, Option.some.injEq] at h
    split at h <;> cases h
    exact .duration _
  | uri =>
    simp only [Primitive.convert, Primitive.uri, Option.some.injEq] at h
    split at h <;> cases h
    exact .uri _
  | _ => cases h

theorem primitive_inhabits {text path : String} {t : TypeRef} {v : Value}
    (h : s.primitive text path t = .ok v) : Inhabits s t v := by
  rw [primitive] at h
  split at h
  · next w hw =>
    cases h
    exact readText_inhabits hw
  · cases h
  · cases h

/-! ## Constructed objects -/

/-- A constructor that runs makes one object, with a new identity. -/
theorem eq_of_construct {t : TypeSpec} {c : Constructor} {args : Arguments} {path : String}
    {v : Value} {k m : Nat} (h : Yields (construct t c args path) k v m) :
    v = .object t.fullName k c.label (some args) ∧ m = k + 1 := by
  rw [construct, yields_bind] at h
  obtain ⟨identity, l, hl, h⟩ := h
  obtain ⟨rfl, rfl⟩ := yields_identity.1 hl
  split at h
  · next o ho =>
    obtain ⟨rfl, rfl⟩ := yields_pure.1 h
    exact ⟨Constructor.eq_object_of_construct ho, rfl⟩
  · exact absurd h yields_throw

theorem names_eq_of_forall₂ {ps : List Parameter} {args : Arguments}
    (h : List.Forall₂ (fun p a => a.1 = p.name) ps args) : args.map (·.1) = ps.map (·.name) := by
  induction h with
  | nil => rfl
  | cons ha _ ih => simp [ha, ih]

/-- A constructor that runs on arguments which its parameters take makes an object of every type
that its own can stand for. -/
theorem construct_inhabits {t : TypeSpec} {c : Constructor} {args : Arguments} {name path : String}
    {v : Value} {k m : Nat} (ht : t ∈ s.types) (hn : t.isAssignableTo name = true)
    (hc : c ∈ t.publicConstructors)
    (hargs : List.Forall₂ (fun p a => a.1 = p.name ∧ Accepts s p a.2) c.parameters args)
    (h : Yields (construct t c args path) k v m) : Inhabits s (.object name) v := by
  obtain ⟨rfl, -⟩ := eq_of_construct h
  refine .object k ht hn hc ?_ ?_
  · exact names_eq_of_forall₂ (hargs.imp fun _ _ h => h.1)
  · intro b hb
    exact ((List.forall₂_iff_zip.1 hargs).2 hb).2

theorem constructNamed_inhabits {name path : String} {declared : TypeSpec} {v : Value} {k m : Nat}
    (h : Yields (s.constructNamed name declared path) k v m) :
    Inhabits s (.object declared.fullName) v := by
  rw [constructNamed] at h
  obtain ⟨t, l, ht, h⟩ := yields_bind.1 h
  replace ht := mem_types_of_type (yields_lift.1 ht).1
  by_cases hn : t.isAssignableTo declared.fullName = true
  · rw [if_pos hn] at h
    split at h
    · exact absurd h yields_throw
    · next c hc =>
      obtain ⟨args, l', hargs, h⟩ := yields_bind.1 h
      have hdefault := List.find?_some hc
      rw [Constructor.isDefault, List.all_eq_true] at hdefault
      refine construct_inhabits ht hn (List.mem_of_find?_eq_some hc) ?_ h
      refine ((List.forall₂_and_left _ _).2 ⟨hdefault, hargs.threaded.forall₂⟩).imp ?_
      rintro p a ⟨hp, i, j, ha⟩
      obtain ⟨w, i', hw, ha⟩ := yields_bind.1 ha
      rw [(yields_pure.1 ha).1]
      exact ⟨rfl, omitted_accepts hp (yields_lift.1 hw).1⟩
  · rw [if_neg hn] at h
    simp at h

/-! ## Scalars -/

theorem convertNamed_inhabits {text path : String} {t : TypeRef} {v : Value} {k m : Nat}
    (ht : t.isPlain = true) (ha : Accessor.read text = none)
    (h : Yields (s.convertNamed text path t) k v m) : Inhabits s t v := by
  rw [convertNamed, ha] at h
  dsimp only at h
  split at h
  · exact primitive_inhabits (yields_lift.1 h).1
  · cases t with
    | object name =>
      rw [convertPlain] at h
      obtain ⟨declared, l, hd, h⟩ := yields_bind.1 h
      split at h
      · rw [← fullName_of_type ht (yields_lift.1 hd).1]
        exact constructNamed_inhabits h
      · exact primitive_inhabits (yields_lift.1 h).1
    | _ => exact primitive_inhabits (yields_lift.1 h).1

theorem cell?_of_cell {r : Registry} {kind : SwitchKind} {reference path : String} {cell : Nat}
    (h : r.cell kind reference path = .ok cell) :
    r.cell? kind (SwitchName.canonical reference) = some cell := by
  rw [Registry.cell] at h
  split at h
  · next c hc =>
    cases h
    exact hc
  · cases h

theorem convertScalar_inhabits {n : Node} {text : String} {t : TypeRef} {v : Value} {k m : Nat}
    (ht : t.isPlain = true) (ha : Accessor.read text = none)
    (h : Yields (s.convertScalar n text t) k v m) : Inhabits s t v := by
  fun_induction convertScalar s n text t with
  | case1 =>
    obtain ⟨cell, l, hc, h⟩ := yields_bind.1 h
    rw [(yields_pure.1 h).1]
    exact .levelSwitch (cell?_of_cell (yields_lift.1 hc).1)
  | case2 =>
    obtain ⟨cell, l, hc, h⟩ := yields_bind.1 h
    rw [(yields_pure.1 h).1]
    exact .filterSwitch (cell?_of_cell (yields_lift.1 hc).1)
  | case3 inner =>
    rw [(yields_pure.1 h).1]
    exact .null inner
  | case4 inner _ ih => exact .present (ih ht h)
  | case5 =>
    rw [(yields_pure.1 h).1]
    exact .node n
  | case6 l =>
    rw [(yields_pure.1 h).1]
    exact .level l
  | case7 => exact absurd h yields_throw
  | case8 spec ordinal member hm =>
    rw [(yields_pure.1 h).1]
    exact .enum (EnumSpec.getElem?_of_read hm)
  | case9 => exact absurd h yields_throw
  | case10 =>
    obtain ⟨t, l, ht, h⟩ := yields_bind.1 h
    rw [(yields_pure.1 h).1]
    exact .typeName (mem_types_of_type (yields_lift.1 ht).1)
  | case11 => exact primitive_inhabits (yields_lift.1 h).1
  | case12 => exact primitive_inhabits (yields_lift.1 h).1
  | case13 => exact convertNamed_inhabits ht ha h

/-! ## Sections -/

theorem mem_types_of_namedType {n : Node} {t : TypeSpec} (h : s.namedType n = .ok t) :
    t ∈ s.types := by
  rw [namedType] at h
  obtain ⟨shape, -, h⟩ := Except.bind_eq_ok.1 h
  cases shape with
  | scalar name => exact mem_types_of_type h
  | structured => cases h

theorem objectType_spec {n : Node} {name : String} {t : TypeSpec}
    (hp : TypeSpec.isPlainName name = true) (h : s.objectType n name = .ok t) :
    t ∈ s.types ∧ t.isAssignableTo name = true := by
  rw [objectType] at h
  split at h
  · obtain ⟨u, hd, h⟩ := Except.bind_eq_ok.1 h
    by_cases hu : u.isAssignableTo name = true
    · rw [if_pos hu] at h
      cases h
      exact ⟨mem_types_of_namedType hd, hu⟩
    · rw [if_neg hu] at h
      cases h
  · obtain ⟨u, hd, h⟩ := Except.bind_eq_ok.1 h
    split at h
    · cases h
    · cases h
      refine ⟨mem_types_of_type hd, ?_⟩
      simp [TypeSpec.isAssignableTo, fullName_of_type hp hd]

/-- The constructor that is selected is one of those offered, bound to the fields of its parameters;
parameters without a field can be left out. -/
theorem select_spec {φ : Type} {cs : List Constructor} {fields : List (String × φ)} {fit : Fit φ}
    (h : Constructor.select cs fields = some fit) :
    fit.constructor ∈ cs ∧
      fit.bindings = fit.constructor.parameters.map (fun p => (p, Constructor.field? fields p)) ∧
      ∀ p ∈ fit.constructor.parameters,
        p.canOmit = true ∨ (Constructor.field? fields p).isSome = true := by
  obtain ⟨c, hc, hfit⟩ := List.mem_filterMap.1 (best_mem h)
  rw [Constructor.fit?] at hfit
  split at hfit
  · next hall =>
    cases hfit
    refine ⟨hc, rfl, fun p hp => ?_⟩
    simpa using List.all_eq_true.1 hall p hp
  · cases hfit

/-- Conversions of the nodes below yield values of the types asked for. -/
def SoundBelow (s : Scope) (n : Node)
    (below : (c : Node) → c ∈ n.children → TypeRef → Fresh Value) : Prop :=
  ∀ c hc t v k m, t.isPlain = true → (∀ text, s.Converts c t text → Accessor.read text = none) →
    Yields (below c hc t) k v m → Inhabits s t v

section Sections

variable {n : Node} {below : (c : Node) → c ∈ n.children → TypeRef → Fresh Value} {k m : Nat}

theorem items_inhabit {t : TypeRef} {vs : List Value} (hb : SoundBelow s n below)
    (ht : t.isPlain = true)
    (ha : ∀ c ∈ n.children, ∀ text, s.Converts c t text → Accessor.read text = none)
    (h : Yields (items n below t) k vs m) : ∀ v ∈ vs, Inhabits s t v := by
  intro v hv
  obtain ⟨c, -, l, l', hc⟩ := exists_of_forall₂ h.threaded.forall₂ hv
  exact hb c.1 c.2 t v l l' ht (ha c.1 c.2) hc

theorem entryKey_inhabits {c : Node} {t : TypeRef} {v : Value} (ht : t.isPlain = true)
    (ha : t.isString = false → Accessor.read c.key = none)
    (h : Yields (entryKey s c t) k v m) : Inhabits s t v := by
  rw [entryKey] at h
  split at h
  · next hs =>
    obtain rfl : t = .string := by
      cases t <;> first | rfl | cases hs
    rw [(yields_pure.1 h).1]
    exact .string _
  · next hs => exact convertScalar_inhabits ht (ha (by simpa using hs)) h

theorem entries_inhabit {t u : TypeRef} {es : List (Value × Value)} (hb : SoundBelow s n below)
    (ht : t.isPlain = true) (hu : u.isPlain = true)
    (hak : ∀ c ∈ n.children, t.isString = false → Accessor.read c.key = none)
    (hav : ∀ c ∈ n.children, ∀ text, s.Converts c u text → Accessor.read text = none)
    (h : Yields (entries s n below t u) k es m) :
    ∀ e ∈ es, Inhabits s t e.1 ∧ Inhabits s u e.2 := by
  intro e he
  obtain ⟨c, -, l, l', hc⟩ := exists_of_forall₂ h.threaded.forall₂ he
  obtain ⟨key, l₁, hkey, hc⟩ := yields_bind.1 hc
  obtain ⟨v, l₂, hv, hc⟩ := yields_bind.1 hc
  rw [(yields_pure.1 hc).1]
  exact ⟨entryKey_inhabits ht (hak c.1 c.2) hkey, hb c.1 c.2 u v l₁ l₂ hu (hav c.1 c.2) hv⟩

theorem object_inhabits {name : String} {v : Value} (hs : s.IsPlain) (hb : SoundBelow s n below)
    (hp : TypeSpec.isPlainName name = true)
    (ha : ∀ text, s.Converts n (.object name) text → Accessor.read text = none)
    (h : Yields (object s n below name) k v m) : Inhabits s (.object name) v := by
  rw [object] at h
  obtain ⟨t, l, ht, h⟩ := yields_bind.1 h
  replace ht := (yields_lift.1 ht).1
  obtain ⟨hmem, hname⟩ := objectType_spec hp ht
  split at h
  · exact absurd h yields_throw
  · next fit hfit =>
    obtain ⟨hc, hbindings, hfields⟩ := select_spec hfit
    obtain ⟨args, l', hargs, h⟩ := yields_bind.1 h
    refine construct_inhabits hmem hname hc ?_ h
    have hargs := hargs.threaded.forall₂
    rw [hbindings, List.forall₂_map_left_iff] at hargs
    refine ((List.forall₂_and_left _ _).2 ⟨fun p hp => (hp : p ∈ fit.constructor.parameters),
      hargs⟩).imp ?_
    rintro p a ⟨hp, i, j, harg⟩
    rw [argument] at harg
    split at harg
    · next c hc' =>
      obtain ⟨w, i', hw, harg⟩ := yields_bind.1 harg
      rw [(yields_pure.1 harg).1]
      have hbound : (p, some c) ∈ fit.bindings := by
        rw [hbindings]
        exact List.mem_map.2 ⟨p, hp, by rw [← hc']⟩
      exact ⟨rfl, .given (hb c.1 c.2 p.type w i i' (hs t hmem _ hc p hp)
        (fun text hconv => ha text (.field ht hfit hbound hconv)) hw)⟩
    · next hc' =>
      obtain ⟨w, i', hw, harg⟩ := yields_bind.1 harg
      rw [(yields_pure.1 harg).1]
      have homit : p.canOmit = true := by
        simpa [show Constructor.field? (fields n) p = none from hc'] using hfields p hp
      exact ⟨rfl, omitted_accepts homit (yields_lift.1 hw).1⟩

theorem callback_inhabits {kind : CallbackKind} {v : Value}
    (h : Yields (callback n kind) k v m) : Inhabits s (.callback kind) v := by
  cases kind with
  | other name => exact absurd h yields_throw
  | _ =>
    obtain ⟨identity, l, -, h⟩ := yields_bind.1 h
    rw [(yields_pure.1 h).1]
    exact .callback _ _ identity n

theorem convertSection_inhabits {t : TypeRef} {v : Value} (hs : s.IsPlain)
    (hb : SoundBelow s n below) (hn : n.form = .ok .structured) (ht : t.isPlain = true)
    (ha : ∀ text, s.Converts n t text → Accessor.read text = none)
    (h : Yields (convertSection s n below t) k v m) : Inhabits s t v := by
  fun_induction convertSection s n below t with
  | case1 =>
    rw [(yields_pure.1 h).1]
    exact .node n
  | case2 inner ih => exact .present (ih ht (fun text hc => ha text (.nullable hn hc)) h)
  | case3 kind => exact callback_inhabits h
  | case4 t =>
    obtain ⟨vs, l, hvs, h⟩ := yields_bind.1 h
    rw [(yields_pure.1 h).1]
    exact .array (items_inhabit hb ht (fun c hc text hconv => ha text (.arrayItem hc hconv)) hvs)
  | case5 name t =>
    obtain ⟨vs, l, hvs, h⟩ := yields_bind.1 h
    rw [(yields_pure.1 h).1]
    exact .list name
      (items_inhabit hb ht (fun c hc text hconv => ha text (.listItem hc hconv)) hvs)
  | case6 name t u =>
    obtain ⟨es, l, hes, h⟩ := yields_bind.1 h
    rw [(yields_pure.1 h).1]
    simp only [TypeRef.isPlain, Bool.and_eq_true] at ht
    have hall := entries_inhabit hb ht.1 ht.2 (fun c hc hk => ha _ (.key hc hk))
      (fun c hc text hconv => ha text (.entry hc hconv)) hes
    exact .dictionary name (fun e he => (hall e he).1) fun e he => (hall e he).2
  | case7 name =>
    rw [(yields_pure.1 h).1]
    exact .sealedContainer name
  | case8 name => exact object_inhabits hs hb ht ha h
  | case9 => exact absurd h yields_throw

end Sections

/-- **Conversion is sound.**  When no scalar on the way is an accessor, what a conversion yields is
a value of the type asked for. -/
theorem convert_inhabits {n : Node} {t : TypeRef} {v : Value} {k m : Nat} (hs : s.IsPlain)
    (ht : t.isPlain = true) (ha : ∀ text, s.Converts n t text → Accessor.read text = none)
    (h : (s.convert n t).run k = .ok (v, m)) : Inhabits s t v := by
  induction hh : n.height using Nat.strongRecOn generalizing n t v k m with
  | ind height ih =>
    change Yields (s.convert n t) k v m at h
    rw [convert] at h
    split at h
    · exact injected_inhabits (yields_lift.1 h).1
    · next hi =>
      obtain ⟨shape, l, hf, h⟩ := yields_bind.1 h
      replace hf := (yields_lift.1 hf).1
      cases shape with
      | scalar text =>
        exact convertScalar_inhabits ht (ha _ (.scalar (by simpa using hi) hf)) h
      | structured =>
        refine convertSection_inhabits hs ?_ hf ht ha h
        intro c hc u w i j hu hau hw
        exact ih c.height (hh ▸ Node.height_lt_of_mem_children hc) hu hau hw rfl

/-- Nothing is below a scalar. -/
theorem subtrees_eq_nil {n : Node} {raw : String} (hn : n.form = .ok (.scalar raw)) :
    n.subtrees = [] := by
  rw [Node.form, Node.shape] at hn
  cases hv : n.value with
  | none => simp [hv, Except.mapError] at hn
  | some text =>
    cases hc : n.hasChildren with
    | true => simp [hv, hc, Except.mapError] at hn
    | false => simpa [Node.hasChildren] using hc

/-- On the way of a conversion of a scalar there is nothing else. -/
theorem Converts.eq_of_scalar {n : Node} {t : TypeRef} {raw text : String}
    (hn : n.form = .ok (.scalar raw)) (h : s.Converts n t text) :
    text = s.environment.expand raw := by
  have hnone : ∀ c ∈ n.children, False := by
    intro c hc
    rw [Node.children, subtrees_eq_nil hn] at hc
    cases hc
  cases h with
  | scalar _ hraw =>
    rw [hn] at hraw
    cases hraw
    rfl
  | nullable hs _ =>
    rw [hn] at hs
    cases hs
  | arrayItem hc _ | listItem hc _ | key hc _ | entry hc _ => exact absurd hc (hnone _)
  | @field _ _ _ _ _ c _ _ _ _ _ => exact absurd c.2 (hnone _)

end Scope

/-! ## A theme -/

namespace Sample

/-- What conversions see of the sample packages. -/
def scope : Scope := ⟨.ofList packages, {}, .all, [], .empty, none⟩

instance : Decidable scope.IsPlain := by
  unfold Scope.IsPlain
  infer_instance

/-- A section that says which theme to construct. -/
def themeSection : Node :=
  .ofPath (.ofEntries [⟨"Theme:$type", some "Sample.ConsoleTheme"⟩, ⟨"Theme:ACCENT", some "red"⟩])
    "Theme"

/-- The theme of a section is an object of a type that stands for themes; its arguments are the
default of one parameter and the field of the other. -/
theorem convert_inhabits_theme :
    ∃ v m, (scope.convert themeSection (.object theme)).run 0 = .ok (v, m) ∧
      v.object? = some ("Sample.ConsoleTheme", "custom") ∧ Inhabits scope (.object theme) v := by
  have hrun : (match (scope.convert themeSection (.object theme)).run 0 with
      | .ok (v, _) => v.object?
      | .error _ => none) = some ("Sample.ConsoleTheme", "custom") := by decide +kernel
  cases hr : (scope.convert themeSection (.object theme)).run 0 with
  | error e => simp [hr] at hrun
  | ok r =>
    obtain ⟨v, m⟩ := r
    rw [hr] at hrun
    refine ⟨v, m, rfl, hrun, Scope.convert_inhabits (by decide +kernel) (by decide) ?_ hr⟩
    have hscalar : ∀ c ∈ themeSection.children, ∀ u text, scope.Converts c u text →
        Accessor.read text = none := by
      intro c hc u text h
      rw [show themeSection.children = [themeSection.below "$type", themeSection.below "ACCENT"]
        from rfl, List.mem_cons, List.mem_singleton] at hc
      rcases hc with rfl | rfl <;> rw [h.eq_of_scalar rfl] <;> decide +kernel
    intro text h
    cases h with
    | scalar _ hf =>
      rw [show themeSection.form = .ok .structured from rfl] at hf
      cases hf
    | @field _ _ _ _ _ c _ _ _ _ hc => exact hscalar c.1 c.2 _ text hc

end Sample

end LogBinder
