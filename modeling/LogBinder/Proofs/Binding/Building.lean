/-
  Log binder — what values are built from.

  A conversion puts a value together from what it asks for on the way, from
  what the catalog gives, and from the object that it may construct itself.
  A constructor is run where a text names a type that stands for an abstract
  one, and for an object section, whose type is named by an entry or else is
  the declared one.

  * `Value.Contains` : what is in a value, however deep;
  * `Scope.Constructs`, `Scope.Builds` : the constructors that a request runs,
    itself or on the way;
  * `Scope.Arises` : how a value arises from what a request asks for;
  * `Scope.serves_of_answer` : this is how the answer to a request arises.
-/
import LogBinder.Proofs.Binding.Preserved
import LogBinder.Proofs.Binding.Requests

namespace LogBinder

/-! ## What is in a value -/

/-- A value is in another one, itself or in a part of it. -/
inductive Value.Contains : Value → Value → Prop
  | self (v : Value) : Contains v v
  | part {v w x : Value} (hw : w ∈ v.parts) (h : Contains w x) : Contains v x

/-- A value is in one that a catalog gives. -/
def Catalog.Contains (k : Catalog) (w : Value) : Prop := ∃ v, k.Gives v ∧ v.Contains w

namespace Value

variable {v w x : Value} {k : Catalog}

theorem Contains.trans (h : v.Contains w) (h' : w.Contains x) : v.Contains x := by
  induction h with
  | self => exact h'
  | part hw _ ih => exact .part hw (ih h')

theorem Contains.of_mem (h : w ∈ v.parts) : v.Contains w := .part h (.self w)

/-- What is in a value is the value or in a part of it. -/
theorem contains_iff : v.Contains x ↔ x = v ∨ ∃ w ∈ v.parts, w.Contains x := by
  constructor
  · intro h
    cases h with
    | self => exact .inl rfl
    | part hw h => exact .inr ⟨_, hw, h⟩
  · rintro (rfl | ⟨w, hw, h⟩)
    · exact .self _
    · exact .part hw h

/-- Every object in a value is in one that the catalog gives. -/
def IsGiven (k : Catalog) (v : Value) : Prop :=
  ∀ w, v.Contains w → w.object?.isSome = true → k.Contains w

theorem isGiven_of_gives (h : k.Gives v) : v.IsGiven k := fun _ hw _ => ⟨v, h, hw⟩

/-- There are no objects in an atom. -/
theorem isGiven_of_atom (hobject : v.object? = none) (hparts : v.parts = []) : v.IsGiven k := by
  intro w hw hobjectw
  rcases contains_iff.1 hw with rfl | ⟨x, hx, -⟩
  · rw [hobject] at hobjectw
    cases hobjectw
  · rw [hparts] at hx
    cases hx

end Value

/-! ## Constructors that are run -/

/-- How the type of an object is named. -/
inductive Naming where
  | text
  | entry
  | declared
  deriving DecidableEq

namespace Scope

/-- How the type of a section is named. -/
def naming (n : Node) : Naming :=
  if (n.child typeKey).isPresent then .entry else .declared

/-- A request runs a constructor itself, unless it fails. -/
inductive Constructs (s : Scope) : Request → Naming → TypeSpec → Constructor → Prop
  | text {n : Node} {text name : String} {declared t : TypeSpec} {c : Constructor}
      (hread : Accessor.read text = none) (htext : (Text.trim text).isEmpty = false)
      (hdeclared : s.type name n.path = .ok declared) (habstract : declared.isAbstract = true)
      (ht : s.type (Text.trim text) n.path = .ok t)
      (hassignable : t.isAssignableTo declared.fullName = true)
      (hc : t.publicConstructors.find? Constructor.isDefault = some c) :
      Constructs s (.scalar n text (.object name)) .text t c
  | object {n : Node} {declared : String} {t : TypeSpec} {fit : Fit { c : Node // c ∈ n.children }}
      (ht : s.objectType n declared = .ok t)
      (hfit : Constructor.select t.publicConstructors (fields n) = some fit) :
      Constructs s (.structured n (.object declared)) (naming n) t fit.constructor

/-- A request runs a constructor, itself or on the way. -/
inductive Builds (s : Scope) : Request → Naming → TypeSpec → Constructor → Prop
  | here {r : Request} {name : Naming} {t : TypeSpec} {c : Constructor}
      (h : s.Constructs r name t c) : Builds s r name t c
  | asked {r r' : Request} {name : Naming} {t : TypeSpec} {c : Constructor}
      (hr : r' ∈ Request.asks s r) (h : Builds s r' name t c) : Builds s r name t c

end Scope

/-- An object that a constructor of a type makes, with an identity between two bounds. -/
def Value.IsMade (t : TypeSpec) (c : Constructor) (k m : Nat) (v : Value) : Prop :=
  ∃ identity args, v = .object t.fullName identity c.label (some args) ∧ k ≤ identity ∧ identity < m

theorem Value.IsMade.widen {t : TypeSpec} {c : Constructor} {k k' m m' : Nat} {v : Value}
    (h : v.IsMade t c k m) (hk : k' ≤ k) (hm : m ≤ m') : v.IsMade t c k' m' := by
  obtain ⟨identity, args, rfl, hge, hlt⟩ := h
  exact ⟨identity, args, rfl, by omega, by omega⟩

/-! ## How values arise -/

namespace Scope

open Fresh

variable {s : Scope} {n : Node} {text path : String} {t : TypeRef} {v w : Value} {k m : Nat}
  {r r' : Request}

theorem le_of_answer (h : Yields (Request.answer s r) k v m) : k ≤ m := by
  cases r with
  | convert n t => exact (traced_of_convert h).le
  | scalar n text t =>
    have htraced : v.Traced s.catalog (fun _ => True) k m := traced_of_convertScalar h
    exact htraced.le
  | structured n t =>
    refine (traced_of_convertSection (fun c hc u i x j hx => ?_) h).le
    exact (traced_of_convert hx).imp fun d hd =>
      .inr (hd.trans_isBelow (Node.isBelow_of_mem_children hc))

/-- A value is the answer to a request, between two identities. -/
def Answers (s : Scope) (r : Request) (k m : Nat) (w : Value) : Prop :=
  ∃ i j, k ≤ i ∧ j ≤ m ∧ Yields (Request.answer s r) i w j

theorem Answers.widen {k' m' : Nat} (h : s.Answers r k m v) (hk : k' ≤ k) (hm : m ≤ m') :
    s.Answers r k' m' v := by
  obtain ⟨i, j, hi, hj, hv⟩ := h
  exact ⟨i, j, Nat.le_trans hk hi, Nat.le_trans hj hm, hv⟩

theorem answers_of_yields (h : Yields (Request.answer s r) k v m) : s.Answers r k m v :=
  ⟨k, m, Nat.le_refl k, Nat.le_refl m, h⟩

/-- How a value arises from what a request asks for. -/
inductive Arises (s : Scope) (r : Request) (k m : Nat) (v : Value) : Prop
  | given (h : v.IsGiven s.catalog)
  | answer {r' : Request} (hr : r' ∈ Request.asks s r) (h : s.Answers r' k m v)
  /-- It is put together from such values, and if it is an object, the request has made it. -/
  | whole (hmade : v.object?.isSome = true →
      ∃ name u c, s.Constructs r name u c ∧ v.IsMade u c k m)
    (hparts : ∀ w ∈ v.parts,
      w.IsGiven s.catalog ∨ ∃ r' ∈ Request.asks s r, s.Answers r' k m w)

/-- A request builds nothing. -/
def IsIdle (s : Scope) (r : Request) : Prop := ∀ name u c, ¬ s.Builds r name u c

/-- A request is answered with a value that arises from what it asks for; what it makes itself is
the value, and what is built for others is in it. -/
structure Serves (s : Scope) (r : Request) (k : Nat) (v : Value) (m : Nat) : Prop where
  arises : s.Arises r k m v
  made : ∀ name u c, s.Constructs r name u c → v.IsMade u c k m
  asked : ∀ r' ∈ Request.asks s r, s.IsIdle r' ∨ ∃ w, v.Contains w ∧ s.Answers r' k m w

theorem serves_given (hv : v.IsGiven s.catalog) (hasks : Request.asks s r = [])
    (hnone : ∀ name u c, ¬ s.Constructs r name u c) : s.Serves r k v m where
  arises := .given hv
  made name u c h := absurd h (hnone name u c)
  asked r' hr := by
    rw [hasks] at hr
    cases hr

/-- A request hands on the only thing that it asks for. -/
theorem serves_answer (r' : Request) (hv : Yields (Request.answer s r') k v m)
    (hasks : Request.asks s r = [r'])
    (hnone : ∀ name u c, ¬ s.Constructs r name u c) : s.Serves r k v m where
  arises := .answer (hasks ▸ List.mem_singleton_self r') (answers_of_yields hv)
  made name u c h := absurd h (hnone name u c)
  asked r'' hr := by
    rw [hasks] at hr
    obtain rfl := List.mem_singleton.1 hr
    exact .inr ⟨v, .self v, answers_of_yields hv⟩

/-! ## Texts -/

theorem isGiven_of_injected {parameter : String} (h : s.injected t parameter path = .ok v) :
    v.IsGiven s.catalog := by
  cases injected_inhabits h with
  | appConfiguration | formatProvider => exact Value.isGiven_of_atom rfl rfl
  | _ => cases h

theorem isGiven_of_omitted {ps : List Parameter} {p : Parameter} (hs : s.GivesDefaults ps)
    (hp : p ∈ ps) (h : s.omitted p path = .ok v) : v.IsGiven s.catalog := by
  rw [omitted] at h
  split at h
  · exact isGiven_of_injected h
  · cases h
    cases hd : p.default with
    | none => exact Value.isGiven_of_atom rfl rfl
    | some v => exact Value.isGiven_of_gives (hs p hp v hd)

theorem isGiven_of_primitive (h : s.primitive text path t = .ok v) : v.IsGiven s.catalog := by
  cases primitive_inhabits h with
  | present | callback | array | list | dictionary | sealedContainer | object => cases h
  | _ => exact Value.isGiven_of_atom rfl rfl

theorem isGiven_of_value {a : Accessor} (h : a.value s path t = .ok v) : v.IsGiven s.catalog := by
  rcases gives_of_value h with hv | ⟨name, signature, identity, body, rfl⟩
  · exact Value.isGiven_of_gives hv
  · exact Value.isGiven_of_atom rfl rfl

/-- An argument that is left out is given by the catalog. -/
theorem isGiven_of_leftOut {ps : List Parameter} {p : Parameter} {a : String × Value}
    (hs : s.GivesDefaults ps) (hp : p ∈ ps)
    (h : Yields (do return (p.name, ← s.omitted p path)) k a m) :
    k ≤ m ∧ a.2.IsGiven s.catalog := by
  obtain ⟨x, l, hx, hpure⟩ := yields_bind.1 h
  obtain ⟨homitted, rfl⟩ := yields_lift.1 hx
  obtain ⟨rfl, rfl⟩ := yields_pure.1 hpure
  exact ⟨Nat.le_refl _, isGiven_of_omitted hs hp homitted⟩

/-- A type that is constructed by its name has a constructor without given arguments. -/
theorem isMade_of_constructNamed {name : String} {declared : TypeSpec}
    (h : Yields (s.constructNamed name declared path) k v m) :
    ∃ u c, s.type name path = .ok u ∧ u.isAssignableTo declared.fullName = true ∧
      u.publicConstructors.find? Constructor.isDefault = some c ∧ v.IsMade u c k m ∧
      ∀ w ∈ v.parts, w.IsGiven s.catalog := by
  rw [constructNamed, yields_bind] at h
  obtain ⟨u, l, hu, h⟩ := h
  obtain ⟨htype, rfl⟩ := yields_lift.1 hu
  by_cases hassignable : u.isAssignableTo declared.fullName = true
  · rw [if_pos hassignable] at h
    cases hc : u.publicConstructors.find? Constructor.isDefault with
    | none =>
      rw [hc] at h
      exact absurd h yields_throw
    | some c =>
      rw [hc] at h
      obtain ⟨args, l', hargs, h⟩ := yields_bind.1 h
      obtain ⟨rfl, rfl⟩ := eq_of_construct h
      have hdefaults :=
        givesDefaults_of_mem (mem_types_of_type htype) (List.mem_of_find?_eq_some hc)
      obtain ⟨hle, hall⟩ := Threaded.widened (P := fun a _ _ => a.2.IsGiven s.catalog)
        (fun h _ _ => h) hargs.threaded fun p hp i a j ha => isGiven_of_leftOut hdefaults hp ha
      refine ⟨u, c, htype, hassignable, hc, ⟨l', args, rfl, hle, Nat.lt_succ_self _⟩, ?_⟩
      intro w hw
      obtain ⟨a, ha, rfl⟩ := List.mem_map.1 hw
      exact hall a ha
  · rw [if_neg hassignable] at h
    simp at h

/-- What it means that a text names a type to construct. -/
theorem constructs_scalar_iff {name : Naming} {u : TypeSpec} {c : Constructor} :
    s.Constructs (.scalar n text t) name u c ↔
      name = .text ∧ Accessor.read text = none ∧ (Text.trim text).isEmpty = false ∧
        (∃ target declared, t = .object target ∧ s.type target n.path = .ok declared ∧
          declared.isAbstract = true ∧ u.isAssignableTo declared.fullName = true) ∧
        s.type (Text.trim text) n.path = .ok u ∧
        u.publicConstructors.find? Constructor.isDefault = some c := by
  constructor
  · intro h
    generalize hr : Request.scalar n text t = r at h
    cases h with
    | text hread htext hdeclared habstract hu hassignable hc =>
      obtain ⟨rfl, rfl, rfl⟩ := Request.scalar.inj hr
      exact ⟨rfl, hread, htext, ⟨_, _, rfl, hdeclared, habstract, hassignable⟩, hu, hc⟩
    | object => cases hr
  · rintro ⟨rfl, hread, htext, ⟨target, declared, rfl, hdeclared, habstract, hassignable⟩, hu, hc⟩
    exact .text hread htext hdeclared habstract hu hassignable hc

/-- How a text that may be a name is answered. -/
inductive TextAnswers (s : Scope) (n : Node) (text : String) (t : TypeRef) (k m : Nat) (v : Value) :
    Prop
  | given (hv : v.IsGiven s.catalog)
    (hnone : ∀ name u c, ¬ s.Constructs (.scalar n text t) name u c)
  | made {u : TypeSpec} {c : Constructor} (hc : s.Constructs (.scalar n text t) .text u c)
    (hmade : v.IsMade u c k m) (hparts : ∀ w ∈ v.parts, w.IsGiven s.catalog)

theorem textAnswers_of_convertPlain (hread : Accessor.read text = none)
    (htext : (Text.trim text).isEmpty = false)
    (h : Yields (s.convertPlain text n.path t) k v m) : s.TextAnswers n text t k m v := by
  by_cases hobject : ∃ target, t = .object target
  · obtain ⟨target, rfl⟩ := hobject
    rw [convertPlain, yields_bind] at h
    obtain ⟨declared, l, hl, h⟩ := h
    obtain ⟨hdeclared, rfl⟩ := yields_lift.1 hl
    split at h
    · next habstract =>
      obtain ⟨u, c, hu, hassignable, hc, hmade, hparts⟩ := isMade_of_constructNamed h
      exact .made (.text hread htext hdeclared habstract hu hassignable hc) hmade hparts
    · next hconcrete =>
      refine .given (isGiven_of_primitive (yields_lift.1 h).1) fun name u c hc => ?_
      obtain ⟨-, -, -, ⟨target', declared', ht, hdeclared', habstract, -⟩, -⟩ :=
        constructs_scalar_iff.1 hc
      cases ht
      cases hdeclared.symm.trans hdeclared'
      exact hconcrete habstract
  · rw [convertPlain] at h
    · refine .given (isGiven_of_primitive (yields_lift.1 h).1) fun name u c hc => ?_
      obtain ⟨-, -, -, ⟨target, _, ht, -⟩, -⟩ := constructs_scalar_iff.1 hc
      exact hobject ⟨target, ht⟩
    · exact fun target ht => hobject ⟨target, ht⟩

theorem textAnswers_of_convertNamed (h : Yields (s.convertNamed text n.path t) k v m) :
    s.TextAnswers n text t k m v := by
  rw [convertNamed] at h
  split at h
  · next a ha =>
    refine .given (isGiven_of_value (yields_lift.1 h).1) fun name u c hc => ?_
    rw [(constructs_scalar_iff.1 hc).2.1] at ha
    cases ha
  · next hread =>
    split at h
    · next hblank =>
      refine .given (isGiven_of_primitive (yields_lift.1 h).1) fun name u c hc => ?_
      exact Bool.eq_false_iff.1 (constructs_scalar_iff.1 hc).2.2.1 hblank
    · next htext =>
      exact textAnswers_of_convertPlain hread (Bool.eq_false_iff.2 htext) h

/-- A request for a text runs one constructor at most. -/
theorem Constructs.text_unique {name name' : Naming} {u u' : TypeSpec} {c c' : Constructor}
    (h : s.Constructs (.scalar n text t) name u c)
    (h' : s.Constructs (.scalar n text t) name' u' c') : u' = u ∧ c' = c := by
  obtain ⟨-, -, -, -, hu, hc⟩ := constructs_scalar_iff.1 h
  obtain ⟨-, -, -, -, hu', hc'⟩ := constructs_scalar_iff.1 h'
  cases hu.symm.trans hu'
  cases hc.symm.trans hc'
  exact ⟨rfl, rfl⟩

/-- Nothing is built for an empty text. -/
theorem isIdle_of_isEmpty (htext : text.isEmpty = true) : s.IsIdle (.scalar n text t) := by
  intro name u c h
  generalize hr : Request.scalar n text t = r at h
  induction h generalizing t with
  | here h =>
    subst hr
    have hblank := (constructs_scalar_iff.1 h).2.2.1
    rw [String.isEmpty_iff.1 htext] at hblank
    cases hblank
  | asked hmem _ ih =>
    subst hr
    cases t with
    | nullable t => exact ih (List.mem_singleton.1 hmem).symm
    | _ => cases hmem

/-- Nothing is built for plain text. -/
theorem isIdle_of_isString (ht : t.isString = true) : s.IsIdle (.scalar n text t) := by
  intro name u c h
  obtain rfl : t = .string := by
    cases t <;> first | rfl | cases ht
  cases h with
  | here h =>
    obtain ⟨-, -, -, ⟨_, _, ht, -⟩, -⟩ := constructs_scalar_iff.1 h
    cases ht
  | asked hmem => cases hmem

theorem not_constructs_scalar (ht : ∀ target, t ≠ .object target) (name : Naming) (u : TypeSpec)
    (c : Constructor) : ¬ s.Constructs (.scalar n text t) name u c := by
  intro hc
  obtain ⟨-, -, -, ⟨target, _, rfl, -⟩, -⟩ := constructs_scalar_iff.1 hc
  exact ht target rfl

theorem asks_scalar (ht : ∀ inner, t ≠ .nullable inner) :
    Request.asks s (.scalar n text t) = [] := by
  cases t with
  | nullable inner => exact absurd rfl (ht inner)
  | _ => rfl

theorem serves_scalar (h : Yields (s.convertScalar n text t) k v m) :
    s.Serves (.scalar n text t) k v m := by
  fun_induction convertScalar s n text t with
  | case3 inner hempty =>
    obtain ⟨rfl, rfl⟩ := yields_pure.1 h
    have hnone := @not_constructs_scalar s n text (.nullable inner) (by simp)
    refine ⟨.given (Value.isGiven_of_atom rfl rfl), fun name u c hc => absurd hc (hnone name u c),
      fun r' hr => ?_⟩
    obtain rfl := List.mem_singleton.1 hr
    exact .inl (isIdle_of_isEmpty hempty)
  | case4 inner _ =>
    exact serves_answer (.scalar n text inner) h rfl (not_constructs_scalar (by simp))
  | case13 target _ _ hnullable =>
    cases textAnswers_of_convertNamed h with
    | given hgiven hnone => exact serves_given hgiven (asks_scalar hnullable) hnone
    | made hc hmade hparts =>
      refine ⟨.whole (fun _ => ⟨_, _, _, hc, hmade⟩) fun w hw => .inl (hparts w hw),
        fun name u' c' hc' => ?_, fun r' hr => ?_⟩
      · obtain ⟨rfl, rfl⟩ := hc.text_unique hc'
        exact hmade
      · rw [asks_scalar hnullable] at hr
        cases hr
  | case7 | case9 => exact absurd h yields_throw
  | case5 | case6 | case8 =>
    obtain ⟨rfl, rfl⟩ := yields_pure.1 h
    exact serves_given (Value.isGiven_of_atom rfl rfl) rfl (not_constructs_scalar (by simp))
  | case11 | case12 =>
    exact serves_given (isGiven_of_primitive (yields_lift.1 h).1) rfl
      (not_constructs_scalar (by simp))
  | case1 | case2 | case10 =>
    rw [yields_bind] at h
    obtain ⟨x, l, hx, h⟩ := h
    obtain ⟨-, rfl⟩ := yields_lift.1 hx
    obtain ⟨rfl, rfl⟩ := yields_pure.1 h
    exact serves_given (Value.isGiven_of_atom rfl rfl) rfl (not_constructs_scalar (by simp))

/-! ## Sections -/

theorem not_constructs_structured (ht : ∀ declared, t ≠ .object declared) (name : Naming)
    (u : TypeSpec) (c : Constructor) : ¬ s.Constructs (.structured n t) name u c := by
  intro hc
  generalize hr : Request.structured n t = r at hc
  cases hc with
  | text => cases hr
  | object => exact ht _ (Request.structured.inj hr).2

theorem not_constructs_convert (name : Naming) (u : TypeSpec) (c : Constructor) :
    ¬ s.Constructs (.convert n t) name u c := by
  intro hc
  generalize hr : Request.convert n t = r at hc
  cases hc <;> cases hr

/-- Going through the nodes below answers a request for each. -/
theorem forall₂_of_items {vs : List Value}
    (h : Yields (items n (fun c _ u => s.convert c u) t) k vs m) :
    List.Forall₂ (fun c v => s.Answers (.convert c t) k m v) n.children vs := by
  rw [← List.attach_map_subtype_val n.children]
  refine List.forall₂_map_left_iff.2 (h.threaded.within
    (P := fun (c : { c : Node // c ∈ n.children }) v i j => s.Answers (.convert c.1 t) i j v)
    (fun h hi hj => h.widen hi hj) ?_).2
  intro c _ i v j hv
  exact ⟨le_of_answer (r := .convert c.1 t) hv, answers_of_yields (r := .convert c.1 t) hv⟩

/-- The key of an entry is its text, or the answer to a request. -/
def KeyAnswers (s : Scope) (c : Node) (key : TypeRef) (k m : Nat) (v : Value) : Prop :=
  key.isString = true ∧ v.IsGiven s.catalog ∨ s.Answers (.scalar c c.key key) k m v

theorem keyAnswers_of_entryKey {c : Node} (h : Yields (s.entryKey c t) k v m) :
    k ≤ m ∧ s.KeyAnswers c t k m v := by
  rw [entryKey] at h
  split at h
  · next hstring =>
    obtain ⟨rfl, rfl⟩ := yields_pure.1 h
    exact ⟨Nat.le_refl m, .inl ⟨hstring, Value.isGiven_of_atom rfl rfl⟩⟩
  · exact ⟨le_of_answer (r := .scalar c c.key t) h,
      .inr (answers_of_yields (r := .scalar c c.key t) h)⟩

theorem forall₂_of_entries {u : TypeRef} {es : List (Value × Value)}
    (h : Yields (entries s n (fun c _ u => s.convert c u) t u) k es m) :
    List.Forall₂ (fun c e => s.KeyAnswers c t k m e.1 ∧ s.Answers (.convert c u) k m e.2)
      n.children es := by
  rw [← List.attach_map_subtype_val n.children]
  refine List.forall₂_map_left_iff.2 (h.threaded.within
    (P := fun c e i j => s.KeyAnswers c.1 t i j e.1 ∧ s.Answers (.convert c.1 u) i j e.2)
    (fun h hi hj => ?_) ?_).2
  · exact ⟨h.1.imp_right fun hkey => hkey.widen hi hj, h.2.widen hi hj⟩
  · intro c _ i e j he
    obtain ⟨key, l, hkey, he⟩ := yields_bind.1 he
    obtain ⟨x, l', hx, he⟩ := yields_bind.1 he
    obtain ⟨rfl, rfl⟩ := yields_pure.1 he
    obtain ⟨hlekey, hkey⟩ := keyAnswers_of_entryKey hkey
    have hle := le_of_answer (r := .convert c.1 u) hx
    refine ⟨Nat.le_trans hlekey hle, hkey.imp_right fun hkey => hkey.widen (Nat.le_refl i) hle, ?_⟩
    exact (answers_of_yields (r := .convert c.1 u) hx).widen hlekey (Nat.le_refl _)

/-- The items of a container are answers to requests for the nodes below. -/
theorem serves_items {items : List Value}
    (hparts : v.parts = items) (hobject : v.object? = none)
    (ht : ∀ declared, t ≠ .object declared) {element : TypeRef}
    (hasks : Request.asks s (.structured n t) = n.children.map fun c => .convert c element)
    (hall : List.Forall₂ (fun c v => s.Answers (.convert c element) k m v) n.children items) :
    s.Serves (.structured n t) k v m where
  arises := by
    refine .whole (fun h => by simp [hobject] at h) fun w hw => ?_
    obtain ⟨c, hc, hanswer⟩ := exists_of_forall₂ hall (hparts ▸ hw)
    exact .inr ⟨_, hasks ▸ List.mem_map_of_mem hc, hanswer⟩
  made name u c hc := absurd hc (not_constructs_structured ht name u c)
  asked r' hr := by
    rw [hasks] at hr
    obtain ⟨c, hc, rfl⟩ := List.mem_map.1 hr
    obtain ⟨w, hw, hanswer⟩ := exists_right_of_forall₂ hall hc
    exact .inr ⟨w, .of_mem (hparts ▸ hw), hanswer⟩

theorem serves_entries {name : String} {key value : TypeRef} {es : List (Value × Value)}
    (hall : List.Forall₂ (fun c e => s.KeyAnswers c key k m e.1 ∧
      s.Answers (.convert c value) k m e.2) n.children es) :
    s.Serves (.structured n (.dictionary name key value)) k (.map name es) m where
  arises := by
    refine .whole nofun fun w hw => ?_
    obtain ⟨e, he, hw⟩ := List.mem_flatMap.1 hw
    obtain ⟨c, hc, hkey, hvalue⟩ := exists_of_forall₂ hall he
    have hasks {r : Request} (hr : r ∈ [.scalar c c.key key, .convert c value]) :
        r ∈ Request.asks s (.structured n (.dictionary name key value)) :=
      List.mem_flatMap.2 ⟨c, hc, hr⟩
    rcases List.mem_cons.1 hw with rfl | hw
    · rcases hkey with ⟨-, hgiven⟩ | hanswer
      · exact .inl hgiven
      · exact .inr ⟨_, hasks (List.mem_cons_self ..), hanswer⟩
    · obtain rfl := List.mem_singleton.1 hw
      exact .inr ⟨_, hasks (List.mem_cons_of_mem _ (List.mem_singleton_self _)), hvalue⟩
  made name' u c hc := absurd hc
    (not_constructs_structured (t := .dictionary name key value) nofun name' u c)
  asked r' hr := by
    obtain ⟨c, hc, hr⟩ := List.mem_flatMap.1 hr
    obtain ⟨e, he, hkey, hvalue⟩ := exists_right_of_forall₂ hall hc
    have hin {w : Value} (hw : w ∈ [e.1, e.2]) : (Value.map name es).Contains w :=
      .of_mem (List.mem_flatMap.2 ⟨e, he, hw⟩)
    rcases List.mem_cons.1 hr with rfl | hr
    · rcases hkey with ⟨hstring, -⟩ | hanswer
      · exact .inl (isIdle_of_isString hstring)
      · exact .inr ⟨e.1, hin (List.mem_cons_self ..), hanswer⟩
    · obtain rfl := List.mem_singleton.1 hr
      exact .inr ⟨e.2, hin (List.mem_cons_of_mem _ (List.mem_singleton_self _)), hvalue⟩

/-- The argument of a parameter is the answer to a request for its field, or given. -/
def ArgumentAnswers (s : Scope) (b : Parameter × Option { c : Node // c ∈ n.children }) (v : Value)
    (k m : Nat) : Prop :=
  match b.2 with
  | some c => s.Answers (.convert c.1 b.1.type) k m v
  | none => v.IsGiven s.catalog

theorem ArgumentAnswers.widen {b : Parameter × Option { c : Node // c ∈ n.children }} {k' m' : Nat}
    (h : s.ArgumentAnswers b v k m) (hk : k' ≤ k) (hm : m ≤ m') : s.ArgumentAnswers b v k' m' := by
  obtain ⟨p, field⟩ := b
  cases field with
  | none => exact h
  | some c => exact Answers.widen h hk hm

theorem forall₂_of_arguments {bindings : List (Parameter × Option { c : Node // c ∈ n.children })}
    {args : Arguments} (hs : s.GivesDefaults (bindings.map (·.1)))
    (h : Yields (bindings.mapM fun b => argument s n (fun c _ u => s.convert c u) b) k args m) :
    k ≤ m ∧ List.Forall₂ (fun b a => s.ArgumentAnswers b a.2 k m) bindings args := by
  refine h.threaded.within (P := fun b (a : String × Value) i j => s.ArgumentAnswers b a.2 i j)
    (fun h hi hj => h.widen hi hj) ?_
  rintro ⟨p, field⟩ hb i a j ha
  cases field with
  | none =>
    exact isGiven_of_leftOut hs (List.mem_map_of_mem hb) ha
  | some c =>
    obtain ⟨x, l, hx, hpure⟩ := yields_bind.1 ha
    obtain ⟨rfl, rfl⟩ := yields_pure.1 hpure
    exact ⟨le_of_answer (r := .convert c.1 p.type) hx,
      answers_of_yields (r := .convert c.1 p.type) hx⟩

theorem constructs_structured_iff {declared : String} {name : Naming} {u : TypeSpec}
    {c : Constructor} :
    s.Constructs (.structured n (.object declared)) name u c ↔
      name = naming n ∧ s.objectType n declared = .ok u ∧
        ∃ fit, Constructor.select u.publicConstructors (fields n) = some fit ∧
          c = fit.constructor := by
  constructor
  · intro h
    generalize hr : Request.structured n (.object declared) = r at h
    cases h with
    | text => cases hr
    | object hu hfit =>
      obtain ⟨rfl, ht⟩ := Request.structured.inj hr
      cases ht
      exact ⟨rfl, hu, _, hfit, rfl⟩
  · rintro ⟨rfl, hu, fit, hfit, rfl⟩
    exact .object hu hfit

theorem asks_object {declared : String} {u : TypeSpec} {fit : Fit { c : Node // c ∈ n.children }}
    (hu : s.objectType n declared = .ok u)
    (hfit : Constructor.select u.publicConstructors (fields n) = some fit) :
    Request.asks s (.structured n (.object declared)) =
      fit.bindings.filterMap fun b => b.2.map fun c => .convert c.1 b.1.type := by
  rw [Request.asks, Request.asksOfObject, hu]
  dsimp only
  rw [hfit]

theorem serves_object {declared : String}
    (h : Yields (object s n (fun c _ u => s.convert c u) declared) k v m) :
    s.Serves (.structured n (.object declared)) k v m := by
  rw [object, yields_bind] at h
  obtain ⟨u, l, hl, h⟩ := h
  obtain ⟨hu, rfl⟩ := yields_lift.1 hl
  cases hfit : Constructor.select u.publicConstructors (fields n) with
  | none =>
    rw [hfit] at h
    exact absurd h yields_throw
  | some fit =>
    rw [hfit] at h
    obtain ⟨args, l', hargs, h⟩ := yields_bind.1 h
    obtain ⟨rfl, rfl⟩ := eq_of_construct h
    obtain ⟨hc, hbindings, -⟩ := select_spec hfit
    have hdefaults : s.GivesDefaults (fit.bindings.map (·.1)) := by
      rw [hbindings, List.map_map, Function.comp_def, List.map_id']
      exact givesDefaults_of_mem (mem_types_of_objectType hu) hc
    obtain ⟨hle, hall⟩ := forall₂_of_arguments hdefaults hargs
    have hmade : Value.IsMade u fit.constructor l (l' + 1)
        (.object u.fullName l' fit.constructor.label (some args)) :=
      ⟨l', args, rfl, hle, Nat.lt_succ_self l'⟩
    have hasks := asks_object hu hfit
    refine ⟨.whole (fun _ => ⟨_, u, _, .object hu hfit, hmade⟩) fun w hw => ?_,
      fun name u' c' hc' => ?_, fun r' hr => ?_⟩
    · obtain ⟨a, ha, rfl⟩ := List.mem_map.1 hw
      obtain ⟨⟨p, field⟩, hb, hanswer⟩ := exists_of_forall₂ hall ha
      cases field with
      | none => exact .inl hanswer
      | some c =>
        have hasked : .convert c.1 p.type ∈ Request.asks s (.structured n (.object declared)) := by
          rw [hasks]
          exact List.mem_filterMap.2 ⟨_, hb, rfl⟩
        exact .inr ⟨_, hasked, Answers.widen hanswer (Nat.le_refl l) (Nat.le_succ l')⟩
    · obtain ⟨-, hu', fit', hfit', rfl⟩ := constructs_structured_iff.1 hc'
      cases hu.symm.trans hu'
      cases hfit.symm.trans hfit'
      exact hmade
    · rw [hasks] at hr
      obtain ⟨⟨p, field⟩, hb, hr⟩ := List.mem_filterMap.1 hr
      obtain ⟨c, rfl, rfl⟩ := Option.map_eq_some_iff.1 hr
      obtain ⟨a, ha, hanswer⟩ := exists_right_of_forall₂ hall hb
      exact .inr ⟨a.2, .of_mem (List.mem_map_of_mem ha),
        Answers.widen hanswer (Nat.le_refl l) (Nat.le_succ l')⟩

theorem serves_structured (h : Yields (convertSection s n (fun c _ u => s.convert c u) t) k v m) :
    s.Serves (.structured n t) k v m := by
  cases t with
  | nullable inner =>
    exact serves_answer (.structured n inner) h rfl (not_constructs_structured nofun)
  | array element =>
    obtain ⟨vs, l, hvs, h⟩ := yields_bind.1 h
    obtain ⟨rfl, rfl⟩ := yields_pure.1 h
    exact serves_items rfl rfl nofun rfl (forall₂_of_items hvs)
  | list name element =>
    obtain ⟨vs, l, hvs, h⟩ := yields_bind.1 h
    obtain ⟨rfl, rfl⟩ := yields_pure.1 h
    exact serves_items rfl rfl nofun rfl (forall₂_of_items hvs)
  | dictionary name key value =>
    obtain ⟨es, l, hes, h⟩ := yields_bind.1 h
    obtain ⟨rfl, rfl⟩ := yields_pure.1 h
    exact serves_entries (forall₂_of_entries hes)
  | object declared => exact serves_object h
  | callback kind =>
    have hv : v.IsGiven s.catalog := by
      cases kind with
      | other name => exact absurd h yields_throw
      | _ =>
        obtain ⟨identity, l, -, h⟩ := yields_bind.1 h
        obtain ⟨rfl, -⟩ := yields_pure.1 h
        exact Value.isGiven_of_atom rfl rfl
    exact serves_given hv rfl (not_constructs_structured nofun)
  | node | sealedContainer name =>
    obtain ⟨rfl, rfl⟩ := yields_pure.1 h
    exact serves_given (Value.isGiven_of_atom rfl rfl) rfl (not_constructs_structured nofun)
  | _ => exact absurd h yields_throw

/-! ## Requests -/

theorem serves_convert (h : Yields (s.convert n t) k v m) : s.Serves (.convert n t) k v m := by
  rw [convert] at h
  split at h
  · next himplicit =>
    have hasks : Request.asks s (.convert n t) = [] := by rw [Request.asks, if_pos himplicit]
    exact serves_given (isGiven_of_injected (yields_lift.1 h).1) hasks not_constructs_convert
  · next himplicit =>
    obtain ⟨shape, l, hl, hv⟩ := yields_bind.1 h
    obtain ⟨hform, rfl⟩ := yields_lift.1 hl
    cases shape with
    | scalar text =>
      have hasks : Request.asks s (.convert n t) =
          [.scalar n (s.environment.expand text) t] := by
        rw [Request.asks, if_neg himplicit, hform]
      exact serves_answer (.scalar n (s.environment.expand text) t) hv hasks
        not_constructs_convert
    | structured =>
      have hasks : Request.asks s (.convert n t) = [.structured n t] := by
        rw [Request.asks, if_neg himplicit, hform]
      exact serves_answer (.structured n t) hv hasks not_constructs_convert

theorem serves_of_answer (h : Yields (Request.answer s r) k v m) : s.Serves r k v m := by
  cases r with
  | convert n t => exact serves_convert h
  | scalar n text t => exact serves_scalar h
  | structured n t => exact serves_structured h

end Scope

end LogBinder
