/-
  Log binder — conversions of places that are alike.

  Two places are alike if the same keys lead to them and the same tree stands
  there, whatever else their trees hold.  Conversions see no more of a place
  than that, and no more of the injected configuration than that there is
  one.  So conversions of places that are alike end alike: with the same
  error, or with values that differ at most in the identities of what was
  made for them, and refer to places that are alike.

  * `Node.Like`, `Value.Like`, `Call.Like` : what is alike;
  * `Scope.agree_convert` : conversions of places that are alike;
  * `Call.agree_bind` : calls for directives that are alike.
-/
import LogBinder.Binding.Plan
import LogBinder.Proofs.Binding.Agreement
import LogBinder.Proofs.Binding.Soundness

namespace LogBinder

/-! ## Places -/

/-- The same keys lead to two places, and the same tree stands there. -/
structure Node.Like (n n' : Node) : Prop where
  segments : n.segments = n'.segments
  located : n.located = n'.located

namespace Node

variable {n n' : Node}

theorem Like.refl (n : Node) : n.Like n := ⟨rfl, rfl⟩

theorem Like.path_eq (h : n.Like n') : n.path = n'.path := by rw [path, path, h.segments]

theorem Like.key_eq (h : n.Like n') : n.key = n'.key := by rw [key, key, h.segments, h.located]

theorem Like.value_eq (h : n.Like n') : n.value = n'.value := by rw [value, value, h.located]

theorem Like.isPresent_eq (h : n.Like n') : n.isPresent = n'.isPresent := by
  rw [isPresent, isPresent, h.located]

theorem Like.subtrees_eq (h : n.Like n') : n.subtrees = n'.subtrees := by
  rw [subtrees, subtrees, h.located]

theorem Like.form_eq (h : n.Like n') : n.form = n'.form := by
  rw [form, form, shape, shape, hasChildren, hasChildren, h.value_eq, h.subtrees_eq, h.path_eq]

theorem Like.below (h : n.Like n') (key : String) : (n.below key).Like (n'.below key) where
  segments := by rw [Node.below, Node.below, h.segments]
  located := by rw [located_below, located_below, h.located]

theorem Like.child (h : n.Like n') (path : String) : (n.child path).Like (n'.child path) where
  segments := by rw [Node.child, Node.child, h.segments]
  located := by
    have hlocated := h.located
    rw [Node.located, Node.located] at hlocated
    rw [Node.located, Node.located, Node.child, Node.child, Tree.descend_append,
      Tree.descend_append, hlocated]

theorem Like.children (h : n.Like n') : List.Forall₂ Like n.children n'.children := by
  rw [Node.children, Node.children, h.subtrees_eq, List.forall₂_map_left_iff,
    List.forall₂_map_right_iff, List.forall₂_same]
  exact fun t _ => h.below t.key

theorem Like.children_attach (h : n.Like n') :
    List.Forall₂ (fun (c : { c // c ∈ n.children }) (c' : { c // c ∈ n'.children }) =>
      c.1.Like c'.1) n.children.attach n'.children.attach := by
  have hchildren := h.children
  rwa [← List.attach_map_subtype_val n.children, ← List.attach_map_subtype_val n'.children,
    List.forall₂_map_left_iff, List.forall₂_map_right_iff] at hchildren

end Node

/-! ## Values -/

/-- Two values differ at most in the identities of what was made for them, and in places that are
related. -/
inductive Value.Like (N : Node → Node → Prop) : Value → Value → Prop
  | refl (v : Value) : Like N v v
  | node {n n' : Node} (h : N n n') : Like N (.node n) (.node n')
  | callback {kind : CallbackKind} {path : String} {identity identity' : Nat} {n n' : Node}
      (h : N n n') :
      Like N (.callback kind path (.configures identity n))
        (.callback kind path (.configures identity' n'))
  | array {vs ws : List Value} (h : List.Forall₂ (Like N) vs ws) : Like N (.array vs) (.array ws)
  | sequence {name : String} {vs ws : List Value} (h : List.Forall₂ (Like N) vs ws) :
      Like N (.sequence name vs) (.sequence name ws)
  | map {name : String} {es es' : List (Value × Value)}
      (hkeys : List.Forall₂ (Like N) (es.map (·.1)) (es'.map (·.1)))
      (hvalues : List.Forall₂ (Like N) (es.map (·.2)) (es'.map (·.2))) :
      Like N (.map name es) (.map name es')
  | object {type label : String} {identity identity' : Nat} {args args' : Arguments}
      (hnames : args.map (·.1) = args'.map (·.1))
      (hvalues : List.Forall₂ (Like N) (args.map (·.2)) (args'.map (·.2))) :
      Like N (.object type identity label (some args)) (.object type identity' label (some args'))

variable {N : Node → Node → Prop}

theorem Value.Like.string?_eq {v w : Value} (h : v.Like N w) : v.string? = w.string? := by
  cases h <;> rfl

theorem Value.Like.level?_eq {v w : Value} (h : v.Like N w) : v.level? = w.level? := by
  cases h <;> rfl

/-- Arguments have the same names and values that are alike. -/
def Arguments.Like (N : Node → Node → Prop) (args args' : Arguments) : Prop :=
  Paired (Value.Like N) args args'

namespace Arguments

variable {args args' : Arguments}

theorem Like.require (h : args.Like N args') (name : String) :
    Except.Agree (Value.Like N) (args.require name) (args'.require name) := by
  have hget : Option.Rel (Value.Like N) (args.get? name) (args'.get? name) := Paired.lookup h name
  rw [Arguments.require, Arguments.require]
  generalize args.get? name = o, args'.get? name = o' at hget
  cases hget with
  | some hv => exact .ok hv
  | none => exact .error _

theorem Like.string_agree (h : args.Like N args') (name : String) :
    Except.Agree Eq (args.string name) (args'.string name) := by
  refine (h.require name).bind fun v w hvw => ?_
  rw [hvw.string?_eq]
  exact .refl (fun _ => rfl) _

theorem Like.level_agree (h : args.Like N args') (name : String) :
    Except.Agree Eq (args.level name) (args'.level name) := by
  refine (h.require name).bind fun v w hvw => ?_
  rw [hvw.level?_eq]
  exact .refl (fun _ => rfl) _

end Arguments

theorem Demand.check_eq {args args' : Arguments} (h : args.Like N args') :
    Demand.check args = Demand.check args' := by
  funext d
  cases d with
  | string name => exact (h.string_agree name).map_eq ()
  | level name => exact (h.level_agree name).map_eq ()
  | present name => exact (h.require name).map_eq ()

/-- Constructors make objects that are alike from arguments that are alike. -/
theorem Constructor.agree_construct {args args' : Arguments} (h : args.Like N args')
    (c : Constructor) (type : String) (identity identity' : Nat) :
    Except.Agree (Value.Like N) (c.construct type identity args)
      (c.construct type identity' args') := by
  rw [construct, construct, Demand.check_eq h]
  refine .bind_same _ fun _ => ?_
  cases c.failure with
  | some reason => exact .error _
  | none => exact .ok (.object (Paired.names_eq h) (Paired.items h))

/-! ## Fields -/

namespace Constructor

variable {φ φ' : Type} {R : φ → φ' → Prop}

theorem field?_rel {fs : List (String × φ)} {fs' : List (String × φ')} (h : Paired R fs fs')
    (p : Parameter) : Option.Rel R (field? fs p) (field? fs' p) :=
  h.find? fun key => Text.alike key p.name

theorem isSome_eq_of_rel {o : Option φ} {o' : Option φ'} (h : Option.Rel R o o') :
    o.isSome = o'.isSome := by
  cases h <;> rfl

/-- Fits of the same constructor, with related fields. -/
structure FitsLike (R : φ → φ' → Prop) (f : Fit φ) (f' : Fit φ') : Prop where
  constructor : f.constructor = f'.constructor
  bindings : List.Forall₂ (fun b b' => b.1 = b'.1 ∧ Option.Rel R b.2 b'.2) f.bindings f'.bindings

theorem FitsLike.rank_eq {f : Fit φ} {f' : Fit φ'} (h : FitsLike R f f') : f.rank = f'.rank := by
  have hbound : (f.bindings.filter fun b => b.2.isSome).map (·.1) =
      (f'.bindings.filter fun b => b.2.isSome).map (·.1) := by
    rw [← List.forall₂_eq_eq_eq, List.forall₂_map_left_iff, List.forall₂_map_right_iff]
    refine (List.rel_filter (fun b b' hb => ?_) h.bindings).imp fun b b' hb => hb.1
    exact Bool.eq_iff_iff.1 (isSome_eq_of_rel hb.2)
  rw [Fit.rank, Fit.rank, hbound]

theorem fit?_rel {fs : List (String × φ)} {fs' : List (String × φ')} (h : Paired R fs fs')
    (c : Constructor) : Option.Rel (FitsLike R) (fit? fs c) (fit? fs' c) := by
  have hsome : ∀ p, (field? fs p).isSome = (field? fs' p).isSome := fun p =>
    isSome_eq_of_rel (field?_rel h p)
  simp only [fit?, hsome]
  split
  · refine .some ⟨rfl, ?_⟩
    rw [List.forall₂_map_left_iff, List.forall₂_map_right_iff, List.forall₂_same]
    exact fun p _ => ⟨rfl, field?_rel h p⟩
  · exact .none

/-- The same constructor is selected for related fields. -/
theorem select_rel {fs : List (String × φ)} {fs' : List (String × φ')} (h : Paired R fs fs')
    (cs : List Constructor) : Option.Rel (FitsLike R) (select cs fs) (select cs fs') := by
  refine best_rel ?_ fun _ _ => FitsLike.rank_eq
  have hsame : List.Forall₂ Eq cs cs := List.forall₂_refl cs
  refine List.rel_filterMap (fun c c' hc => ?_) hsame
  obtain rfl : c = c' := hc
  exact fit?_rel h c

end Constructor

/-! ## Conversions -/

namespace Scope

open Fresh

/-- A scope with another injected configuration. -/
def injecting (s : Scope) (a : Option Node) : Scope := { s with application := a }

variable {s : Scope} {a : Option Node}

@[simp] theorem catalog_injecting : (s.injecting a).catalog = s.catalog := rfl

@[simp] theorem options_injecting : (s.injecting a).options = s.options := rfl

@[simp] theorem environment_injecting : (s.injecting a).environment = s.environment := rfl

@[simp] theorem registry_injecting : (s.injecting a).registry = s.registry := rfl

@[simp] theorem type_injecting (name path : String) :
    (s.injecting a).type name path = s.type name path := by
  simp only [type, catalog_injecting, options_injecting]

@[simp] theorem primitive_injecting (text path : String) (t : TypeRef) :
    (s.injecting a).primitive text path t = s.primitive text path t := by
  simp only [primitive, options_injecting]

theorem ensureAssignable_injecting (v : Value) (path : String) (t : TypeRef) :
    Accessor.ensureAssignable (s.injecting a) v path t = Accessor.ensureAssignable s v path t := by
  unfold Accessor.ensureAssignable Accessor.isAssignable
  simp only [type_injecting]

@[simp] theorem value_injecting (r : Accessor) (path : String) (t : TypeRef) :
    r.value (s.injecting a) path t = r.value s path t := by
  simp only [Accessor.value, type_injecting, ensureAssignable_injecting]

section Scalars

variable (ha : Option.Rel N s.application a)
include ha

theorem agree_injected (t : TypeRef) (parameter path : String) :
    Except.Agree (Value.Like N) (s.injected t parameter path)
      ((s.injecting a).injected t parameter path) := by
  cases t with
  | appConfiguration =>
    obtain ⟨catalog, options, selection, environment, registry, application⟩ := s
    cases ha with
    | some h => exact .ok (.node h)
    | none => exact .error _
  | _ => exact .refl Value.Like.refl _

theorem agree_omitted (p : Parameter) (path : String) :
    Except.Agree (Value.Like N) (s.omitted p path) ((s.injecting a).omitted p path) := by
  rw [omitted, omitted]
  split
  · exact agree_injected ha ..
  · exact .ok (.refl _)

omit ha in
theorem agree_construct {args args' : Arguments} (h : args.Like N args') (t : TypeSpec)
    (c : Constructor) (path : String) :
    Agree (Value.Like N) (construct t c args path) (construct t c args' path) := by
  refine agree_bind agree_identity fun identity identity' _ => ?_
  have hmade := c.agree_construct h t.fullName identity identity'
  generalize c.construct t.fullName identity args = made,
    c.construct t.fullName identity' args' = made' at hmade
  cases hmade with
  | ok h => exact agree_pure h
  | error e => exact agree_throw _

theorem agree_constructNamed (name : String) (declared : TypeSpec) (path : String) :
    Agree (Value.Like N) (s.constructNamed name declared path)
      ((s.injecting a).constructNamed name declared path) := by
  unfold constructNamed
  rw [type_injecting]
  refine agree_bind_lift _ fun t => ?_
  dsimp only
  by_cases hassignable : t.isAssignableTo declared.fullName = true
  · rw [if_pos hassignable, if_pos hassignable]
    cases t.publicConstructors.find? Constructor.isDefault with
    | none => exact agree_throw _
    | some c =>
      refine agree_bind (R := Arguments.Like N) ?_ fun args args' hargs =>
        agree_construct hargs t c path
      refine agree_mapM (R := Eq) (List.forall₂_refl _) fun p p' hp => ?_
      obtain rfl := hp
      exact agree_bind (agree_lift (agree_omitted ha p path)) fun v w hvw =>
        agree_pure ⟨rfl, hvw⟩
  · rw [if_neg hassignable, if_neg hassignable]
    exact agree_bind (R := fun _ _ => False) (agree_throw _) nofun

theorem agree_convertNamed (text path : String) (t : TypeRef) :
    Agree (Value.Like N) (s.convertNamed text path t)
      ((s.injecting a).convertNamed text path t) := by
  have hsame : ∀ x : Except ResolveError Value, Agree (Value.Like N) (liftM x) (liftM x) :=
    fun x => agree_lift (.refl Value.Like.refl x)
  rw [convertNamed, convertNamed]
  cases Accessor.read text with
  | some r =>
    dsimp only
    rw [value_injecting]
    exact hsame _
  | none =>
    dsimp only
    rw [primitive_injecting]
    split
    · exact hsame _
    · unfold convertPlain
      simp only [type_injecting, primitive_injecting]
      split
      · refine agree_bind_lift _ fun declared => ?_
        split
        · exact agree_constructNamed ha _ declared path
        · exact hsame _
      · exact hsame _

theorem agree_convertScalar (hN : ∀ c c', c.Like c' → N c c') {n n' : Node} (h : n.Like n')
    (text : String) (t : TypeRef) :
    Agree (Value.Like N) (s.convertScalar n text t)
      ((s.injecting a).convertScalar n' text t) := by
  have hpure : ∀ v : Value, Agree (Value.Like N) (pure v) (pure v) := fun v => agree_pure (.refl v)
  fun_induction convertScalar s n text t with
  | case1 | case2 | case10 =>
    simp only [convertScalar, h.path_eq, registry_injecting, type_injecting]
    exact agree_bind_lift _ fun c => hpure _
  | case3 inner hempty =>
    rw [convertScalar, if_pos hempty]
    exact hpure _
  | case4 inner hempty ih =>
    rw [convertScalar, if_neg hempty]
    exact ih
  | case5 => exact agree_pure (.node (hN n n' h))
  | case6 _ hread | case8 _ _ _ hread =>
    simp only [convertScalar, hread]
    exact hpure _
  | case7 hread | case9 _ hread =>
    simp only [convertScalar, hread, h.path_eq]
    exact agree_throw _
  | case11 | case12 =>
    rw [convertScalar, primitive_injecting, h.path_eq]
    exact agree_lift (.refl Value.Like.refl _)
  | case13 t =>
    rw [convertScalar, h.path_eq]
    · exact agree_convertNamed ha text _ t
    all_goals assumption

end Scalars

/-! ## Sections -/

theorem objectType_eq {n n' : Node} (htype : (n.child typeKey).Like (n'.child typeKey))
    (hpath : n.path = n'.path) (declared : String) :
    s.objectType n declared = (s.injecting a).objectType n' declared := by
  have hnamed : s.namedType (n.child typeKey) =
      (s.injecting a).namedType (n'.child typeKey) := by
    simp only [namedType, htype.form_eq, htype.path_eq, environment_injecting, type_injecting]
  rw [objectType, objectType, hnamed, htype.isPresent_eq, hpath, type_injecting]

section Sections

variable (ha : Option.Rel N s.application a) (hN : ∀ c c', c.Like c' → N c c') {n n' : Node}
  (h : n.Like n') {below : (c : Node) → c ∈ n.children → TypeRef → Fresh Value}
  {below' : (c : Node) → c ∈ n'.children → TypeRef → Fresh Value}
  (hb : ∀ c hc c' hc' t, c.Like c' → Agree (Value.Like N) (below c hc t) (below' c' hc' t))
include h hb

theorem agree_items (t : TypeRef) :
    Agree (List.Forall₂ (Value.Like N)) (items n below t) (items n' below' t) :=
  agree_mapM h.children_attach fun c c' hc => hb c.1 c.2 c'.1 c'.2 t hc

include ha hN

theorem agree_entries (t u : TypeRef) :
    Agree (List.Forall₂ fun e e' => e.1.Like N e'.1 ∧ e.2.Like N e'.2)
      (entries s n below t u) (entries (s.injecting a) n' below' t u) := by
  refine agree_mapM h.children_attach fun c c' hc => ?_
  have hkey : Agree (Value.Like N) (s.entryKey c.1 t) ((s.injecting a).entryKey c'.1 t) := by
    rw [entryKey, entryKey, hc.key_eq]
    split
    · exact agree_pure (.refl _)
    · exact agree_convertScalar ha hN hc _ t
  exact agree_bind hkey fun k k' hk => agree_bind (hb c.1 c.2 c'.1 c'.2 u hc) fun v v' hv =>
    agree_pure ⟨hk, hv⟩

omit ha hN hb in
theorem fields_paired : Paired (fun c c' => c.1.Like c'.1) (fields n) (fields n') := by
  rw [fields, fields, Paired, List.forall₂_map_left_iff, List.forall₂_map_right_iff]
  refine (List.rel_filter (fun c c' hc => ?_) h.children_attach).imp fun c c' hc =>
    ⟨hc.key_eq, hc⟩
  simp only [hc.key_eq]

omit hN in
theorem agree_object (declared : String) :
    Agree (Value.Like N) (object s n below declared)
      (object (s.injecting a) n' below' declared) := by
  have hfields := fields_paired h
  rw [object, object, objectType_eq (h.child typeKey) h.path_eq, hfields.names_eq, h.path_eq]
  refine agree_bind_lift _ fun t => ?_
  have hfit := Constructor.select_rel hfields t.publicConstructors
  generalize Constructor.select t.publicConstructors (fields n) = fit,
    Constructor.select t.publicConstructors (fields n') = fit' at hfit
  cases hfit with
  | none => exact agree_throw _
  | @some fit fit' hfit =>
    dsimp only
    rw [hfit.constructor]
    refine agree_bind (R := Arguments.Like N) ?_ fun args args' hargs =>
      agree_construct hargs t _ _
    refine agree_mapM hfit.bindings fun b b' hbinding => ?_
    obtain ⟨p, c⟩ := b
    obtain ⟨p', c'⟩ := b'
    obtain ⟨rfl, hc⟩ := hbinding
    cases hc with
    | some hc => exact agree_bind (hb _ _ _ _ _ hc) fun v v' hv => agree_pure ⟨rfl, hv⟩
    | none =>
      refine agree_bind (agree_lift ?_) fun v v' hv => agree_pure ⟨rfl, hv⟩
      rw [h.path_eq]
      exact agree_omitted ha p _

theorem agree_convertSection (t : TypeRef) :
    Agree (Value.Like N) (convertSection s n below t)
      (convertSection (s.injecting a) n' below' t) := by
  fun_induction convertSection s n below t with
  | case1 => exact agree_pure (.node (hN n n' h))
  | case2 inner ih => exact ih
  | case3 kind =>
    rw [convertSection]
    unfold callback
    rw [h.path_eq]
    cases kind with
    | other name => exact agree_throw _
    | _ => exact agree_bind agree_identity fun _ _ _ => agree_pure (.callback (hN n n' h))
  | case4 t => exact agree_bind (agree_items h hb t) fun vs ws hvs => agree_pure (.array hvs)
  | case5 name t =>
    exact agree_bind (agree_items h hb t) fun vs ws hvs => agree_pure (.sequence hvs)
  | case6 name t u =>
    refine agree_bind (agree_entries ha hN h hb t u) fun es es' hes => agree_pure (.map ?_ ?_)
    · rw [List.forall₂_map_left_iff, List.forall₂_map_right_iff]
      exact hes.imp fun e e' he => he.1
    · rw [List.forall₂_map_left_iff, List.forall₂_map_right_iff]
      exact hes.imp fun e e' he => he.2
  | case7 => exact agree_pure (.refl _)
  | case8 name => exact agree_object ha h hb name
  | case9 t =>
    rw [convertSection, h.path_eq]
    · exact agree_throw _
    all_goals assumption

end Sections

/-- **Conversions of places that are alike end alike**, whatever configuration is injected. -/
theorem agree_convert (ha : Option.Rel N s.application a) (hN : ∀ c c', c.Like c' → N c c')
    {n n' : Node} (h : n.Like n') (t : TypeRef) :
    Agree (Value.Like N) (s.convert n t) ((s.injecting a).convert n' t) := by
  induction hh : n.height using Nat.strongRecOn generalizing n n' t with
  | ind height ih =>
    rw [convert, convert, h.key_eq, h.path_eq, h.form_eq, environment_injecting]
    split
    · exact agree_lift (agree_injected ha ..)
    · refine agree_bind_lift _ fun shape => ?_
      cases shape with
      | scalar text => exact agree_convertScalar ha hN h _ t
      | structured =>
        refine agree_convertSection ha hN h (fun c hc c' hc' u hlike => ?_) t
        exact ih c.height (hh ▸ Node.height_lt_of_mem_children hc) hlike u rfl

end Scope

/-! ## Directives -/

/-- Two directives have the same name, path and names of arguments, at places that are alike. -/
structure Directive.Like (d d' : Directive) : Prop where
  name : d.name = d'.name
  path : d.path = d'.path
  arguments : Paired Node.Like d.arguments d'.arguments

namespace Directive

variable {d d' : Directive} {n n' : Node}

theorem Like.supplied_eq (h : d.Like d') : d.supplied = d'.supplied := by
  exact h.arguments.names_eq

theorem nameOf_eq (h : n.Like n') : nameOf n = nameOf n' := by
  rw [nameOf, nameOf, (h.child nameKey).form_eq, h.path_eq]

theorem agree_argumentsOf (h : n.Like n') :
    Except.Agree (Paired Node.Like) (argumentsOf n) (argumentsOf n') := by
  have hargs := h.child argumentsKey
  unfold argumentsOf
  dsimp only
  rw [hargs.isPresent_eq]
  split
  · rw [hargs.form_eq, hargs.path_eq]
    refine .bind_same _ fun shape => ?_
    cases shape with
    | scalar text => exact .error _
    | structured =>
      refine .ok ?_
      rw [Paired, List.forall₂_map_left_iff, List.forall₂_map_right_iff]
      exact hargs.children.imp fun c c' hc => ⟨hc.key_eq, hc⟩
  · exact .ok .nil

/-- Entries that are alike hold directives that are alike, or are malformed alike. -/
theorem agree_ofNode (h : n.Like n') : Except.Agree Like (ofNode n) (ofNode n') := by
  rw [ofNode, ofNode, h.form_eq, nameOf_eq h, h.path_eq]
  refine .bind_same _ fun shape => ?_
  cases shape with
  | scalar text => exact .ok ⟨rfl, rfl, .nil⟩
  | structured =>
    refine .bind_same _ fun name => ?_
    exact (agree_argumentsOf h).bind fun args args' hargs => .ok ⟨rfl, rfl, hargs⟩

end Directive

/-! ## Calls -/

/-- Two calls of the same method have arguments that are alike. -/
structure Call.Like (N : Node → Node → Prop) (c c' : Call) : Prop where
  method : c.method = c'.method
  arguments : c.arguments.Like N c'.arguments

open Fresh in
/-- **Calls for directives that are alike** are alike, or fail alike. -/
theorem Call.agree_bind {s : Scope} {a : Option Node} (ha : Option.Rel N s.application a)
    (hN : ∀ c c', c.Like c' → N c c') {d d' : Directive} (h : d.Like d') (m : Method) :
    Agree (Call.Like N) (Call.bind s d m) (Call.bind (s.injecting a) d' m) := by
  refine Fresh.agree_bind (R := Arguments.Like N) ?_ fun args args' hargs =>
    agree_pure ⟨rfl, hargs⟩
  refine agree_mapM (R := Eq) (List.forall₂_refl _) fun p p' hp => ?_
  obtain rfl := hp
  have hargument : Option.Rel Node.Like (d.argument? p.name) (d'.argument? p.name) :=
    h.arguments.lookup p.name
  unfold Call.argument
  generalize d.argument? p.name = o, d'.argument? p.name = o' at hargument
  cases hargument with
  | some hn =>
    exact Fresh.agree_bind (Scope.agree_convert ha hN hn p.type) fun v w hvw =>
      agree_pure ⟨rfl, hvw⟩
  | none =>
    rw [h.path]
    exact Fresh.agree_bind (agree_lift (Scope.agree_omitted ha p _)) fun v w hvw =>
      agree_pure ⟨rfl, hvw⟩

end LogBinder
