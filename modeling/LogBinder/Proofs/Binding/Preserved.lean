/-
  Log binder — what conversions keep.

  A conversion takes values from the catalog, refers to places, and puts
  values together; it fails at the place that it converts, at the entry
  there that names a type, or below.  So a property of values that holds of
  what is taken and passes from parts to the whole holds of all that is
  converted, and a property of errors that holds of those at a place and
  passes up holds of all that conversions fail with.

  * `ResolveError.path?` : the path that an error carries;
  * `Value.parts`, `Value.place?`, `Value.switch?` : what a value is put
    together from, the place that it refers to itself, and the switch that it
    is;
  * `Scope.Keeps` : what is asked of such properties, and
    `Scope.Keeps.ends_convert` what follows for conversions;
  * `Scope.Keeps.ends_arguments`, `Scope.Keeps.ends_bindCall` : the same for
    calls.
-/
import LogBinder.Proofs.Binding.Endings
import LogBinder.Proofs.Binding.Origins

namespace LogBinder

open Ending Fresh

/-! ## Paths of errors -/

/-- The path of the place where an error arose, if it arose at a place. -/
def ResolveError.path? : ResolveError → Option String
  | missingName path | ambiguousShape path | scalarArguments path | ambiguousType _ path
  | undeclaredSwitch _ _ path | invalidSwitchName _ _ path | invalidLevel _ path
  | invalidFilter _ path _ | typeNotFound _ path | memberNotFound _ _ path
  | noDefaultConstructor _ path | noMatchingConstructor _ _ path | incompatibleType _ _ path
  | unsupportedCallback _ path | notMember _ _ path | conversion _ _ path _
  | emptyPackageName path | missingConfiguration _ path | plugin path _ => some path
  | packageNotFound _ | missingComponent _ | rejected _ _ | nested _ _ => none

/-! ## Parts of values -/

namespace Value

/-- What a value is put together from. -/
def parts : Value → List Value
  | array items | sequence _ items => items
  | map _ entries => entries.flatMap fun e => [e.1, e.2]
  | object _ _ _ (some args) => args.map (·.2)
  | _ => []

/-- The place that a value refers to itself. -/
def place? : Value → Option Node
  | node n => some n
  | callback _ _ (.configures _ n) => some n
  | _ => none

/-- The switch with a cell. -/
def ofSwitch : SwitchKind → Nat → Value
  | .level, cell => levelSwitch cell
  | .filter, cell => filterSwitch cell

/-- The switch that a value is. -/
def switch? : Value → Option (SwitchKind × Nat)
  | levelSwitch cell => some (.level, cell)
  | filterSwitch cell => some (.filter, cell)
  | _ => none

end Value

/-- A property of values that holds of what a conversion takes from elsewhere, and one of errors
that holds of those at a path. -/
structure Scope.Takes (s : Scope) (path : String) (P : Value → Prop) (Q : ResolveError → Prop) :
    Prop where
  given : ∀ v, s.catalog.Gives v → P v
  injected : ∀ n, s.application = some n → P (.node n)
  /-- So has every value that refers to no place itself and is no switch, if its parts have it. -/
  whole : ∀ v, v.place? = none → v.switch? = none → (∀ w ∈ v.parts, P w) → P v
  fails : ∀ e, e.path? = some path → Q e

/-- Properties of values and errors, for every node, that conversions keep. -/
structure Scope.Keeps (s : Scope) (P : Node → Value → Prop) (Q : Node → ResolveError → Prop) :
    Prop where
  takes : ∀ n, s.Takes n.path (P n) (Q n)
  own : ∀ n v, v.place? = some n → P n v
  refers : ∀ n text, n.form = .ok (.scalar text) → ∀ kind cell,
    s.registry.cell? kind (SwitchName.canonical (s.environment.expand text)) = some cell →
      P n (.ofSwitch kind cell)
  refersKey : ∀ n, ∀ c ∈ n.children, ∀ kind cell,
    s.registry.cell? kind (SwitchName.canonical c.key) = some cell → P n (.ofSwitch kind cell)
  below : ∀ n, ∀ c ∈ n.children, ∀ v, P c v → P n v
  failsBelow : ∀ n, ∀ c ∈ n.children, ∀ e, Q c e → Q n e
  failsType : ∀ n, (n.child Scope.typeKey).isPresent = true → ∀ e,
    e.path? = some (n.child Scope.typeKey).path → Q n e

/-- A place where a scalar and keys stand is an error there, so it exists. -/
theorem Node.ends_form (n : Node) {Q : ResolveError → Prop}
    (hq : n.isPresent = true → ∀ e, e.path? = some n.path → Q e) :
    Ends n.form (fun shape => n.form = .ok shape) Q := by
  refine ⟨fun _ => id, ?_⟩
  intro e he
  rw [form, shape] at he
  split at he
  · next text htext =>
    split at he
    · cases he
      refine hq ?_ _ rfl
      rw [value, Option.bind_eq_some_iff] at htext
      obtain ⟨t, ht, -⟩ := htext
      rw [isPresent, ht]
      rfl
    · cases he
  · cases he

namespace Scope

variable {s : Scope}

/-! ## What is taken from elsewhere -/

section

variable {path : String} {Q : ResolveError → Prop} (hq : ∀ e, e.path? = some path → Q e)
include hq

theorem ends_type (name : String) : Ends (s.type name path) (fun u => u ∈ s.types) Q := by
  refine ⟨fun u => mem_types_of_type, ?_⟩
  intro e he
  rw [type] at he
  split at he
  · cases he
  · cases he
    exact hq _ rfl

theorem ends_cell (r : Registry) (kind : SwitchKind) (reference : String) :
    Ends (r.cell kind reference path)
      (fun cell => r.cell? kind (SwitchName.canonical reference) = some cell) Q := by
  unfold Registry.cell
  split
  · next cell hcell => exact ends_ok hcell
  · exact ends_error (hq _ rfl)

theorem ends_ensureAssignable (v : Value) (t : TypeRef) :
    Ends (Accessor.ensureAssignable s v path t) (fun _ => True) Q := by
  unfold Accessor.ensureAssignable
  split
  · split
    · exact ends_ok trivial
    · exact ends_error (hq _ rfl)
  · exact ends_ok trivial

end

theorem ends_namedType {d : Node} {Q : ResolveError → Prop}
    (hq : ∀ e, e.path? = some d.path → Q e) :
    Ends (s.namedType d) (fun u => u ∈ s.types) Q := by
  refine ends_bind (d.ends_form fun _ => hq) ?_
  intro shape _
  cases shape with
  | scalar name => exact ends_type hq _
  | structured => exact ends_error (hq _ rfl)

namespace Takes

variable {path : String} {P : Value → Prop} {Q : ResolveError → Prop} (h : s.Takes path P Q)
include h

/-- A value that refers to no place, is no switch and has no parts has every such property. -/
theorem atom {v : Value} (hplace : v.place? = none) (hswitch : v.switch? = none)
    (hparts : v.parts = []) : P v :=
  h.whole v hplace hswitch fun w hw => by rw [hparts] at hw; cases hw

theorem ends_injected (t : TypeRef) (parameter : String) :
    Ends (s.injected t parameter path) P Q := by
  unfold Scope.injected
  split
  · split
    · next n hn => exact ends_ok (h.injected n hn)
    · exact ends_error (h.fails _ rfl)
  · exact ends_ok (h.atom rfl rfl rfl)
  · exact ends_error (h.fails _ rfl)

theorem ends_omitted {ps : List Parameter} {p : Parameter} (hs : s.GivesDefaults ps)
    (hp : p ∈ ps) : Ends (s.omitted p path) P Q := by
  rw [omitted]
  split
  · exact h.ends_injected p.type p.name
  · cases hd : p.default with
    | none => exact ends_ok (h.atom rfl rfl rfl)
    | some v => exact ends_ok (h.given v (hs p hp v hd))

theorem ends_primitive (text : String) (t : TypeRef) : Ends (s.primitive text path t) P Q := by
  refine ⟨fun v hv => ?_, fun e he => ?_⟩
  · cases primitive_inhabits hv with
    | present | callback | array | list | dictionary | sealedContainer | object
    | appConfiguration | node | levelSwitch | filterSwitch => cases hv
    | _ => exact h.atom rfl rfl rfl
  · rw [primitive] at he
    split at he <;> cases he <;> exact h.fails _ rfl

theorem ends_value (a : Accessor) (t : TypeRef) : Ends (a.value s path t) P Q := by
  refine ⟨fun v hv => ?_, ?_⟩
  · rcases gives_of_value hv with hv | ⟨name, signature, identity, body, rfl⟩
    · exact h.given v hv
    · exact h.atom rfl rfl rfl
  · have hends : Ends (a.value s path t) (fun _ => True) Q := by
      refine ends_bind (ends_type h.fails a.typeName) fun u _ => ?_
      dsimp only
      split
      · refine ends_bind (R := fun _ => True) (ends_ok trivial) fun found _ => ?_
        refine ends_bind (ends_ensureAssignable h.fails found t) fun _ _ => ?_
        exact ends_ok trivial
      · exact ends_bind (R := fun _ => False) (ends_error (h.fails _ rfl)) nofun
    exact hends.of_error

theorem ends_construct {u : TypeSpec} {c : Constructor} {args : Arguments}
    (hargs : ∀ a ∈ args, P a.2) : Ends (construct u c args path) P Q := by
  refine ends_bind ends_identity fun identity _ => ?_
  split
  · next v hv =>
    refine ends_pure ?_
    rw [Constructor.eq_object_of_construct hv]
    refine h.whole _ rfl rfl fun w hw => ?_
    obtain ⟨a, ha, rfl⟩ := List.mem_map.1 hw
    exact hargs a ha
  · exact ends_throw (h.fails _ rfl)

theorem ends_constructNamed (name : String) (declared : TypeSpec) :
    Ends (s.constructNamed name declared path) P Q := by
  refine ends_bind (ends_lift (ends_type h.fails name)) fun u hu => ?_
  by_cases hassignable : u.isAssignableTo declared.fullName = true
  · rw [if_pos hassignable]
    split
    · exact ends_throw (h.fails _ rfl)
    · next c hc =>
      have hdefaults := givesDefaults_of_mem hu (List.mem_of_find?_eq_some hc)
      refine ends_bind (ends_mapM (P := fun a => P a.2) fun p hp => ?_) fun args hargs =>
        h.ends_construct hargs
      exact ends_bind (ends_lift (h.ends_omitted hdefaults hp)) fun v hv => ends_pure hv
  · rw [if_neg hassignable]
    exact ends_bind (R := fun _ => False) (ends_throw (h.fails _ rfl)) nofun

theorem ends_convertNamed (text : String) (t : TypeRef) :
    Ends (s.convertNamed text path t) P Q := by
  rw [convertNamed]
  split
  · exact ends_lift (h.ends_value _ t)
  · split
    · exact ends_lift (h.ends_primitive text t)
    · unfold convertPlain
      split
      · refine ends_bind (ends_lift (ends_type h.fails _)) fun declared _ => ?_
        split
        · exact h.ends_constructNamed _ declared
        · exact ends_lift (h.ends_primitive text _)
      · exact ends_lift (h.ends_primitive text t)

omit h in
theorem ends_convertScalar {n : Node} {text : String} (h : s.Takes n.path P Q)
    (hown : ∀ v : Value, v.place? = some n → P v)
    (hrefers : ∀ kind cell, s.registry.cell? kind (SwitchName.canonical text) = some cell →
      P (.ofSwitch kind cell)) (t : TypeRef) : Ends (s.convertScalar n text t) P Q := by
  fun_induction convertScalar s n text t with
  | case1 | case2 =>
    exact ends_bind (ends_lift (ends_cell h.fails _ _ _)) fun cell hcell =>
      ends_pure (hrefers _ cell hcell)
  | case3 => exact ends_pure (h.atom rfl rfl rfl)
  | case4 inner _ ih => exact ih
  | case5 => exact ends_pure (hown _ rfl)
  | case6 | case8 => exact ends_pure (h.atom rfl rfl rfl)
  | case7 | case9 => exact ends_throw (h.fails _ rfl)
  | case10 =>
    exact ends_bind (ends_lift (ends_type h.fails _)) fun u _ => ends_pure (h.atom rfl rfl rfl)
  | case11 | case12 => exact ends_lift (h.ends_primitive text _)
  | case13 => exact h.ends_convertNamed text _

end Takes

/-! ## Conversions -/

namespace Keeps

variable {P : Node → Value → Prop} {Q : Node → ResolveError → Prop} (hk : s.Keeps P Q) {n : Node}
  {below : (c : Node) → c ∈ n.children → TypeRef → Fresh Value}
include hk

theorem ends_convertScalar {text : String} (h : n.form = .ok (.scalar text)) (t : TypeRef) :
    Ends (s.convertScalar n (s.environment.expand text) t) (P n) (Q n) :=
  (hk.takes n).ends_convertScalar (hk.own n) (hk.refers n text h) t

theorem ends_objectType (n : Node) (declared : String) :
    Ends (s.objectType n declared) (fun u => u ∈ s.types) (Q n) := by
  have h := hk.takes n
  rw [objectType]
  split
  · next hpresent =>
    refine ends_bind (ends_namedType (hk.failsType n hpresent)) fun u hu => ?_
    by_cases hassignable : u.isAssignableTo declared = true
    · rw [if_pos hassignable]
      exact ends_pure hu
    · rw [if_neg hassignable]
      exact ends_bind (R := fun _ => False) (ends_error (h.fails _ rfl)) fun _ => False.elim
  · refine ends_bind (ends_type h.fails declared) fun u hu => ?_
    split
    · exact ends_error (h.fails _ rfl)
    · exact ends_pure hu

/-- What is taken at a node below is taken for the node. -/
theorem takesBelow {c : Node} (hc : c ∈ n.children) : s.Takes c.path (P n) (Q n) where
  given := (hk.takes n).given
  injected := (hk.takes n).injected
  whole := (hk.takes n).whole
  fails e he := hk.failsBelow n c hc e ((hk.takes c).fails e he)

section Sections

variable (hb : ∀ c hc t, Ends (below c hc t) (P c) (Q c))
include hb

/-- What is converted below the node is converted for the node. -/
theorem ends_below (c : Node) (hc : c ∈ n.children) (t : TypeRef) :
    Ends (below c hc t) (P n) (Q n) :=
  ends_imp (hb c hc t) (hk.below n c hc) (hk.failsBelow n c hc)

theorem ends_items (t : TypeRef) : Ends (items n below t) (fun vs => ∀ v ∈ vs, P n v) (Q n) :=
  ends_mapM fun c _ => hk.ends_below hb c.1 c.2 t

theorem ends_entries (t u : TypeRef) :
    Ends (entries s n below t u) (fun es => ∀ e ∈ es, P n e.1 ∧ P n e.2) (Q n) := by
  refine ends_mapM fun c _ => ?_
  have hkey : Ends (s.entryKey c.1 t) (P n) (Q n) := by
    rw [entryKey]
    split
    · exact ends_pure ((hk.takes n).atom rfl rfl rfl)
    · have hown : ∀ v, v.place? = some c.1 → P n v := fun v hv =>
        hk.below n c.1 c.2 v (hk.own c.1 v hv)
      exact (hk.takesBelow c.2).ends_convertScalar hown (hk.refersKey n c.1 c.2) t
  exact ends_bind hkey fun k hkey => ends_bind (hk.ends_below hb c.1 c.2 u) fun v hv =>
    ends_pure ⟨hkey, hv⟩

theorem ends_object (declared : String) : Ends (object s n below declared) (P n) (Q n) := by
  have h := hk.takes n
  refine ends_bind (ends_lift (hk.ends_objectType n declared)) fun u hu => ?_
  split
  · exact ends_throw (h.fails _ rfl)
  · next fit hfit =>
    obtain ⟨hc, hbindings, -⟩ := select_spec hfit
    have hdefaults := givesDefaults_of_mem hu hc
    refine ends_bind (ends_mapM (P := fun a => P n a.2) fun b hb' => ?_) fun args hargs =>
      h.ends_construct hargs
    rw [hbindings] at hb'
    obtain ⟨p, hp, rfl⟩ := List.mem_map.1 hb'
    unfold argument
    dsimp only
    split
    · exact ends_bind (hk.ends_below hb _ _ _) fun v hv => ends_pure hv
    · exact ends_bind (ends_lift (h.ends_omitted hdefaults hp)) fun v hv => ends_pure hv

theorem ends_convertSection (t : TypeRef) : Ends (convertSection s n below t) (P n) (Q n) := by
  have h := hk.takes n
  fun_induction convertSection s n below t with
  | case1 => exact ends_pure (hk.own n _ rfl)
  | case2 inner ih => exact ih
  | case3 kind =>
    unfold callback
    split
    · exact ends_throw (h.fails _ rfl)
    · exact ends_bind ends_identity fun identity _ => ends_pure (hk.own n _ rfl)
  | case4 t | case5 name t =>
    exact ends_bind (hk.ends_items hb t) fun vs hvs => ends_pure (h.whole _ rfl rfl hvs)
  | case6 name t u =>
    refine ends_bind (hk.ends_entries hb t u) fun es hes => ends_pure (h.whole _ rfl rfl ?_)
    intro w hw
    obtain ⟨e, he, hw⟩ := List.mem_flatMap.1 hw
    rcases List.mem_cons.1 hw with rfl | hw
    · exact (hes e he).1
    · exact List.mem_singleton.1 hw ▸ (hes e he).2
  | case7 => exact ends_pure (h.atom rfl rfl rfl)
  | case8 name => exact hk.ends_object hb name
  | case9 => exact ends_throw (h.fails _ rfl)

end Sections

/-- **Conversions keep what is kept** where they take, refer, put together and fail. -/
theorem ends_convert (n : Node) (t : TypeRef) : Ends (s.convert n t) (P n) (Q n) := by
  induction hh : n.height using Nat.strongRecOn generalizing n t with
  | ind height ih =>
    have h := hk.takes n
    rw [convert]
    split
    · exact ends_lift (h.ends_injected t n.key)
    · refine ends_bind (ends_lift (n.ends_form fun _ => h.fails)) fun shape hshape => ?_
      cases shape with
      | scalar text => exact hk.ends_convertScalar hshape t
      | structured =>
        refine hk.ends_convertSection (fun c hc u => ?_) t
        exact ih c.height (hh ▸ Node.height_lt_of_mem_children hc) c u rfl

/-- Each argument of a call keeps what is kept for the node that is supplied for it, or is taken at
the path of the directive if there is none. -/
theorem ends_arguments {d : Directive} {method : Method} {R : String → Value → Prop}
    {E : ResolveError → Prop} (h : ∀ name, s.Takes d.path (R name) E)
    (hm : ∃ p ∈ s.catalog.packages, method ∈ p.methods)
    (hP : ∀ name e, d.argument? name = some e → ∀ v, P e v → R name v)
    (hQ : ∀ name e, d.argument? name = some e → ∀ error, Q e error → E error) :
    Ends (Call.bind s d method) (fun c => ∀ a ∈ c.arguments, R a.1 a.2) E := by
  obtain ⟨package, hpackage, hm⟩ := hm
  have hdefaults : s.GivesDefaults method.parameters := fun p hp v hv =>
    .methodDefault hpackage hm hp hv
  refine ends_bind (ends_mapM (P := fun a => R a.1 a.2) fun p hp => ?_) fun args hargs =>
    ends_pure hargs
  unfold Call.argument
  split
  · next e he =>
    exact ends_bind (ends_imp (hk.ends_convert e p.type) (hP _ e he) (hQ _ e he)) fun v hv =>
      ends_pure hv
  · exact ends_bind (ends_lift ((h p.name).ends_omitted hdefaults hp)) fun v hv => ends_pure hv

/-- Calls keep what is kept for the arguments of their directives and taken at their paths. -/
theorem ends_bindCall {d : Directive} {method : Method} {P₀ : Value → Prop}
    {Q₀ : ResolveError → Prop} (h : s.Takes d.path P₀ Q₀)
    (hm : ∃ p ∈ s.catalog.packages, method ∈ p.methods)
    (hP : ∀ a ∈ d.arguments, ∀ v, P a.2 v → P₀ v)
    (hQ : ∀ a ∈ d.arguments, ∀ e, Q a.2 e → Q₀ e) :
    Ends (Call.bind s d method) (fun c => ∀ a ∈ c.arguments, P₀ a.2) Q₀ := by
  have hmem : ∀ {name e}, d.argument? name = some e → (name, e) ∈ d.arguments := by
    intro name e he
    obtain ⟨before, after, he, -⟩ := List.lookup_eq_some_iff.1 he
    simp [he]
  exact hk.ends_arguments (R := fun _ => P₀) (fun _ => h) hm (fun _ _ he => hP _ (hmem he))
    fun _ _ he => hQ _ (hmem he)

end Keeps

end Scope

end LogBinder
