/-
  Log binder — reading sees only the surface of the catalog.

  A reader that may not use internal methods and types does the same with a
  catalog and with its surface: it converts, plans, applies and runs
  callbacks alike, with the same errors, diagnostics and identities.  Two
  catalogs that differ in what is hidden have one surface, so they cannot be
  told apart (`Reader.make_of_extends`).
-/
import LogBinder.Binding.Application
import LogBinder.Binding.Reader
import LogBinder.Proofs.Binding.Soundness
import LogBinder.Proofs.Plugin.Surface

namespace LogBinder

/-! ## Scopes -/

theorem Fresh.bind_lift_map {α β γ : Type} (x : Except ResolveError α) (f : α → β)
    (g : β → Fresh γ) :
    (liftM (x.map f) : Fresh β) >>= g = (liftM x : Fresh α) >>= fun a => g (f a) := by
  cases x <;> rfl

namespace Scope

variable {s : Scope}

/-- A scope that sees the surface of the catalog. -/
def surface (s : Scope) : Scope := { s with catalog := s.catalog.surface }

@[simp] theorem options_surface : s.surface.options = s.options := rfl

@[simp] theorem environment_surface : s.surface.environment = s.environment := rfl

@[simp] theorem registry_surface : s.surface.registry = s.registry := rfl

theorem type_surface (h : s.options.allowInternalTypes = false) (name path : String) :
    s.surface.type name path = (s.type name path).map TypeSpec.surface := by
  simp only [type, surface, h, Catalog.resolve_surface]
  cases s.catalog.resolve (Text.trim name) false <;> rfl

theorem injected_surface (t : TypeRef) (parameter path : String) :
    s.surface.injected t parameter path = s.injected t parameter path := by
  cases t <;> rfl

theorem omitted_surface (p : Parameter) (path : String) :
    s.surface.omitted p path = s.omitted p path := by
  rw [omitted, omitted, injected_surface]

theorem construct_surface (t : TypeSpec) (c : Constructor) (args : Arguments) (path : String) :
    construct t.surface c args path = construct t c args path := rfl

end Scope

/-! ## Scalars -/

namespace Accessor

variable {s : Scope}

theorem isAssignable_surface (h : s.options.allowInternalTypes = false)
    (type expected path : String) :
    isAssignable s.surface type expected path = isAssignable s type expected path := by
  rw [isAssignable, isAssignable, Scope.type_surface h]
  cases s.type type path <;> rfl

theorem ensureAssignable_surface (h : s.options.allowInternalTypes = false) (v : Value)
    (path : String) (t : TypeRef) :
    ensureAssignable s.surface v path t = ensureAssignable s v path t := by
  unfold ensureAssignable
  split
  · rw [isAssignable_surface h]
  · rfl

theorem value_surface (h : s.options.allowInternalTypes = false) (a : Accessor) (path : String)
    (t : TypeRef) : a.value s.surface path t = a.value s path t := by
  simp only [value, Scope.type_surface h, Except.bind_map, TypeSpec.accessible_surface,
    TypeSpec.fullName_surface, ensureAssignable_surface h]

end Accessor

namespace Scope

variable {s : Scope}

theorem primitive_surface (text path : String) (t : TypeRef) :
    s.surface.primitive text path t = s.primitive text path t := rfl

theorem constructNamed_surface (h : s.options.allowInternalTypes = false) (name : String)
    (declared : TypeSpec) (path : String) :
    s.surface.constructNamed name declared.surface path = s.constructNamed name declared path := by
  simp only [constructNamed, type_surface h, Fresh.bind_lift_map, omitted_surface,
    TypeSpec.publicConstructors_surface, TypeSpec.isAssignableTo_surface,
    TypeSpec.fullName_surface, construct_surface]

theorem convertPlain_surface (h : s.options.allowInternalTypes = false) (text path : String)
    (t : TypeRef) : s.surface.convertPlain text path t = s.convertPlain text path t := by
  cases t with
  | object name =>
    simp only [convertPlain, type_surface h, Fresh.bind_lift_map, constructNamed_surface h,
      TypeSpec.isAbstract_surface, primitive_surface]
  | _ => simp only [convertPlain, primitive_surface]

theorem convertNamed_surface (h : s.options.allowInternalTypes = false) (text path : String)
    (t : TypeRef) : s.surface.convertNamed text path t = s.convertNamed text path t := by
  unfold convertNamed
  split
  · rw [Accessor.value_surface h]
  · rw [convertPlain_surface h, primitive_surface]

theorem convertScalar_surface (h : s.options.allowInternalTypes = false) (n : Node) (text : String)
    (t : TypeRef) : s.surface.convertScalar n text t = s.convertScalar n text t := by
  fun_induction convertScalar s n text t with
  | case4 inner hempty ih => rw [convertScalar, if_neg hempty, ih]
  | case10 =>
    simp only [convertScalar, type_surface h, Fresh.bind_lift_map, TypeSpec.fullName_surface]
  | case13 => rw [convertScalar, convertNamed_surface h] <;> assumption
  | _ => simp_all [convertScalar, primitive_surface]

/-! ## Sections -/

theorem namedType_surface (h : s.options.allowInternalTypes = false) (n : Node) :
    s.surface.namedType n = (s.namedType n).map TypeSpec.surface := by
  simp only [namedType, Except.map_bind]
  congr 1
  funext shape
  cases shape with
  | scalar text => exact type_surface h _ _
  | structured => rfl

theorem objectType_surface (h : s.options.allowInternalTypes = false) (n : Node)
    (declared : String) :
    s.surface.objectType n declared = (s.objectType n declared).map TypeSpec.surface := by
  rw [objectType, objectType]
  split
  · simp only [namedType_surface h, Except.bind_map, Except.map_bind]
    congr 1
    funext t
    cases ht : t.isAssignableTo declared <;> simp [ht] <;> rfl
  · simp only [type_surface h, Except.bind_map, Except.map_bind]
    congr 1
    funext t
    cases ht : t.isAbstract <;> simp [ht] <;> rfl

section Sections

variable {n : Node} {below : (c : Node) → c ∈ n.children → TypeRef → Fresh Value}

theorem argument_surface : argument s.surface n below = argument s n below := by
  funext b
  simp only [argument, omitted_surface]

theorem object_surface (h : s.options.allowInternalTypes = false) (declared : String) :
    object s.surface n below declared = object s n below declared := by
  simp only [object, objectType_surface h, Fresh.bind_lift_map,
    TypeSpec.publicConstructors_surface, TypeSpec.fullName_surface, argument_surface,
    construct_surface]

theorem entries_surface (h : s.options.allowInternalTypes = false) (key value : TypeRef) :
    entries s.surface n below key value = entries s n below key value := by
  simp only [entries, entryKey, convertScalar_surface h]

theorem convertSection_surface (h : s.options.allowInternalTypes = false) (t : TypeRef) :
    convertSection s.surface n below t = convertSection s n below t := by
  fun_induction convertSection s n below t with
  | case2 inner ih => exact ih
  | case6 name key value => rw [convertSection, entries_surface h]
  | case8 declared => exact object_surface h declared
  | _ => simp_all [convertSection]

end Sections

/-- A conversion sees only the surface of the catalog. -/
theorem convert_surface (h : s.options.allowInternalTypes = false) (n : Node) (t : TypeRef) :
    s.surface.convert n t = s.convert n t := by
  induction hh : n.height using Nat.strongRecOn generalizing n t with
  | ind height ih =>
    have hbelow : (fun (c : Node) (_ : c ∈ n.children) u => s.surface.convert c u) =
        fun c _ u => s.convert c u := by
      funext c hc u
      exact ih c.height (hh ▸ Node.height_lt_of_mem_children hc) c u rfl
    rw [convert, convert, hbelow]
    simp only [injected_surface, environment_surface, convertScalar_surface h,
      convertSection_surface h]

end Scope

/-! ## Plans -/

namespace Call

variable {s : Scope}

theorem bind_surface (h : s.options.allowInternalTypes = false) (d : Directive) (m : Method) :
    Call.bind s.surface d m = Call.bind s d m := by
  have hargument : argument s.surface d = argument s d := by
    funext p
    simp only [argument, Scope.convert_surface h, Scope.omitted_surface]
  rw [Call.bind, Call.bind, hargument]

end Call

namespace Binder

variable {b : Binder}

/-- A binder with the surface of the catalog. -/
def surface (b : Binder) : Binder := { b with catalog := b.catalog.surface }

/-- Whether a binder may use nothing internal. -/
def IsPublic (b : Binder) : Prop :=
  b.options.allowInternalMethods = false ∧ b.options.allowInternalTypes = false

@[simp] theorem options_surface : b.surface.options = b.options := rfl

@[simp] theorem selection_surface : b.surface.selection = b.selection := rfl

theorem scope_surface (s : Session) : b.surface.scope s = (b.scope s).surface := rfl

theorem directive_surface (h : b.IsPublic) (capability : Capability) (methods : List Method)
    (d : Directive) :
    b.surface.directive capability methods d = b.directive capability methods d := by
  have hbind : ∀ s m, Call.bind (b.scope s).surface d m = Call.bind (b.scope s) d m :=
    fun s m => Call.bind_surface (s := b.scope s) h.2 d m
  simp only [directive, converted, scope_surface, hbind]

theorem directives_surface (h : b.IsPublic) (capability : Capability) (n : Node) :
    b.surface.directives capability n = b.directives capability n := by
  have hcandidates : b.surface.catalog.candidates capability b.selection false =
      b.catalog.candidates capability b.selection false := Catalog.candidates_surface _ _ _
  have hdirective : ∀ methods, b.surface.directive capability methods =
      b.directive capability methods := fun methods => funext (directive_surface h _ methods)
  simp only [directives, options_surface, selection_surface, h.1, hcandidates, hdirective]

/-- A plan is made from the surface of the catalog. -/
theorem plan_surface (h : b.IsPublic) (n : Node) : b.surface.plan n = b.plan n := by
  have hphase : b.surface.phase n = b.phase n := funext fun _ => directives_surface h _ _
  rw [plan, plan, hphase]
  rfl

/-! ## Callbacks -/

theorem configureWith_surface (h : b.IsPublic) (B : Builder) (kind : CallbackKind) (n : Node)
    (callback : Value → Run Unit) :
    b.surface.configureWith B kind n callback = b.configureWith B kind n callback := by
  simp only [configureWith, plan_surface h, directives_surface h]
  rfl

/-- Callbacks are run with the surface of the catalog. -/
theorem run_surface (h : b.IsPublic) (B : Builder) (kind : CallbackKind) (n : Node) :
    b.surface.run B kind n = b.run B kind n := by
  induction hh : n.height using Nat.strongRecOn generalizing kind n with
  | ind height ih =>
    rw [run, run, configureWith_surface h]
    congr 1
    funext v
    cases v.nested? with
    | none => rfl
    | some c =>
      by_cases hc : c.node.height < n.height
      · simp only [dif_pos hc, ih _ (hh ▸ hc) _ _ rfl]
      · simp only [dif_neg hc]

theorem invoke_surface (h : b.IsPublic) (B : Builder) (v : Value) :
    b.surface.invoke B v = b.invoke B v := by
  simp only [invoke, run_surface h]

theorem apply_surface (h : b.IsPublic) (B : Builder) (p : Plan) :
    b.surface.apply B p = b.apply B p := by
  simp only [apply, options_surface, funext (invoke_surface h B)]

end Binder

/-! ## Readers -/

namespace Reader

/-- Two readers of one section that plan, apply plans and run callbacks alike in every session. -/
structure Alike (r r' : Reader) : Prop where
  node : r'.node = r.node
  plan : ∀ n, r'.binder.plan n = r.binder.plan n
  apply : ∀ B p, r'.binder.apply B p = r.binder.apply B p
  invoke : ∀ B v, r'.binder.invoke B v = r.binder.invoke B v

/-- A reader with the surface of the catalog. -/
def surface (r : Reader) : Reader := { r with binder := r.binder.surface }

theorem ofSection_surface (c : Catalog) (n : Node) :
    Selection.ofSection c.surface n = Selection.ofSection c n := by
  have hregistered : Selection.registered c.surface = Selection.registered c := by
    funext entry
    simp only [Selection.registered, Catalog.hasPackage_surface]
  simp only [Selection.ofSection, hregistered]

theorem make_surface (c : Catalog) (o : Options) (given configuration : Option Node) :
    make (some c.surface) o given configuration =
      (make (some c) o given configuration).map surface := by
  unfold make
  cases given.or (configuration.map fun top => top.child o.sectionName) with
  | none => rfl
  | some n =>
    simp only [ofSection_surface, Except.map_bind]
    rfl

theorem isPublic_of_make {c : Catalog} {o : Options} {given configuration : Option Node}
    {r : Reader} (hm : o.allowInternalMethods = false) (ht : o.allowInternalTypes = false)
    (h : make (some c) o given configuration = .ok r) : r.binder.IsPublic := by
  unfold make at h
  split at h
  · cases h
  · cases h
  · obtain ⟨selection, -, h⟩ := Except.bind_eq_ok.1 h
    cases h
    exact ⟨hm, ht⟩

theorem alike_of_surface_eq {r r' : Reader} (h : r.binder.IsPublic) (h' : r'.binder.IsPublic)
    (hs : r'.surface = r.surface) : r.Alike r' := by
  have hnode : r'.surface.node = r.surface.node := congrArg Reader.node hs
  have hbinder : r'.surface.binder = r.surface.binder := congrArg Reader.binder hs
  change r'.binder.surface = r.binder.surface at hbinder
  refine ⟨hnode, fun n => ?_, fun B p => ?_, fun B v => ?_⟩
  · rw [← Binder.plan_surface h', hbinder, Binder.plan_surface h]
  · rw [← Binder.apply_surface h', hbinder, Binder.apply_surface h]
  · rw [← Binder.invoke_surface h', hbinder, Binder.invoke_surface h]

/-- **What is hidden cannot influence a read.**  With internal methods and types off, two catalogs
that differ only in what is hidden give the same error or readers that cannot be told apart. -/
theorem make_of_extends {c d : Catalog} (h : c.Extends d) {o : Options}
    (hm : o.allowInternalMethods = false) (ht : o.allowInternalTypes = false)
    (given configuration : Option Node) :
    (∃ e, make (some c) o given configuration = .error e ∧
      make (some d) o given configuration = .error e) ∨
    ∃ r r', make (some c) o given configuration = .ok r ∧
      make (some d) o given configuration = .ok r' ∧ r.Alike r' := by
  have hmap : (make (some d) o given configuration).map surface =
      (make (some c) o given configuration).map surface := by
    rw [← make_surface, ← make_surface, Catalog.surface_eq_of_extends h]
  cases hc : make (some c) o given configuration with
  | error e =>
    cases hd : make (some d) o given configuration with
    | error e' =>
      rw [hc, hd] at hmap
      cases hmap
      exact .inl ⟨e, rfl, rfl⟩
    | ok r' =>
      rw [hc, hd] at hmap
      cases hmap
  | ok r =>
    cases hd : make (some d) o given configuration with
    | error e' =>
      rw [hc, hd] at hmap
      cases hmap
    | ok r' =>
      rw [hc, hd] at hmap
      refine .inr ⟨r, r', rfl, rfl, ?_⟩
      exact alike_of_surface_eq (isPublic_of_make hm ht hc) (isPublic_of_make hm ht hd)
        (Except.ok.inj hmap)

end Reader

/-! ## A catalog with more that is hidden -/

namespace Sample

/-- A policy with an internal constructor and a member of its instances. -/
def widerPolicy : TypeSpec :=
  { TypeSpec.of "Sample.Policy" [] [{ Constructor.of "hidden" [] with visibility := .internal },
      .of "default" []] [{ Member.of "Current" (.property .null) with isStatic := false }] with
    package := Package.coreName }

/-- The policy without them. -/
def policy : TypeSpec :=
  { TypeSpec.of "Sample.Policy" [] [.of "default" []] [] with package := Package.coreName }

/-- A package with one method. -/
def plain : Catalog := ⟨[⟨Package.coreName, true, core.methods, [policy]⟩]⟩

/-- The package with an internal method of the same name as the first one, and an internal type
before the policy that has its name. -/
def shadowed : Catalog :=
  ⟨[⟨Package.coreName, true,
    { Method.of "WithProperty" .enrich [] with visibility := .internal } :: core.methods,
    [{ TypeSpec.abstractOf "Sample.Policy" with visibility := .internal }, widerPolicy]⟩]⟩

/-- A section that adds a property. -/
def enriching : Node :=
  .top (.ofEntries [⟨"Enrich:0:Name", some "WithProperty"⟩, ⟨"Enrich:0:Args:name", some "a"⟩,
    ⟨"Enrich:0:Args:value", some "b"⟩])

theorem shadowed_extends : plain.Extends shadowed := by
  refine .cons ⟨rfl, rfl, .insert rfl (.refl (fun _ => rfl) _), .insert rfl (.keep ?_ .nil)⟩ .nil
  exact ⟨rfl, rfl, rfl, rfl, rfl, .insert rfl (.keep rfl .nil), .insert (.inr rfl) .nil⟩

/-- A reader does not see the method and the type that shadow others. -/
theorem make_of_extends_shadowed :
    ∃ r r', Reader.make (some plain) {} (some enriching) none = .ok r ∧
      Reader.make (some shadowed) {} (some enriching) none = .ok r' ∧ r.Alike r' := by
  refine (Reader.make_of_extends shadowed_extends rfl rfl (some enriching) none).resolve_left ?_
  rintro ⟨e, he, -⟩
  cases he

end Sample

end LogBinder
