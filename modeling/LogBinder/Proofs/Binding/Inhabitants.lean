/-
  Log binder — the values of a type.

  * `Inhabits s t v` : `v` is a value of the type `t`, for what a scope
    offers.  The arguments that an object was constructed with are covered:
    each is a value of the type of its parameter, or the default;
  * `Scope.Converts s n t text` : the conversion of `n` to `t` converts the
    scalar `text` on the way.
-/
import LogBinder.Binding.Conversion

namespace LogBinder

/-! ## Types in sight -/

/-- The registered types that a scope may use. -/
def Scope.types (s : Scope) : List TypeSpec :=
  (s.catalog.packages.flatMap (·.types)).filter fun t =>
    t.visibility.isVisible s.options.allowInternalTypes

theorem Scope.mem_types_of_type {s : Scope} {name path : String} {t : TypeSpec}
    (h : s.type name path = .ok t) : t ∈ s.types := by
  rw [type] at h
  split at h
  · next u hu =>
    cases h
    rw [Catalog.resolve] at hu
    split at hu
    · cases hu
    · have hv := List.find?_some hu
      rw [Bool.and_eq_true] at hv
      obtain ⟨p, hp, ht⟩ := List.mem_flatMap.1 (List.mem_of_find?_eq_some hu)
      exact List.mem_filter.2 ⟨List.mem_flatMap.2 ⟨p, (List.mem_filter.1 hp).1, ht⟩, hv.2⟩
  · cases h

/-- Whether a text is the name of a type as it is registered: nothing to trim and no qualifiers. -/
def TypeSpec.isPlainName (name : String) : Bool :=
  Text.trim name == name && !name.toList.contains ','

/-- Whether all objects that a type speaks of are given by plain names. -/
def TypeRef.isPlain : TypeRef → Bool
  | .object name => TypeSpec.isPlainName name
  | .nullable t | .array t | .list _ t => isPlain t
  | .dictionary _ k v => isPlain k && isPlain v
  | _ => true

/-- Whether all parameters of public constructors speak plainly of objects. -/
def Scope.IsPlain (s : Scope) : Prop :=
  ∀ t ∈ s.types, ∀ c ∈ t.publicConstructors, ∀ p ∈ c.parameters, p.type.isPlain = true

/-! ## Values of a type -/

mutual

/-- The values of a type. -/
inductive Inhabits (s : Scope) : TypeRef → Value → Prop
  | string (x : String) : Inhabits s .string (.string x)
  | bool (b : Bool) : Inhabits s .bool (.bool b)
  | char (c : Char) : Inhabits s .char (.char c)
  | int (n : Int64) : Inhabits s .int (.int n)
  | uint (n : UInt64) : Inhabits s .uint (.uint n)
  | float (x : Binary64) : Inhabits s .float (.float x)
  | decimal (d : Decimal) : Inhabits s .decimal (.decimal d)
  | moment (m : Moment) : Inhabits s .moment (.moment m)
  | duration (d : Duration) : Inhabits s .duration (.duration d)
  | uri (u : Uri) : Inhabits s .uri (.uri u)
  | level (l : Level) : Inhabits s .level (.level l)
  | typeName {t : TypeSpec} : t ∈ s.types → Inhabits s .typeName (.typeName t.fullName)
  | enum {e : EnumSpec} {member : String} {ordinal : Nat} : e.members[ordinal]? = some member →
      Inhabits s (.enum e) (.enum e.name member ordinal)
  | null (t : TypeRef) : Inhabits s (.nullable t) .null
  | present {t : TypeRef} {v : Value} : Inhabits s t v → Inhabits s (.nullable t) v
  | levelSwitch {name : String} {cell : Nat} : s.registry.cell? .level name = some cell →
      Inhabits s .levelSwitch (.levelSwitch cell)
  | filterSwitch {name : String} {cell : Nat} : s.registry.cell? .filter name = some cell →
      Inhabits s .filterSwitch (.filterSwitch cell)
  | array {t : TypeRef} {items : List Value} : (∀ v ∈ items, Inhabits s t v) →
      Inhabits s (.array t) (.array items)
  | list (name : String) {t : TypeRef} {items : List Value} : (∀ v ∈ items, Inhabits s t v) →
      Inhabits s (.list name t) (.sequence name items)
  | dictionary (name : String) {t u : TypeRef} {entries : List (Value × Value)} :
      (∀ e ∈ entries, Inhabits s t e.1) → (∀ e ∈ entries, Inhabits s u e.2) →
      Inhabits s (.dictionary name t u) (.map name entries)
  | sealedContainer (name : String) : Inhabits s (.sealedContainer name) (.sequence name [])
  | object {name : String} {t : TypeSpec} {c : Constructor} {args : Arguments} (identity : Nat) :
      t ∈ s.types → t.isAssignableTo name = true → c ∈ t.publicConstructors →
      args.map (·.1) = c.parameters.map (·.name) →
      (∀ b ∈ c.parameters.zip args, Accepts s b.1 b.2.2) →
      Inhabits s (.object name) (.object t.fullName identity c.label (some args))
  | callback (kind : CallbackKind) (path : String) (identity : Nat) (n : Node) :
      Inhabits s (.callback kind) (.callback kind path (.configures identity n))
  | node (n : Node) : Inhabits s .node (.node n)
  | appConfiguration {n : Node} : s.application = some n → Inhabits s .appConfiguration (.node n)
  | formatProvider : Inhabits s .formatProvider (.formatProvider s.options.provider)

/-- What a parameter of a constructor takes: a value of its type, or its default unless a value is
injected. -/
inductive Accepts (s : Scope) : Parameter → Value → Prop
  | given {p : Parameter} {v : Value} : Inhabits s p.type v → Accepts s p v
  | default {p : Parameter} {v : Value} : p.type.isImplicit = false → p.default = some v →
      Accepts s p v

end

/-! ## Scalars on the way -/

/-- The scalars that a conversion converts: the one that stands at the node, after expansion, and
those of the parts of a section, with the keys of a dictionary. -/
inductive Scope.Converts (s : Scope) : Node → TypeRef → String → Prop
  | scalar {n : Node} {t : TypeRef} {raw : String} : t.isImplicit = false →
      n.form = .ok (.scalar raw) → Converts s n t (s.environment.expand raw)
  | nullable {n : Node} {t : TypeRef} {text : String} : n.form = .ok .structured →
      Converts s n t text → Converts s n (.nullable t) text
  | arrayItem {n c : Node} {t : TypeRef} {text : String} : c ∈ n.children →
      Converts s c t text → Converts s n (.array t) text
  | listItem {n c : Node} {name : String} {t : TypeRef} {text : String} : c ∈ n.children →
      Converts s c t text → Converts s n (.list name t) text
  | key {n c : Node} {name : String} {t u : TypeRef} : c ∈ n.children → t.isString = false →
      Converts s n (.dictionary name t u) c.key
  | entry {n c : Node} {name : String} {t u : TypeRef} {text : String} : c ∈ n.children →
      Converts s c u text → Converts s n (.dictionary name t u) text
  | field {n : Node} {name : String} {t : TypeSpec} {fit : Fit { c : Node // c ∈ n.children }}
      {p : Parameter} {c : { c : Node // c ∈ n.children }} {text : String} :
      s.objectType n name = .ok t →
      Constructor.select t.publicConstructors (Scope.fields n) = some fit →
      (p, some c) ∈ fit.bindings → Converts s c.1 p.type text → Converts s n (.object name) text

end LogBinder
