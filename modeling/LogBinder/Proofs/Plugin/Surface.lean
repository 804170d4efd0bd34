/-
  Log binder — the surface of a catalog.

  * `Catalog.surface` : a catalog without what is hidden from a reader that
    may not use internal methods and types;
  * `Catalog.Extends` : one catalog arises from another by inserting hidden
    things anywhere (`surface_eq_of_extends`).

  Candidates, the types that names resolve to, and the names of packages are
  read off the surface.
-/
import LogBinder.Plugin.Catalog
import LogBinder.Proofs.Text.Insertions
import Mathlib.Data.List.Forall2

namespace LogBinder

/-! ## The surface -/

/-- A type with the constructors and the members that configuration may use. -/
def TypeSpec.surface (t : TypeSpec) : TypeSpec :=
  { t with constructors := t.publicConstructors, members := t.members.filter Member.isAccessible }

/-- A package with the methods and the types that everybody may use. -/
def Package.surface (p : Package) : Package :=
  { p with
    methods := p.methods.filter fun m => m.visibility = .exported
    types := (p.types.filter fun t => t.visibility = .exported).map TypeSpec.surface }

/-- A catalog with what everybody may use. -/
def Catalog.surface (c : Catalog) : Catalog :=
  ⟨c.packages.map Package.surface⟩

namespace TypeSpec

variable (t : TypeSpec)

@[simp] theorem fullName_surface : t.surface.fullName = t.fullName := rfl

@[simp] theorem isAbstract_surface : t.surface.isAbstract = t.isAbstract := rfl

@[simp] theorem visibility_surface : t.surface.visibility = t.visibility := rfl

@[simp] theorem isAssignableTo_surface (expected : String) :
    t.surface.isAssignableTo expected = t.isAssignableTo expected := rfl

@[simp] theorem publicConstructors_surface :
    t.surface.publicConstructors = t.publicConstructors := by
  simp [publicConstructors, surface]

@[simp] theorem accessible_surface (name : String) :
    t.surface.accessible name = t.accessible name := by
  simp only [accessible, surface, List.filter_filter]
  refine List.filter_congr fun m _ => ?_
  rw [Bool.and_assoc, Bool.and_self]

end TypeSpec

namespace Catalog

variable (c : Catalog)

theorem hasPackage_surface (name : String) : c.surface.hasPackage name = c.hasPackage name := by
  rw [hasPackage, surface, List.any_map]
  rfl

/-- The methods that everybody may use are candidates of the surface. -/
theorem candidates_surface (capability : Capability) (selection : Selection) :
    c.surface.candidates capability selection false = c.candidates capability selection false := by
  simp only [candidates, surface, List.filter_map, List.flatMap_map, List.filter_flatMap]
  congr 1
  funext p
  simp only [Package.surface, List.filter_filter]
  refine List.filter_congr fun m _ => ?_
  simp [Visibility.isVisible]

/-- A name resolves to the surface of what it resolves to in the whole catalog. -/
theorem resolve_surface (name : String) :
    c.surface.resolve name false = (c.resolve name false).map TypeSpec.surface := by
  simp only [resolve]
  split
  · rfl
  · simp only [surface, List.filter_map, List.flatMap_map, List.find?_flatMap, List.map_findSome?]
    congr 1
    funext p
    simp only [Package.surface, Function.comp_apply, List.find?_map, List.find?_filter]
    congr 2
    funext t
    rw [Bool.eq_iff_iff]
    by_cases ht : t.visibility = .exported <;> simp [Visibility.isVisible, ht]

end Catalog

/-! ## Insertions -/

/-- A type with more internal constructors, and more members that are internal or of instances. -/
structure TypeSpec.Extends (t u : TypeSpec) : Prop where
  fullName : u.fullName = t.fullName
  package : u.package = t.package
  isAbstract : u.isAbstract = t.isAbstract
  visibility : u.visibility = t.visibility
  supertypes : u.supertypes = t.supertypes
  constructors : Inserted (fun c => c.visibility = .internal) Eq t.constructors u.constructors
  members : Inserted (fun m => m.visibility = .internal ∨ m.isStatic = false) Eq
    t.members u.members

/-- A package with more internal methods and types, and types with more that is hidden. -/
structure Package.Extends (p q : Package) : Prop where
  name : q.name = p.name
  autoDiscover : q.autoDiscover = p.autoDiscover
  methods : Inserted (fun m => m.visibility = .internal) Eq p.methods q.methods
  types : Inserted (fun t => t.visibility = .internal) TypeSpec.Extends p.types q.types

/-- A catalog of the same packages with more that is hidden. -/
def Catalog.Extends (c d : Catalog) : Prop :=
  List.Forall₂ Package.Extends c.packages d.packages

theorem TypeSpec.Extends.refl (t : TypeSpec) : t.Extends t :=
  ⟨rfl, rfl, rfl, rfl, rfl, .refl (fun _ => rfl) _, .refl (fun _ => rfl) _⟩

theorem TypeSpec.surface_eq_of_extends {t u : TypeSpec} (h : t.Extends u) :
    u.surface = t.surface := by
  have hconstructors : u.publicConstructors = t.publicConstructors :=
    h.constructors.filter_eq fun c hc => by simp [hc]
  have hmembers : u.members.filter Member.isAccessible = t.members.filter Member.isAccessible := by
    refine h.members.filter_eq fun m hm => ?_
    rcases hm with hm | hm <;> simp [Member.isAccessible, hm]
  obtain ⟨hname, hpackage, habstract, hvisibility, hsupertypes, -, -⟩ := h
  cases t
  cases u
  simp_all [surface]

theorem Package.surface_eq_of_extends {p q : Package} (h : p.Extends q) :
    q.surface = p.surface := by
  have hmethods : q.methods.filter (fun m => m.visibility = .exported) =
      p.methods.filter fun m => m.visibility = .exported :=
    h.methods.filter_eq fun m hm => by simp [hm]
  have htypes : (q.types.filter fun t => t.visibility = .exported).map TypeSpec.surface =
      (p.types.filter fun t => t.visibility = .exported).map TypeSpec.surface := by
    refine h.types.map_filter_eq (fun t ht => by simp [ht]) fun t u htu => ?_
    exact ⟨by rw [htu.visibility], TypeSpec.surface_eq_of_extends htu⟩
  rw [surface, surface, hmethods, htypes, h.name, h.autoDiscover]

/-- **Insertions of what is hidden leave the surface of a catalog.** -/
theorem Catalog.surface_eq_of_extends {c d : Catalog} (h : c.Extends d) :
    d.surface = c.surface := by
  obtain ⟨ps⟩ := c
  obtain ⟨qs⟩ := d
  rw [surface, surface, Catalog.mk.injEq]
  change List.Forall₂ Package.Extends ps qs at h
  induction h with
  | nil => rfl
  | cons hp _ ih => rw [List.map_cons, List.map_cons, Package.surface_eq_of_extends hp, ih]

end LogBinder
