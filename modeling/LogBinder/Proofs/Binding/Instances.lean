/-
  Log binder — which types have instances.

  The objects in a value that the catalog does not give are those that were
  built for it, and what was built is in the value.  Only a declared type must
  not be abstract: a type that the configuration names is constructed if it
  has a constructor for it.

  * `Scope.builds_of_contains`, `Scope.contains_of_builds` : an object in a
    value was built for it, and what was built is in it;
  * `Scope.Builds.registered` : what is known of a type that is constructed;
  * `Scope.instances_of_convert` : when all of them are concrete.
-/
import LogBinder.Proofs.Binding.Building

namespace LogBinder

namespace Scope

open Fresh

variable {s : Scope} {n : Node} {t : TypeRef} {v w : Value} {k m : Nat} {r : Request}

/-! ## What was built is what is in a value -/

/-- **The objects in a value are given by the catalog, or were built for it.** -/
theorem builds_of_contains (h : Yields (Request.answer s r) k v m) (hw : v.Contains w)
    (hobject : w.object?.isSome = true) :
    s.catalog.Contains w ∨ ∃ name u c, s.Builds r name u c ∧ w.IsMade u c k m := by
  induction r using Request.asks_induction (s := s) generalizing k v m with
  | h r ih =>
    have hasked : ∀ r' ∈ Request.asks s r, ∀ x, s.Answers r' k m x → x.Contains w →
        s.catalog.Contains w ∨ ∃ name u c, s.Builds r name u c ∧ w.IsMade u c k m := by
      rintro r' hr' x ⟨i, j, hi, hj, hx⟩ hxw
      refine (ih r' hr' hx hxw).imp_right ?_
      rintro ⟨name, u, c, hbuilds, hmade⟩
      exact ⟨name, u, c, .asked hr' hbuilds, hmade.widen hi hj⟩
    cases (serves_of_answer h).arises with
    | given hv => exact .inl (hv w hw hobject)
    | answer hr' hanswer => exact hasked _ hr' v hanswer hw
    | whole hmade hparts =>
      rcases Value.contains_iff.1 hw with rfl | ⟨x, hx, hxw⟩
      · obtain ⟨name, u, c, hc, hmade⟩ := hmade hobject
        exact .inr ⟨name, u, c, .here hc, hmade⟩
      · rcases hparts x hx with hgiven | ⟨r', hr', hanswer⟩
        · exact .inl (hgiven w hxw hobject)
        · exact hasked r' hr' x hanswer hxw

/-- **All that is built for a value is in it.** -/
theorem contains_of_builds {name : Naming} {u : TypeSpec} {c : Constructor}
    (hbuilds : s.Builds r name u c) (h : Yields (Request.answer s r) k v m) :
    ∃ w, v.Contains w ∧ w.IsMade u c k m := by
  induction hbuilds generalizing k v m with
  | here hc => exact ⟨v, .self v, (serves_of_answer h).made _ _ _ hc⟩
  | asked hr' hbuilds ih =>
    rcases (serves_of_answer h).asked _ hr' with hidle | ⟨w, hw, i, j, hi, hj, hanswer⟩
    · exact absurd hbuilds (hidle _ _ _)
    · obtain ⟨x, hx, hmade⟩ := ih hanswer
      exact ⟨x, hw.trans hx, hmade.widen hi hj⟩

/-! ## Concrete types -/

/-- The declared type is not abstract. -/
theorem isAbstract_of_objectType {declared : String} {u : TypeSpec}
    (hname : naming n = .declared) (h : s.objectType n declared = .ok u) :
    u.isAbstract = false := by
  have hentry : (n.child typeKey).isPresent = false := by
    rw [naming] at hname
    split at hname
    · cases hname
    · next hentry => exact Bool.eq_false_iff.2 hentry
  rw [objectType, hentry] at h
  obtain ⟨x, -, hx⟩ := Except.bind_eq_ok.1 h
  split at hx
  · cases hx
  · next hconcrete =>
    cases hx
    exact Bool.eq_false_iff.2 hconcrete

/-- A constructor that is run is exported by a registered type, which the configuration names if
it is abstract. -/
theorem Constructs.registered {name : Naming} {u : TypeSpec} {c : Constructor}
    (h : s.Constructs r name u c) :
    u ∈ s.types ∧ c ∈ u.publicConstructors ∧ (name = .declared → u.isAbstract = false) := by
  cases h with
  | text hread htext hdeclared habstract hu hassignable hc =>
    exact ⟨mem_types_of_type hu, List.mem_of_find?_eq_some hc, nofun⟩
  | object hu hfit =>
    exact ⟨mem_types_of_objectType hu, (select_spec hfit).1,
      fun hname => isAbstract_of_objectType hname hu⟩

theorem Builds.registered {name : Naming} {u : TypeSpec} {c : Constructor}
    (h : s.Builds r name u c) :
    u ∈ s.types ∧ c ∈ u.publicConstructors ∧ (name = .declared → u.isAbstract = false) := by
  induction h with
  | here hc => exact hc.registered
  | asked _ _ ih => exact ih

/-- **Which types have instances.**  The objects in what a conversion yields are given by the
catalog or built on the way.  Whatever is built is in it, by an exported constructor of a
registered type.  That type is concrete if it is the declared one, so all are, exactly if those are
that texts and entries name; in particular if abstract types export no constructors. -/
theorem instances_of_convert (h : Yields (s.convert n t) k v m) :
    (∀ w, v.Contains w → w.object?.isSome = true → s.catalog.Contains w ∨
      ∃ name u c, s.Builds (.convert n t) name u c ∧ w.IsMade u c k m) ∧
    (∀ name u c, s.Builds (.convert n t) name u c →
      u ∈ s.types ∧ c ∈ u.publicConstructors ∧ (∃ w, v.Contains w ∧ w.IsMade u c k m) ∧
        (name = .declared → u.isAbstract = false)) ∧
    ((∀ name u c, s.Builds (.convert n t) name u c → u.isAbstract = false) ↔
      ∀ name u c, s.Builds (.convert n t) name u c → name = .text ∨ name = .entry →
        u.isAbstract = false) ∧
    ((∀ u ∈ s.types, u.isAbstract = true → u.publicConstructors = []) →
      ∀ name u c, s.Builds (.convert n t) name u c → u.isAbstract = false) := by
  refine ⟨fun w hw hobject => builds_of_contains (r := .convert n t) h hw hobject, ?_, ?_, ?_⟩
  · intro name u c hbuilds
    obtain ⟨hu, hc, hconcrete⟩ := hbuilds.registered
    exact ⟨hu, hc, contains_of_builds hbuilds h, hconcrete⟩
  · refine ⟨fun hall name u c hbuilds _ => hall name u c hbuilds, fun hall name u c hbuilds => ?_⟩
    cases name with
    | text => exact hall _ u c hbuilds (.inl rfl)
    | entry => exact hall _ u c hbuilds (.inr rfl)
    | declared => exact hbuilds.registered.2.2 rfl
  · intro hnone name u c hbuilds
    obtain ⟨hu, hc, -⟩ := hbuilds.registered
    refine Bool.eq_false_iff.2 fun habstract => ?_
    rw [hnone u hu habstract] at hc
    cases hc

end Scope

/-! ## An abstract type with a constructor -/

namespace Sample

/-- An abstract type that exports a constructor. -/
def base : TypeSpec := { TypeSpec.abstractOf "Sample.Base" with constructors := [.of "made" []] }

/-- What conversions see of the abstract type alone. -/
def baseScope : Scope := ⟨.ofList [.of "Sample.Bases" [] [base]], {}, .all, [], .empty, none⟩

/-- A list of objects, whose types an entry and a text name. -/
def bases : Node :=
  .ofPath (.ofEntries [⟨"Bases:0:$type", some "Sample.Base"⟩, ⟨"Bases:1", some "Sample.Base"⟩])
    "Bases"

/-- Both objects are of the abstract type; the catalog does not give them, so they are built. -/
theorem instances_of_convert_bases :
    ∃ v m, (baseScope.convert bases (.array (.object "Sample.Base"))).run 0 = .ok (v, m) ∧
      v.parts.map Value.object? = [some ("Sample.Base", "made"), some ("Sample.Base", "made")] ∧
      ∀ w ∈ v.parts, ∃ name u c,
        baseScope.Builds (.convert bases (.array (.object "Sample.Base"))) name u c ∧
          w.IsMade u c 0 m ∧ u.isAbstract = true := by
  have hrun : (match (baseScope.convert bases (.array (.object "Sample.Base"))).run 0 with
      | .ok (v, _) => v.parts.map Value.object?
      | .error _ => []) = [some ("Sample.Base", "made"), some ("Sample.Base", "made")] := by
    decide +kernel
  have hnone (v : Value) : ¬ baseScope.catalog.Gives v := by
    intro hv
    cases hv with
    | methodDefault hp hm =>
      obtain rfl := List.mem_singleton.1 hp
      cases hm
    | constructorDefault hp hu hc hq =>
      obtain rfl := List.mem_singleton.1 hp
      obtain rfl := List.mem_singleton.1 hu
      obtain rfl := List.mem_singleton.1 hc
      cases hq
    | property hp hu hm | field hp hu hm =>
      obtain rfl := List.mem_singleton.1 hp
      obtain rfl := List.mem_singleton.1 hu
      cases hm
  cases hr : (baseScope.convert bases (.array (.object "Sample.Base"))).run 0 with
  | error e => simp [hr] at hrun
  | ok r =>
    obtain ⟨v, m⟩ := r
    rw [hr] at hrun
    dsimp only at hrun
    refine ⟨v, m, rfl, hrun, fun w hw => ?_⟩
    obtain ⟨hobjects, hbuilt, -⟩ := Scope.instances_of_convert hr
    have hobject : w.object?.isSome = true := by
      have hmem := List.mem_map_of_mem (f := Value.object?) hw
      rw [hrun] at hmem
      rcases List.mem_cons.1 hmem with hw | hw
      · rw [hw]
        rfl
      · rw [List.mem_singleton.1 hw]
        rfl
    rcases hobjects w (.of_mem hw) hobject with ⟨x, hx, -⟩ | ⟨name, u, c, hbuilds, hmade⟩
    · exact absurd hx (hnone x)
    · have habstract : ∀ u ∈ baseScope.types, u.isAbstract = true := by decide
      exact ⟨name, u, c, hbuilds, hmade, habstract u (hbuilt name u c hbuilds).1⟩

end Sample

end LogBinder
