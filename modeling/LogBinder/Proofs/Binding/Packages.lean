/-
  Log binder — the packages that a section lists.

  The list is read twice: first every entry has to be a plain scalar, and
  only then has every name to be that of a registered package.  So an entry
  of the wrong shape is reported before a wrong name, wherever it stands.

  * `Selection.entries`, `Selection.nameOf` : what is listed, and the names;
  * `Selection.Fault` : what is wrong with a list;
  * `Selection.list_cases` : a list is empty, or sound, or has a fault;
  * `Selection.ofSection_exact` : what a list selects, and what is searched.
-/
import LogBinder.Binding.Reader
import LogBinder.Proofs.Binding.Conservation
import LogBinder.Proofs.Binding.Shorthand

namespace LogBinder

/-- All items of a list have a property, or there is a first one that does not. -/
theorem forall_or_first {α : Type} (P : α → Prop) (xs : List α) :
    (∀ x ∈ xs, P x) ∨
      ∃ before x after, xs = before ++ x :: after ∧ (∀ y ∈ before, P y) ∧ ¬ P x := by
  induction xs with
  | nil => exact .inl (List.forall_mem_nil _)
  | cons x rest ih =>
    by_cases hx : P x
    · rcases ih with hall | ⟨before, y, after, rfl, hbefore, hy⟩
      · exact .inl (List.forall_mem_cons.2 ⟨hx, hall⟩)
      · exact .inr ⟨x :: before, y, after, rfl, List.forall_mem_cons.2 ⟨hx, hbefore⟩, hy⟩
    · exact .inr ⟨[], x, rest, rfl, List.forall_mem_nil _, hx⟩

/-! ## Entries -/

/-- Some package of a catalog has a name, up to case. -/
structure Catalog.Registers (c : Catalog) (name : String) : Prop where
  ne_empty : name ≠ ""
  exists_package : ∃ p ∈ c.packages, Text.alike p.name name = true

namespace Selection

/-- What is listed: a scalar by itself, or the entries of a section. -/
def entries (list : Node) : List Node :=
  if list.value.isSome then [list] else list.children

/-- An entry is a scalar and nothing else. -/
def IsScalar (e : Node) : Prop := e.value.isSome = true ∧ e.hasChildren = false

/-- The name that an entry gives. -/
def nameOf (e : Node) : String := Text.trim (e.value.getD "")

/-- An entry is no plain scalar, and this is the error. -/
inductive Malformed (e : Node) : ResolveError → Prop
  | ambiguous : e.IsAmbiguous → Malformed e (.ambiguousShape e.path)
  | structured : e.value = none → Malformed e (.emptyPackageName e.path)

/-- An entry names no package, and this is the error. -/
inductive Unknown (c : Catalog) (e : Node) : ResolveError → Prop
  | blank : nameOf e = "" → Unknown c e (.emptyPackageName e.path)
  | unregistered : nameOf e ≠ "" → ¬ c.Registers (nameOf e) →
      Unknown c e (.packageNotFound (nameOf e))

/-- What is wrong with a list. -/
inductive Fault (c : Catalog) (list : Node) : ResolveError → Prop
  | ambiguous (hlist : list.IsAmbiguous) : Fault c list (.ambiguousShape list.path)
  | malformed {before after : List Node} {e : Node} {error : ResolveError}
      (hlist : ¬ list.IsAmbiguous) (hentries : entries list = before ++ e :: after)
      (hbefore : ∀ x ∈ before, IsScalar x) (herror : Malformed e error) : Fault c list error
  /-- All entries are plain scalars, but one names no package; the ones before it do. -/
  | unknown {before after : List Node} {e : Node} {error : ResolveError}
      (hscalars : ∀ x ∈ entries list, IsScalar x) (hentries : entries list = before ++ e :: after)
      (hbefore : ∀ x ∈ before, c.Registers (nameOf x)) (herror : Unknown c e error) :
      Fault c list error

/-- All entries of a list are plain scalars that name registered packages, and there is one. -/
structure IsSound (c : Catalog) (list : Node) : Prop where
  ne_nil : entries list ≠ []
  scalars : ∀ e ∈ entries list, IsScalar e
  registered : ∀ e ∈ entries list, c.Registers (nameOf e)

/-- The text of an entry and where it stands. -/
def entry (e : Node) : Except ResolveError (String × String) := do
  match ← e.form with
  | .scalar name => return (name, e.path)
  | .structured => throw (.emptyPackageName e.path)

variable {c : Catalog} {n e list : Node} {error : ResolveError}

theorem form_of_isScalar (h : IsScalar e) : e.form = .ok (.scalar (e.value.getD "")) := by
  obtain ⟨text, htext⟩ := Option.isSome_iff_exists.1 h.1
  simp [Node.form, Node.shape, htext, h.2, Except.mapError]

theorem entry_of_isScalar (h : IsScalar e) : entry e = .ok (e.value.getD "", e.path) := by
  rw [entry, form_of_isScalar h]
  rfl

theorem entry_of_malformed (h : Malformed e error) : entry e = .error error := by
  cases h with
  | ambiguous h =>
    rw [entry, Node.form_of_isAmbiguous h]
    rfl
  | structured h =>
    rw [entry, Node.form_of_value h]
    rfl

theorem isScalar_or_malformed (e : Node) : IsScalar e ∨ ∃ error, Malformed e error := by
  cases hvalue : e.value with
  | none => exact .inr ⟨_, .structured hvalue⟩
  | some text =>
    cases hchildren : e.hasChildren with
    | false => exact .inl ⟨by rw [hvalue]; rfl, hchildren⟩
    | true => exact .inr ⟨_, .ambiguous ⟨by rw [hvalue]; rfl, hchildren⟩⟩

theorem isScalar_of_not_isAmbiguous (h : ¬ e.IsAmbiguous) (hvalue : e.value.isSome = true) :
    IsScalar e :=
  ⟨hvalue, by simpa using fun hchildren => h ⟨hvalue, hchildren⟩⟩

/-- A list that is not ambiguous is read entry by entry. -/
theorem listed_eq (h : ¬ list.IsAmbiguous) : listed list = (entries list).mapM entry := by
  rw [listed, entries]
  split
  · next hvalue =>
    have hscalar := isScalar_of_not_isAmbiguous h hvalue
    rw [form_of_isScalar hscalar, List.mapM_cons, entry_of_isScalar hscalar]
    rfl
  · next hvalue =>
    rw [Node.form_of_value (by simpa using hvalue)]
    rfl

theorem registered_eq (c : Catalog) (e : Node) :
    registered c (e.value.getD "", e.path) =
      if (nameOf e).isEmpty then .error (.emptyPackageName e.path)
      else if c.hasPackage (nameOf e) then .ok (nameOf e)
      else .error (.packageNotFound (nameOf e)) := rfl

/-- A trimmed name is looked up as it is. -/
theorem hasPackage_nameOf (c : Catalog) (e : Node) :
    c.hasPackage (nameOf e) = true ↔ ∃ p ∈ c.packages, Text.alike p.name (nameOf e) = true := by
  simp [Catalog.hasPackage, Package.isNamed, nameOf, Text.trim_trim]

theorem registered_of_registers (h : c.Registers (nameOf e)) :
    registered c (e.value.getD "", e.path) = .ok (nameOf e) := by
  rw [registered_eq, if_neg (by simpa using h.ne_empty),
    if_pos ((hasPackage_nameOf c e).2 h.exists_package)]

theorem registered_of_unknown (h : Unknown c e error) :
    registered c (e.value.getD "", e.path) = .error error := by
  cases h with
  | blank h => rw [registered_eq, if_pos (by simpa using h)]
  | unregistered hne h =>
    rw [registered_eq, if_neg (by simpa using hne),
      if_neg fun hp => h ⟨hne, (hasPackage_nameOf c e).1 hp⟩]

theorem registers_or_unknown (c : Catalog) (e : Node) :
    c.Registers (nameOf e) ∨ ∃ error, Unknown c e error := by
  by_cases hne : nameOf e = ""
  · exact .inr ⟨_, .blank hne⟩
  · by_cases h : c.Registers (nameOf e)
    · exact .inl h
    · exact .inr ⟨_, .unregistered hne h⟩

/-! ## Lists -/

theorem isPresent_of_entries (h : entries list ≠ []) : list.isPresent = true := by
  by_contra habsent
  refine h ?_
  rw [entries, Node.value_of_not_isPresent habsent, (Node.children_of_not_isPresent habsent).1]
  rfl

theorem not_isAmbiguous_of_scalars (h : ∀ e ∈ entries list, IsScalar e) : ¬ list.IsAmbiguous := by
  rintro ⟨hvalue, hchildren⟩
  rw [entries, if_pos hvalue] at h
  have hnone := (h list (List.mem_singleton_self list)).2
  rw [hchildren] at hnone
  cases hnone

theorem entries_eq_nil_iff :
    entries list = [] ↔
      list.isPresent = false ∨ list.value = none ∧ list.children = [] := by
  rw [entries]
  constructor
  · intro h
    split at h
    · cases h
    · next hvalue => exact .inr ⟨by simpa using hvalue, h⟩
  · rintro (habsent | ⟨hvalue, hchildren⟩)
    · have hpresent : ¬ list.isPresent = true := by simp [habsent]
      rw [Node.value_of_not_isPresent hpresent, (Node.children_of_not_isPresent hpresent).1]
      rfl
    · simp [hvalue, hchildren]

/-- A list without entries selects all packages. -/
theorem ofSection_of_nil (h : entries (n.child sectionName) = []) : ofSection c n = .ok .all := by
  have hlist : ¬ (n.child sectionName).IsAmbiguous :=
    not_isAmbiguous_of_scalars (by rw [h]; exact fun e he => absurd he List.not_mem_nil)
  rw [ofSection]
  split
  · rw [listed_eq hlist, h]
    rfl
  · rfl

/-- A list with entries is read in two passes. -/
theorem ofSection_of_ne_nil (h : entries (n.child sectionName) ≠ [])
    (hlist : ¬ (n.child sectionName).IsAmbiguous) :
    ofSection c n = (entries (n.child sectionName)).mapM entry >>= fun texts =>
      texts.mapM (registered c) >>= fun names => pure (.named names) := by
  rw [ofSection, if_pos (isPresent_of_entries h), listed_eq hlist]
  cases hentries : entries (n.child sectionName) with
  | nil => exact absurd hentries h
  | cons e rest =>
    -- The first text shows that the list of texts is not empty.
    rw [List.mapM_cons]
    cases entry e with
    | error _ => rfl
    | ok _ => cases rest.mapM entry <;> rfl

/-- Where all entries are plain scalars, the second pass decides. -/
theorem ofSection_of_scalars (h : entries (n.child sectionName) ≠ [])
    (hscalars : ∀ e ∈ entries (n.child sectionName), IsScalar e) :
    ofSection c n = (entries (n.child sectionName)).mapM
      (fun e => registered c (e.value.getD "", e.path)) >>= fun names => pure (.named names) := by
  rw [ofSection_of_ne_nil h (not_isAmbiguous_of_scalars hscalars),
    Except.mapM_eq_map fun e he => entry_of_isScalar (hscalars e he)]
  change ((entries (n.child sectionName)).map fun e => (e.value.getD "", e.path)).mapM
    (registered c) >>= _ = _
  rw [List.mapM_map, Function.comp_def]

theorem ofSection_of_isAmbiguous (h : (n.child sectionName).IsAmbiguous) :
    ofSection c n = .error (.ambiguousShape (n.child sectionName).path) := by
  have hpresent : (n.child sectionName).isPresent = true := by
    refine isPresent_of_entries ?_
    rw [entries, if_pos h.1]
    exact List.cons_ne_nil _ _
  rw [ofSection, if_pos hpresent, listed, Node.form_of_isAmbiguous h]
  rfl

theorem ofSection_of_isSound (h : IsSound c (n.child sectionName)) :
    ofSection c n = .ok (.named ((entries (n.child sectionName)).map nameOf)) := by
  rw [ofSection_of_scalars h.ne_nil h.scalars,
    Except.mapM_eq_map fun e he => registered_of_registers (h.registered e he)]
  rfl

theorem ofSection_of_fault (h : Fault c (n.child sectionName) error) :
    ofSection c n = .error error := by
  cases h with
  | ambiguous hlist => exact ofSection_of_isAmbiguous hlist
  | malformed hlist hentries hbefore herror =>
    rw [ofSection_of_ne_nil (by simp [hentries]) hlist, hentries,
      Except.mapM_eq_error (fun x hx => entry_of_isScalar (hbefore x hx))
        (entry_of_malformed herror)]
    rfl
  | unknown hscalars hentries hbefore herror =>
    rw [ofSection_of_scalars (by simp [hentries]) hscalars, hentries,
      Except.mapM_eq_error (fun x hx => registered_of_registers (hbefore x hx))
        (registered_of_unknown herror)]
    rfl

/-- A list has no entries, or nothing is wrong with it, or something is. -/
theorem list_cases (c : Catalog) (list : Node) :
    entries list = [] ∨ IsSound c list ∨ ∃ error, Fault c list error := by
  by_cases hempty : entries list = []
  · exact .inl hempty
  refine .inr ?_
  by_cases hlist : list.IsAmbiguous
  · exact .inr ⟨_, .ambiguous hlist⟩
  rcases forall_or_first IsScalar (entries list) with
    hscalars | ⟨before, e, after, hentries, hbefore, he⟩
  · rcases forall_or_first (fun e => c.Registers (nameOf e)) (entries list) with
      hnames | ⟨before, e, after, hentries, hbefore, he⟩
    · exact .inl ⟨hempty, hscalars, hnames⟩
    · obtain ⟨error, herror⟩ := (registers_or_unknown c e).resolve_left he
      exact .inr ⟨error, .unknown hscalars hentries hbefore herror⟩
  · obtain ⟨error, herror⟩ := (isScalar_or_malformed e).resolve_left he
    exact .inr ⟨error, .malformed hlist hentries hbefore herror⟩

theorem ofSection_eq_all_iff :
    ofSection c n = .ok .all ↔
      (n.child sectionName).isPresent = false ∨
        (n.child sectionName).value = none ∧ (n.child sectionName).children = [] := by
  rw [← entries_eq_nil_iff]
  refine ⟨fun h => ?_, ofSection_of_nil⟩
  rcases list_cases c (n.child sectionName) with hempty | hsound | ⟨error, hfault⟩
  · exact hempty
  · rw [ofSection_of_isSound hsound] at h
    cases h
  · rw [ofSection_of_fault hfault] at h
    cases h

theorem ofSection_eq_named_iff {names : List String} :
    ofSection c n = .ok (.named names) ↔
      IsSound c (n.child sectionName) ∧
        names = (entries (n.child sectionName)).map nameOf := by
  constructor
  · intro h
    rcases list_cases c (n.child sectionName) with hempty | hsound | ⟨error, hfault⟩
    · rw [ofSection_of_nil hempty] at h
      cases h
    · rw [ofSection_of_isSound hsound] at h
      cases h
      exact ⟨hsound, rfl⟩
    · rw [ofSection_of_fault hfault] at h
      cases h
  · rintro ⟨hsound, rfl⟩
    exact ofSection_of_isSound hsound

theorem ofSection_eq_error_iff :
    ofSection c n = .error error ↔ Fault c (n.child sectionName) error := by
  refine ⟨fun h => ?_, ofSection_of_fault⟩
  rcases list_cases c (n.child sectionName) with hempty | hsound | ⟨other, hfault⟩
  · rw [ofSection_of_nil hempty] at h
    cases h
  · rw [ofSection_of_isSound hsound] at h
    cases h
  · rw [ofSection_of_fault hfault] at h
    cases h
    exact hfault

/-! ## Searched packages -/

/-- The packages that are searched are the core and those that are named. -/
theorem includes_named_iff {names : List String} (h : ∀ name ∈ names, Text.trim name = name)
    (p : Package) :
    (named names).includes p = true ↔
      p.isCore = true ∨ ∃ name ∈ names, Text.alike p.name name = true := by
  rw [includes, Bool.or_eq_true, List.any_eq_true]
  refine or_congr_right (exists_congr fun name => and_congr_right fun hname => ?_)
  rw [Package.isNamed, h name hname]

/-- **What a section lists is what is searched**: all packages if nothing is listed, or else those
that are named, each of which is there; a list with a fault is refused. -/
theorem ofSection_exact (c : Catalog) (n : Node) :
    (ofSection c n = .ok .all ↔
      (n.child sectionName).isPresent = false ∨
        (n.child sectionName).value = none ∧ (n.child sectionName).children = []) ∧
    (∀ names, ofSection c n = .ok (.named names) ↔
      IsSound c (n.child sectionName) ∧
        names = (entries (n.child sectionName)).map nameOf) ∧
    (∀ error, ofSection c n = .error error ↔ Fault c (n.child sectionName) error) ∧
    ∀ names, ofSection c n = .ok (.named names) →
      (∀ name ∈ names, ∃ p ∈ c.packages,
        Text.alike p.name name = true ∧ (named names).includes p = true) ∧
      ∀ p ∈ c.packages, (named names).includes p = true ↔
        p.isCore = true ∨ ∃ name ∈ names, Text.alike p.name name = true := by
  refine ⟨ofSection_eq_all_iff, fun _ => ofSection_eq_named_iff, fun _ => ofSection_eq_error_iff,
    fun names h => ?_⟩
  obtain ⟨hsound, rfl⟩ := ofSection_eq_named_iff.1 h
  have htrim : ∀ name ∈ (entries (n.child sectionName)).map nameOf, Text.trim name = name := by
    intro name hname
    obtain ⟨e, -, rfl⟩ := List.mem_map.1 hname
    rw [nameOf, Text.trim_trim]
  refine ⟨fun name hname => ?_, fun p _ => includes_named_iff htrim p⟩
  obtain ⟨e, he, rfl⟩ := List.mem_map.1 hname
  obtain ⟨p, hp, halike⟩ := (hsound.registered e he).exists_package
  exact ⟨p, hp, halike, (includes_named_iff htrim p).2 (.inr ⟨_, hname, halike⟩)⟩

end Selection

/-! ## A package that has to be named -/

namespace Sample

/-- A list that names a package in another case, among blanks. -/
def namingRoot : Root Watcher := listedRoot [⟨"Log:Using:0", some " SAMPLE.explicit "⟩]

/-- A package that is not searched by itself is searched when it is listed. -/
theorem ofSection_exact_explicit :
    Selection.ofSection (.ofList packages) (namingRoot.node "Log") =
      .ok (.named ["SAMPLE.explicit"]) ∧
    ∃ p ∈ (Catalog.ofList packages).packages,
      Text.alike p.name "SAMPLE.explicit" = true ∧
        (Selection.named ["SAMPLE.explicit"]).includes p = true := by
  have h : Selection.ofSection (.ofList packages) (namingRoot.node "Log") =
      .ok (.named ["SAMPLE.explicit"]) := by decide +kernel
  obtain ⟨-, -, -, hsearched⟩ :=
    Selection.ofSection_exact (.ofList packages) (namingRoot.node "Log")
  exact ⟨h, (hsearched _ h).1 _ (List.mem_singleton_self _)⟩

end Sample

end LogBinder
