/-
  Log binder — the catalog of a sequence of registrations.

  A package joins the first one of its name, wherever that stands, so that the
  order of a catalog is not the order in which it was registered.

  * `Catalog.grouped` : the registrations with those of a name together, each
    name in the place of its first registration (`grouped_perm`: each
    registration once);
  * `Catalog.gathered` : one package with what all registrations of a name
    hold; the packages of the catalog are these (`packages_ofList`);
  * `Catalog.shows_ofList` : candidates, types and package names are read off
    the registrations in that order.
-/
import LogBinder.Plugin.Catalog
import LogBinder.Proofs.Config.History
import LogBinder.Text.Split
import LogBinder.Text.Blank
import Mathlib.Data.List.Perm.Basic

namespace LogBinder

namespace Catalog

/-! ## Registrations by name -/

section Groups

variable (ps : List Package)

/-- The registrations of a name, in order. -/
def registrations (name : String) : List Package :=
  ps.filter fun p => Text.alike p.name name

/-- The package that holds what all registrations of a name hold. -/
def gathered (name : String) : Package where
  name := name
  autoDiscover := (registrations ps name).all (·.autoDiscover)
  methods := (registrations ps name).flatMap (·.methods)
  types := (registrations ps name).flatMap (·.types)

/-- The names of the registrations, each in its first spelling. -/
def names : List String :=
  Text.distinct (ps.map (·.name))

/-- The registrations in the order of the first registration of their names. -/
def grouped : List Package :=
  (names ps).flatMap (registrations ps)

end Groups

variable {ps : List Package} {p : Package} {name : String}

theorem registrations_concat (ps : List Package) (p : Package) (name : String) :
    registrations (ps ++ [p]) name =
      registrations ps name ++ if Text.alike p.name name then [p] else [] := by
  cases h : Text.alike p.name name <;> simp [registrations, h]

theorem registrations_eq_of_alike {a b : String} (h : Text.alike a b = true) :
    registrations ps a = registrations ps b := by
  rw [registrations, registrations]
  congr 1
  funext q
  rw [Text.alike_congr_right h]

theorem any_names (ps : List Package) (name : String) :
    (names ps).any (Text.alike · name) = ps.any fun p => Text.alike p.name name := by
  rw [names, Text.any_distinct, List.any_map]
  rfl

/-- Filtering by name picks whole groups. -/
theorem filter_grouped (ps : List Package) {g : String → Bool}
    (hg : ∀ a b, Text.alike a b = true → g a = g b) :
    (grouped ps).filter (fun p => g p.name) =
      ((names ps).filter g).flatMap (registrations ps) := by
  rw [grouped]
  induction names ps with
  | nil => rfl
  | cons n ns ih =>
    have hgroup : ∀ p ∈ registrations ps n, g p.name = g n := fun p hp =>
      hg _ _ (List.mem_filter.1 hp).2
    rw [List.flatMap_cons, List.filter_append, ih, List.filter_cons]
    split
    · next hn =>
      rw [List.flatMap_cons, List.filter_eq_self.2 fun p hp => (hgroup p hp).trans hn]
    · next hn =>
      rw [List.filter_eq_nil_iff.2 fun p hp => by rwa [hgroup p hp], List.nil_append]

/-- Grouping keeps each registration once. -/
theorem grouped_perm (ps : List Package) : (grouped ps).Perm ps := by
  induction ps with
  | nil => exact .nil
  | cons p ps ih =>
    -- The first name stays in front, and takes its registrations out of the other groups.
    have hfirst : registrations (p :: ps) p.name = p :: registrations ps p.name := by
      simp [registrations]
    have hrest : ∀ n ∈ (names ps).filter fun n => !Text.alike n p.name,
        registrations (p :: ps) n = registrations ps n := by
      intro n hn
      have hpn : Text.alike p.name n = false := by
        simpa [Text.alike_comm p.name] using (List.mem_filter.1 hn).2
      simp [registrations, hpn]
    have hothers := filter_grouped ps (g := fun n => !Text.alike n p.name) fun a b hab => by
      rw [Text.alike_congr_left hab]
    have hgroups : grouped (p :: ps) = p :: (registrations ps p.name ++
        (grouped ps).filter fun q => !Text.alike q.name p.name) := by
      rw [hothers, grouped, names, List.map_cons, Text.distinct, List.flatMap_cons, hfirst,
        List.cons_append]
      congr 2
      exact List.flatMap_congr hrest
    rw [hgroups]
    refine .cons p (((ih.filter _).append_left _).trans ?_)
    exact List.filter_append_perm _ ps

/-! ## The packages of a catalog -/

theorem gathered_concat_of_alike (h : Text.alike name p.name = true) :
    gathered (ps ++ [p]) name = (gathered ps name).extend p := by
  simp [gathered, Package.extend, registrations_concat, Text.alike_symm h]

theorem gathered_concat_of_not_alike (h : Text.alike name p.name = false) :
    gathered (ps ++ [p]) name = gathered ps name := by
  rw [Text.alike_comm] at h
  simp [gathered, registrations_concat, h]

/-- The first registration of a name is all that is gathered. -/
theorem gathered_concat_self (h : ∀ q ∈ ps, Text.alike q.name p.name = false) :
    gathered (ps ++ [p]) p.name = p := by
  have hnone : registrations ps p.name = [] := by
    simpa [registrations] using h
  simp [gathered, registrations_concat, hnone]

/-- One more package joins the gathered ones of its name, or stands at the end. -/
theorem put_gathered (htrim : Text.trim p.name = p.name) {ns : List String}
    (hns : ns.Pairwise fun a b => Text.alike a b = false) :
    put p (ns.map (gathered ps)) =
      if ns.any (Text.alike · p.name) then ns.map (gathered (ps ++ [p]))
      else ns.map (gathered ps) ++ [p] := by
  induction ns with
  | nil => rfl
  | cons n ns ih =>
    obtain ⟨hn, hns⟩ := List.pairwise_cons.1 hns
    have hnamed : (gathered ps n).isNamed p.name = Text.alike n p.name := by
      rw [Package.isNamed, htrim, gathered]
    rw [List.map_cons, put, hnamed, List.any_cons, ih hns]
    cases hp : Text.alike n p.name with
    | true =>
      -- No later name is alike, so the later packages stay.
      have hlater : ns.map (gathered (ps ++ [p])) = ns.map (gathered ps) := by
        refine List.map_congr_left fun m hm => gathered_concat_of_not_alike ?_
        rw [Text.alike_comm, ← Text.alike_congr_left hp, hn m hm]
      simp [gathered_concat_of_alike hp, hlater]
    | false =>
      rw [List.map_cons, gathered_concat_of_not_alike hp, Bool.false_or, if_neg Bool.false_ne_true]
      split <;> rfl

/-- The packages of a catalog are the gathered ones, by first registration. -/
theorem packages_ofList (h : ∀ p ∈ ps, Text.trim p.name = p.name) :
    (ofList ps).packages = (names ps).map (gathered ps) := by
  induction ps using List.reverseRecOn with
  | nil => rfl
  | append_singleton ps p ih =>
    have hstep : (ofList (ps ++ [p])).packages = put p (ofList ps).packages := by
      rw [ofList, List.foldl_concat]
      rfl
    have hnames : names (ps ++ [p]) =
        if ps.any (fun q => Text.alike q.name p.name) then names ps else names ps ++ [p.name] := by
      rw [names, List.map_append, List.map_singleton, Text.distinct_concat, List.any_map]
      rfl
    have hapart : (names ps).Pairwise fun a b => Text.alike a b = false :=
      Text.pairwise_distinct _
    rw [hstep, ih fun q hq => h q (by simp [hq]), put_gathered (h p (by simp)) hapart, any_names,
      hnames]
    split
    · rfl
    · next hnew =>
      have hnew : ∀ q ∈ ps, Text.alike q.name p.name = false := by simpa using hnew
      rw [List.map_append, List.map_singleton, gathered_concat_self hnew]
      congr 1
      refine List.map_congr_left fun n hn => (gathered_concat_of_not_alike ?_).symm
      obtain ⟨q, hq, rfl⟩ := List.mem_map.1 (Text.mem_of_mem_distinct hn)
      exact hnew q hq

/-! ## How a text names a type -/

/-- How a text names a type: by its name and, after a comma, by the name of a package unless that is
blank.  What follows another comma does not count. -/
inductive Names : String → String → Option String → Prop
  | plain {text : String} (h : ',' ∉ text.toList) : Names text (Text.trim text) none
  | qualified {name package rest : String} (hname : ',' ∉ name.toList)
      (hpackage : ',' ∉ package.toList) (hrest : rest = "" ∨ ∃ more, rest = "," ++ more) :
      Names (name ++ "," ++ package ++ rest) (Text.trim name)
        (if Text.trim package = "" then none else some (Text.trim package))

/-- Every text names a type. -/
theorem exists_names (text : String) : ∃ name package, Names text name package := by
  cases hcut : Text.cut ',' text.toList with
  | none => exact ⟨_, _, .plain (Text.cut_eq_none_iff.1 hcut)⟩
  | some parts =>
    obtain ⟨front, back⟩ := parts
    obtain ⟨htext, hfront⟩ := Text.cut_eq_some hcut
    -- The package ends at the next comma, if there is one.
    obtain ⟨package, rest, hback, hpackage, hrest⟩ : ∃ package rest : String,
        back = package.toList ++ rest.toList ∧ ',' ∉ package.toList ∧
          (rest = "" ∨ ∃ more, rest = "," ++ more) := by
      cases hcut : Text.cut ',' back with
      | none => exact ⟨String.ofList back, "", by simp, by simpa using Text.cut_eq_none_iff.1 hcut,
          .inl rfl⟩
      | some parts =>
        obtain ⟨hback, hpackage⟩ := Text.cut_eq_some hcut
        exact ⟨String.ofList parts.1, "," ++ String.ofList parts.2, by simpa using hback,
          by simpa using hpackage, .inr ⟨_, rfl⟩⟩
    have hspelled : text = String.ofList front ++ "," ++ package ++ rest := by
      apply String.toList_injective
      simp [htext, hback]
    rw [hspelled]
    exact ⟨_, _, .qualified (by simpa using hfront) hpackage hrest⟩

/-- The first two parts of a text between commas are what it names. -/
theorem Names.split_eq {text name : String} {package : Option String}
    (h : Names text name package) :
    ((Text.split ',' text).map Text.trim).head?.getD "" = name ∧
      (((Text.split ',' text).map Text.trim)[1]?).filter (fun p => !p.isEmpty) = package := by
  cases h with
  | plain h => simp [Text.split_of_not_mem h]
  | @qualified front back rest hfront hback hrest =>
    obtain ⟨more, hmore⟩ : ∃ more, Text.split ',' (front ++ "," ++ back ++ rest) =
        front :: back :: more := by
      have htext : (front ++ "," ++ back ++ rest).toList =
          front.toList ++ ',' :: (back.toList ++ rest.toList) := by simp
      rw [Text.split, htext, Text.pieces_append hfront]
      rcases hrest with rfl | ⟨more, rfl⟩
      · exact ⟨[], by simp [Text.pieces_of_not_mem hback]⟩
      · have hrest : back.toList ++ ("," ++ more).toList = back.toList ++ ',' :: more.toList := by
          simp
        rw [hrest, Text.pieces_append hback]
        exact ⟨Text.split ',' more, by simp [Text.split]⟩
    rw [hmore]
    refine ⟨by simp, ?_⟩
    by_cases hblank : Text.trim back = "" <;> simp [Option.filter, hblank]

/-! ## What a catalog answers -/

/-- Whether the packages of a name are searched. -/
def isSearched (ps : List Package) : Selection → String → Bool
  | .all, name =>
    Text.alike name Package.coreName || (registrations ps name).all (·.autoDiscover)
  | .named names, name =>
    Text.alike name Package.coreName || names.any fun n => Text.alike name (Text.trim n)

/-- A catalog shows some registrations, those of a name together. -/
structure Shows (ps : List Package) (c : Catalog) : Prop where
  /-- The packages come in the order of the first registrations, and hold what all registrations of
  their names hold. -/
  packages : c.packages = (names ps).map (gathered ps)
  apart : c.packages.Pairwise fun p q => Text.alike p.name q.name = false
  present : ∀ p ∈ ps, ∃ q ∈ c.packages, Text.alike q.name p.name = true
  once : (grouped ps).Perm ps
  candidates : ∀ capability selection allowInternal,
    c.candidates capability selection allowInternal =
      (((grouped ps).filter fun p => isSearched ps selection p.name).flatMap (·.methods)).filter
        fun m => m.capability = capability && m.visibility.isVisible allowInternal
  named : ∀ text, ∃ name package, Names text name package
  /-- A text stands for the first visible type of the name that it spells, if it spells one. -/
  resolve : ∀ text name package allowInternal, Names text name package →
    c.resolve text allowInternal =
      if name = "" then none
      else (((grouped ps).filter fun p => package.all (Text.alike p.name)).flatMap
        (·.types)).find? fun t => t.fullName == name && t.visibility.isVisible allowInternal
  hasPackage : ∀ name, c.hasPackage name = ps.any fun p => Text.alike p.name (Text.trim name)

section Packages

variable (h : ∀ p ∈ ps, Text.trim p.name = p.name)
include h

/-- What the packages hold whose names pass a test is what the registrations hold. -/
theorem flatMap_packages {α : Type} {held : Package → List α} {chosen : Package → Bool}
    {g : String → Bool} (hg : ∀ a b, Text.alike a b = true → g a = g b)
    (hchosen : ∀ n, chosen (gathered ps n) = g n)
    (hheld : ∀ n, held (gathered ps n) = (registrations ps n).flatMap held) :
    ((ofList ps).packages.filter chosen).flatMap held =
      ((grouped ps).filter fun p => g p.name).flatMap held := by
  have hcomp : chosen ∘ gathered ps = g := funext hchosen
  rw [packages_ofList h, filter_grouped ps hg, List.filter_map, hcomp, List.flatMap_map,
    List.flatMap_assoc]
  exact List.flatMap_congr fun n _ => hheld n

theorem candidates_ofList (capability : Capability) (selection : Selection)
    (allowInternal : Bool) :
    (ofList ps).candidates capability selection allowInternal =
      (((grouped ps).filter fun p => isSearched ps selection p.name).flatMap (·.methods)).filter
        fun m => m.capability = capability && m.visibility.isVisible allowInternal := by
  have hcore : ∀ n, (gathered ps n).isCore = Text.alike n Package.coreName := fun _ => rfl
  rw [candidates, flatMap_packages h (g := isSearched ps selection)]
  · intro a b hab
    cases selection <;>
      simp only [isSearched, Text.alike_congr_left hab, registrations_eq_of_alike hab]
  · intro n
    cases selection with
    | all => rw [Selection.includes, hcore, isSearched, Bool.or_comm, gathered]
    | named names => rw [Selection.includes, hcore, isSearched]; rfl
  · exact fun _ => rfl

theorem resolve_ofList {text name : String} {package : Option String} (allowInternal : Bool)
    (hnames : Names text name package) :
    (ofList ps).resolve text allowInternal =
      if name = "" then none
      else (((grouped ps).filter fun p => package.all (Text.alike p.name)).flatMap
        (·.types)).find? fun t => t.fullName == name && t.visibility.isVisible allowInternal := by
  obtain ⟨hname, hpackage⟩ := hnames.split_eq
  have htrim : ∀ n ∈ package, Text.trim n = n := by
    intro n hn
    cases hnames with
    | plain => cases hn
    | @qualified _ back =>
      by_cases hblank : Text.trim back = ""
      · simp [hblank] at hn
      · simp only [hblank, if_false, Option.mem_some_iff] at hn
        rw [← hn, Text.trim_trim]
  simp only [resolve, hname, hpackage, String.isEmpty_iff]
  rw [flatMap_packages h (g := fun n => package.all (Text.alike n))]
  · intro a b hab
    cases package <;> simp [Text.alike_congr_left hab]
  · intro n
    cases package with
    | none => rw [Option.all_none, Option.all_none]
    | some q => rw [Option.all_some, Option.all_some, Package.isNamed, htrim q rfl, gathered]
  · exact fun _ => rfl

theorem hasPackage_ofList (name : String) :
    (ofList ps).hasPackage name = ps.any fun p => Text.alike p.name (Text.trim name) := by
  rw [hasPackage, packages_ofList h, List.any_map, ← any_names]
  rfl

/-- A catalog shows its registrations. -/
theorem shows_ofList : Shows ps (ofList ps) where
  packages := packages_ofList h
  apart := by
    rw [packages_ofList h, List.pairwise_map]
    exact Text.pairwise_distinct _
  present := by
    intro p hp
    obtain ⟨n, hn, hnp⟩ := Text.mem_distinct_of_mem (List.mem_map_of_mem (f := (·.name)) hp)
    refine ⟨gathered ps n, ?_, hnp⟩
    rw [packages_ofList h]
    exact List.mem_map_of_mem hn
  once := grouped_perm ps
  candidates := candidates_ofList h
  named := exists_names
  resolve _ _ _ allowInternal := resolve_ofList h allowInternal
  hasPackage := hasPackage_ofList h

end Packages

end Catalog

namespace Sample

/-- Registrations of two names in turn, one of them in two spellings. -/
def interleaved : List Package :=
  [.of "Files" [.of "File" .sink []] [.of "Report" [] [] []],
    { Package.of "Pipes" [.of "Pipe" .sink []] [.of "Report" [] [] []] with autoDiscover := false },
    .of "FILES" [.of "Rolling" .sink []] []]

/-- The third registration joins the first one, and a package that is named twice is searched
once. -/
theorem shows_interleaved :
    (∀ p ∈ interleaved, Text.trim p.name = p.name) ∧
      Catalog.Shows interleaved (.ofList interleaved) ∧
      ((Catalog.ofList interleaved).candidates .sink .all false).map (·.name) =
        ["File", "Rolling"] ∧
      ((Catalog.ofList interleaved).candidates .sink (.named ["pipes", " Pipes "]) false).map
        (·.name) = ["Pipe"] ∧
      ((Catalog.ofList interleaved).resolve "Report, pipes, 1.0" false).map (·.package) =
        some "Pipes" := by
  have htrim : ∀ p ∈ interleaved, Text.trim p.name = p.name := by decide +kernel
  refine ⟨htrim, Catalog.shows_ofList htrim, ?_, ?_, ?_⟩ <;> decide +kernel

end Sample

end LogBinder
