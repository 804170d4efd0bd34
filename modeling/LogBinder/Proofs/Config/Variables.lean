/-
  Log binder — the order of the environment.

  An environment is a list of variables, but its order means nothing.  A
  source of variables sorts its entries by path, and by nothing else: entries
  of one path keep the order in which their variables came.  Several names
  stand for one path when they differ in the case of the scope, or in `__` and
  a colon, so the order of the environment shows exactly there.

  * `Entry.eq_of_allAt` : sorted entries are known by what they have at each path;
  * `Source.ofEnvironment_eq_iff` : two environments load alike when the values
    at each path come in one order;
  * `Source.load_environment` : which environments may come in any order.
-/
import LogBinder.Proofs.Config.Paths
import LogBinder.Proofs.Config.Readings

namespace LogBinder

/-! ## Entries sorted by path -/

namespace Entry

/-- The entries of a path. -/
def allAt (path : String) (entries : List Entry) : List Entry :=
  entries.filter fun e => e.path = path

theorem mem_allAt {path : String} {entries : List Entry} {e : Entry} :
    e ∈ allAt path entries ↔ e ∈ entries ∧ e.path = path := by
  simp [allAt]

/-- Entries with their paths in order. -/
abbrev Sorted (entries : List Entry) : Prop :=
  entries.Pairwise fun a b => a.path ≤ b.path

theorem path_le_trans (a b c : Entry) (hab : decide (a.path ≤ b.path) = true)
    (hbc : decide (b.path ≤ c.path) = true) : decide (a.path ≤ c.path) = true :=
  decide_eq_true (String.le_trans (of_decide_eq_true hab) (of_decide_eq_true hbc))

theorem path_le_total (a b : Entry) :
    (decide (a.path ≤ b.path) || decide (b.path ≤ a.path)) = true := by
  simpa using String.le_total a.path b.path

/-- Sorting is stable: the entries of a path keep their order. -/
theorem allAt_mergeSort (path : String) (entries : List Entry) :
    allAt path (entries.mergeSort fun a b => a.path ≤ b.path) = allAt path entries := by
  symm
  -- The entries of one path are in order already, so they survive as a sublist.
  have hsorted : (allAt path entries).Pairwise fun a b => decide (a.path ≤ b.path) = true := by
    refine List.pairwise_of_forall_mem_list fun a ha b hb => ?_
    rw [(mem_allAt.1 ha).2, (mem_allAt.1 hb).2]
    simp
  have hsub := List.sublist_mergeSort path_le_trans path_le_total hsorted List.filter_sublist
  have hfilter := hsub.filter fun e => decide (e.path = path)
  rw [allAt, List.filter_filter] at hfilter
  simp only [Bool.and_self] at hfilter
  refine hfilter.eq_of_length ?_
  exact ((List.mergeSort_perm ..).symm.filter _).length_eq

theorem sorted_mergeSort (entries : List Entry) :
    Sorted (entries.mergeSort fun a b => a.path ≤ b.path) := by
  simpa using List.pairwise_mergeSort path_le_trans path_le_total entries

theorem allAt_cons_self (e : Entry) (entries : List Entry) :
    allAt e.path (e :: entries) = e :: allAt e.path entries := by
  simp [allAt]

theorem allAt_cons (path : String) (e : Entry) (entries : List Entry) :
    allAt path (e :: entries) =
      if e.path = path then e :: allAt path entries else allAt path entries := by
  simp [allAt, List.filter_cons]

/-- The first of some sorted entries is not after any entry of a list with the same entries at each
path. -/
theorem head_le_of_allAt {a e : Entry} {as bs : List Entry} (hsorted : Sorted (a :: as))
    (h : ∀ path, allAt path (a :: as) = allAt path bs) (he : e ∈ bs) : a.path ≤ e.path := by
  have hmem : e ∈ allAt e.path (a :: as) := h e.path ▸ mem_allAt.2 ⟨he, rfl⟩
  rcases List.mem_cons.1 (mem_allAt.1 hmem).1 with rfl | hmem
  · exact String.le_refl _
  · exact List.rel_of_pairwise_cons hsorted hmem

/-- **Sorted entries are known by what they have at each path.** -/
theorem eq_of_allAt {as bs : List Entry} (has : Sorted as) (hbs : Sorted bs)
    (h : ∀ path, allAt path as = allAt path bs) : as = bs := by
  induction as generalizing bs with
  | nil =>
    cases bs with
    | nil => rfl
    | cons b bs =>
      have hb := h b.path
      rw [allAt_cons_self] at hb
      cases hb
  | cons a as ih =>
    cases bs with
    | nil =>
      have ha := h a.path
      rw [allAt_cons_self] at ha
      cases ha
    | cons b bs =>
      have hpath : a.path = b.path :=
        String.le_antisymm (head_le_of_allAt has h List.mem_cons_self)
          (head_le_of_allAt hbs (fun path => (h path).symm) List.mem_cons_self)
      have hhead := h a.path
      rw [allAt_cons_self, hpath, allAt_cons_self] at hhead
      obtain ⟨rfl, -⟩ := List.cons.inj hhead
      congr 1
      refine ih has.of_cons hbs.of_cons fun path => ?_
      have htail := h path
      rw [allAt_cons, allAt_cons] at htail
      split at htail
      · exact (List.cons.inj htail).2
      · exact htail

theorem path_le_of_getLast? {entries : List Entry} (hsorted : Sorted entries) {last e : Entry}
    (hlast : entries.getLast? = some last) (he : e ∈ entries) : e.path ≤ last.path := by
  obtain ⟨front, rfl⟩ := List.getLast?_eq_some_iff.1 hlast
  rcases List.mem_append.1 he with he | he
  · exact (List.pairwise_append.1 hsorted).2.2 e he last (List.mem_singleton_self _)
  · obtain rfl := List.mem_singleton.1 he
    exact String.le_refl _

/-- Where the last path has entries, the last of them comes last. -/
theorem getLast?_eq_of_sorted {entries : List Entry} (hsorted : Sorted entries) {path : String}
    (hle : ∀ e ∈ entries, e.path ≤ path) {e : Entry} (he : e ∈ allAt path entries) :
    entries.getLast? = (allAt path entries).getLast? := by
  obtain ⟨hmem, hpath⟩ := mem_allAt.1 he
  obtain ⟨last, hlast⟩ : ∃ last, entries.getLast? = some last :=
    ⟨_, List.getLast?_eq_some_getLast (List.ne_nil_of_mem hmem)⟩
  have hlastpath : last.path = path :=
    String.le_antisymm (hle last (List.mem_of_getLast? hlast))
      (hpath ▸ path_le_of_getLast? hsorted hlast hmem)
  obtain ⟨front, rfl⟩ := List.getLast?_eq_some_iff.1 hlast
  simp [allAt, hlastpath]

end Entry

/-! ## What variables say -/

namespace Source

/-- The entries of variables, in the order of the environment. -/
def variableEntries (scope : Option String) (env : Environment) : List Entry :=
  env.filterMap fun v => (variablePath scope v.1).map fun path => ⟨path, some v.2⟩

/-- The values of the variables that stand for a path, in the order of the environment. -/
def valuesAt (scope : Option String) (env : Environment) (path : String) : List String :=
  env.filterMap fun v => if variablePath scope v.1 = some path then some v.2 else none

/-- No two variables give different values to a path. -/
def IsUnambiguousAt (scope : Option String) (env : Environment) (path : String) : Prop :=
  ∀ v ∈ env, ∀ w ∈ env,
    variablePath scope v.1 = some path → variablePath scope w.1 = some path → v.2 = w.2

/-- No variable stands for a path that leads to the same place and is sorted after a path. -/
def Prevails (scope : Option String) (env : Environment) (path : String) : Prop :=
  ∀ v ∈ env, ∀ p, variablePath scope v.1 = some p → Text.alike p path = true → p ≤ path

variable {scope : Option String} {env env' : Environment}

theorem ofEnvironment_eq (scope : Option String) (env : Environment) :
    ofEnvironment scope env =
      (variableEntries scope env).mergeSort fun a b => a.path ≤ b.path := rfl

theorem mem_ofEnvironment {e : Entry} :
    e ∈ ofEnvironment scope env ↔
      ∃ v ∈ env, variablePath scope v.1 = some e.path ∧ e.value = some v.2 := by
  rw [ofEnvironment_eq, List.mem_mergeSort, variableEntries, List.mem_filterMap]
  refine exists_congr fun v => and_congr_right fun _ => ?_
  rw [Option.map_eq_some_iff]
  constructor
  · rintro ⟨path, hpath, rfl⟩
    exact ⟨hpath, rfl⟩
  · rintro ⟨hpath, hvalue⟩
    exact ⟨e.path, hpath, by rw [← hvalue]⟩

theorem mem_valuesAt {path value : String} :
    value ∈ valuesAt scope env path ↔
      ∃ v ∈ env, variablePath scope v.1 = some path ∧ v.2 = value := by
  simp [valuesAt, List.mem_filterMap]

theorem allAt_variableEntries (scope : Option String) (env : Environment) (path : String) :
    Entry.allAt path (variableEntries scope env) =
      (valuesAt scope env path).map fun value => ⟨path, some value⟩ := by
  induction env with
  | nil => rfl
  | cons v env ih =>
    rw [variableEntries, valuesAt, List.filterMap_cons, List.filterMap_cons]
    cases hpath : variablePath scope v.1 with
    | none => simpa [variableEntries, valuesAt] using ih
    | some p =>
      by_cases hp : p = path
      · subst hp
        simpa [Entry.allAt_cons, variableEntries, valuesAt] using ih
      · simpa [Entry.allAt_cons, hp, variableEntries, valuesAt] using ih

theorem allAt_ofEnvironment (scope : Option String) (env : Environment) (path : String) :
    Entry.allAt path (ofEnvironment scope env) =
      (valuesAt scope env path).map fun value => ⟨path, some value⟩ := by
  rw [ofEnvironment_eq, Entry.allAt_mergeSort, allAt_variableEntries]

theorem sorted_ofEnvironment (scope : Option String) (env : Environment) :
    Entry.Sorted (ofEnvironment scope env) :=
  Entry.sorted_mergeSort _

/-- **Two environments load alike exactly when the values at each path come in one order.** -/
theorem ofEnvironment_eq_iff :
    ofEnvironment scope env' = ofEnvironment scope env ↔
      ∀ path, valuesAt scope env' path = valuesAt scope env path := by
  constructor
  · intro h path
    have hall := congrArg (Entry.allAt path) h
    rw [allAt_ofEnvironment, allAt_ofEnvironment] at hall
    refine Function.Injective.list_map (fun a b hab => ?_) hall
    simpa using hab
  · intro h
    refine Entry.eq_of_allAt (sorted_ofEnvironment ..) (sorted_ofEnvironment ..) fun path => ?_
    rw [allAt_ofEnvironment, allAt_ofEnvironment, h]

/-! ## Other orders -/

/-- Values that are all one are the same in any order. -/
theorem valuesAt_eq_of_perm {path : String} (h : IsUnambiguousAt scope env path)
    (hperm : env'.Perm env) : valuesAt scope env' path = valuesAt scope env path := by
  have hvalues : (valuesAt scope env' path).Perm (valuesAt scope env path) := hperm.filterMap _
  have hany (l : List String) : l.Pairwise fun _ _ => True :=
    List.pairwise_of_forall fun _ _ => trivial
  refine hvalues.eq_of_pairwise (fun a b ha hb _ _ => ?_) (hany _) (hany _)
  obtain ⟨v, hv, hvpath, rfl⟩ := mem_valuesAt.1 ha
  obtain ⟨w, hw, hwpath, rfl⟩ := mem_valuesAt.1 hb
  exact h v (hperm.mem_iff.1 hv) w hw hvpath hwpath

/-- A variable can come last. -/
theorem getLast?_valuesAt {v : String × String} {path : String}
    (h : variablePath scope v.1 = some path) :
    (valuesAt scope (env ++ [v]) path).getLast? = some v.2 := by
  simp [valuesAt, h]

/-- Values that are the same in any order are all one. -/
theorem isUnambiguousAt_of_perm {path : String}
    (h : ∀ env' : Environment, env'.Perm env →
      (valuesAt scope env' path).getLast? = (valuesAt scope env path).getLast?) :
    IsUnambiguousAt scope env path := by
  intro v hv w hw hvpath hwpath
  have hlast {u : String × String} (hu : u ∈ env) (hpath : variablePath scope u.1 = some path) :
      (valuesAt scope env path).getLast? = some u.2 := by
    have hperm : (env.erase u ++ [u]).Perm env :=
      (List.perm_append_singleton u _).trans (List.perm_cons_erase hu).symm
    rw [← h _ hperm, getLast?_valuesAt hpath]
  exact Option.some.inj ((hlast hv hvpath).symm.trans (hlast hw hwpath))

theorem ofEnvironment_eq_of_perm (h : ∀ path, IsUnambiguousAt scope env path)
    (hperm : env'.Perm env) : ofEnvironment scope env' = ofEnvironment scope env :=
  ofEnvironment_eq_iff.2 fun path => valuesAt_eq_of_perm (h path) hperm

/-! ## Trees of variables -/

theorem colons_ne_nil {cs : List Char} (h : cs ≠ []) : colons cs ≠ [] := by
  unfold colons
  split
  · exact absurd rfl h
  · simp
  · simp

/-- A variable that stands for a path stands for more than the empty one. -/
theorem variablePath_ne_empty {name path : String} (h : variablePath scope name = some path) :
    path ≠ "" := by
  simp only [variablePath, Option.ite_none_right_eq_some, Bool.and_eq_true] at h
  obtain ⟨⟨-, hrest⟩, h⟩ := h
  obtain rfl := Option.some.inj h
  intro hempty
  have := congrArg String.toList hempty
  simp at this
  exact colons_ne_nil (by simpa using hrest) this

/-- Of the paths that lead to a place, the last one prevails. -/
theorem exists_prevails {v : String × String} {path : String} (hv : v ∈ env)
    (hpath : variablePath scope v.1 = some path) :
    ∃ w ∈ env, ∃ p, variablePath scope w.1 = some p ∧ Text.alike p path = true ∧
      Prevails scope env p := by
  let there := (ofEnvironment scope env).filter fun e => Text.alike e.path path
  have hsorted : Entry.Sorted there := (sorted_ofEnvironment scope env).filter _
  have hthere {w : String × String} (hw : w ∈ env) {p : String}
      (hp : variablePath scope w.1 = some p) (halike : Text.alike p path = true) :
      (⟨p, some w.2⟩ : Entry) ∈ there :=
    List.mem_filter.2 ⟨mem_ofEnvironment.2 ⟨w, hw, hp, rfl⟩, halike⟩
  obtain ⟨last, hlast⟩ : ∃ last, there.getLast? = some last :=
    ⟨_, List.getLast?_eq_some_getLast
      (List.ne_nil_of_mem (hthere hv hpath (Text.alike_refl _)))⟩
  obtain ⟨hmem, halike⟩ := List.mem_filter.1 (List.mem_of_getLast? hlast)
  obtain ⟨w, hw, hwpath, -⟩ := mem_ofEnvironment.1 hmem
  refine ⟨w, hw, last.path, hwpath, halike, fun u hu p hp hplike => ?_⟩
  exact Entry.path_le_of_getLast? hsorted hlast (hthere hu hp (Text.alike_trans hplike halike))

theorem leadsTo_iff_alike {keys : List String} {path : String}
    (hkeys : keys.map Text.folded = (Text.split ':' path).map Text.folded) {e : Entry}
    (he : e ∈ ofEnvironment scope env) :
    Entry.leadsTo keys e = true ↔ Text.alike e.path path = true := by
  obtain ⟨v, -, hpath, -⟩ := mem_ofEnvironment.1 he
  rw [Entry.leadsTo, hkeys, Entry.keys, ← Text.folded_split_eq_iff, Bool.and_eq_true, beq_iff_eq]
  exact ⟨fun h => h.2.symm, fun h => ⟨decide_eq_true (variablePath_ne_empty hpath), h.symm⟩⟩

/-- **The scalar at a place is the last value of the path that prevails there.** -/
theorem lastScalar_ofEnvironment {v : String × String} {path : String} (hv : v ∈ env)
    (hpath : variablePath scope v.1 = some path) (hprevails : Prevails scope env path)
    {keys : List String} (hkeys : keys.map Text.folded = (Text.split ':' path).map Text.folded) :
    Entry.lastScalar (ofEnvironment scope env) keys = (valuesAt scope env path).getLast? := by
  let there := (ofEnvironment scope env).filter (Entry.leadsTo keys)
  have hle : ∀ e ∈ there, e.path ≤ path := by
    intro e he
    obtain ⟨hmem, hleads⟩ := List.mem_filter.1 he
    obtain ⟨w, hw, hwpath, -⟩ := mem_ofEnvironment.1 hmem
    exact hprevails w hw _ hwpath ((leadsTo_iff_alike hkeys hmem).1 hleads)
  -- Every entry of the path leads to the place.
  have hall : Entry.allAt path there =
      (valuesAt scope env path).map fun value => ⟨path, some value⟩ := by
    rw [← allAt_ofEnvironment, Entry.allAt, Entry.allAt, List.filter_filter]
    refine List.filter_congr fun e he => ?_
    by_cases hp : e.path = path
    · simp [hp, (leadsTo_iff_alike hkeys he).2]
    · simp [hp]
  have hvalues : v.2 ∈ valuesAt scope env path := mem_valuesAt.2 ⟨v, hv, hpath, rfl⟩
  have hlast := Entry.getLast?_eq_of_sorted ((sorted_ofEnvironment scope env).filter _) hle
    (hall ▸ List.mem_map_of_mem hvalues)
  rw [hall, List.getLast?_map,
    List.getLast?_eq_some_getLast (List.ne_nil_of_mem hvalues)] at hlast
  obtain ⟨front, hfront⟩ := List.getLast?_eq_some_iff.1 hlast
  rw [Entry.lastScalar, show (ofEnvironment scope env).filter (Entry.leadsTo keys) = _ from hfront,
    List.getLast?_eq_some_getLast (List.ne_nil_of_mem hvalues)]
  simp

theorem paths_ofEnvironment (hperm : env'.Perm env) :
    (ofEnvironment scope env').map Entry.path = (ofEnvironment scope env).map Entry.path := by
  have hentries : (ofEnvironment scope env').Perm (ofEnvironment scope env) :=
    (List.mergeSort_perm ..).trans ((hperm.filterMap _).trans (List.mergeSort_perm ..).symm)
  refine (hentries.map _).eq_of_pairwise (fun _ _ _ _ => String.le_antisymm) ?_ ?_
  · exact List.pairwise_map.2 (sorted_ofEnvironment scope env')
  · exact List.pairwise_map.2 (sorted_ofEnvironment scope env)

/-- Environments read alike in any order if no prevailing path has two values. -/
theorem readsAs_of_perm (h : ∀ path, Prevails scope env path → IsUnambiguousAt scope env path)
    (hperm : env'.Perm env) :
    Entry.ReadsAs (ofEnvironment scope env') (ofEnvironment scope env) where
  paths := paths_ofEnvironment hperm
  scalars keys := by
    by_cases hthere : ∃ v ∈ env, ∃ p, variablePath scope v.1 = some p ∧
        keys.map Text.folded = (Text.split ':' p).map Text.folded
    · obtain ⟨v, hv, p, hp, hkeys⟩ := hthere
      obtain ⟨w, hw, q, hq, halike, hprevails⟩ := exists_prevails hv hp
      rw [← Text.folded_split_eq_iff] at halike
      rw [lastScalar_ofEnvironment hw hq hprevails (hkeys.trans halike.symm),
        lastScalar_ofEnvironment (hperm.mem_iff.2 hw) hq
          (fun u hu => hprevails u (hperm.mem_iff.1 hu)) (hkeys.trans halike.symm),
        valuesAt_eq_of_perm (h q hprevails) hperm]
    · have hnone {env₀ : Environment} (hmem : ∀ v ∈ env₀, v ∈ env) :
          (ofEnvironment scope env₀).filter (Entry.leadsTo keys) = [] := by
        refine List.filter_eq_nil_iff.2 fun e he hleads => hthere ?_
        obtain ⟨v, hv, hp, -⟩ := mem_ofEnvironment.1 he
        refine ⟨v, hmem v hv, e.path, hp, ?_⟩
        simp only [Entry.leadsTo, Bool.and_eq_true, beq_iff_eq] at hleads
        exact hleads.2
      rw [Entry.lastScalar, Entry.lastScalar, hnone fun v hv => hperm.mem_iff.1 hv,
        hnone fun _ hv => hv]

/-- A tree that is the same in any order shows that no prevailing path has two values. -/
theorem isUnambiguousAt_of_ofEntries
    (h : ∀ env' : Environment, env'.Perm env →
      Tree.ofEntries (ofEnvironment scope env') = Tree.ofEntries (ofEnvironment scope env))
    {path : String} (hprevails : Prevails scope env path) : IsUnambiguousAt scope env path := by
  by_cases hthere : ∃ v ∈ env, variablePath scope v.1 = some path
  · obtain ⟨v, hv, hpath⟩ := hthere
    refine isUnambiguousAt_of_perm fun env' hperm => ?_
    have hscalar := Tree.lastScalar_eq_of_ofEntries (h env' hperm) (Text.split ':' path)
    rwa [lastScalar_ofEnvironment hv hpath hprevails rfl,
      lastScalar_ofEnvironment (hperm.mem_iff.2 hv) hpath
        (fun u hu => hprevails u (hperm.mem_iff.1 hu)) rfl] at hscalar
  · exact fun v hv _ _ hpath => absurd ⟨v, hv, hpath⟩ hthere

/-- A source loads alike in any order of the environment if it reads no prevailing path with two
values. -/
theorem loadsAs_of_perm {s : Source}
    (h : ∀ scope, s = environment scope →
      ∀ path, Prevails scope env path → IsUnambiguousAt scope env path)
    (hperm : env'.Perm env) (files : List (String × ByteArray)) :
    LoadsAs (s.load ⟨env', files⟩) (s.load ⟨env, files⟩) := by
  cases s with
  | environment scope => exact .ok (readsAs_of_perm (h scope rfl) hperm)
  | json | toml | memory | listed | failing => exact .refl _

theorem ofSources_environment (h : Host) (scope : Option String) :
    Tree.ofSources h [environment scope] =
      .ok (Tree.ofEntries (ofEnvironment scope h.environment)) := by
  change Except.ok (Tree.ofEntries [ofEnvironment scope h.environment].flatten) = _
  rw [List.flatten_singleton]

/-- **When the order of the environment matters.**  The entries of variables are the same in every
order exactly when no path has two values.  The tree shows less: it is the same exactly when no path
has two values that is the last of those that lead to its place; and then trees merged from more
sources are the same, too. -/
theorem load_environment (scope : Option String) (env : Environment) :
    ((∀ env' files, env'.Perm env →
        (environment scope).load ⟨env', files⟩ = (environment scope).load ⟨env, files⟩) ↔
      ∀ path, IsUnambiguousAt scope env path) ∧
    ((∀ env' files, env'.Perm env → Tree.ofSources ⟨env', files⟩ [environment scope] =
        Tree.ofSources ⟨env, files⟩ [environment scope]) ↔
      ∀ path, Prevails scope env path → IsUnambiguousAt scope env path) ∧
    ∀ sources : List Source,
      (∀ scope, environment scope ∈ sources →
        ∀ path, Prevails scope env path → IsUnambiguousAt scope env path) →
      ∀ env' files, env'.Perm env →
        Tree.ofSources ⟨env', files⟩ sources = Tree.ofSources ⟨env, files⟩ sources := by
  have htrees {sources : List Source} (h : ∀ scope, environment scope ∈ sources →
      ∀ path, Prevails scope env path → IsUnambiguousAt scope env path) (env' files)
      (hperm : env'.Perm env) :
      Tree.ofSources ⟨env', files⟩ sources = Tree.ofSources ⟨env, files⟩ sources :=
    Tree.ofSources_eq fun s hs => loadsAs_of_perm (fun scope he => h scope (he ▸ hs)) hperm files
  refine ⟨⟨fun h path => ?_, fun h env' files hperm => ?_⟩,
    ⟨fun h path hprevails => ?_, fun h => ?_⟩, fun sources h => htrees h⟩
  · refine isUnambiguousAt_of_perm fun env' hperm => ?_
    rw [ofEnvironment_eq_iff.1 (Except.ok.inj (h env' [] hperm)) path]
  · exact congrArg Except.ok (ofEnvironment_eq_of_perm h hperm)
  · refine isUnambiguousAt_of_ofEntries (fun env' hperm => ?_) hprevails
    have htree := h env' [] hperm
    rw [ofSources_environment, ofSources_environment] at htree
    exact Except.ok.inj htree
  · refine htrees fun scope' hscope => ?_
    obtain rfl := Source.environment.inj (List.mem_singleton.1 hscope)
    exact h

end Source

namespace Sample

/-- Two variables that the case of the scope tells apart. -/
def clashing : Environment := [("APP_Level", "Debug"), ("app_Level", "Error")]

/-- With the scope the order of the two variables decides the level; without it they stand for two
paths, and the order does not matter. -/
theorem load_environment_clashing :
    (¬ ∀ env' files, env'.Perm clashing → (Source.environment (some "APP_")).load ⟨env', files⟩ =
        (Source.environment (some "APP_")).load ⟨clashing, files⟩) ∧
      (¬ ∀ env' files, env'.Perm clashing →
        Tree.ofSources ⟨env', files⟩ [.environment (some "APP_")] =
          Tree.ofSources ⟨clashing, files⟩ [.environment (some "APP_")]) ∧
      ∀ env' files, env'.Perm clashing →
        Tree.ofSources ⟨env', files⟩ [.environment none] =
          Tree.ofSources ⟨clashing, files⟩ [.environment none] := by
  have hambiguous : ¬ Source.IsUnambiguousAt (some "APP_") clashing "Level" := fun h =>
    absurd (h ("APP_Level", "Debug") (by simp [clashing]) ("app_Level", "Error")
      (by simp [clashing]) (by decide +kernel) (by decide +kernel)) (by decide)
  have hprevails : Source.Prevails (some "APP_") clashing "Level" := by
    have hlevel : ∀ v ∈ clashing, Source.variablePath (some "APP_") v.1 = some "Level" := by
      decide +kernel
    intro v hv p hp _
    obtain rfl := Option.some.inj (hp.symm.trans (hlevel v hv))
    exact String.le_refl _
  have hscoped := Source.load_environment (some "APP_") clashing
  refine ⟨fun h => hambiguous (hscoped.1.1 h _), fun h => hambiguous (hscoped.2.1.1 h _ hprevails),
    hscoped.2.2 _ fun scope hscope path _ => ?_⟩
  obtain rfl := Source.environment.inj (List.mem_singleton.1 hscope)
  have hname : ∀ v ∈ clashing, Source.variablePath none v.1 = some v.1 := by decide +kernel
  have hvalues : ∀ v ∈ clashing, ∀ w ∈ clashing, v.1 = w.1 → v.2 = w.2 := by decide
  intro v hv w hw hvpath hwpath
  refine hvalues v hv w hw (Option.some.inj ?_)
  rw [← hname v hv, ← hname w hw, hvpath, hwpath]

end Sample

end LogBinder
