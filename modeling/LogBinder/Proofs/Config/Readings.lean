/-
  Log binder — trees that read alike.

  A merged tree shows of its entries their paths, in order, and the last
  scalar put at each place.  So two lists of entries with the same paths give
  one tree exactly when they read alike, and lists that read alike may stand
  for each other among the entries of other sources.

  * `Tree.grown_eq_of_values` : a grown tree is known by the keys of its history
    and the scalars at its places;
  * `Entry.ReadsAs` : the same paths and the same scalars;
  * `Tree.ofEntries_eq_of_readsAs`, `Tree.lastScalar_eq_of_ofEntries` : it is
    what a tree shows;
  * `Tree.ofSources_eq` : sources whose entries read alike give one tree.
-/
import LogBinder.Config.Root
import LogBinder.Proofs.Config.History
import Mathlib.Algebra.Order.BigOperators.Group.List
import Mathlib.Algebra.Order.Ring.Nat

namespace LogBinder

/-! ## The keys of a history -/

namespace History

/-- The lists of keys of a history. -/
def paths (h : History) : List (List String) :=
  h.map Prod.fst

theorem heads_eq_of_paths {h h' : History} (hpaths : h.paths = h'.paths) : h.heads = h'.heads := by
  have heads (h : History) : h.heads = h.paths.filterMap List.head? := by
    rw [heads, paths, List.filterMap_map]
    rfl
  rw [heads, heads, hpaths]

/-- What is left of keys below a key. -/
def keysBelow (key : String) : List String → Option (List String)
  | [] => none
  | k :: rest => if Text.alike k key then some rest else none

theorem paths_below (h : History) (key : String) :
    (h.below key).paths = h.paths.filterMap (keysBelow key) := by
  rw [paths, below, paths, List.map_filterMap, List.filterMap_map]
  congr 1
  funext e
  obtain ⟨keys, v⟩ := e
  cases keys with
  | nil => rfl
  | cons k rest => by_cases hk : Text.alike k key = true <;> simp [entryBelow, keysBelow, hk]

/-- The keys below a key are fewer. -/
theorem length_le_of_mem_below {h : History} {n : Nat} (hn : ∀ keys ∈ h.paths, keys.length ≤ n + 1)
    {key : String} : ∀ keys ∈ (h.below key).paths, keys.length ≤ n := by
  intro keys hkeys
  rw [paths_below] at hkeys
  obtain ⟨l, hl, hbelow⟩ := List.mem_filterMap.1 hkeys
  cases l with
  | nil => cases hbelow
  | cons k rest =>
    rw [keysBelow] at hbelow
    split at hbelow
    · obtain rfl := Option.some.inj hbelow
      exact Nat.le_of_succ_le_succ (hn _ hl)
    · cases hbelow

end History

namespace Tree

theorem eq_of_parts {t u : Tree} (hkey : t.key = u.key) (hvalue : t.value = u.value)
    (hchildren : t.children = u.children) : t = u := by
  obtain ⟨k, v, children⟩ := t
  obtain ⟨_, _, _⟩ := u
  cases hkey
  cases hvalue
  cases hchildren
  rfl

/-- **A grown tree is known by the keys of its history and the scalars at its places.** -/
theorem grown_eq_of_values {h h' : History} (hpaths : h.paths = h'.paths)
    (hvalues : ∀ keys, (h.under keys).value = (h'.under keys).value) (key : String) :
    grown key h = grown key h' := by
  -- Below a key the lists of keys are shorter, so their length bounds the depth.
  obtain ⟨n, hn⟩ : ∃ n, ∀ keys ∈ h.paths, keys.length ≤ n :=
    ⟨(h.paths.map List.length).sum, fun keys hkeys =>
      List.single_le_sum (by simp) _ (List.mem_map_of_mem hkeys)⟩
  induction n generalizing h h' key with
  | zero =>
    have hheads : h.heads = [] := by
      rw [History.heads, List.filterMap_eq_nil_iff]
      intro e he
      rw [List.eq_nil_of_length_eq_zero (Nat.le_zero.1 (hn _ (List.mem_map_of_mem he)))]
      rfl
    refine eq_of_parts (by simp) ?_ ?_
    · rw [grown_value, grown_value]
      exact hvalues []
    · rw [grown_children, grown_children, ← History.heads_eq_of_paths hpaths, hheads]
      rfl
  | succ n ih =>
    refine eq_of_parts (by simp) ?_ ?_
    · rw [grown_value, grown_value]
      exact hvalues []
    · rw [grown_children, grown_children, ← History.heads_eq_of_paths hpaths]
      refine List.map_congr_left fun k _ => ih ?_ (fun keys => hvalues (k :: keys)) k
        (History.length_le_of_mem_below hn)
      rw [History.paths_below, History.paths_below, hpaths]

end Tree

/-! ## Entries that read alike -/

namespace Entry

/-- Whether entries have the same paths in order and put the same scalars at every place. -/
structure ReadsAs (as bs : List Entry) : Prop where
  paths : as.map path = bs.map path
  scalars : ∀ keys, lastScalar as keys = lastScalar bs keys

theorem ReadsAs.refl (as : List Entry) : ReadsAs as as := ⟨rfl, fun _ => rfl⟩

/-- A later scalar prevails. -/
theorem lastScalar_append (as bs : List Entry) (keys : List String) :
    lastScalar (as ++ bs) keys = (lastScalar bs keys).or (lastScalar as keys) := by
  rw [lastScalar, List.filter_append, List.filterMap_append, List.getLast?_append]
  rfl

theorem ReadsAs.append {as as' bs bs' : List Entry} (ha : ReadsAs as as') (hb : ReadsAs bs bs') :
    ReadsAs (as ++ bs) (as' ++ bs') where
  paths := by rw [List.map_append, List.map_append, ha.paths, hb.paths]
  scalars keys := by
    rw [lastScalar_append, lastScalar_append, ha.scalars, hb.scalars]

theorem paths_history (entries : List Entry) :
    (history entries).paths =
      ((entries.map path).filter fun p => p ≠ "").map (Text.split ':') := by
  rw [history, History.paths, List.filter_map, List.map_map, List.map_map]
  rfl

end Entry

namespace Tree

/-- Entries that read alike give one tree. -/
theorem ofEntries_eq_of_readsAs {as bs : List Entry} (h : Entry.ReadsAs as bs) :
    ofEntries as = ofEntries bs := by
  rw [ofEntries_eq_grown, ofEntries_eq_grown]
  refine grown_eq_of_values ?_ (fun keys => ?_) ""
  · rw [Entry.paths_history, Entry.paths_history, h.paths]
  · rw [Entry.value_under_history, Entry.value_under_history, h.scalars]

/-- A tree shows the scalars of its entries. -/
theorem lastScalar_eq_of_ofEntries {as bs : List Entry} (h : ofEntries as = ofEntries bs)
    (keys : List String) : Entry.lastScalar as keys = Entry.lastScalar bs keys := by
  have hvalue (entries : List Entry) :
      Entry.lastScalar entries keys = ((ofEntries entries).descend keys).bind Tree.value := by
    have hexists := isSome_descend_iff entries keys
    cases ht : (ofEntries entries).descend keys with
    | some t => exact (value_of_descend ht).symm
    | none =>
      rw [ht] at hexists
      -- No entry leads down to a place that does not exist.
      have hnone : entries.filter (Entry.leadsTo keys) = [] := by
        refine List.filter_eq_nil_iff.2 fun e he hleads => ?_
        exact absurd (hexists.2 (.inr ⟨e, he, (Entry.leadsTo_iff.1 hleads).1⟩)) (by simp)
      rw [Entry.lastScalar, hnone]
      rfl
  rw [hvalue, hvalue, h]

end Tree

/-! ## Sources that read alike -/

namespace Source

/-- Two loads fail alike, or give entries that read alike. -/
inductive LoadsAs : Except ConfigError (List Entry) → Except ConfigError (List Entry) → Prop
  | error (e : ConfigError) : LoadsAs (.error e) (.error e)
  | ok {as bs : List Entry} (h : Entry.ReadsAs as bs) : LoadsAs (.ok as) (.ok bs)

theorem LoadsAs.refl (x : Except ConfigError (List Entry)) : LoadsAs x x := by
  cases x with
  | error e => exact .error e
  | ok as => exact .ok (.refl as)

theorem LoadsAs.append {x x' y y' : Except ConfigError (List Entry)} (hx : LoadsAs x x')
    (hy : LoadsAs y y') :
    LoadsAs (do return (← x) ++ (← y)) (do return (← x') ++ (← y')) := by
  cases hx with
  | error e => exact .error e
  | ok ha =>
    cases hy with
    | error e => exact .error e
    | ok hb => exact .ok (ha.append hb)

theorem LoadsAs.tree {x y : Except ConfigError (List Entry)} (h : LoadsAs x y) :
    Tree.ofEntries <$> x = Tree.ofEntries <$> y := by
  cases h with
  | error e => rfl
  | ok hread => exact congrArg Except.ok (Tree.ofEntries_eq_of_readsAs hread)

/-- The entries of sources, one after the other. -/
def loadAll (h : Host) (sources : List Source) : Except ConfigError (List Entry) :=
  List.flatten <$> sources.mapM fun s => s.load h

theorem loadAll_cons (h : Host) (s : Source) (sources : List Source) :
    loadAll h (s :: sources) = do return (← s.load h) ++ (← loadAll h sources) := by
  rw [loadAll, loadAll, List.mapM_cons]
  cases s.load h with
  | error e => rfl
  | ok as => cases sources.mapM fun s => s.load h <;> rfl

theorem loadAll_loadsAs {h h' : Host} {sources : List Source}
    (hloads : ∀ s ∈ sources, LoadsAs (s.load h') (s.load h)) :
    LoadsAs (loadAll h' sources) (loadAll h sources) := by
  induction sources with
  | nil => exact .refl _
  | cons s sources ih =>
    rw [List.forall_mem_cons] at hloads
    rw [loadAll_cons, loadAll_cons]
    exact hloads.1.append (ih hloads.2)

end Source

/-- **Sources whose entries read alike give one tree.** -/
theorem Tree.ofSources_eq {h h' : Host} {sources : List Source}
    (hloads : ∀ s ∈ sources, Source.LoadsAs (s.load h') (s.load h)) :
    ofSources h' sources = ofSources h sources := by
  have hall (h : Host) : ofSources h sources = ofEntries <$> Source.loadAll h sources := by
    rw [ofSources, Source.loadAll]
    cases sources.mapM fun s => s.load h <;> rfl
  rw [hall, hall]
  exact (Source.loadAll_loadsAs hloads).tree

end LogBinder
