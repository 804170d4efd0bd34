/-
  Log binder — a reload that changes nothing.

  When configuration has been read from a tree and nobody has set a switch,
  every watched switch holds what its place in that tree says.  To load the
  same tree again then sets no switch.  It is not unobservable, though:
  planning gives the standard level to a declared switch at a blank place,
  and the watcher of that switch tells of the same blank place.

  * `Session.Settled` : the watched switches agree with a tree;
  * `Binder.Reads` : the sessions in which configuration has been read from a
    tree, and no switch has been set;
  * `Binder.reload_of_reads` : what it does to load the tree again.
-/
import LogBinder.Proofs.Binding.Following
import LogBinder.Proofs.Binding.Service

namespace LogBinder

open Run (Returns)

/-! ## Blank places -/

/-- A blank text denotes no level. -/
theorem Level.read_of_isEmpty {text : String} (h : (Text.trim text).isEmpty = true) :
    Level.read text = .error ⟨text⟩ := by
  have hname : (all.find? fun l => Text.alike l.name "") = none := by decide
  have hordinal : readOrdinal "".toList = none := by decide
  rw [read, String.isEmpty_iff.1 h, hname]
  dsimp only
  rw [hordinal]

/-- What a level watcher tells of a blank place. -/
theorem Watcher.refusal_of_isBlankAt {w : Watcher} {n : Node} (h : w.IsBlankAt n) :
    ∃ text, n.value = some text ∧
      w.refusal n = some (.reloadFailure w.label n.path text (.level ⟨text⟩)) := by
  cases w with
  | level label cell =>
    obtain ⟨text, htext, hblank⟩ := h
    refine ⟨text, htext, ?_⟩
    simp only [refusal, htext, Option.getD_some, Level.read_of_isEmpty hblank, Watcher.label]
  | host | filter => exact h.elim

/-- A watcher that takes something over tells nothing. -/
theorem Watcher.refusal_of_offer {w : Watcher} {n : Node} {offered : Setting}
    (h : w.offer n = some offered) : w.refusal n = none := by
  cases w with
  | host tag => rfl
  | level label cell =>
    simp only [offer, refusal] at h ⊢
    cases hl : Level.read (n.value.getD "") with
    | ok l => rfl
    | error fault => simp [hl, Except.toOption] at h
  | filter label cell o =>
    simp only [offer, refusal] at h ⊢
    cases hv : n.value with
    | none => simp [hv] at h
    | some text =>
      cases ho : o.objection (Text.trim text) with
      | none => simp [ho]
      | some reason => simp [hv, Filter.offered_eq_none_iff.2 ⟨reason, ho⟩] at h

/-! ## Settled sessions -/

/-- The switch of a watcher holds what the watcher takes over from its place in a tree, or the
standard level if that place is blank. -/
def Subscription.Agrees (tree : Tree) (s : Session) (z : Subscription Watcher) : Prop :=
  ∀ x, z.watcher.switch? = some x → s.Knows x ∧
    (z.watcher.offer ⟨tree, z.segments⟩ = some (s.setting x) ∨
      z.watcher.IsBlankAt ⟨tree, z.segments⟩ ∧ s.setting x = .level .standard)

theorem Subscription.Agrees.spares {tree : Tree} {s t : Session} {z : Subscription Watcher}
    (h : z.Agrees tree s) (hst : s.Spares t) : z.Agrees tree t := by
  intro x hx
  obtain ⟨hknows, hagrees⟩ := h x hx
  refine ⟨hst.knows hknows, ?_⟩
  rw [hst.setting hknows]
  exact hagrees

/-- The switch of a watch has been made and agrees with its place, in a tree of some kind. -/
structure Watch.IsReady (P : Tree → Prop) (o : Options) (s : Session) (w : Watch) : Prop where
  tree : P w.node.tree
  known : s.Knows w.switch
  agrees : w.Agrees o s

theorem Watch.IsReady.spares {P : Tree → Prop} {o : Options} {w : Watch} {s t : Session}
    (h : w.IsReady P o s) (hst : s.Spares t) : w.IsReady P o t :=
  ⟨h.tree, hst.knows h.known, h.agrees.spares hst h.known⟩

theorem Watch.IsReady.subscription {P : Tree → Prop} {o : Options} {w : Watch} {s : Session}
    (id : Nat) (h : w.IsReady P o s) :
    Subscription.Agrees w.node.tree s ⟨id, w.node.segments, w.watcher o⟩ := by
  intro x hx
  obtain rfl : w.switch = x := Option.some.inj ((w.switch?_watcher o).symm.trans hx)
  exact ⟨h.known, h.agrees⟩

namespace Session

variable {P : Tree → Prop} {tree : Tree} {s t u : Session}

/-- The switches of some new watches agree with their places. -/
theorem Equips.isReady {o : Options} {ws : List Watch} (h : Equips o tree s ws t) (htree : P tree) :
    ∀ w ∈ ws, w.IsReady P o t := fun w hw =>
  ⟨h.places w hw ▸ htree, h.known w hw, h.agrees w hw⟩

/-- The watched switches agree with a tree. -/
def Settled (tree : Tree) (s : Session) : Prop :=
  ∀ z ∈ s.root.subscriptions, z.Agrees tree s

/-- Nothing has been loaded and no switch has been set, and whoever has begun to watch agrees with a
tree of some kind. -/
structure Settles (P : Tree → Prop) (s t : Session) : Prop where
  spares : s.Spares t
  tree : t.root.tree = s.root.tree
  joined : ∀ z ∈ t.root.subscriptions,
    z ∈ s.root.subscriptions ∨ ∃ tree, P tree ∧ z.Agrees tree t

theorem Settles.trans (h : s.Settles P t) (h' : t.Settles P u) : s.Settles P u := by
  refine ⟨h.spares.trans h'.spares, h'.tree.trans h.tree, ?_⟩
  intro z hz
  rcases h'.joined z hz with hz | hagrees
  · rcases h.joined z hz with hz | ⟨tree, htree, hagrees⟩
    · exact .inl hz
    · exact .inr ⟨tree, htree, hagrees.spares h'.spares⟩
  · exact .inr hagrees

/-- Nobody new watches. -/
theorem Settles.of_subset (hst : s.Spares t) (htree : t.root.tree = s.root.tree)
    (hsub : t.root.subscriptions ⊆ s.root.subscriptions) : s.Settles P t :=
  ⟨hst, htree, fun _ hz => .inl (hsub hz)⟩

theorem Drafted.settles (h : s.Drafted t) : s.Settles P t :=
  .of_subset h.spares (by rw [h.root]) (by rw [h.root]; exact fun _ hz => hz)

/-- If the watched switches agree with a tree, and the new ones do, then all do. -/
theorem Settles.settled (h : s.Settles (· = tree) t) (hs : s.Settled tree) : t.Settled tree := by
  intro z hz
  rcases h.joined z hz with hz | ⟨_, rfl, hagrees⟩
  · exact (hs z hz).spares h.spares
  · exact hagrees

end Session

/-- Switches that agree with their places begin to follow them. -/
theorem Watch.Started.settles {P : Tree → Prop} {o : Options} {ws : List Watch} {ids : List Nat}
    {s t : Session} (h : Started o ws s ids t) (hws : ∀ w ∈ ws, w.IsReady P o s) :
    s.Settles P t := by
  obtain ⟨events, rfl⟩ := h.rest
  have hspares : s.Spares { s.following (subscriptions o ws s.root.nextId) with events } :=
    ⟨List.prefix_rfl, List.prefix_rfl⟩
  refine ⟨hspares, rfl, ?_⟩
  intro z hz
  rcases List.mem_append.1 hz with hz | hz
  · exact .inl hz
  · obtain ⟨⟨w, id⟩, hmem, rfl⟩ := List.mem_map.1 hz
    have hready := hws w (List.fst_mem_of_mem_zipIdx hmem)
    exact .inr ⟨w.node.tree, hready.tree, (hready.subscription id).spares hspares⟩

theorem Nested.settles_kept {P : Tree → Prop} (c : Nested) (ids : List Nat) (s : Session) :
    s.Settles P (c.kept ids s) := by
  refine .of_subset (c.spares_kept ids s) ?_ (c.subscriptions_kept_sublist ids s).subset
  rw [kept]
  split
  · rw [Session.keep, Root.tree_unsubscribeAll]
  · rfl

/-! ## Reading configuration -/

namespace Binder

open Session (Settles)

variable {b : Binder} {P : Tree → Prop} {tree : Tree}

/-- A callback configures a place in a tree of some kind. -/
def IsIn (P : Tree → Prop) (_ : Session) (c : Nested) : Prop := P c.node.tree

/-- The callbacks that a catalog holds configure places in a tree. -/
def HoldsIn (b : Binder) (tree : Tree) : Prop :=
  ∀ v, b.catalog.Holds v → ∀ c, v.nested? = some c → c.node.tree = tree

theorem service_settles
    (hb : ∀ v, b.catalog.Holds v → ∀ c, v.nested? = some c → P c.node.tree) :
    Service b (Settles P) (IsIn P) where
  refl s := .of_subset (.refl s) rfl fun _ hz => hz
  trans h h' := h.trans h'
  allows _ hc := hc
  records s _ := .of_subset ⟨List.prefix_rfl, List.prefix_rfl⟩ rfl fun _ hz => hz
  planned {s c} _ := ((drafts_planOf c.kind c.node).drafted s).settles
  handed {s t c p v d} hc hplan hv hd := by
    rcases nested_of_planOf hplan hv hd with hheld | ⟨hbelow, -⟩
    · exact hb v hheld d hd
    · rw [IsIn, hbelow.tree]
      exact hc
  completed {s t u v c p ids} hc hplan hserved hstarted := by
    have hequips := equips_planOf hplan
    have hready := fun w hw => (hequips.isReady hc w hw).spares hserved.spares
    have hall := (hequips.drafted.settles.trans hserved).trans (hstarted.settles hready)
    exact hall.trans (c.settles_kept ids v)

/-- The sessions in which configuration has been read from a tree, and no switch has been set.  The
sources may be edited, and others may subscribe and unsubscribe. -/
inductive Reads (b : Binder) (tree : Tree) : Session → Prop
  | start {h : Host} {sources : List Source} {root : Root Watcher} :
      Root.load h sources = .ok root → Reads b tree (.start h root)
  | configure {s : Session} {n : Node} {σ : Type} (R : Receiver σ) (memory : σ) :
      Reads b tree s → n.tree = tree → Reads b tree (b.configureFor R n memory s).2
  | invoke {s : Session} {σ : Type} (R : Receiver σ) (v : Value) (memory : σ) :
      Reads b tree s → (∀ c, v.nested? = some c → c.node.tree = tree) →
      Reads b tree (b.invokeFor R v memory s).2
  | edit {s : Session} (host : Host) (sources : List Source) :
      Reads b tree s → Reads b tree (s.change (.edit host sources))
  | subscribe {s : Session} (segments : List String) (tag : Nat) :
      Reads b tree s → Reads b tree (s.subscribe segments (.host tag)).2
  | unsubscribe {s : Session} (id : Nat) :
      Reads b tree s → Reads b tree { s with root := s.root.unsubscribe id }

theorem settles_configureFor (hb : b.HoldsIn tree) {n : Node} (hn : n.tree = tree) {σ : Type}
    (R : Receiver σ) (memory : σ) (s : Session) :
    s.Settles (· = tree) (b.configureFor R n memory s).2 := by
  have hservice := service_settles (P := (· = tree)) hb
  -- The section is read as a sub-logger would read it.
  have hlogger : IsIn (· = tree) s ⟨0, .logger, n⟩ := hn
  have hplanned : s.Settles (· = tree) (b.plan n s).2 := hservice.planned hlogger
  rcases hservice.configureFor (R := R) hplanned
      (fun hplan v hv d hd => hservice.handed hlogger hplan hv hd) memory with
    ⟨e, after, t, hfailed, ht⟩ | ⟨p, t, ids, after, u, v, hconfigured, hplan, hu, hstarted⟩
  · rw [hfailed]
    exact ht
  · rw [hconfigured]
    have hequips := equips_plan hplan
    have hready := fun w hw => (hequips.isReady (P := (· = tree)) hn w hw).spares hu.spares
    exact (hequips.drafted.settles.trans hu).trans (hstarted.settles hready)

theorem settled_of_reads (hb : b.HoldsIn tree) {s : Session} (h : b.Reads tree s) :
    s.Settled tree := by
  induction h with
  | @start host sources root hr =>
    obtain ⟨loaded, -, hroot⟩ := Except.bind_eq_ok.1 hr
    cases hroot
    exact fun z hz => absurd hz List.not_mem_nil
  | configure R memory _ hn ih => exact (settles_configureFor hb hn R memory _).settled ih
  | invoke R v memory _ hv ih =>
    exact ((service_settles (P := (· = tree)) hb).invokeFor v memory _ hv).settled ih
  | edit host sources _ ih =>
    exact (Settles.of_subset ⟨List.prefix_rfl, List.prefix_rfl⟩ rfl fun _ hz => hz).settled ih
  | @subscribe s segments tag _ ih =>
    intro z hz
    rcases List.mem_append.1 hz with hz | hz
    · exact (ih z hz).spares ⟨List.prefix_rfl, List.prefix_rfl⟩
    · obtain rfl := List.mem_singleton.1 hz
      exact fun x hx => by cases hx
  | @unsubscribe s id _ ih =>
    intro z hz
    exact (ih z (List.mem_filter.1 hz).1).spares ⟨List.prefix_rfl, List.prefix_rfl⟩

end Binder

/-! ## Loading the same tree again -/

namespace Session

variable {tree : Tree} {s t : Session}

theorem setFilter_filter {cell : Nat} {expression : Option String}
    (hc : s.Knows (.filter, cell)) (h : Filter.normal expression = s.filter cell) :
    s.setFilter cell expression = s := by
  have hlt : cell < s.filters.length := hc
  have hget : s.filter cell = s.filters[cell] := by simp [filter, hlt]
  rw [setFilter, h, hget, List.set_getElem_self]

/-- A watcher that finds what its switch holds does nothing. -/
theorem notify_of_offer {w : Watcher} {n : Node} {x : Switch} (hx : w.switch? = some x)
    (hk : s.Knows x) (h : w.offer n = some (s.setting x)) : s.notify (w, n) = s := by
  cases w with
  | host tag => cases hx
  | level label cell =>
    cases hx
    rw [Watcher.offer] at h
    cases hl : Level.read (n.value.getD "") with
    | error fault => simp [hl, Except.toOption] at h
    | ok l =>
      obtain rfl : l = s.level cell := by simpa [hl, Except.toOption, setting] using h
      simp only [notify, followLevel, hl, if_pos]
  | filter label cell o =>
    cases hx
    rw [Watcher.offer] at h
    cases hv : n.value with
    | none => simp [hv] at h
    | some text =>
      cases ho : o.objection (Text.trim text) with
      | some reason => simp [hv, Filter.offered_eq_none_iff.2 ⟨reason, ho⟩] at h
      | none =>
        have hsame : Filter.normal (some text) = s.filter cell := by
          simpa [hv, Filter.offered_of_objection ho, setting] using h
        simp only [notify, followFilter, hv, ho]
        exact setFilter_filter hk hsame

/-- A level watcher at a blank place only tells of it. -/
theorem notify_of_isBlankAt {w : Watcher} {n : Node} (h : w.IsBlankAt n) :
    ∃ d, s.notify (w, n) = s.tell d := by
  cases w with
  | level label cell =>
    obtain ⟨text, htext, hblank⟩ := h
    simp only [notify, followLevel, htext, Option.getD_some, Level.read_of_isEmpty hblank]
    exact ⟨_, rfl⟩
  | host | filter => exact h.elim

/-- A watcher that agrees with its place sets nothing. -/
theorem unset_notify {z : Subscription Watcher} (h : z.Agrees tree s) :
    (s.notify (z.watcher, ⟨tree, z.segments⟩)).levels = s.levels ∧
      (s.notify (z.watcher, ⟨tree, z.segments⟩)).filters = s.filters := by
  cases hx : z.watcher.switch? with
  | none =>
    cases hw : z.watcher with
    | host tag => exact ⟨rfl, rfl⟩
    | level | filter => simp [hw, Watcher.switch?] at hx
  | some x =>
    obtain ⟨hknows, hoffer | ⟨hblank, -⟩⟩ := h x hx
    · rw [notify_of_offer hx hknows hoffer]
      exact ⟨rfl, rfl⟩
    · obtain ⟨d, hd⟩ := notify_of_isBlankAt hblank (s := s)
      rw [hd]
      exact ⟨rfl, rfl⟩

/-- If no switch is set, the other watchers still agree with their places. -/
theorem unset_foldl_notify {zs : List (Subscription Watcher)} (h : ∀ z ∈ zs, z.Agrees tree s) :
    ((zs.map fun z => (z.watcher, (⟨tree, z.segments⟩ : Node))).foldl notify s).levels = s.levels ∧
      ((zs.map fun z => (z.watcher, (⟨tree, z.segments⟩ : Node))).foldl notify s).filters =
        s.filters := by
  induction zs generalizing s with
  | nil => exact ⟨rfl, rfl⟩
  | cons z rest ih =>
    rw [List.map_cons, List.foldl_cons]
    obtain ⟨hlevels, hfilters⟩ := unset_notify (h z (List.mem_cons_self ..))
    have hspares : s.Spares (s.notify (z.watcher, ⟨tree, z.segments⟩)) :=
      ⟨hlevels ▸ List.prefix_rfl, hfilters ▸ List.prefix_rfl⟩
    have hrest := ih fun z' hz' => (h z' (List.mem_cons_of_mem _ hz')).spares hspares
    rw [hrest.1, hrest.2]
    exact ⟨hlevels, hfilters⟩

/-- A watcher that agrees with its place tells of it if and only if the place is blank. -/
theorem isSome_refusal_iff {z : Subscription Watcher} (h : z.Agrees tree s) :
    (z.watcher.refusal ⟨tree, z.segments⟩).isSome = true ↔
      z.watcher.IsBlankAt ⟨tree, z.segments⟩ := by
  constructor
  · intro htells
    cases hx : z.watcher.switch? with
    | none =>
      cases hw : z.watcher with
      | host tag => simp [hw, Watcher.refusal] at htells
      | level | filter => simp [hw, Watcher.switch?] at hx
    | some x =>
      rcases (h x hx).2 with hoffer | ⟨hblank, -⟩
      · rw [Watcher.refusal_of_offer hoffer] at htells
        cases htells
      · exact hblank
  · intro hblank
    obtain ⟨text, -, hrefusal⟩ := Watcher.refusal_of_isBlankAt hblank
    rw [hrefusal]
    rfl

/-- To load a tree again with which all switches agree. -/
theorem Settled.reload (h : s.Settled tree)
    (hsame : Tree.ofSources s.host s.root.sources = .ok tree) :
    ∃ t, s.reload = .ok t ∧ t.levels = s.levels ∧ t.filters = s.filters ∧
      t.diagnostics = s.diagnostics ++
        s.root.subscriptions.filterMap fun z => z.watcher.refusal ⟨tree, z.segments⟩ := by
  have hreload : s.reload = .ok ((s.root.subscriptions.map fun z =>
      (z.watcher, (⟨tree, z.segments⟩ : Node))).foldl notify
        { s with root := { s.root with tree := tree } }) := by
    rw [Session.reload, Root.reload, hsame]
    rfl
  have hagrees : ∀ z ∈ s.root.subscriptions,
      z.Agrees tree { s with root := { s.root with tree := tree } } := fun z hz =>
    (h z hz).spares ⟨List.prefix_rfl, List.prefix_rfl⟩
  obtain ⟨hlevels, hfilters⟩ := unset_foldl_notify hagrees
  refine ⟨_, hreload, hlevels, hfilters, ?_⟩
  rw [diagnostics_of_reload hreload, root_foldl_notify]

end Session

namespace Binder

variable {b : Binder} {tree : Tree} {s : Session}

/-- **To load the same tree again sets no switch, and tells of the blank places.**  If configuration
has been read from a tree, nobody has set a switch, and the sources yield the same tree, then a
reload succeeds, leaves every switch alone, and tells of nothing but the level switches at blank
places, of each once; so it goes unnoticed if and only if there is none. -/
theorem reload_of_reads (hb : b.HoldsIn tree) (h : b.Reads tree s)
    (hsame : Tree.ofSources s.host s.root.sources = .ok tree) :
    ∃ t, s.reload = .ok t ∧ t.levels = s.levels ∧ t.filters = s.filters ∧
      t.diagnostics = s.diagnostics ++
        s.root.subscriptions.filterMap (fun z => z.watcher.refusal ⟨tree, z.segments⟩) ∧
      (∀ z ∈ s.root.subscriptions, (z.watcher.refusal ⟨tree, z.segments⟩).isSome = true ↔
        z.watcher.IsBlankAt ⟨tree, z.segments⟩) ∧
      (t.diagnostics = s.diagnostics ↔
        ∀ z ∈ s.root.subscriptions, ¬ z.watcher.IsBlankAt ⟨tree, z.segments⟩) := by
  have hsettled := settled_of_reads hb h
  have htells := fun z hz => Session.isSome_refusal_iff (hsettled z hz)
  obtain ⟨t, hreload, hlevels, hfilters, hdiagnostics⟩ := hsettled.reload hsame
  refine ⟨t, hreload, hlevels, hfilters, hdiagnostics, htells, ?_⟩
  rw [hdiagnostics, List.append_right_eq_self, List.filterMap_eq_nil_iff]
  refine forall₂_congr ?_
  intro z hz
  rw [← htells z hz, Bool.not_eq_true, Option.isSome_eq_false_iff, Option.isNone_iff_eq_none]

end Binder

/-! ## A declared switch at a blank place -/

namespace Sample

/-- The entry of a declared level switch at a blank place. -/
def blankEntries : List Entry := [⟨"Logging:LevelSwitches:$app", some ""⟩]

/-- The session after it was read, and was written again as it was. -/
def blankSession : Session :=
  Session.change
    (bareBinder.configureFor bareReceiver ((listedRoot blankEntries).node "Logging") ()
      (.start ⟨[], []⟩ (listedRoot blankEntries))).2
    (.edit ⟨[], []⟩ [.listed "list" blankEntries])

/-- The switch has the standard level, and keeps it, but the reload tells of its place. -/
theorem reload_blankSession : ∃ t, blankSession.reload = .ok t ∧ t.levels = [.standard] ∧
    t.diagnostics = [.reloadFailure "$app" "Logging:LevelSwitches:$app" "" (.level ⟨""⟩)] := by
  have hholds : bareBinder.HoldsIn (listedRoot blankEntries).tree := fun v hv =>
    absurd hv (Catalog.not_holds (by decide) (by decide) v)
  have hreads : bareBinder.Reads (listedRoot blankEntries).tree blankSession :=
    .edit _ _ (.configure bareReceiver () (.start (load_listedRoot blankEntries)) rfl)
  obtain ⟨t, hreload, hlevels, -, hdiagnostics, -⟩ :=
    Binder.reload_of_reads hholds hreads (ofSources_listed blankEntries)
  have hsession : blankSession.levels = [.standard] ∧ blankSession.diagnostics ++
      blankSession.root.subscriptions.filterMap (fun z =>
        z.watcher.refusal ⟨(listedRoot blankEntries).tree, z.segments⟩) =
      [.reloadFailure "$app" "Logging:LevelSwitches:$app" "" (.level ⟨""⟩)] := by
    decide +kernel
  exact ⟨t, hreload, hlevels.trans hsession.1, hdiagnostics.trans hsession.2⟩

end Sample

end LogBinder
