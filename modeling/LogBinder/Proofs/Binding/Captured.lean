/-
  Log binder — switches that are read before the configuration is loaded again.

  A reader keeps the tree that was loaded when it was made.  Its plan gives
  every switch the level of that tree, and the switch is watched from the time
  on when the plan is applied.  What is loaded in between reaches no switch:
  the next reload does.

  * `Node.level?` : the level that stands at a place;
  * `Subscription.Lags` : a watched level switch that was read from an earlier
    tree;
  * `Reader.lags_of_applied` : all level switches that are watched when a plan
    has been applied.
-/
import LogBinder.Binding.Reader
import LogBinder.Proofs.Binding.Attained
import LogBinder.Proofs.Binding.Settled

namespace LogBinder

open Run (Returns)

/-! ## Levels at places -/

/-- The level that the text of a place denotes, if it denotes one. -/
def Node.level? (n : Node) : Option Level := (Level.read (n.value.getD "")).toOption

/-- A level switch holds the level that its place says at present, if it says one. -/
def Session.IsCurrent (s : Session) (segments : List String) (cell : Nat) : Prop :=
  ∀ l, Node.level? ⟨s.root.tree, segments⟩ = some l → s.level cell = l

theorem Watcher.offer_level (label : String) (cell : Nat) (n : Node) :
    (level label cell).offer n = n.level?.map .level := rfl

/-- A level watcher at a blank place takes nothing over. -/
theorem Watcher.level?_of_isBlankAt {w : Watcher} {n : Node} (h : w.IsBlankAt n) :
    n.level? = none := by
  cases w with
  | level label cell =>
    obtain ⟨text, htext, hblank⟩ := h
    rw [Node.level?, htext, Option.getD_some, Level.read_of_isEmpty hblank]
    rfl
  | host | filter => exact h.elim

/-! ## Switches that nobody watches yet -/

namespace Session

variable {s t : Session} {x : Switch} {ps : List Plan} {p : Plan}

/-- Edits and reloads leave a switch alone that nobody watches. -/
theorem setting_changed_of_not_mem (hx : x ∉ s.watched) (changes : List Change) :
    (s.changed changes).setting x = s.setting x := by
  induction changes generalizing s with
  | nil => rfl
  | cons c rest ih =>
    have hwatched : (s.change c).watched = s.watched := watched_changed s [c]
    have hchange : (s.change c).setting x = s.setting x := by
      obtain ⟨kind, cell⟩ := x
      cases c with
      | edit host sources => cases kind <;> rfl
      | reload =>
        rw [change]
        split
        · next t ht =>
          obtain ⟨tree, -, rfl⟩ := eq_of_reload ht
          rw [setting_foldl_of_not_mem (by rwa [List.filterMap_map])]
          cases kind <;> rfl
        · rfl
    exact (ih (hwatched ▸ hx)).trans hchange

/-- Drafting loads nothing, so the tree is the one that was loaded last before it or after it. -/
theorem Drafted.tree_changed {before : List Change} (h : (s.changed before).Drafted t)
    (between : List Change) : (t.changed between).root.tree =
      (s.snapshots before ++ t.snapshots between).getLast?.getD s.root.tree := by
  rw [Session.tree_changed, h.root, Session.tree_changed, List.getLast?_append]
  cases (t.snapshots between).getLast? <;> rfl

theorem Drafted.subscriptions_changed {before : List Change} (h : (s.changed before).Drafted t)
    (between : List Change) : (t.changed between).root.subscriptions = s.root.subscriptions := by
  rw [Session.subscriptions_changed, h.root, Session.subscriptions_changed]

theorem Tidy.changed (h : s.Tidy ps) (changes : List Change) : (s.changed changes).Tidy ps :=
  h.of_watched (watched_changed s changes) fun _ hx => (knows_changed s changes).2 hx

/-- The switches of a plan that has not been applied are not watched. -/
theorem Tidy.not_mem_watched (h : s.Tidy (p :: ps)) {w : Watch} (hw : w ∈ p.watches) :
    w.switch ∉ s.watched := by
  intro hwatched
  have hplanned : w.switch ∈ (p :: ps).flatMap Plan.switches :=
    List.mem_flatMap.2 ⟨p, List.mem_cons_self .., List.mem_map_of_mem hw⟩
  exact (List.nodup_append.1 h.nodup).2.2 _ hwatched _ hplanned rfl

end Session

/-- A switch that nobody watches stays ready while the configuration is edited and loaded again. -/
theorem Watch.IsReady.changed {P : Tree → Prop} {o : Options} {w : Watch} {s : Session}
    (h : w.IsReady P o s) (hw : w.switch ∉ s.watched) (changes : List Change) :
    w.IsReady P o (s.changed changes) := by
  refine ⟨h.tree, (Session.knows_changed s changes).2 h.known, ?_⟩
  rw [Agrees, Session.setting_changed_of_not_mem hw changes]
  exact h.agrees

/-! ## Switches that lag behind -/

/-- A level switch is watched that holds what its place said in an earlier tree. -/
structure Subscription.Lags (earlier : Tree) (s : Session) (z : Subscription Watcher)
    (cell : Nat) : Prop where
  holds : s.level cell = (Node.level? ⟨earlier, z.segments⟩).getD .standard
  /-- The standard level stands for a blank place only. -/
  blank : Node.level? ⟨earlier, z.segments⟩ = none → z.watcher.IsBlankAt ⟨earlier, z.segments⟩
  present : ∀ l, Node.level? ⟨s.root.tree, z.segments⟩ = some l →
    (s.level cell = l ↔ (Node.level? ⟨earlier, z.segments⟩).getD .standard = l)
  follows : ∀ changes t, (s.changed changes).reload = .ok t → t.IsCurrent z.segments cell

theorem Subscription.Lags.isCurrent {earlier : Tree} {s : Session} {z : Subscription Watcher}
    {cell : Nat} (h : z.Lags earlier s cell) (htree : s.root.tree = earlier) :
    s.IsCurrent z.segments cell := by
  intro l hl
  rw [h.present l hl, ← htree, hl]
  rfl

namespace Session

variable {s : Session} {ps : List Plan} {z : Subscription Watcher} {cell : Nat}

/-- A watched level switch that agrees with a tree lags behind it. -/
theorem Tidy.lags (h : s.Tidy ps) (hz : z ∈ s.root.subscriptions)
    (hcell : z.watcher.switch? = some (.level, cell)) {earlier : Tree}
    (hagrees : z.Agrees earlier s) : z.Lags earlier s cell := by
  obtain ⟨label, hlabel⟩ : ∃ label, z.watcher = .level label cell := by
    cases hw : z.watcher with
    | level label own =>
      rw [hw] at hcell
      cases hcell
      exact ⟨label, rfl⟩
    | host | filter => simp [hw, Watcher.switch?] at hcell
  have hoffer : ∀ n, z.watcher.offer n = n.level?.map .level := fun n => by
    rw [hlabel, Watcher.offer_level]
  obtain ⟨-, hholds⟩ := hagrees _ hcell
  have hlevel : s.level cell = (Node.level? ⟨earlier, z.segments⟩).getD .standard := by
    rcases hholds with hoffered | ⟨hblank, hstandard⟩
    · rw [hoffer] at hoffered
      obtain ⟨l, hl, hset⟩ := Option.map_eq_some_iff.1 hoffered
      rw [hl]
      exact (Setting.level.inj hset).symm
    · rw [Watcher.level?_of_isBlankAt hblank]
      exact Setting.level.inj hstandard
  refine ⟨hlevel, ?_, ?_, ?_⟩
  · intro hnone
    rcases hholds with hoffered | ⟨hblank, -⟩
    · rw [hoffer, hnone] at hoffered
      cases hoffered
    · exact hblank
  · intro l _
    rw [hlevel]
  · intro changes t ht l hl
    have hlater := h.changed changes
    rw [← subscriptions_changed s changes] at hz
    have hset := setting_of_reload ht (List.nodup_append.1 hlater.nodup).1 hz hcell
      (hlater.knows _ (List.mem_append_left _ (mem_watched hz hcell)))
    rw [hoffer, hl] at hset
    exact Setting.level.inj hset

end Session

/-! ## From a plan to its application -/

/-- A tree, or a tree in which a callback that a catalog holds configures a place. -/
def Catalog.Reaches (k : Catalog) (origin tree : Tree) : Prop :=
  tree = origin ∨ ∃ v c, k.Holds v ∧ v.nested? = some c ∧ c.node.tree = tree

namespace Binder

variable {b : Binder} {n : Node} {s t v : Session} {ps : List Plan} {p : Plan} {σ : Type}
  {R : Receiver σ} {memory after : σ} {ids : List Nat} {changes : List Change}

/-- The switches of a plan still hold what it has read when it is applied, and so do those of the
callbacks that are run then. -/
theorem settles_of_applied (htidy : t.Tidy (p :: ps)) (hplan : Returns (b.plan n) s p t)
    (happlied : b.applyFor R p memory (t.changed changes) = ((.ok ids, after), v)) :
    (t.changed changes).Settles (b.catalog.Reaches n.tree) v ∧
      ∀ w ∈ p.watches, ∃ id, ⟨id, w.node.segments, w.watcher b.options⟩ ∈ v.root.subscriptions ∧
        Subscription.Agrees n.tree v ⟨id, w.node.segments, w.watcher b.options⟩ := by
  have hservice := service_settles (b := b) (P := b.catalog.Reaches n.tree) fun held hheld c hc =>
    .inr ⟨held, c, hheld, hc, rfl⟩
  -- The section is read as a sub-logger would read it.
  have hlogger : IsIn (b.catalog.Reaches n.tree) s ⟨0, .logger, n⟩ := .inl rfl
  have hhanded : ∀ held, Step.AnyCarries p.steps held →
      Service.Allows (IsIn (b.catalog.Reaches n.tree)) (t.changed changes) held := by
    intro held hcarries d hd
    have hin : IsIn (b.catalog.Reaches n.tree) t d := hservice.handed hlogger hplan hcarries hd
    exact hin
  rcases hservice.applyFor (R := R) hhanded memory with
    ⟨e, _, _, hfailed, -⟩ | ⟨ids', _, u, v', hsucceeded, hserved, hstarted⟩
  · rw [hfailed] at happlied
    cases happlied
  · rw [hsucceeded] at happlied
    cases happlied
    -- Nobody watches the switches of the plan until the end.
    have hready : ∀ w ∈ p.watches, w.IsReady (· = n.tree) b.options u := fun w hw =>
      (((equips_plan hplan).isReady (P := (· = n.tree)) rfl w hw).changed
        (htidy.not_mem_watched hw) changes).spares hserved.spares
    refine ⟨hserved.trans (hstarted.settles fun w hw => ?_), ?_⟩
    · exact ⟨.inl (hready w hw).tree, (hready w hw).known, (hready w hw).agrees⟩
    · intro w hw
      obtain ⟨id, hid⟩ := Watch.exists_subscription b.options hw u.root.nextId
      have hagrees := ((hready w hw).subscription id).spares hstarted.spares
      rw [(hready w hw).tree] at hagrees
      obtain ⟨events, hrest⟩ := hstarted.rest
      refine ⟨id, ?_, hagrees⟩
      rw [hrest]
      exact List.mem_append_right _ hid

end Binder

namespace Reader

/-- A reader reads the tree that it was given a place in. -/
theorem tree_of_make {catalog : Option Catalog} {options : Options}
    {given configuration : Option Node} {r : Reader} {tree : Tree}
    (h : make catalog options given configuration = .ok r)
    (htree : ∀ n, given.or configuration = some n → n.tree = tree) : r.node.tree = tree := by
  cases catalog with
  | none => cases h
  | some k =>
    cases given with
    | some n =>
      obtain ⟨selection, -, h⟩ := Except.bind_eq_ok.1 h
      cases h
      exact htree n rfl
    | none =>
      cases configuration with
      | none => cases h
      | some top =>
        obtain ⟨selection, -, h⟩ := Except.bind_eq_ok.1 h
        cases h
        exact htree top rfl

/-- **A switch holds the level that its reader has found, until the next reload.**  Whatever is
edited and loaded between making a reader, planning and applying the plan, every level switch that
has been made since and is watched then holds the level of its place in the tree that the reader was
given.  So it holds the level of the tree that was loaded last if and only if that says the same,
and from the next reload on it follows its place.  If the reader was given the tree of the
configuration when it was made, and nothing has been loaded since, then that is the present tree,
and the switch holds the level of its place in it. -/
theorem lags_of_applied {catalog : Catalog} {options : Options} {given configuration : Option Node}
    {captured : Tree} {r : Reader} {s t v : Session} {ps : List Plan} {p : Plan}
    {before between : List Change} {σ : Type} {R : Receiver σ} {memory after : σ} {ids : List Nat}
    (h : r.binder.Attains s ps)
    (hmake : make (some catalog) options given configuration = .ok r)
    (hcaptured : ∀ n, given.or configuration = some n → n.tree = captured)
    (hplan : Returns (r.binder.plan r.node) (s.changed before) p t)
    (happlied : r.binder.applyFor R p memory (t.changed between) = ((.ok ids, after), v)) :
    v.root.tree = (s.snapshots before ++ t.snapshots between).getLast?.getD s.root.tree ∧
    (∀ w ∈ p.watches, ∃ z ∈ v.root.subscriptions, z.segments = w.node.segments ∧
      z.watcher = w.watcher r.binder.options ∧ ∀ cell, w.switch = (.level, cell) →
        ¬ s.Knows (.level, cell) ∧ z.Lags captured v cell) ∧
    (∀ z ∈ v.root.subscriptions, ∀ cell, z.watcher.switch? = some (.level, cell) →
      ¬ s.Knows (.level, cell) →
        ∃ tree, r.binder.catalog.Reaches captured tree ∧ z.Lags tree v cell) ∧
    (captured = s.root.tree → s.snapshots before ++ t.snapshots between = [] →
      v.root.tree = captured ∧
      (∀ w ∈ p.watches, ∀ cell, w.switch = (.level, cell) → v.IsCurrent w.node.segments cell) ∧
      ∀ z ∈ v.root.subscriptions, ∀ cell, z.Lags captured v cell →
        v.IsCurrent z.segments cell) := by
  have htree := tree_of_make hmake hcaptured
  have hequips := Binder.equips_plan hplan
  have hstart := (Binder.tidy_of_attains h).changed before
  have hplanned := hstart.equips hequips
  have hpending : (t.changed between).Tidy ([] ++ p :: ps) := hplanned.changed between
  have htidy := Binder.tidy_applyFor (b := r.binder) R memory hpending
  rw [happlied] at htidy
  obtain ⟨hsettles, hwatches⟩ := Binder.settles_of_applied hplanned hplan happlied
  rw [htree] at hsettles hwatches
  have hpresent := hsettles.tree.trans (hequips.drafted.tree_changed between)
  have hlags : ∀ w ∈ p.watches, ∃ z ∈ v.root.subscriptions, z.segments = w.node.segments ∧
      z.watcher = w.watcher r.binder.options ∧ ∀ cell, w.switch = (.level, cell) →
        ¬ s.Knows (.level, cell) ∧ z.Lags captured v cell := by
    intro w hw
    obtain ⟨id, hz, hagrees⟩ := hwatches w hw
    refine ⟨_, hz, rfl, rfl, fun cell hcell => ⟨fun hk => ?_, ?_⟩⟩
    · exact hequips.fresh w hw (hcell ▸ (Session.knows_changed s before).2 hk)
    · exact htidy.lags hz (by rw [Watch.switch?_watcher, hcell]) hagrees
  refine ⟨hpresent, hlags, ?_, ?_⟩
  · intro z hz cell hcell hnew
    rcases hsettles.joined z hz with hold | ⟨tree, hreaches, hagrees⟩
    · -- Whoever was watching before set switches that were there.
      rw [hequips.drafted.subscriptions_changed] at hold
      have hwatched := Session.mem_watched hold hcell
      exact absurd ((Binder.tidy_of_attains h).knows _ (List.mem_append_left _ hwatched)) hnew
    · exact ⟨tree, hreaches, htidy.lags hz hcell hagrees⟩
  · intro hmade hnone
    have hcurrent : v.root.tree = captured := by
      rw [hpresent, hnone, hmade]
      rfl
    refine ⟨hcurrent, fun w hw cell hcell => ?_, fun z _ cell hlag => hlag.isCurrent hcurrent⟩
    obtain ⟨z, -, hsegments, -, hlag⟩ := hlags w hw
    rw [← hsegments]
    exact (hlag cell hcell).2.isCurrent hcurrent

end Reader

/-! ## A minimum level that is edited before it is planned -/

namespace Sample

/-- The entries of a section with a minimum level. -/
def lateEntries (text : String) : List Entry := [⟨"Logging:MinimumLevel", some text⟩]

/-- The session in which the reader is made. -/
def lateSession : Session := .start ⟨[], []⟩ (listedRoot (lateEntries "Debug"))

/-- The reader. -/
def lateReader : Reader :=
  ⟨⟨.empty, {}, .all, true⟩, (listedRoot (lateEntries "Debug")).node "Logging"⟩

/-- The level is edited and loaded. -/
def lateChanges : List Change :=
  [.edit ⟨[], []⟩ [.listed "list" (lateEntries "Error")], .reload]

/-- The outcome of planning after some changes. -/
def lateDraft (changes : List Change) : Except ResolveError Plan × Session :=
  lateReader.binder.plan lateReader.node (lateSession.changed changes)

/-- The plan. -/
def latePlan (changes : List Change) : Plan := (lateDraft changes).1.toOption.getD .empty

/-- The outcome of applying it. -/
def lateOutcome (changes : List Change) : Outcome Unit (List Nat) × Session :=
  lateReader.binder.applyFor bareReceiver (latePlan changes) () (lateDraft changes).2

theorem make_lateReader :
    Reader.make (some .empty) {} none (some lateSession.root.top) = .ok lateReader := rfl

theorem returns_lateDraft {changes : List Change} (h : (lateDraft changes).1.isOk = true) :
    Returns (lateReader.binder.plan lateReader.node) (lateSession.changed changes)
      (latePlan changes) (lateDraft changes).2 :=
  Run.returns_of_isOk (m := lateReader.binder.plan lateReader.node) h .empty

/-- Nothing is loaded between planning and applying the plan. -/
theorem exists_lateOutcome {changes : List Change} (h : (lateOutcome changes).1.1.isOk = true) :
    ∃ ids, lateReader.binder.applyFor bareReceiver (latePlan changes) ()
      ((lateDraft changes).2.changed []) = ((.ok ids, ()), (lateOutcome changes).2) :=
  Outcome.eq_of_isOk (r := lateOutcome changes) h

theorem isOk_lateOutcome {changes : List Change} (h : changes = [] ∨ changes = lateChanges) :
    (lateDraft changes).1.isOk = true ∧ (lateOutcome changes).1.1.isOk = true := by
  rcases h with rfl | rfl <;> decide +kernel

theorem watching_lateOutcome : ∃ z ∈ (lateOutcome lateChanges).2.root.subscriptions,
    z.watcher.switch? = some (.level, 0) ∧ z.segments = ["Logging", "MinimumLevel"] := by
  have hwatching : (lateOutcome lateChanges).2.root.subscriptions.map (fun z =>
      (z.watcher.switch?, z.segments)) = [(some (.level, 0), ["Logging", "MinimumLevel"])] := by
    decide +kernel
  obtain ⟨z, hz, hpair⟩ := List.mem_map.1 (hwatching ▸ List.mem_singleton_self _)
  exact ⟨z, hz, Prod.mk.inj hpair⟩

theorem watches_latePlan {changes : List Change} (h : changes = [] ∨ changes = lateChanges) :
    ∃ w ∈ (latePlan changes).watches, w.switch = (.level, 0) ∧
      w.node.segments = ["Logging", "MinimumLevel"] := by
  have hmem : (((.level, 0), ["Logging", "MinimumLevel"]) : Switch × List String) ∈
      (latePlan changes).watches.map fun w => (w.switch, w.node.segments) := by
    rcases h with rfl | rfl <;> decide +kernel
  obtain ⟨w, hw, hpair⟩ := List.mem_map.1 hmem
  exact ⟨w, hw, Prod.mk.inj hpair⟩

/-- A switch keeps the level that the reader has found until the next reload, but it is the present
level if nothing is loaded before the plan is applied. -/
theorem lags_of_applied_late :
    (lateOutcome lateChanges).2.level 0 = .debug ∧
    (∀ changes t, ((lateOutcome lateChanges).2.changed changes).reload = .ok t →
      t.IsCurrent ["Logging", "MinimumLevel"] 0) ∧
    (lateOutcome []).2.IsCurrent ["Logging", "MinimumLevel"] 0 := by
  have hattains : lateReader.binder.Attains lateSession [] :=
    .start (load_listedRoot (lateEntries "Debug"))
  have hcaptured : ∀ n, (none : Option Node).or (some lateSession.root.top) = some n →
      n.tree = lateSession.root.tree := by
    rintro _ ⟨⟩
    rfl
  have hlevel : Node.level? ⟨lateSession.root.tree, ["Logging", "MinimumLevel"]⟩ =
      some .debug := by decide +kernel
  obtain ⟨ids, happlied⟩ := exists_lateOutcome (isOk_lateOutcome (.inr rfl)).2
  obtain ⟨-, hlate, -, -⟩ := Reader.lags_of_applied hattains make_lateReader hcaptured
    (returns_lateDraft (isOk_lateOutcome (.inr rfl)).1) happlied
  obtain ⟨w, hw, hswitch, hsegments⟩ := watches_latePlan (.inr rfl)
  obtain ⟨z, -, hplace, -, hlag⟩ := hlate w hw
  obtain ⟨-, hlag⟩ := hlag 0 hswitch
  rw [hsegments] at hplace
  obtain ⟨ids', happlied'⟩ := exists_lateOutcome (isOk_lateOutcome (.inl rfl)).2
  obtain ⟨-, -, -, hprompt⟩ := Reader.lags_of_applied hattains make_lateReader hcaptured
    (returns_lateDraft (isOk_lateOutcome (.inl rfl)).1) happlied'
  obtain ⟨w', hw', hswitch', hsegments'⟩ := watches_latePlan (.inl rfl)
  refine ⟨?_, ?_, ?_⟩
  · rw [hlag.holds, hplace, hlevel]
    rfl
  · rw [← hplace]
    exact hlag.follows
  · rw [← hsegments']
    exact (hprompt rfl rfl).2.1 w' hw' 0 hswitch'

/-- The configuration says another level by then, so a switch that is watched does not always hold
what its place says when a plan has been applied. -/
theorem not_level_of_lateOutcome :
    Reader.make (some .empty) {} none (some lateSession.root.top) = .ok lateReader ∧
      (lateDraft lateChanges).1.isOk = true ∧ (lateOutcome lateChanges).1.1.isOk = true ∧
      ¬ ∀ z ∈ (lateOutcome lateChanges).2.root.subscriptions, ∀ cell l,
        z.watcher.switch? = some (.level, cell) →
        Node.level? ⟨(lateOutcome lateChanges).2.root.tree, z.segments⟩ = some l →
          (lateOutcome lateChanges).2.level cell = l := by
  obtain ⟨hplan, happly⟩ := isOk_lateOutcome (.inr rfl)
  refine ⟨rfl, hplan, happly, fun hall => ?_⟩
  obtain ⟨z, hz, hswitch, hsegments⟩ := watching_lateOutcome
  have hpresent : Node.level? ⟨(lateOutcome lateChanges).2.root.tree, z.segments⟩ =
      some .error := by
    rw [hsegments]
    decide +kernel
  have hdebug : (lateOutcome lateChanges).2.level 0 = .debug := by decide +kernel
  have herror := hall z hz 0 .error hswitch hpresent
  rw [hdebug] at herror
  cases herror

end Sample

end LogBinder
