/-
  Log binder — the switches that a plan watches.

  The switches of a plan are new, no two of its watches share one, and each
  holds what its watcher would take over from the watched place.  Only a
  declared level switch at a blank place holds the standard level instead,
  which its watcher does not take over.

  * `Switch`, `Setting` : a switch, and what it holds;
  * `Filter.offered` : the expression that a text stands for;
  * `Watcher.offer`, `Watcher.refusal` : what a watcher takes over from a
    place, and what it tells otherwise;
  * `Session.Equips` : the switches of some watches have been made
    (`Binder.equips_plan`).
-/
import LogBinder.Binding.Reload
import LogBinder.Proofs.Binding.Planned

namespace LogBinder

open Run (Returns returns_bind returns_pure returns_lift)

/-! ## Switches and what they hold -/

/-- A switch, by its kind and its cell. -/
abbrev Switch := SwitchKind × Nat

/-- What a switch holds. -/
inductive Setting where
  | level (l : Level)
  | filter (expression : Option String)
  deriving DecidableEq

/-- The switch that a watch is for. -/
def Watch.switch : Watch → Switch
  | level _ cell _ _ => (.level, cell)
  | filter _ cell _ => (.filter, cell)

/-- The switch that a watcher sets. -/
def Watcher.switch? : Watcher → Option Switch
  | host _ => none
  | level _ cell => some (.level, cell)
  | filter _ cell _ => some (.filter, cell)

theorem Watch.switch?_watcher (o : Options) (w : Watch) :
    (w.watcher o).switch? = some w.switch := by
  cases w <;> rfl

namespace Session

variable {s t u : Session} {x : Switch}

/-- A switch has been made. -/
def Knows (s : Session) : Switch → Prop
  | (.level, cell) => cell < s.levels.length
  | (.filter, cell) => cell < s.filters.length

/-- What a switch holds at present. -/
def setting (s : Session) : Switch → Setting
  | (.level, cell) => .level (s.level cell)
  | (.filter, cell) => .filter (s.filter cell)

/-- There may be more switches; those that were there have not been set. -/
structure Spares (s t : Session) : Prop where
  levels : s.levels <+: t.levels
  filters : s.filters <+: t.filters

theorem Spares.refl (s : Session) : s.Spares s := ⟨List.prefix_rfl, List.prefix_rfl⟩

theorem Spares.trans (h : s.Spares t) (h' : t.Spares u) : s.Spares u :=
  ⟨h.levels.trans h'.levels, h.filters.trans h'.filters⟩

theorem Drafted.spares (h : s.Drafted t) : s.Spares t := ⟨h.levels, h.filters⟩

theorem Spares.knows (h : s.Spares t) (hx : s.Knows x) : t.Knows x := by
  obtain ⟨kind, cell⟩ := x
  cases kind with
  | level => exact Nat.lt_of_lt_of_le hx h.levels.length_le
  | filter => exact Nat.lt_of_lt_of_le hx h.filters.length_le

theorem Spares.setting (h : s.Spares t) (hx : s.Knows x) : t.setting x = s.setting x := by
  obtain ⟨kind, cell⟩ := x
  cases kind with
  | level =>
    obtain ⟨more, hmore⟩ := h.levels
    simp only [Session.setting, level, ← hmore, List.getElem?_append_left hx]
  | filter =>
    obtain ⟨more, hmore⟩ := h.filters
    simp only [Session.setting, filter, ← hmore, List.getElem?_append_left hx]

end Session

/-! ## What watchers take over -/

namespace Filter

/-- The expression that a filter switch takes over from a text: none from a blank one, and otherwise
what is left without the blank ends, unless the host objects to that. -/
def offered (o : Options) (text : String) : Option (Option String) :=
  if Text.trim text = "" then some none
  else if o.filterValidator.any fun objects => (objects (Text.trim text)).isSome then none
  else some (some (Text.trim text))

variable {o : Options} {text : String}

/-- Switches hold a blank text as none, and others without their blank ends. -/
theorem normal_some (text : String) :
    normal (some text) = if Text.trim text = "" then none else some (Text.trim text) := by
  rw [normal, Option.map_some, Option.filter_some]
  by_cases h : Text.trim text = "" <;> simp [h]

theorem normal_trim (text : String) : normal (some (Text.trim text)) = normal (some text) := by
  rw [normal_some, normal_some, Text.trim_trim]

theorem objection_eq_none_iff : o.objection (Text.trim text) = none ↔
    Text.trim text = "" ∨ o.filterValidator.any (fun objects =>
      (objects (Text.trim text)).isSome) = false := by
  rw [Options.objection]
  by_cases h : Text.trim text = ""
  · simp [h]
  · cases hv : o.filterValidator <;> simp [h]

/-- What there is no objection to is taken over as switches hold it. -/
theorem offered_of_objection (h : o.objection (Text.trim text) = none) :
    offered o text = some (normal (some text)) := by
  rw [offered, normal_some]
  rcases objection_eq_none_iff.1 h with hblank | haccepted
  · rw [if_pos hblank, if_pos hblank]
  · split
    · rfl
    · rw [haccepted]
      rfl

theorem offered_eq_none_iff :
    offered o text = none ↔ ∃ reason, o.objection (Text.trim text) = some reason := by
  rw [← Option.isSome_iff_exists, ← Option.ne_none_iff_isSome, ne_eq, objection_eq_none_iff,
    offered]
  split
  · next hblank => simp [hblank]
  · next hblank => split <;> simp_all

end Filter

namespace Watcher

/-- What a watcher takes over from a place. -/
def offer : Watcher → Node → Option Setting
  | host _, _ => none
  | level _ _, n => (Level.read (n.value.getD "")).toOption.map .level
  | filter _ _ o, n => n.value.bind fun text => (Filter.offered o text).map .filter

/-- What a watcher tells of a place that it takes nothing over from. -/
def refusal : Watcher → Node → Option Diagnostic
  | host _, _ => none
  | level label _, n => match Level.read (n.value.getD "") with
    | .ok _ => none
    | .error fault => some (.reloadFailure label n.path (n.value.getD "") (.level fault))
  | filter label _ o, n => match n.value with
    | none => some (.reloadFailure label n.path "" .removed)
    | some text => (o.objection (Text.trim text)).map fun reason =>
        .reloadFailure label n.path text (.rejected reason)

/-- A level watcher at a place with a blank text. -/
def IsBlankAt : Watcher → Node → Prop
  | level _ _, n => ∃ text, n.value = some text ∧ (Text.trim text).isEmpty = true
  | _, _ => False

end Watcher

/-- A switch holds what its watcher takes over from its place, or the standard level if the place is
blank. -/
def Watch.Agrees (o : Options) (w : Watch) (s : Session) : Prop :=
  (w.watcher o).offer w.node = some (s.setting w.switch) ∨
    (w.watcher o).IsBlankAt w.node ∧ s.setting w.switch = .level .standard

theorem Watch.Agrees.spares {o : Options} {w : Watch} {s t : Session} (h : w.Agrees o s)
    (hst : s.Spares t) (hw : s.Knows w.switch) : w.Agrees o t := by
  rw [Agrees, hst.setting hw]
  exact h

/-! ## Texts of switches -/

theorem Node.value_of_form {n : Node} {text : String} (h : n.form = .ok (.scalar text)) :
    n.value = some text := by
  cases hv : n.value with
  | none => simp [form, shape, hv, Except.mapError] at h
  | some other =>
    cases hc : n.hasChildren <;> simp_all [form, shape, Except.mapError]

theorem Node.value_of_structured {n : Node} (h : n.form = .ok .structured) : n.value = none := by
  cases hv : n.value with
  | none => rfl
  | some text => cases hc : n.hasChildren <;> simp [form, shape, hv, hc, Except.mapError] at h

/-- A level is read alike from a text and from the text without blank ends. -/
theorem Level.read_of_read_trim {text : String} {l : Level}
    (h : Level.read (Text.trim text) = .ok l) : Level.read text = .ok l := by
  rw [Level.read, Text.trim_trim] at h
  rw [Level.read]
  split at h
  · exact h
  · split at h
    · exact h
    · cases h

namespace LevelText

theorem exists_of_ofNode {n : Node} {text : String} (h : ofNode n = .ok text) :
    ∃ raw, n.value = some raw ∧ text = Text.trim raw := by
  rw [ofNode] at h
  obtain ⟨shape, hshape, h⟩ := Except.bind_eq_ok.1 h
  cases shape with
  | scalar raw =>
    cases h
    exact ⟨raw, Node.value_of_form hshape, rfl⟩
  | structured => cases h

theorem read_eq {text path : String} {l : Level} (h : read text path = .ok l) :
    Level.read text = .ok l := by
  rw [read] at h
  split at h
  · next found hfound => cases h; exact hfound
  · cases h

end LevelText

/-! ## New switches -/

namespace Session

/-- Between two sessions the switches of some watches of places in a tree have been made. -/
structure Equips (o : Options) (tree : Tree) (s : Session) (ws : List Watch) (t : Session) :
    Prop where
  drafted : s.Drafted t
  fresh : ∀ w ∈ ws, ¬ s.Knows w.switch
  known : ∀ w ∈ ws, t.Knows w.switch
  nodup : (ws.map Watch.switch).Nodup
  agrees : ∀ w ∈ ws, w.Agrees o t
  places : ∀ w ∈ ws, w.node.tree = tree

variable {o : Options} {tree : Tree} {s t u : Session} {ws ws' : List Watch}

theorem Drafted.equips (h : s.Drafted t) : Equips o tree s [] t :=
  ⟨h, by simp, by simp, .nil, by simp, by simp⟩

theorem Equips.append (h : Equips o tree s ws t) (h' : Equips o tree t ws' u) :
    Equips o tree s (ws ++ ws') u := by
  refine ⟨h.drafted.trans h'.drafted, ?_, ?_, ?_, ?_, ?_⟩
  · intro w hw
    rcases List.mem_append.1 hw with hw | hw
    · exact h.fresh w hw
    · exact fun hk => h'.fresh w hw (h.drafted.spares.knows hk)
  · intro w hw
    rcases List.mem_append.1 hw with hw | hw
    · exact h'.drafted.spares.knows (h.known w hw)
    · exact h'.known w hw
  · -- What is made later was not known before.
    rw [List.map_append, List.nodup_append]
    refine ⟨h.nodup, h'.nodup, ?_⟩
    rintro x hx _ hy rfl
    obtain ⟨w, hw, rfl⟩ := List.mem_map.1 hx
    obtain ⟨w', hw', heq⟩ := List.mem_map.1 hy
    have hknown : t.Knows w'.switch := heq ▸ h.known w hw
    exact h'.fresh w' hw' hknown
  · intro w hw
    rcases List.mem_append.1 hw with hw | hw
    · exact (h.agrees w hw).spares h'.drafted.spares (h.known w hw)
    · exact h'.agrees w hw
  · intro w hw
    rcases List.mem_append.1 hw with hw | hw
    · exact h.places w hw
    · exact h'.places w hw

theorem Equips.draft (h : Equips o tree s ws t) (h' : t.Drafted u) : Equips o tree s ws u := by
  have happend : Equips o tree s (ws ++ []) u := h.append h'.equips
  rwa [List.append_nil] at happend

theorem level_addLevel (l : Level) (s : Session) : (s.addLevel l).2.level s.levels.length = l := by
  simp [level, addLevel]

theorem filter_addFilter (expression : Option String) (s : Session) :
    (s.addFilter expression).2.filter s.filters.length = Filter.normal expression := by
  simp [filter, addFilter]

/-- A new level switch for a place that holds the level, or for a blank one. -/
theorem equips_addLevel {n : Node} {label raw : String} {l : Level} {declared : Bool}
    (hraw : n.value = some raw)
    (hl : Level.read (Text.trim raw) = .ok l ∨ (Text.trim raw).isEmpty = true ∧ l = .standard) :
    Equips o n.tree s [.level label s.levels.length n declared] (s.addLevel l).2 := by
  refine ⟨drafted_addLevel l s, ?_, ?_, by simp, ?_, by simp [Watch.node]⟩
  · simp [Watch.switch, Knows]
  · simp [Watch.switch, Knows, addLevel]
  · intro w hw
    obtain rfl := List.mem_singleton.1 hw
    rw [Watch.Agrees, show (s.addLevel l).2.setting (Watch.switch _) =
      .level ((s.addLevel l).2.level s.levels.length) from rfl, level_addLevel]
    rcases hl with hl | ⟨hblank, rfl⟩
    · left
      simp [Watch.watcher, Watcher.offer, Watch.node, hraw, Level.read_of_read_trim hl,
        Except.toOption]
    · exact .inr ⟨⟨raw, hraw, hblank⟩, rfl⟩

/-- A new filter switch for a place that holds an expression without objection. -/
theorem equips_addFilter {n : Node} {label raw : String} (hraw : n.value = some raw)
    (ho : o.objection (Text.trim raw) = none) :
    Equips o n.tree s [.filter label s.filters.length n]
      (s.addFilter (some (Text.trim raw))).2 := by
  refine ⟨drafted_addFilter _ s, ?_, ?_, by simp, ?_, by simp [Watch.node]⟩
  · simp [Watch.switch, Knows]
  · simp [Watch.switch, Knows, addFilter]
  · intro w hw
    obtain rfl := List.mem_singleton.1 hw
    left
    rw [show (s.addFilter (some (Text.trim raw))).2.setting (Watch.switch _) =
      .filter ((s.addFilter (some (Text.trim raw))).2.filter s.filters.length) from rfl,
      filter_addFilter, Filter.normal_trim]
    simp [Watch.watcher, Watcher.offer, Watch.node, hraw, Filter.offered_of_objection ho]

end Session

namespace Threaded

open Session (Equips)

/-- Going through a list makes the switches of all results. -/
theorem equips {α β : Type} {R : α → Session → β → Session → Prop} {watches : β → List Watch}
    {o : Options} {tree : Tree} {xs : List α} {ys : List β} {s t : Session}
    (h : Threaded R xs s ys t)
    (hR : ∀ x ∈ xs, ∀ i y j, R x i y j → Equips o tree i (watches y) j) :
    Equips o tree s (ys.flatMap watches) t := by
  induction h with
  | nil s => exact (Session.Drafted.refl s).equips
  | @cons x xs y ys s i t hx _ ih =>
    rw [List.flatMap_cons]
    exact (hR x (List.mem_cons_self ..) s y i hx).append
      (ih fun x' hx' => hR x' (List.mem_cons_of_mem _ hx'))

end Threaded

/-! ## Planning -/

namespace Run

open Session (Equips)

variable {o : Options} {n : Node} {s t : Session}

theorem equips_declareLevel {w : Watch} (h : Returns (declareLevel n) s w t) :
    Equips o n.tree s [w] t := by
  obtain ⟨l, label, hdeclared, hlabel, rfl⟩ := declareLevel_cases h
  rw [LevelText.declared] at hdeclared
  obtain ⟨text, htext, hdeclared⟩ := Except.bind_eq_ok.1 hdeclared
  obtain ⟨raw, hraw, rfl⟩ := LevelText.exists_of_ofNode htext
  have hread : Level.read (Text.trim raw) = .ok l ∨
      (Text.trim raw).isEmpty = true ∧ l = .standard := by
    split at hdeclared
    · next hblank =>
      cases hdeclared
      exact .inr ⟨hblank, rfl⟩
    · exact .inl (LevelText.read_eq hdeclared)
  exact (Session.equips_addLevel hraw hread).draft ((drafts_declare ..).of_returns hlabel)

theorem equips_declareFilter {w : Watch} (h : Returns (declareFilter o n) s w t) :
    Equips o n.tree s [w] t := by
  obtain ⟨expression, label, htext, hlabel, rfl⟩ := declareFilter_cases h
  rw [filterText] at htext
  obtain ⟨shape, hshape, htext⟩ := Except.bind_eq_ok.1 htext
  cases shape with
  | structured => cases htext
  | scalar raw =>
    dsimp only at htext
    split at htext
    · cases htext
    · next ho =>
      cases htext
      exact (Session.equips_addFilter (Node.value_of_form hshape) ho).draft
        ((drafts_declare ..).of_returns hlabel)

theorem equips_declareSwitches {kind : SwitchKind} {ws : List Watch}
    (h : Returns (declareSwitches o n kind) s ws t) : Equips o n.tree s ws t := by
  have hthreaded : Equips o n.tree s (ws.flatMap fun w => [w]) t := by
    refine (threaded_of_declareSwitches h).equips ?_
    intro e he i w j hw
    have htree : e.tree = n.tree := (Node.isBelow_of_mem_children he).tree
    rw [← htree]
    cases kind with
    | level => exact equips_declareLevel hw
    | filter => exact equips_declareFilter hw
  simpa using hthreaded

theorem equips_levelPlan {label : String} {step : Nat → Step} {p : Plan}
    (h : Returns (levelPlan n label step) s p t) : Equips o n.tree s p.watches t := by
  cases levelPlans_of_returns h with
  | blank => exact (Session.Drafted.refl s).equips
  | reference => exact (Session.Drafted.refl s).equips
  | literal htext _ _ hread =>
    obtain ⟨raw, hraw, rfl⟩ := LevelText.exists_of_ofNode htext
    exact Session.equips_addLevel hraw (.inl (LevelText.read_eq hread))

theorem equips_controlPlan {p : Plan} (h : Returns (controlPlan n) s p t) :
    Equips o n.tree s p.watches t := by
  obtain ⟨rfl, text, -, ⟨-, rfl⟩ | ⟨-, cell, -, rfl⟩⟩ := controlPlan_cases h
  · exact (Session.Drafted.refl _).equips
  · exact (Session.Drafted.refl _).equips

theorem equips_ifPresent {plan : Node → Run Plan} {tree : Tree} {p : Plan}
    (hplan : Returns (plan n) s p t → Equips o tree s p.watches t)
    (h : Returns (ifPresent n plan) s p t) : Equips o tree s p.watches t := by
  rw [ifPresent] at h
  split at h
  · exact hplan h
  · obtain ⟨rfl, rfl⟩ := returns_pure.1 h
    exact (Session.Drafted.refl _).equips

theorem watches_collect (plans : List Plan) :
    (collect plans).watches = plans.flatMap Plan.watches := by
  have hfold : ∀ p : Plan, (plans.foldl Plan.append p).watches =
      p.watches ++ plans.flatMap Plan.watches := by
    induction plans with
    | nil => simp
    | cons q rest ih =>
      intro p
      rw [List.foldl_cons, ih, List.flatMap_cons, Plan.append, List.append_assoc]
  rw [collect, hfold]
  rfl

theorem equips_levelSection {p : Plan} (h : Returns (levelSection n) s p t) :
    Equips o n.tree s p.watches t := by
  obtain ⟨whole, controlled, overrides, s₁, s₂, hwhole, hcontrolled, hoverrides, rfl⟩ :=
    levelSection_cases h
  have hw : Equips o n.tree s whole.watches s₁ := equips_ifPresent equips_levelPlan hwhole
  have hc : Equips o n.tree s₁ controlled.watches s₂ :=
    equips_ifPresent (equips_controlPlan (n := n.child MinimumLevel.controlKey)) hcontrolled
  have ho : Equips o n.tree s₂ (overrides.flatMap Plan.watches) t := by
    refine hoverrides.equips ?_
    intro e he i q j hq
    have htree : e.tree = n.tree := (Node.isBelow_of_mem_children he).tree
    rw [← htree]
    exact equips_levelPlan hq
  rw [watches_collect, List.flatMap_cons, List.flatMap_cons]
  exact hw.append (hc.append ho)

theorem equips_minimumLevels {p : Plan} (h : Returns (minimumLevels n) s p t) :
    Equips o n.tree s p.watches t := by
  refine equips_ifPresent ?_ h
  intro h
  rw [returns_bind] at h
  obtain ⟨shape, s₁, hshape, h⟩ := h
  obtain ⟨-, rfl⟩ := returns_lift.1 hshape
  cases shape with
  | scalar text => exact equips_levelPlan (n := n.child MinimumLevel.sectionName) h
  | structured => exact equips_levelSection (n := n.child MinimumLevel.sectionName) h

end Run

namespace Binder

open Session (Equips)

variable {b : Binder}

/-- **The switches that a plan watches are new and hold what their places say.** -/
theorem equips_plan {n : Node} {p : Plan} {s t : Session} (h : Returns (b.plan n) s p t) :
    Equips b.options n.tree s p.watches t := by
  cases stages_of_plan h with
  | of hlevels hfilters hminimum henrichers hproperties hfiltering hpolicies hsinks haudits =>
    have hwatches := ((Run.equips_declareSwitches hlevels).append
      (Run.equips_declareSwitches hfilters)).append (Run.equips_minimumLevels hminimum)
    exact hwatches.draft <| ((drafts_phase ..).of_returns henrichers).trans <|
      ((Run.drafts_properties _).of_returns hproperties).trans <|
      ((drafts_phase ..).of_returns hfiltering).trans <|
      ((drafts_phase ..).of_returns hpolicies).trans <|
      ((drafts_phase ..).of_returns hsinks).trans ((drafts_phase ..).of_returns haudits)

end Binder

end LogBinder
