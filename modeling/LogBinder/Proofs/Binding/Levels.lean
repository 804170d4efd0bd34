/-
  Log binder — which levels and switches a section says.

  A section declares switches in two sections of its own, and says minimum
  levels at up to two places and for any number of sources of events.  Reading
  the declarations puts each switch under its canonical name; reading the
  levels makes one step for every place that is not blank, and declares
  nothing.

  * `Node.declaration?`, `Node.levelSources` : where a section declares
    switches and says levels;
  * `Session.Registers` : what the declarations leave
    (`Run.registers_of_declareSwitches`);
  * `Run.Draws` : a computation plans the levels of some places
    (`Run.draws_minimumLevels`).
-/
import LogBinder.Proofs.Binding.Watched

namespace LogBinder

open Run (Returns returns_bind returns_pure returns_lift returns_modify)

/-! ## What a section says -/

/-- The last entry that declares a switch of a kind under a canonical name. -/
def Node.declaration? (n : Node) (kind : SwitchKind) (name : String) : Option Node :=
  (n.child kind.sectionName).children.reverse.find? fun e => SwitchName.canonical e.key = name

/-- A place that says which level is the minimum. -/
structure LevelSource where
  node : Node
  /-- The source of the events, if it is not all of them. -/
  events : Option String
  /-- Whether only a switch can be referred to. -/
  refers : Bool

namespace LevelSource

/-- What stands at the place, without blank ends. -/
def text (src : LevelSource) : String := Text.trim (src.node.value.getD "")

/-- Whether nothing is said. -/
def isBlank (src : LevelSource) : Bool := src.text.isEmpty

/-- Whether a switch is referred to; otherwise a level is named. -/
def isReference (src : LevelSource) : Bool := src.refers || src.text.startsWith "$"

/-- The step for a switch. -/
def step (src : LevelSource) (cell : Nat) : Step :=
  match src.events with
  | none => .minimumLevel cell
  | some name => .levelOverride name cell

end LevelSource

/-- The places of a section of minimum levels. -/
def MinimumLevel.places (m : Node) : List LevelSource :=
  if m.value.isSome then [⟨m, none, false⟩]
  else [⟨m.child defaultKey, none, false⟩, ⟨m.child controlKey, none, true⟩] ++
    (m.child overrideKey).children.map fun e => ⟨e, some e.key, false⟩

/-- The places of a section that say a minimum level, in order. -/
def Node.levelSources (n : Node) : List LevelSource :=
  (MinimumLevel.places (n.child MinimumLevel.sectionName)).filter fun src => !src.isBlank

/-- A step that sets a minimum level. -/
def Step.isLevel : Step → Bool
  | .minimumLevel _ | .levelOverride _ _ => true
  | _ => false

/-! ## Declarations -/

/-- Between two sessions the entries of a section have been declared, as watches. -/
structure Session.Registers (kind : SwitchKind) (es : List Node) (s : Session) (ws : List Watch)
    (t : Session) : Prop where
  last : ∀ name e, es.reverse.find? (fun e => SwitchName.canonical e.key = name) = some e →
    ∃ w ∈ ws, w.node = e ∧ w.switch.1 = kind ∧ t.registry.cell? kind name = some w.switch.2
  others : ∀ other name,
    other ≠ kind ∨ es.reverse.find? (fun e => SwitchName.canonical e.key = name) = none →
      t.registry.cell? other name = s.registry.cell? other name

namespace Run

variable {o : Options} {n : Node} {s t : Session} {kind : SwitchKind}

theorem registry_of_declare {name path label : String} {cell : Nat}
    (h : Returns (declare kind name cell path) s label t) :
    t.registry = s.registry.put kind (SwitchName.canonical name) cell := by
  rw [declare, returns_bind] at h
  obtain ⟨canonical, s₁, hname, h⟩ := h
  obtain ⟨hname, rfl⟩ := returns_lift.1 hname
  rw [returns_bind] at h
  obtain ⟨_, s₂, hdeclare, h⟩ := h
  obtain rfl := returns_modify.1 hdeclare
  obtain ⟨rfl, rfl⟩ := returns_pure.1 h
  rw [Registry.declaredName] at hname
  split at hname
  · cases hname
    unfold Session.declare
    split <;> rfl
  · cases hname

theorem registry_of_declareSwitch {w : Watch} (h : Returns (declareSwitch o kind n) s w t) :
    w.node = n ∧ w.switch.1 = kind ∧
      t.registry = s.registry.put kind (SwitchName.canonical n.key) w.switch.2 := by
  cases kind with
  | level =>
    obtain ⟨l, label, -, hlabel, rfl⟩ := declareLevel_cases h
    have hput := registry_of_declare hlabel
    exact ⟨rfl, rfl, hput⟩
  | filter =>
    obtain ⟨expression, label, -, hlabel, rfl⟩ := declareFilter_cases h
    have hput := registry_of_declare hlabel
    exact ⟨rfl, rfl, hput⟩

theorem registers_of_threaded {es : List Node} {ws : List Watch}
    (h : Threaded (fun e => Returns (declareSwitch o kind e)) es s ws t) :
    Session.Registers kind es s ws t := by
  induction h with
  | nil s => exact ⟨by simp, fun _ _ _ => rfl⟩
  | @cons e es w ws s i t hw _ ih =>
    obtain ⟨hnode, hkind, hput⟩ := registry_of_declareSwitch hw
    constructor
    · intro name e' he'
      rw [List.reverse_cons, List.find?_append, Option.or_eq_some_iff] at he'
      rcases he' with he' | ⟨hnone, he'⟩
      · obtain ⟨w', hw', hlast⟩ := ih.last name e' he'
        exact ⟨w', List.mem_cons_of_mem _ hw', hlast⟩
      · -- No later entry declares the name, so this one stays.
        obtain ⟨hname, rfl⟩ : SwitchName.canonical e.key = name ∧ e = e' := by
          simpa [List.find?_singleton] using he'
        refine ⟨w, List.mem_cons_self .., hnode, hkind, ?_⟩
        rw [ih.others kind name (.inr hnone), hput, ← hname, Registry.cell?_put_self]
    · intro other name hother
      rw [List.reverse_cons, List.find?_append, Option.or_eq_none_iff] at hother
      rw [ih.others other name (hother.imp_right And.left), hput]
      refine Registry.cell?_put_of_ne (hother.imp_right ?_)
      rintro ⟨-, hnone⟩ rfl
      simp at hnone

theorem registers_of_declareSwitches {ws : List Watch}
    (h : Returns (declareSwitches o n kind) s ws t) :
    Session.Registers kind (n.child kind.sectionName).children s ws t :=
  registers_of_threaded (threaded_of_declareSwitches h)

end Run

/-! ## Minimum levels -/

/-- A step sets the level that a place says, by the switches that are watched and declared. -/
inductive LevelSource.Drawn (r : Registry) (ws : List Watch) : LevelSource → Step → Prop
  | literal {src : LevelSource} {cell : Nat} {w : Watch} (h : src.isReference = false) (hw : w ∈ ws)
      (hswitch : w.switch = (.level, cell)) (hnode : w.node = src.node) :
      Drawn r ws src (src.step cell)
  | reference {src : LevelSource} {cell : Nat} (h : src.isReference = true)
      (hcell : r.cell? .level (SwitchName.canonical src.text) = some cell) :
      Drawn r ws src (src.step cell)

/-- A plan has a step for every place that says a level, and watches those that name one. -/
structure Plan.Draws (r : Registry) (places : List LevelSource) (q : Plan) : Prop where
  steps : List.Forall₂ (LevelSource.Drawn r q.watches) (places.filter fun src => !src.isBlank)
    q.steps
  watches : q.watches.length =
    (places.filter fun src => !src.isBlank && !src.isReference).length

variable {r : Registry}

namespace LevelSource

variable {src : LevelSource}

theorem Drawn.mono {ws ws' : List Watch} {step : Step} (h : src.Drawn r ws step)
    (hws : ∀ w ∈ ws, w ∈ ws') : src.Drawn r ws' step := by
  cases h with
  | literal h hw hswitch hnode => exact .literal h (hws _ hw) hswitch hnode
  | reference h hcell => exact .reference h hcell

theorem text_of_ofNode {text : String} (h : LevelText.ofNode src.node = .ok text) :
    text = src.text := by
  obtain ⟨raw, hraw, rfl⟩ := LevelText.exists_of_ofNode h
  rw [LevelSource.text, hraw, Option.getD_some]

theorem isBlank_of_located {e : Node} (h : e.located = none) (events : Option String)
    (refers : Bool) : isBlank ⟨e, events, refers⟩ = true := by
  rw [isBlank, text, Node.value, h]
  decide

end LevelSource

namespace Plan

variable {places more : List LevelSource} {src : LevelSource} {q q' : Plan}

theorem draws_empty (h : ∀ src ∈ places, src.isBlank = true) : Draws r places .empty := by
  constructor
  · rw [List.filter_eq_nil_iff.2 fun src hsrc => by simp [h src hsrc]]
    exact .nil
  · rw [List.filter_eq_nil_iff.2 fun src hsrc => by simp [h src hsrc]]
    rfl

theorem Draws.append (h : Draws r places q) (h' : Draws r more q') :
    Draws r (places ++ more) (q.append q') := by
  constructor
  · rw [List.filter_append]
    exact List.rel_append
      (h.steps.imp fun _ _ hd => hd.mono fun w hw => List.mem_append_left _ hw)
      (h'.steps.imp fun _ _ hd => hd.mono fun w hw => List.mem_append_right _ hw)
  · rw [Plan.append, List.length_append, h.watches, h'.watches, List.filter_append,
      List.length_append]

/-- A place that refers to a declared switch. -/
theorem draws_reference {cell : Nat} (hblank : src.isBlank = false)
    (href : src.isReference = true)
    (hcell : r.cell? .level (SwitchName.canonical src.text) = some cell) :
    Draws r [src] ⟨[src.step cell], []⟩ := by
  constructor
  · rw [List.filter_cons_of_pos (by simp [hblank])]
    exact .cons (.reference href hcell) .nil
  · rw [List.filter_cons_of_neg (by simp [href])]
    rfl

/-- A place that names a level. -/
theorem draws_literal {cell : Nat} {label : String} {declared : Bool}
    (hblank : src.isBlank = false) (href : src.isReference = false) :
    Draws r [src] ⟨[src.step cell], [.level label cell src.node declared]⟩ := by
  constructor
  · rw [List.filter_cons_of_pos (by simp [hblank])]
    exact .cons (.literal href (List.mem_singleton_self _) rfl rfl) .nil
  · rw [List.filter_cons_of_pos (by simp [hblank, href])]
    rfl

end Plan

namespace Run

open Plan (draws_empty draws_reference draws_literal)

variable {n : Node} {s t : Session}

/-- A computation plans the levels that some places say, and declares nothing. -/
def Draws (m : Run Plan) (places : List LevelSource) : Prop :=
  ∀ {s q t}, Returns m s q t → t.registry = s.registry ∧ q.Draws s.registry places

theorem draws_collect {placess : List (List LevelSource)} {plans : List Plan} {r : Registry}
    (h : List.Forall₂ (Plan.Draws r) placess plans) :
    Plan.Draws r placess.flatten (collect plans) := by
  have hempty : Plan.Draws r [] .empty := draws_empty nofun
  have hall := collect_of_forall₂ hempty .append h
  have hflatten : placess.foldl (· ++ ·) [] = placess.flatten := by
    simpa using @List.foldl_append_eq_append _ _ placess id []
  rwa [← hflatten]

theorem draws_levelPlan (src : LevelSource) {label : String} (hrefers : src.refers = false) :
    Draws (levelPlan src.node label src.step) [src] := by
  have hreference : src.isReference = src.text.startsWith "$" := by
    rw [LevelSource.isReference, hrefers, Bool.false_or]
  intro s q t h
  cases levelPlans_of_returns h with
  | blank htext hblank =>
    obtain rfl := LevelSource.text_of_ofNode htext
    exact ⟨rfl, draws_empty (by simpa [LevelSource.isBlank] using hblank)⟩
  | reference htext hblank hsign hcell =>
    obtain rfl := LevelSource.text_of_ofNode htext
    exact ⟨rfl, draws_reference hblank (hreference.trans hsign) (Scope.cell?_of_cell hcell)⟩
  | literal htext hblank hsign _ =>
    obtain rfl := LevelSource.text_of_ofNode htext
    exact ⟨rfl, draws_literal hblank (hreference.trans hsign)⟩

theorem draws_controlPlan : Draws (controlPlan n) [⟨n, none, true⟩] := by
  intro s q t h
  obtain ⟨rfl, text, htext, hcases⟩ := controlPlan_cases h
  obtain rfl : text = LevelSource.text ⟨n, none, true⟩ := LevelSource.text_of_ofNode htext
  rcases hcases with ⟨hblank, rfl⟩ | ⟨hblank, cell, hcell, rfl⟩
  · exact ⟨rfl, draws_empty (by simpa [LevelSource.isBlank] using hblank)⟩
  · exact ⟨rfl, draws_reference hblank rfl (Scope.cell?_of_cell hcell)⟩

theorem draws_ifPresent {plan : Node → Run Plan} {events : Option String} {refers : Bool}
    (hplan : Draws (plan n) [⟨n, events, refers⟩]) :
    Draws (ifPresent n plan) [⟨n, events, refers⟩] := by
  intro s q t h
  rw [ifPresent] at h
  split at h
  · exact hplan h
  · next hn =>
    obtain ⟨rfl, rfl⟩ := returns_pure.1 h
    refine ⟨rfl, draws_empty fun src hsrc => ?_⟩
    rw [List.mem_singleton.1 hsrc]
    exact LevelSource.isBlank_of_located (by simpa [Node.isPresent] using hn) events refers

theorem draws_overrides {es : List Node} {qs : List Plan}
    (h : Threaded (fun e => Returns (overridePlan e)) es s qs t) :
    t.registry = s.registry ∧ List.Forall₂ (Plan.Draws s.registry)
      (es.map fun e => [⟨e, some e.key, false⟩]) qs := by
  induction h with
  | nil s => exact ⟨rfl, .nil⟩
  | @cons e es q qs s i t hq _ ih =>
    have hdraws : Draws (overridePlan e) [⟨e, some e.key, false⟩] :=
      draws_levelPlan ⟨e, some e.key, false⟩ rfl
    obtain ⟨hregistry, hq⟩ := hdraws hq
    rw [hregistry] at ih
    exact ⟨ih.1, .cons hq ih.2⟩

theorem draws_levelSection (hn : n.value = none) :
    Draws (levelSection n) (MinimumLevel.places n) := by
  intro s q t h
  obtain ⟨whole, controlled, overrides, s₁, s₂, hwhole, hcontrolled, hoverrides, rfl⟩ :=
    levelSection_cases h
  have hdefault : Draws (defaultPlan (n.child MinimumLevel.defaultKey)) [⟨_, none, false⟩] :=
    draws_levelPlan ⟨n.child MinimumLevel.defaultKey, none, false⟩ rfl
  obtain ⟨h₁, hw⟩ := draws_ifPresent hdefault hwhole
  obtain ⟨h₂, hc⟩ := draws_ifPresent draws_controlPlan hcontrolled
  obtain ⟨h₃, ho⟩ := draws_overrides hoverrides
  rw [h₂, h₁] at ho
  rw [h₁] at hc
  refine ⟨h₃.trans (h₂.trans h₁), ?_⟩
  have hall := draws_collect (.cons hw (.cons hc ho))
  rw [List.flatten_cons, List.flatten_cons, ← List.flatMap_def, ← List.map_eq_flatMap] at hall
  rw [MinimumLevel.places, hn]
  exact hall

/-- The minimum levels are those that the places of their section say. -/
theorem draws_minimumLevels :
    Draws (minimumLevels n) (MinimumLevel.places (n.child MinimumLevel.sectionName)) := by
  intro s q t h
  generalize hm : n.child MinimumLevel.sectionName = m
  rw [minimumLevels, hm, ifPresent] at h
  split at h
  · rw [returns_bind] at h
    obtain ⟨shape, s₁, hshape, h⟩ := h
    obtain ⟨hform, rfl⟩ := returns_lift.1 hshape
    cases shape with
    | scalar text =>
      rw [MinimumLevel.places, Node.value_of_form hform]
      exact draws_levelPlan ⟨m, none, false⟩ rfl h
    | structured => exact draws_levelSection (Node.value_of_structured hform) h
  · next hpresent =>
    obtain ⟨rfl, rfl⟩ := returns_pure.1 h
    refine ⟨rfl, draws_empty fun src hsrc => ?_⟩
    have hlocated : m.located = none := by simpa [Node.isPresent] using hpresent
    have hchild : ∀ path, (m.child path).located = none := fun path => by
      rw [Node.located] at hlocated ⊢
      rw [Node.child, Tree.descend_append, hlocated]
      rfl
    have hnone : (m.child MinimumLevel.overrideKey).children = [] := by
      rw [Node.children, Node.subtrees, hchild]
      rfl
    rw [MinimumLevel.places, Node.value, hlocated, hnone] at hsrc
    rcases List.mem_cons.1 hsrc with rfl | hsrc
    · exact LevelSource.isBlank_of_located (hchild _) ..
    · rw [List.mem_singleton.1 hsrc]
      exact LevelSource.isBlank_of_located (hchild _) ..

end Run

end LogBinder
