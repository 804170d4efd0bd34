/-
  Log binder — how switches are wired.

  Every step and every argument of a plan that has a switch has one that the
  plan watches: a literal level is followed at its own place, and a reference
  at the last entry that declares its canonical name.  So no level that is
  handed on stops following its entry.

  * `Plan.Observes`, `Plan.Follows` : a plan watches a switch once, at a
    place or where a reference was declared last;
  * `Plan.IsLive` : everything that has a switch is wired;
  * `Binder.isLive_of_plan` : so it is in every plan that starts without
    declared switches.
-/
import LogBinder.Proofs.Binding.Layout
import LogBinder.Proofs.Binding.Snapshots

namespace LogBinder

open Run (Returns)

/-! ## What a plan watches -/

/-- A plan watches a switch exactly once, at a place. -/
def Plan.Observes (p : Plan) (x : Switch) (e : Node) : Prop :=
  ∃ w, p.watches.filter (fun w => w.switch = x) = [w] ∧ w.node = e

/-- A plan watches the switch of a reference where it was declared last. -/
def Plan.Follows (p : Plan) (n : Node) (x : Switch) (reference : String) : Prop :=
  ∃ e, n.declaration? x.1 (SwitchName.canonical reference) = some e ∧ p.Observes x e

/-- A step of a plan sets the level that a place says. -/
inductive Plan.Wires (p : Plan) (n : Node) : LevelSource → Step → Prop
  | literal {src : LevelSource} {cell : Nat} (h : src.isReference = false)
      (ho : p.Observes (.level, cell) src.node) : Wires p n src (src.step cell)
  | reference {src : LevelSource} {cell : Nat} (h : src.isReference = true)
      (hf : p.Follows n (.level, cell) src.text) : Wires p n src (src.step cell)

/-- A value is a switch, or a part of it is. -/
inductive Value.HoldsSwitch : Value → Switch → Prop
  | self {v : Value} {x : Switch} (h : v.switch? = some x) : HoldsSwitch v x
  | part {v w : Value} {x : Switch} (hw : w ∈ v.parts) (h : HoldsSwitch w x) : HoldsSwitch v x

/-- A value that a catalog holds is a switch or has one. -/
def Catalog.HoldsSwitch (k : Catalog) (x : Switch) : Prop := ∃ v, k.Gives v ∧ v.HoldsSwitch x

/-- A text stands at a node or below it, expanded if it is a scalar. -/
inductive Node.Says (environment : Environment) (n : Node) : String → Prop
  | scalar {e : Node} {text : String} (he : e.IsWithin n) (h : e.form = .ok (.scalar text)) :
      Says environment n (environment.expand text)
  | key {e : Node} (he : e.IsBelow n) : Says environment n e.key

/-- The switches of an argument are in the catalog, or those of references in what is supplied for
it, which are followed. -/
def Plan.WiresArgument (p : Plan) (n : Node) (k : Catalog) (environment : Environment)
    (d : Directive) (a : String × Value) : Prop :=
  ∀ x, a.2.HoldsSwitch x → k.HoldsSwitch x ∨ ∃ e reference,
    d.argument? a.1 = some e ∧ e.Says environment reference ∧ p.Follows n x reference

/-- The type of the switches of a kind. -/
def SwitchKind.type : SwitchKind → TypeRef
  | level => .levelSwitch
  | filter => .filterSwitch

/-- Everything in the plan of a section that has a switch is wired; the session is the one that
planning leaves. -/
structure Plan.IsLive (b : Binder) (n : Node) (p : Plan) (t : Session) : Prop where
  distinct : (p.watches.map Watch.switch).Nodup
  levels : List.Forall₂ (p.Wires n) n.levelSources (p.steps.filter Step.isLevel)
  /-- A reference that converts to a switch converts to one that is followed. -/
  references : ∀ m reference kind v i j,
    Fresh.Yields ((b.scope t).convertScalar m reference kind.type) i v j →
      ∃ cell, v = .ofSwitch kind cell ∧ p.Follows n (kind, cell) reference
  arguments : ∀ call path, .call call path ∈ p.steps →
    ∃ (capability : Capability) (e : Node) (d : Directive),
      e ∈ (n.child capability.sectionName).children ∧ Directive.ofNode e = .ok d ∧ d.path = path ∧
      ∀ a ∈ call.arguments, p.WiresArgument n b.catalog t.host.environment d a
  /-- Nothing else is watched. -/
  count : p.watches.length = (n.child SwitchKind.level.sectionName).children.length +
    (n.child SwitchKind.filter.sectionName).children.length +
    (n.levelSources.filter fun src => !src.isReference).length

/-- In a list of watches of different switches each is found by its switch. -/
theorem Plan.observes_of_mem {p : Plan} (h : (p.watches.map Watch.switch).Nodup) {w : Watch}
    (hw : w ∈ p.watches) : p.Observes w.switch w.node := by
  obtain ⟨before, after, hsplit⟩ := List.append_of_mem hw
  refine ⟨w, ?_, rfl⟩
  rw [hsplit, List.map_append, List.map_cons, List.perm_middle.nodup_iff, List.nodup_cons,
    ← List.map_append] at h
  have hother : ∀ u ∈ before ++ after, ¬ u.switch = w.switch := fun u hu heq =>
    h.1 (List.mem_map.2 ⟨u, hu, heq⟩)
  have hbefore : before.filter (fun u => u.switch = w.switch) = [] := by
    rw [List.filter_eq_nil_iff]
    intro u hu
    simpa using hother u (List.mem_append_left _ hu)
  have hafter : after.filter (fun u => u.switch = w.switch) = [] := by
    rw [List.filter_eq_nil_iff]
    intro u hu
    simpa using hother u (List.mem_append_right _ hu)
  rw [hsplit, List.filter_append, List.filter_cons_of_pos (by simp), hbefore, hafter]
  rfl

/-! ## Switches in arguments -/

theorem Value.not_holdsSwitch {v : Value} (hswitch : v.switch? = none) (hparts : v.parts = [])
    (x : Switch) : ¬ v.HoldsSwitch x := by
  intro h
  cases h with
  | self hx =>
    rw [hswitch] at hx
    cases hx
  | part hw _ =>
    rw [hparts] at hw
    cases hw

theorem Value.not_holdsSwitch_of_place? {v : Value} {n : Node} (h : v.place? = some n)
    (x : Switch) : ¬ v.HoldsSwitch x := by
  refine not_holdsSwitch ?_ (parts_of_place? h) x
  cases v with
  | node | callback => rfl
  | _ => cases h

theorem Value.HoldsSwitch.eq_of_ofSwitch {kind : SwitchKind} {cell : Nat} {x : Switch}
    (h : (Value.ofSwitch kind cell).HoldsSwitch x) : x = (kind, cell) := by
  cases kind with
  | level | filter =>
    cases h with
    | self hx => exact (Option.some.inj hx).symm
    | part hw _ => cases hw

theorem Node.Says.up {environment : Environment} {c n : Node} {text : String}
    (h : c.Says environment text) (hc : c ∈ n.children) : n.Says environment text := by
  cases h with
  | scalar he hform => exact .scalar (he.trans_isWithin (Node.isWithin_of_mem_children hc)) hform
  | key he => exact .key (he.trans (Node.isBelow_of_mem_children hc))

namespace Scope

variable {s : Scope}

/-- The switches of a value are in the catalog, or they are some of others. -/
def Switched (s : Scope) (others : Switch → Prop) (v : Value) : Prop :=
  ∀ x, v.HoldsSwitch x → s.catalog.HoldsSwitch x ∨ others x

theorem Switched.imp {others others' : Switch → Prop} {v : Value} (h : s.Switched others v)
    (hothers : ∀ x, others x → others' x) : s.Switched others' v :=
  fun x hx => (h x hx).imp_right (hothers x)

theorem switched_ofSwitch {others : Switch → Prop} {kind : SwitchKind} {cell : Nat}
    (h : others (kind, cell)) : s.Switched others (.ofSwitch kind cell) := by
  intro x hx
  rw [hx.eq_of_ofSwitch]
  exact .inr h

theorem takes_switched (path : String) (others : Switch → Prop) :
    s.Takes path (s.Switched others) fun _ => True where
  given v hv _ hx := .inl ⟨v, hv, hx⟩
  injected n _ x hx := absurd hx (Value.not_holdsSwitch_of_place? (n := n) rfl x)
  whole _ _ hswitch hparts x hx := by
    cases hx with
    | self hx =>
      rw [hswitch] at hx
      cases hx
    | part hw hx => exact hparts _ hw x hx
  fails _ _ := trivial

/-- A switch is declared under the canonical name of a reference at a node or below. -/
def RefersTo (s : Scope) (n : Node) (x : Switch) : Prop :=
  ∃ reference, n.Says s.environment reference ∧
    s.registry.cell? x.1 (SwitchName.canonical reference) = some x.2

/-- The switches in what a conversion gives are in the catalog, or declared for references at the
node or below. -/
theorem keeps_switches (s : Scope) :
    s.Keeps (fun n => s.Switched (s.RefersTo n)) fun _ _ => True where
  takes n := takes_switched n.path _
  own _ _ hv x hx := absurd hx (Value.not_holdsSwitch_of_place? hv x)
  refers _ _ htext _ _ hcell := switched_ofSwitch ⟨_, .scalar (.inl rfl) htext, hcell⟩
  refersKey _ _ hc _ _ hcell :=
    switched_ofSwitch ⟨_, .key (Node.isBelow_of_mem_children hc), hcell⟩
  below _ _ hc _ hv := hv.imp fun _ ⟨reference, hsays, hcell⟩ =>
    ⟨reference, hsays.up hc, hcell⟩
  failsBelow _ _ _ _ _ := trivial
  failsType _ _ _ _ := trivial

/-- A reference that converts to a switch is declared. -/
theorem ofSwitch_of_convertScalar {n : Node} {reference : String} {kind : SwitchKind} {v : Value}
    {i j : Nat} (h : Fresh.Yields (s.convertScalar n reference kind.type) i v j) :
    ∃ cell, v = .ofSwitch kind cell ∧
      s.registry.cell? kind (SwitchName.canonical reference) = some cell := by
  cases kind with
  | level | filter =>
    rw [SwitchKind.type, convertScalar] at h
    obtain ⟨cell, l, hcell, h⟩ := Fresh.yields_bind.1 h
    exact ⟨cell, (Fresh.yields_pure.1 h).1, cell?_of_cell (Fresh.yields_lift.1 hcell).1⟩

end Scope

/-! ## Plans -/

namespace Binder

variable {b : Binder} {n : Node} {s t : Session} {p : Plan}

/-- The arguments of a call have switches of the catalog, or declared for references in what is
supplied for them. -/
theorem switched_of_bind {capability : Capability} {d : Directive} {m : Method} {c : Call}
    {i j : Nat}
    (hm : Overload.select (b.candidates capability) d.name capability d.supplied = some m)
    (h : Fresh.Yields (Call.bind (b.scope s) d m) i c j) : ∀ a ∈ c.arguments,
      (b.scope s).Switched (fun x => ∃ e, d.argument? a.1 = some e ∧ (b.scope s).RefersTo e x)
        a.2 :=
  ((b.scope s).keeps_switches.ends_arguments
    (R := fun name => (b.scope s).Switched fun x =>
      ∃ e, d.argument? name = some e ∧ (b.scope s).RefersTo e x)
    (fun _ => Scope.takes_switched d.path _) (mem_methods_of_select hm)
    (fun _ e he _ hv => hv.imp fun _ hx => ⟨e, he, hx⟩) (fun _ _ _ _ _ => trivial) i).of_ok _ h

/-- After the switches have been declared, what is declared under a name is watched at the last
entry that declares it. -/
theorem follows_of_cell? (hs : s.registry = .empty) {levels filters : List Watch}
    {s₁ s₂ : Session} (hlevels : Returns (Run.declareSwitches b.options n .level) s levels s₁)
    (hfilters : Returns (Run.declareSwitches b.options n .filter) s₁ filters s₂)
    (hwatches : ∀ w ∈ levels ++ filters, w ∈ p.watches)
    (hnodup : (p.watches.map Watch.switch).Nodup) {kind : SwitchKind} {reference : String}
    {cell : Nat} (hcell : s₂.registry.cell? kind (SwitchName.canonical reference) = some cell) :
    p.Follows n (kind, cell) reference := by
  have hl := Run.registers_of_declareSwitches hlevels
  have hf := Run.registers_of_declareSwitches hfilters
  have hempty : ∀ kind name, s.registry.cell? kind name = none := by
    intro kind name
    rw [hs]
    cases kind <;> rfl
  have hfound : ∀ w ∈ levels ++ filters, w.switch = (kind, cell) →
      n.declaration? kind (SwitchName.canonical reference) = some w.node →
      p.Follows n (kind, cell) reference := by
    intro w hw hswitch hdeclared
    refine ⟨w.node, hdeclared, ?_⟩
    rw [← hswitch]
    exact Plan.observes_of_mem hnodup (hwatches w hw)
  cases kind with
  | level =>
    rw [hf.others .level _ (.inl nofun)] at hcell
    cases hlast : n.declaration? .level (SwitchName.canonical reference) with
    | none =>
      rw [hl.others .level _ (.inr hlast), hempty] at hcell
      cases hcell
    | some e =>
      obtain ⟨w, hw, rfl, hkind, hput⟩ := hl.last _ e hlast
      rw [hput] at hcell
      exact hfound w (List.mem_append_left _ hw) (Prod.ext hkind (Option.some.inj hcell)) hlast
  | filter =>
    cases hlast : n.declaration? .filter (SwitchName.canonical reference) with
    | none =>
      rw [hf.others .filter _ (.inr hlast), hl.others .filter _ (.inl nofun), hempty] at hcell
      cases hcell
    | some e =>
      obtain ⟨w, hw, rfl, hkind, hput⟩ := hf.last _ e hlast
      rw [hput] at hcell
      exact hfound w (List.mem_append_right _ hw) (Prod.ext hkind (Option.some.inj hcell)) hlast

/-- The switches in the arguments of a call are followed if the declared ones are. -/
theorem wiresArgument_of_plans {capability : Capability} {call : Call} {path : String}
    (h : b.Plans capability n t (.call call path))
    (hfollows : ∀ {kind reference cell},
      t.registry.cell? kind (SwitchName.canonical reference) = some cell →
        p.Follows n (kind, cell) reference) :
    ∃ (capability : Capability) (e : Node) (d : Directive),
      e ∈ (n.child capability.sectionName).children ∧ Directive.ofNode e = .ok d ∧ d.path = path ∧
      ∀ a ∈ call.arguments, p.WiresArgument n b.catalog t.host.environment d a := by
  obtain ⟨e, he, u, f, hregistry, hhost, hbefalls, hf⟩ := h
  obtain ⟨d, m, c, i, j, hd, hm, hc, hstep⟩ := call_of_befalls hbefalls hf
  cases hstep
  refine ⟨capability, e, d, he, hd, rfl, fun a ha x hx => ?_⟩
  refine (switched_of_bind hm hc a ha x hx).imp_right ?_
  rintro ⟨arg, harg, reference, hsays, hcell⟩
  change u.registry.cell? x.1 _ = _ at hcell
  change arg.Says u.host.environment reference at hsays
  rw [hregistry] at hcell
  rw [hhost] at hsays
  exact ⟨arg, reference, harg, hsays, hfollows hcell⟩

theorem wires_of_drawn {r : Registry} {ws : List Watch} {src : LevelSource} {step : Step}
    (h : src.Drawn r ws step) (hws : ∀ w ∈ ws, w ∈ p.watches)
    (hnodup : (p.watches.map Watch.switch).Nodup)
    (hfollows : ∀ {kind reference cell},
      r.cell? kind (SwitchName.canonical reference) = some cell →
        p.Follows n (kind, cell) reference) : p.Wires n src step := by
  cases h with
  | literal h hw hswitch hnode =>
    refine .literal h ?_
    rw [← hswitch, ← hnode]
    exact Plan.observes_of_mem hnodup (hws _ hw)
  | reference h hcell => exact .reference h (hfollows hcell)

/-- **Every switch that a plan hands on is live.**  If no switch was declared before, every switch
of a level step and every switch that a reference converts to is watched by the plan exactly once:
at the place that names the level, or at the last entry that declares the canonical name of the
reference.  Nothing else is watched. -/
theorem isLive_of_plan (hs : s.registry = .empty) (h : Returns (b.plan n) s p t) :
    p.IsLive b n t := by
  have hnodup : (p.watches.map Watch.switch).Nodup := (equips_plan h).nodup
  obtain ⟨levels, filters, minimum, s₁, s₂, s₃, hlevels, hfilters, hminimum, hregistry, hwatches,
    hsteps, hcalls⟩ := (layout_of_plan h).steps_cases
  obtain ⟨hr, hdraws⟩ := Run.draws_minimumLevels hminimum
  have hdeclared : ∀ w ∈ levels ++ filters, w ∈ p.watches := by
    rw [hwatches]
    exact fun w hw => List.mem_append_left _ hw
  have hfollows : ∀ {kind reference cell},
      t.registry.cell? kind (SwitchName.canonical reference) = some cell →
        p.Follows n (kind, cell) reference := by
    intro kind reference cell hcell
    rw [hregistry.trans hr] at hcell
    exact follows_of_cell? hs hlevels hfilters hdeclared hnodup hcell
  refine ⟨hnodup, ?_, ?_, ?_, ?_⟩
  · rw [hsteps]
    refine hdraws.steps.imp fun src step hdrawn => wires_of_drawn hdrawn ?_ hnodup ?_
    · rw [hwatches]
      exact fun w hw => List.mem_append_right _ hw
    · rw [← hregistry.trans hr]
      exact hfollows
  · intro m reference kind v i j hv
    obtain ⟨cell, rfl, hcell⟩ := Scope.ofSwitch_of_convertScalar hv
    exact ⟨cell, rfl, hfollows hcell⟩
  · intro call path hstep
    obtain ⟨capability, hplans⟩ := hcalls call path hstep
    exact wiresArgument_of_plans hplans hfollows
  · rw [hwatches, List.length_append, List.length_append, Run.length_of_declareSwitches hlevels,
      Run.length_of_declareSwitches hfilters, hdraws.watches, Node.levelSources, List.filter_filter]
    simp only [Bool.and_comm]

end Binder

/-! ## A section with references of all sorts -/

namespace Sample

/-- A level switch that is declared twice, a filter switch, and what refers to them. -/
def wiredRoot : Root Watcher := listedRoot
  [⟨"LevelSwitches:$low", some "Debug"⟩, ⟨"LevelSwitches: low ", some "Error"⟩,
   ⟨"FilterSwitches:keep", some "x"⟩, ⟨"MinimumLevel:Default", some "Warning"⟩,
   ⟨"MinimumLevel:ControlledBy", some "low"⟩, ⟨"MinimumLevel:Override:Sample", some " $low "⟩,
   ⟨"MinimumLevel:Override:Blank", some " "⟩, ⟨"Filter:0:Name", some "ControlledBy"⟩,
   ⟨"Filter:0:Args:switch", some "$keep"⟩, ⟨"WriteTo:0:Name", some "Console"⟩,
   ⟨"WriteTo:0:Args:levelSwitch", some "low"⟩]

/-- The outcome of planning it. -/
def wiredDraft : Except ResolveError Plan × Session :=
  themedBinder.plan wiredRoot.top (.start ⟨[], []⟩ wiredRoot)

/-- Its plan. -/
def wiredPlan : Plan := wiredDraft.1.toOption.getD .empty

/-- All of the switches are watched where they were declared last or named, and nothing else is. -/
theorem isLive_wiredPlan :
    wiredPlan.IsLive themedBinder wiredRoot.top wiredDraft.2 ∧ wiredPlan.watches.length = 4 ∧
      (wiredPlan.steps.filter Step.isLevel).length = 3 ∧
      (wiredRoot.top.declaration? .level "$low").map Node.segments =
        some ["LevelSwitches", " low "] := by
  have hok : wiredDraft.1.isOk = true := by decide +kernel
  have hlive : wiredPlan.IsLive themedBinder wiredRoot.top wiredDraft.2 :=
    Binder.isLive_of_plan (s := .start ⟨[], []⟩ wiredRoot) rfl
      (Run.returns_of_isOk (m := themedBinder.plan wiredRoot.top) hok .empty)
  refine ⟨hlive, ?_, ?_, by decide +kernel⟩
  · rw [hlive.count]
    decide +kernel
  · rw [← hlive.levels.length_eq]
    decide +kernel

end Sample

end LogBinder
