/-
  Log binder — what becomes of the entries of a section.

  Every entry of a section of directives has one fate: a call is planned for
  it, or it is told that no method matches it.  Nothing is lost or merged,
  and the fates stand in the order of the entries.  If reading the section
  fails, the error is that of the section, of the first malformed entry, or
  of the first entry whose call cannot be bound, in this order; then nothing
  is planned, and what has been told is the fate of the entries before it.

  * `Fate` : what becomes of an entry, and `Binder.fate` of one by itself;
  * `Binder.Resolution` : how reading a section ends;
  * `Binder.fates_of_directives` : reading a section ends so, all entries
    count, and the fate of an entry does not depend on the others.
-/
import LogBinder.Proofs.Binding.Faults
import LogBinder.Proofs.Binding.Likeness
import LogBinder.Proofs.Binding.Watched

namespace LogBinder

open Fresh (Yields)
open Run (Returns)

/-! ## Fates -/

/-- What becomes of an entry of a section of directives. -/
inductive Fate where
  | called (call : Call) (path : String)
  | unmatched (capability : Capability) (name path : String) (supplied candidates : List String)

namespace Fate

/-- The step that is planned. -/
def step? : Fate → Option Step
  | called c path => some (.call c path)
  | unmatched .. => none

/-- What is told. -/
def diagnostic? : Fate → Option Diagnostic
  | called .. => none
  | unmatched capability name path supplied candidates =>
    some (.unmatchedDirective capability name path supplied candidates)

/-- Two fates are of one kind, with calls that are alike. -/
inductive Like (N : Node → Node → Prop) : Fate → Fate → Prop
  | called {c c' : Call} (h : c.Like N c') (path : String) :
      Like N (.called c path) (.called c' path)
  | unmatched (capability : Capability) (name path : String) (supplied candidates : List String) :
      Like N (.unmatched capability name path supplied candidates)
        (.unmatched capability name path supplied candidates)

theorem reduceOption_map_step? (fates : List Fate) :
    (fates.map step?).reduceOption = fates.filterMap step? := by
  rw [List.reduceOption, List.filterMap_map]
  rfl

/-- Every fate is a step or something told, and not both. -/
theorem length_steps_add_diagnostics (fates : List Fate) :
    (fates.filterMap step?).length + (fates.filterMap diagnostic?).length = fates.length := by
  induction fates with
  | nil => rfl
  | cons f rest ih =>
    cases f with
    | called c path =>
      simp only [List.filterMap_cons, step?, diagnostic?, List.length_cons]
      omega
    | unmatched capability name path supplied candidates =>
      simp only [List.filterMap_cons, step?, diagnostic?, List.length_cons]
      omega

end Fate

/-- The trimmed name of the directive at an entry: the scalar there, or the one at its name. -/
def Directive.nameText (e : Node) : String :=
  Text.trim ((e.value.or (e.child nameKey).value).getD "")

/-- A fate is one of an entry: it has the path and the name of the directive there. -/
inductive Fate.IsOf (capability : Capability) (e : Node) : Fate → Prop
  | called {c : Call} (hname : c.method.name = Directive.nameText e)
      (hcapability : c.method.capability = capability) : IsOf capability e (.called c e.path)
  | unmatched (supplied candidates : List String) :
      IsOf capability e (.unmatched capability (Directive.nameText e) e.path supplied candidates)

namespace Binder

/-- What becomes of a directive, by what conversions can see. -/
def settle (b : Binder) (capability : Capability) (s : Scope) (d : Directive) : Fresh Fate := do
  match Overload.select (b.candidates capability) d.name capability d.supplied with
  | some m => return .called (← Call.bind s d m) d.path
  | none =>
    let signatures := Overload.signatures (b.candidates capability) d.name
    return .unmatched capability d.name d.path d.supplied signatures

/-- What becomes of an entry by itself, by what conversions can see. -/
def fate (b : Binder) (capability : Capability) (s : Scope) (e : Node) : Fresh Fate := do
  b.settle capability s (← Directive.ofNode e)

end Binder

/-! ## Entries -/

/-- A scalar and keys stand at a place. -/
def Node.IsAmbiguous (n : Node) : Prop := n.value.isSome = true ∧ n.hasChildren = true

theorem Node.form_of_isAmbiguous {n : Node} (h : n.IsAmbiguous) :
    n.form = .error (.ambiguousShape n.path) := by
  obtain ⟨text, htext⟩ := Option.isSome_iff_exists.1 h.1
  simp [form, shape, htext, h.2, Except.mapError]

theorem Directive.entries_of_isAmbiguous {n : Node} (h : n.IsAmbiguous) :
    entries n = .error (.ambiguousShape n.path) := by
  rw [entries, Node.form_of_isAmbiguous h]
  rfl

theorem Directive.entries_of_not_isAmbiguous {n : Node} (h : ¬ n.IsAmbiguous) :
    entries n = .ok n.children := by
  have hshape : ∃ shape, n.shape = .ok shape := by
    rw [Node.shape]
    split
    · next text htext =>
      rw [if_neg fun hc => h ⟨by rw [htext]; rfl, hc⟩]
      exact ⟨_, rfl⟩
    · exact ⟨_, rfl⟩
  obtain ⟨shape, hshape⟩ := hshape
  rw [entries, Node.form, hshape]
  rfl

theorem Node.value_of_not_isPresent {n : Node} (h : ¬ n.isPresent = true) : n.value = none := by
  have hlocated : n.located = none := by simpa [isPresent] using h
  rw [value, hlocated, Option.bind_none]

theorem Node.children_of_not_isPresent {n : Node} (h : ¬ n.isPresent = true) :
    n.children = [] ∧ ¬ n.IsAmbiguous := by
  have hlocated : n.located = none := by simpa [isPresent] using h
  constructor
  · simp [children, subtrees, hlocated]
  · rintro ⟨hvalue, -⟩
    simp [value_of_not_isPresent h] at hvalue

theorem Directive.name_of_ofNode {e : Node} {d : Directive} (h : ofNode e = .ok d) :
    d.name = nameText e := by
  rw [ofNode] at h
  obtain ⟨shape, hshape, h⟩ := Except.bind_eq_ok.1 h
  cases shape with
  | scalar text =>
    cases h
    rw [nameText, Node.value_of_form hshape]
    rfl
  | structured =>
    obtain ⟨name, hname, h⟩ := Except.bind_eq_ok.1 h
    obtain ⟨args, -, h⟩ := Except.bind_eq_ok.1 h
    cases h
    obtain ⟨shape, hchild, hname⟩ := Except.bind_eq_ok.1 hname
    have hvalue : e.value = none := Node.value_of_structured hshape
    rw [nameText, hvalue, Option.none_or]
    cases shape with
    | structured => cases hname
    | scalar text =>
      rw [Node.value_of_form hchild]
      dsimp only at hname
      split at hname
      · cases hname
      · cases hname
        rfl

/-- The directives of a section that is no scalar are those of its entries, in order. -/
theorem Directive.ofSection_of_not_isAmbiguous {n : Node} (h : ¬ n.IsAmbiguous) :
    ofSection n = n.children.mapM ofNode := by
  rw [ofSection, entries_of_not_isAmbiguous h]
  rfl

/-! ## Sections -/

/-- A session in which more has been told, and with another next identity. -/
def Session.told (ds : List Diagnostic) (next : Nat) (s : Session) : Session :=
  { s with diagnostics := s.diagnostics ++ ds, nextIdentity := next }

theorem Session.told_told (ds es : List Diagnostic) (k m : Nat) (s : Session) :
    (s.told ds k).told es m = s.told (ds ++ es) m := by
  simp only [told, List.append_assoc]

theorem Session.told_nil (s : Session) : s.told [] s.nextIdentity = s := by
  simp only [told, List.append_nil]

namespace Binder

variable {b : Binder} {capability : Capability} {n : Node} {s t : Session}

/-- A fate is that of a directive by itself, in a session. -/
def Sorts (b : Binder) (capability : Capability) (s : Session) (d : Directive) (f : Fate) : Prop :=
  ∃ k m, Yields (b.settle capability (b.scope s) d) k f m

/-- A method matches a directive, but its call cannot be bound. -/
def Refuses (b : Binder) (capability : Capability) (s : Session) (d : Directive)
    (error : ResolveError) : Prop :=
  ∃ m k, Overload.select (b.candidates capability) d.name capability d.supplied = some m ∧
    (Call.bind (b.scope s) d m).run k = .error error

/-- A fate is that of an entry by itself, in a session. -/
structure Befalls (b : Binder) (capability : Capability) (s : Session) (e : Node) (f : Fate) :
    Prop where
  isOf : f.IsOf capability e
  yields : ∃ k m, Yields (b.fate capability (b.scope s) e) k f m

/-- How reading a section of directives ends, and in which session. -/
inductive Resolution (b : Binder) (capability : Capability) (n : Node) (s : Session) :
    Except ResolveError (List Step) → Session → Prop
  | done {fates : List Fate} {next : Nat} (hsection : ¬ n.IsAmbiguous)
      (hfates : List.Forall₂ (b.Befalls capability s) n.children fates) :
      Resolution b capability n s (.ok (fates.filterMap Fate.step?))
        (s.told (fates.filterMap Fate.diagnostic?) next)
  | ambiguous (hsection : n.IsAmbiguous) :
      Resolution b capability n s (.error (.ambiguousShape n.path)) s
  | malformed {before after : List Node} {e : Node} {error : ResolveError}
      (hsection : ¬ n.IsAmbiguous) (hentries : n.children = before ++ e :: after)
      (hbefore : ∀ c ∈ before, ∃ d, Directive.ofNode c = .ok d)
      (herror : Directive.ofNode e = .error error) :
      Resolution b capability n s (.error error) s
  /-- No entry is malformed, but a matched directive cannot be bound; those before it have their
  fates. -/
  | unbound {before after : List Node} {e : Node} {fates : List Fate} {d : Directive}
      {next : Nat} {error : ResolveError} (hsection : ¬ n.IsAmbiguous)
      (hentries : n.children = before ++ e :: after)
      (hall : ∀ c ∈ n.children, ∃ d, Directive.ofNode c = .ok d)
      (hbefore : List.Forall₂ (b.Befalls capability s) before fates)
      (hd : Directive.ofNode e = .ok d) (herror : b.Refuses capability s d error) :
      Resolution b capability n s (.error error) (s.told (fates.filterMap Fate.diagnostic?) next)

/-- Reading a directive settles it, or fails in binding its call. -/
theorem directive_apply (capability : Capability) (d : Directive) (s : Session) :
    (∃ f m, b.Sorts capability s d f ∧
      b.directive capability (b.candidates capability) d s =
        (.ok f.step?, s.told f.diagnostic?.toList m)) ∨
    ∃ error, b.Refuses capability s d error ∧
      b.directive capability (b.candidates capability) d s = (.error error, s) := by
  unfold Sorts Refuses directive settle
  cases hselect : Overload.select (b.candidates capability) d.name capability d.supplied with
  | none =>
    refine .inl ⟨_, s.nextIdentity, ⟨s.nextIdentity, _, Fresh.yields_pure.2 ⟨rfl, rfl⟩⟩, ?_⟩
    rfl
  | some method =>
    dsimp only
    rw [Run.bind_apply, converted_apply]
    cases hbind : (Call.bind (b.scope s) d method).run s.nextIdentity with
    | error e => exact .inr ⟨e, ⟨method, s.nextIdentity, rfl, hbind⟩, rfl⟩
    | ok r =>
      obtain ⟨c, m⟩ := r
      refine .inl ⟨.called c d.path, m, ⟨s.nextIdentity, m, ?_⟩, ?_⟩
      · exact Fresh.yields_bind.2 ⟨c, m, hbind, Fresh.yields_pure.2 ⟨rfl, rfl⟩⟩
      · rw [Fate.diagnostic?, Option.toList_none, Session.told, List.append_nil]
        rfl

/-- Reading directives settles all of them, or those before the first whose call cannot be bound. -/
theorem mapM_directive_apply (capability : Capability) (ds : List Directive) (s : Session) :
    (∃ fates next, List.Forall₂ (b.Sorts capability s) ds fates ∧
      ds.mapM (b.directive capability (b.candidates capability)) s =
        (.ok (fates.map Fate.step?), s.told (fates.filterMap Fate.diagnostic?) next)) ∨
    ∃ before d after fates next error, ds = before ++ d :: after ∧
      List.Forall₂ (b.Sorts capability s) before fates ∧ b.Refuses capability s d error ∧
      ds.mapM (b.directive capability (b.candidates capability)) s =
        (.error error, s.told (fates.filterMap Fate.diagnostic?) next) := by
  induction ds generalizing s with
  | nil =>
    refine .inl ⟨[], s.nextIdentity, .nil, ?_⟩
    rw [List.filterMap_nil, Session.told_nil]
    rfl
  | cons d rest ih =>
    rw [List.mapM_cons, Run.bind_apply]
    rcases directive_apply (b := b) capability d s with ⟨f, m, hf, hd⟩ | ⟨error, herror, hd⟩
    · rw [hd]
      dsimp only
      rw [Run.bind_apply]
      -- What conversions can see is the same after `d`, so the rest is settled as from `s`.
      rcases ih (s.told f.diagnostic?.toList m) with ⟨fates, next, hall, hrest⟩ |
        ⟨before, d', after, fates, next, error, hds, hall, herror, hrest⟩
      · refine .inl ⟨f :: fates, next, .cons hf hall, ?_⟩
        rw [hrest, List.filterMap_cons, Session.told_told]
        cases f <;> rfl
      · refine .inr ⟨d :: before, d', after, f :: fates, next, error, by rw [hds]; rfl,
          .cons hf hall, herror, ?_⟩
        rw [hrest, List.filterMap_cons, Session.told_told]
        cases f <;> rfl
    · rw [hd]
      refine .inr ⟨[], d, rest, [], s.nextIdentity, error, rfl, .nil, herror, ?_⟩
      rw [List.filterMap_nil, Session.told_nil]

theorem isOf_of_sorts {e : Node} {d : Directive} {f : Fate} (hd : Directive.ofNode e = .ok d)
    (h : b.Sorts capability s d f) : f.IsOf capability e := by
  obtain ⟨k, m, hf⟩ := h
  have hname := Directive.name_of_ofNode hd
  have hpath := Directive.path_of_ofNode hd
  unfold settle at hf
  split at hf
  · next method hselect =>
    have hmem := List.mem_filter.1 (best_mem hselect)
    obtain ⟨⟨hmethod, hcapability⟩, -⟩ : (method.name = d.name ∧ method.capability = capability) ∧
        method.isEligible d.supplied = true := by simpa using hmem.2
    obtain ⟨c, l, hc, hf⟩ := Fresh.yields_bind.1 hf
    obtain ⟨args, l', -, hc⟩ := Fresh.yields_bind.1 hc
    obtain ⟨rfl, -⟩ := Fresh.yields_pure.1 hc
    obtain ⟨rfl, -⟩ := Fresh.yields_pure.1 hf
    rw [hpath]
    exact .called (hmethod.trans hname) hcapability
  · obtain ⟨rfl, -⟩ := Fresh.yields_pure.1 hf
    rw [hname, hpath]
    exact .unmatched _ _

/-- Entries are settled as their directives are. -/
theorem befalls_of_sorts {es : List Node} {ds : List Directive} {fates : List Fate}
    (hds : List.Forall₂ (fun e d => Directive.ofNode e = .ok d) es ds)
    (hfates : List.Forall₂ (b.Sorts capability s) ds fates) :
    List.Forall₂ (b.Befalls capability s) es fates := by
  induction hds generalizing fates with
  | nil =>
    cases hfates
    exact .nil
  | @cons e d es ds hd _ ih =>
    cases hfates with
    | @cons _ f _ fates hf hfates =>
      refine .cons ⟨isOf_of_sorts hd hf, ?_⟩ (ih hfates)
      rw [fate, hd]
      exact hf

/-- Reading a section of directives ends in one of the ways of `Resolution`. -/
theorem resolution_of_directives (b : Binder) (capability : Capability) (n : Node)
    (s : Session) :
    b.Resolution capability n s (b.directives capability n s).1
      (b.directives capability n s).2 := by
  rw [directives]
  split
  · rw [Run.bind_apply, Run.lift_apply]
    by_cases hsection : n.IsAmbiguous
    · rw [Directive.ofSection, Directive.entries_of_isAmbiguous hsection]
      exact .ambiguous hsection
    · rw [Directive.ofSection_of_not_isAmbiguous hsection]
      rcases Except.mapM_cases Directive.ofNode n.children with
        ⟨ds, hds, hall⟩ | ⟨before, e, after, error, hentries, hbefore, herror, hds⟩
      · rw [hds]
        dsimp only
        rw [Run.bind_apply]
        rcases mapM_directive_apply (b := b) capability ds s with
          ⟨fates, next, hfates, hrun⟩ |
          ⟨_, d, _, fates, next, error, hsplit, hfates, herror, hrun⟩
        · rw [show ds.mapM (b.directive capability (b.catalog.candidates ..)) s = _ from hrun]
          have hbefalls := befalls_of_sorts hall hfates
          change b.Resolution capability n s (.ok (fates.map Fate.step?).reduceOption) _
          rw [Fate.reduceOption_map_step?]
          exact .done hsection hbefalls
        · rw [show ds.mapM (b.directive capability (b.catalog.candidates ..)) s = _ from hrun]
          rw [hsplit] at hall
          obtain ⟨before, e, after, hentries, hbefore, hd⟩ := exists_split_of_forall₂ hall
          have hwell : ∀ c ∈ n.children, ∃ d, Directive.ofNode c = .ok d := fun c hc =>
            (exists_of_forall₂ hall.flip hc).imp fun d hd => hd.2
          exact .unbound hsection hentries hwell (befalls_of_sorts hbefore hfates) hd herror
      · rw [hds]
        exact .malformed hsection hentries hbefore herror
  · next hpresent =>
    obtain ⟨hchildren, hsection⟩ := Node.children_of_not_isPresent hpresent
    have hbefalls : List.Forall₂ (b.Befalls capability s) n.children [] := by
      rw [hchildren]
      exact .nil
    have hdone : b.Resolution capability n s (.ok []) (s.told [] s.nextIdentity) :=
      .done hsection hbefalls
    rwa [Session.told_nil] at hdone

/-! ## Independence -/

/-- Two places are alike, or they are the configurations that are injected in two sessions. -/
def Twin (b : Binder) (s t : Session) (c c' : Node) : Prop :=
  c.Like c' ∨ (b.scope s).application = some c ∧ (b.scope t).application = some c'

theorem application_twin (b : Binder) (s t : Session) :
    Option.Rel (b.Twin s t) (b.scope s).application (b.scope t).application := by
  unfold Twin scope
  cases b.injects with
  | false => exact .none
  | true => exact .some (.inr ⟨rfl, rfl⟩)

/-- Entries that are alike have fates that are alike, whatever stands beside them. -/
theorem agree_fate (henvironment : t.host.environment = s.host.environment)
    (hregistry : t.registry = s.registry) {e e' : Node} (h : e.Like e') :
    Fresh.Agree (Fate.Like (b.Twin s t)) (b.fate capability (b.scope s) e)
      (b.fate capability (b.scope t) e') := by
  have hscope : b.scope t = (b.scope s).injecting (b.scope t).application := by
    rw [scope, scope, Scope.injecting, henvironment, hregistry]
  refine Fresh.agree_bind (Fresh.agree_lift (Directive.agree_ofNode h)) fun d d' hd => ?_
  unfold settle
  rw [← hd.name, ← hd.supplied_eq, ← hd.path]
  split
  · next m _ =>
    rw [hscope]
    refine Fresh.agree_bind (Call.agree_bind (application_twin b s t) (fun _ _ => .inl) hd m)
      fun c c' hc => Fresh.agree_pure (.called hc _)
  · exact Fresh.agree_pure (.unmatched ..)

/-- **Every entry of a section has one fate.**  Reading a section of directives ends as
`Resolution` says.  If it succeeds, the planned steps and what has been told add up to the entries.
What becomes of an entry depends on the entry, the environment and the declared switches, not on
other entries, except that new objects have other identities and the configuration that is injected
is the present one. -/
theorem fates_of_directives (b : Binder) (capability : Capability) (n : Node) (s : Session) :
    b.Resolution capability n s (b.directives capability n s).1 (b.directives capability n s).2 ∧
    (∀ steps t, Returns (b.directives capability n) s steps t →
      steps.length + t.diagnostics.length = n.children.length + s.diagnostics.length) ∧
    ∀ (t : Session) (e e' : Node), t.host.environment = s.host.environment →
      t.registry = s.registry → e.Like e' →
      Fresh.Agree (Fate.Like (b.Twin s t)) (b.fate capability (b.scope s) e)
        (b.fate capability (b.scope t) e') := by
  have hresolution := resolution_of_directives b capability n s
  refine ⟨hresolution, fun steps t h => ?_, fun _ _ _ henvironment hregistry h =>
    agree_fate henvironment hregistry h⟩
  rw [show b.directives capability n s = _ from h] at hresolution
  cases hresolution with
  | @done fates next _ hfates =>
    have hlength := Fate.length_steps_add_diagnostics fates
    have hentries := hfates.length_eq
    simp only [List.length_append]
    omega

end Binder

/-! ## A section with a directive that is repeated -/

namespace Sample

/-- Sinks, two of them by the same name and one by a name that nobody registered. -/
def repeatedRoot : Root Watcher := listedRoot
  [⟨"WriteTo:0", some "Console"⟩, ⟨"WriteTo:1", some " Console "⟩, ⟨"WriteTo:2", some "Gone"⟩]

/-- One of these sinks, beside another one. -/
def singleRoot : Root Watcher := listedRoot
  [⟨"WriteTo:0", some "Gone"⟩, ⟨"WriteTo:1", some " Console "⟩]

theorem located_of_leaf {n : Node} {key : String} {value : Option String}
    (h : (n.located.map fun t => (t.key, t.value, t.children.isEmpty)) = some (key, value, true)) :
    n.located = some ⟨key, value, []⟩ := by
  obtain ⟨t, ht, h⟩ := Option.map_eq_some_iff.1 h
  obtain ⟨k, v, children⟩ := t
  simp only [Prod.mk.injEq, List.isEmpty_iff] at h
  obtain ⟨rfl, rfl, rfl⟩ := h
  exact ht

/-- The repeated sink is planned twice, the unknown one is told of, and the sink in the middle has
the same fate beside another one. -/
theorem fates_of_directives_repeated :
    (∃ steps t, Returns (themedBinder.directives .sink (repeatedRoot.node "WriteTo"))
        (.start ⟨[], []⟩ repeatedRoot) steps t ∧
      steps.length = 2 ∧ t.diagnostics.length = 1) ∧
    Fresh.Agree
      (Fate.Like (themedBinder.Twin (.start ⟨[], []⟩ repeatedRoot) (.start ⟨[], []⟩ singleRoot)))
      (themedBinder.fate .sink (themedBinder.scope (.start ⟨[], []⟩ repeatedRoot))
        (repeatedRoot.node "WriteTo:1"))
      (themedBinder.fate .sink (themedBinder.scope (.start ⟨[], []⟩ singleRoot))
        (singleRoot.node "WriteTo:1")) := by
  obtain ⟨-, hcount, hagree⟩ := themedBinder.fates_of_directives .sink
    (repeatedRoot.node "WriteTo") (.start ⟨[], []⟩ repeatedRoot)
  constructor
  · have hok : (themedBinder.directives .sink (repeatedRoot.node "WriteTo")
        (.start ⟨[], []⟩ repeatedRoot)).1.isOk = true := by decide +kernel
    have hreturns := Run.returns_of_isOk hok []
    have htotal := hcount _ _ hreturns
    have hchildren : (repeatedRoot.node "WriteTo").children.length = 3 := by decide +kernel
    have hlength : ((themedBinder.directives .sink (repeatedRoot.node "WriteTo")
        (.start ⟨[], []⟩ repeatedRoot)).1.toOption.getD []).length = 2 := by decide +kernel
    refine ⟨_, _, hreturns, hlength, ?_⟩
    rw [hlength, hchildren] at htotal
    exact Nat.add_left_cancel htotal
  · have hrepeated : (repeatedRoot.node "WriteTo:1").located = some ⟨"1", some " Console ", []⟩ :=
      located_of_leaf (by decide +kernel)
    have hsingle : (singleRoot.node "WriteTo:1").located = some ⟨"1", some " Console ", []⟩ :=
      located_of_leaf (by decide +kernel)
    exact hagree _ _ _ rfl rfl ⟨rfl, hrepeated.trans hsingle.symm⟩

end Sample

end LogBinder
