/-
  Log binder — where arguments come from.

  A method is called, and a constructor run, with an argument for each
  parameter: what is given for it, converted, or what is injected, or its
  default.  No method is selected and no constructor chosen that would need
  another value.

  * `Scope.runs_object`, `Scope.runs_constructNamed` : the constructors that are
    run for a section and for the name of a type;
  * `Scope.supplied_of_select` : no argument is invented.
-/
import LogBinder.Proofs.Binding.Construction

namespace LogBinder

/-! ## Constructors that are run -/

namespace Scope

open Fresh

/-- What runs an exported constructor of a type: its parameters are covered, and its arguments are
those for its parameters. -/
structure Runs (s : Scope) (path : String) (given : Parameter → Option Node) (t : TypeSpec)
    (c : Constructor) (x : Fresh Value) : Prop where
  exported : c ∈ t.publicConstructors
  covered : Parameter.AreCovered given c.parameters
  made : x = do construct t c (← s.argumentsOr (.ok .null) path given c.parameters) path

/-- A section that is constructed runs a constructor of its type. -/
theorem runs_object (s : Scope) (n : Node) (declared : String) :
    (∃ e, s.object n (fun c _ u => s.convert c u) declared = throw e) ∨
      ∃ t c, s.objectType n declared = .ok t ∧
        s.Runs n.path n.field? t c (s.object n (fun c _ u => s.convert c u) declared) := by
  rw [object]
  cases ht : s.objectType n declared with
  | error e => exact .inl ⟨e, rfl⟩
  | ok t =>
    rw [liftM_ok_bind]
    cases hselect : Constructor.select t.publicConstructors (fields n) with
    | none => exact .inl ⟨_, rfl⟩
    | some fit =>
      obtain ⟨c, hbest, rfl⟩ := Constructor.firstBest_of_select hselect
      refine .inr ⟨t, c, rfl, ?_, areCovered_of_suits hbest.holds, ?_⟩
      · exact List.mem_filter.2 ⟨hbest.mem, decide_eq_true hbest.holds.exported⟩
      · dsimp only
        rw [List.mapM_map, ← arguments_eq_argumentsOr]
        simp only [Function.comp_def, argument_eq_given]
        rfl

/-- A type that is constructed by its name runs a constructor without given arguments. -/
theorem runs_constructNamed (s : Scope) (name : String) (declared : TypeSpec) (path : String) :
    (∃ e, s.constructNamed name declared path = throw e) ∨
      ∃ t c, s.type name path = .ok t ∧ t.isAssignableTo declared.fullName = true ∧
        s.Runs path (fun _ => none) t c (s.constructNamed name declared path) := by
  rw [constructNamed]
  cases ht : s.type name path with
  | error e => exact .inl ⟨e, rfl⟩
  | ok t =>
    rw [liftM_ok_bind]
    by_cases hassignable : t.isAssignableTo declared.fullName = true
    · rw [if_pos hassignable]
      cases hfind : t.publicConstructors.find? Constructor.isDefault with
      | none => exact .inl ⟨_, rfl⟩
      | some c =>
        refine .inr ⟨t, c, rfl, hassignable, ?_, fun p hp => .inr ?_, ?_⟩
        · exact List.mem_of_find?_eq_some hfind
        · exact List.all_eq_true.1 (List.find?_some (p := Constructor.isDefault) hfind) p hp
        · have hargs : (c.parameters.mapM fun p => do
              return (p.name, ← (liftM (s.omitted p path) : Fresh Value))) =
                s.argumentsOr (.ok .null) path (fun _ => none) c.parameters :=
            Fresh.mapM_congr fun p _ => by rw [omittedOr_null]
          rw [← hargs]
    · rw [if_neg hassignable]
      exact .inl ⟨_, rfl⟩

end Scope

/-! ## Calls -/

namespace Call

variable {s : Scope} {d d' : Directive} {m : Method}

theorem bind_eq (s : Scope) (d : Directive) (m : Method) :
    bind s d m =
      do return ⟨m, ← s.argumentsOr (.ok .null) d.path (fun p => d.argument? p.name)
        m.parameters⟩ := by
  have hargs : m.parameters.mapM (argument s d) =
      s.argumentsOr (.ok .null) d.path (fun p => d.argument? p.name) m.parameters := by
    refine Fresh.mapM_congr fun p _ => ?_
    rw [argument]
    dsimp only
    cases d.argument? p.name with
    | some n => rfl
    | none =>
      dsimp only
      rw [Scope.omittedOr_null]
  rw [bind, hargs]

/-- The parameters of a selected method are covered. -/
theorem areCovered_of_select {methods : List Method} {name : String} {capability : Capability}
    (h : Overload.select methods name capability d.supplied = some m) :
    Parameter.AreCovered (fun p => d.argument? p.name) m.parameters := by
  intro p hp
  rw [Parameter.canOmit, Bool.or_eq_true]
  refine ((Overload.firstBest_of_select h).holds.accepts p hp).imp_left fun hsupplied => ?_
  obtain ⟨a, ha, hname⟩ := List.mem_map.1 hsupplied
  exact List.lookup_isSome_iff.2 ⟨a, ha, beq_iff_eq.2 hname.symm⟩

/-- The arguments of a directive that have the name of some parameter of a method. -/
def matched (m : Method) (d : Directive) : List (String × Node) :=
  d.arguments.filter fun a => m.parameters.any fun p => p.name == a.1

theorem lookup_matched {p : Parameter} (hp : p ∈ m.parameters) (d : Directive) :
    (matched m d).lookup p.name = d.argument? p.name := by
  have hkept : (m.parameters.any fun q => q.name == p.name) = true :=
    List.any_eq_true.2 ⟨p, hp, beq_self_eq_true _⟩
  rw [matched, Directive.argument?]
  induction d.arguments with
  | nil => rfl
  | cons a rest ih =>
    obtain ⟨name, n⟩ := a
    by_cases hname : p.name = name
    · subst hname
      rw [List.filter_cons, if_pos hkept, List.lookup_cons_self, List.lookup_cons_self]
    · have hne : (p.name == name) = false := beq_eq_false_iff_ne.2 hname
      rw [List.filter_cons]
      split <;> simp only [List.lookup_cons, hne, ih]

/-- Arguments that no parameter has the name of make no difference. -/
theorem bind_eq_of_matched (hpath : d'.path = d.path) (h : matched m d' = matched m d) (s : Scope) :
    bind s d' m = bind s d m := by
  have hargs : m.parameters.mapM (argument s d') = m.parameters.mapM (argument s d) := by
    refine Fresh.mapM_congr fun p hp => ?_
    rw [argument, argument, ← lookup_matched hp d', h, lookup_matched hp d, hpath]
  rw [bind, bind, hargs]

end Call

/-- **No argument is invented.**  A selected method is called with an argument for each parameter,
in order, which is what the directive supplies under its name, converted, or what is injected, or
the default; whatever stood instead of a missing value, the call would be the same, and so it is
for whatever the directive supplies under other names.  The constructors that are run for a section
or for the name of a type get arguments of the same kind, from the fields or from nothing. -/
theorem Scope.supplied_of_select (s : Scope) :
    (∀ methods name capability (d : Directive) m,
      Overload.select methods name capability d.supplied = some m →
      (∀ k call next, Fresh.Yields (Call.bind s d m) k call next →
        call.method = m ∧
          s.AreSupplied d.path (fun p => d.argument? p.name) m.parameters call.arguments) ∧
      (∀ instead, Call.bind s d m = do
        return ⟨m, ← s.argumentsOr instead d.path (fun p => d.argument? p.name) m.parameters⟩) ∧
      ∀ d' : Directive, d'.path = d.path → Call.matched m d' = Call.matched m d →
        Call.bind s d' m = Call.bind s d m) ∧
    (∀ n declared, (∃ e, s.object n (fun c _ u => s.convert c u) declared = throw e) ∨
      ∃ t c, s.objectType n declared = .ok t ∧
        s.Runs n.path n.field? t c (s.object n (fun c _ u => s.convert c u) declared)) ∧
    (∀ name declared path, (∃ e, s.constructNamed name declared path = throw e) ∨
      ∃ t c, s.type name path = .ok t ∧
        s.Runs path (fun _ => none) t c (s.constructNamed name declared path)) ∧
    ∀ path given t c x, s.Runs path given t c x →
      (∀ instead, x = do construct t c (← s.argumentsOr instead path given c.parameters) path) ∧
      ∀ instead k args next,
        Fresh.Yields (s.argumentsOr instead path given c.parameters) k args next →
          s.AreSupplied path given c.parameters args := by
  refine ⟨fun methods name capability d m hselect => ?_, s.runs_object,
    fun name declared path => ?_,
    fun path given t c x hruns => ⟨fun instead => ?_, fun instead k args next => ?_⟩⟩
  · have hcovered := Call.areCovered_of_select hselect
    refine ⟨fun k call next hcall => ?_, fun instead => ?_, fun d' hpath hmatched => ?_⟩
    · rw [Call.bind_eq, Fresh.yields_bind] at hcall
      obtain ⟨args, l, hargs, hcall⟩ := hcall
      obtain ⟨rfl, -⟩ := Fresh.yields_pure.1 hcall
      exact ⟨rfl, areSupplied_of_areCovered hcovered hargs⟩
    · rw [Call.bind_eq, argumentsOr_eq_of_areCovered hcovered]
    · exact Call.bind_eq_of_matched hpath hmatched s
  · refine (s.runs_constructNamed name declared path).imp_right ?_
    rintro ⟨t, c, ht, -, hruns⟩
    exact ⟨t, c, ht, hruns⟩
  · rw [hruns.made, argumentsOr_eq_of_areCovered hruns.covered]
  · exact areSupplied_of_areCovered hruns.covered

namespace Sample

/-- The node of a name of a file. -/
def logName : Node := .ofPath (.ofEntries [⟨"Args:path", some "log.txt"⟩]) "Args:path"

/-- A directive that supplies a name, and something that no sink takes. -/
def fileDirective : Directive := ⟨"File", "WriteTo:0", [("bogus", logName), ("path", logName)]⟩

/-- The sink that writes files. -/
def fileSink : Method :=
  { Method.of "File" .sink [.required "path" .string,
      .optional "rollingInterval"
        (.enum ⟨"RollingInterval", ["Infinite", "Year", "Month", "Day", "Hour", "Minute"]⟩) .null,
      .optional "fileSizeLimitBytes" (.nullable .int) .null,
      .optional "flushToDiskInterval" (.nullable .duration) .null,
      .required "formatProvider" .formatProvider] with package := "Sample.File" }

/-- A scope with a configuration to inject. -/
def policyScope : Scope := { scope with application := some (.top .empty) }

/-- A section that only says which policy to construct. -/
def policySection : Node := .ofPath (.ofEntries [⟨"Policy:$type", some "Sample.Policy"⟩]) "Policy"

/-- The constructor of the policy. -/
def policyConstructor : Constructor :=
  .of "injected" [.required "configuration" .appConfiguration,
    .required "formatProvider" .formatProvider, .optional "depth" .int (.int 7)]

/-- The type of the policy. -/
def policyType : TypeSpec :=
  { TypeSpec.of "Sample.Policy" ["Sample.IPolicy"] [policyConstructor] [] with
    package := Package.coreName }

/-- The arguments of the sink. -/
def fileArguments (name : Value) : Arguments :=
  [("path", name), ("rollingInterval", .null), ("fileSizeLimitBytes", .null),
    ("flushToDiskInterval", .null), ("formatProvider", .formatProvider .invariant)]

/-- The arguments of the constructor. -/
def policyArguments : Arguments :=
  [("configuration", .node (.top .empty)), ("formatProvider", .formatProvider .invariant),
    ("depth", .int 7)]

theorem eq_fileArguments {args : Arguments}
    (h : scope.AreSupplied "WriteTo:0" (fun p => fileDirective.argument? p.name)
      fileSink.parameters args) :
    ∃ name, args = fileArguments name ∧
      ∃ k m, Fresh.Yields (scope.convert logName .string) k name m := by
  obtain ⟨name, _, rfl, hname, h⟩ := h.cons
  obtain ⟨interval, _, rfl, hinterval, h⟩ := h.cons
  obtain ⟨limit, _, rfl, hlimit, h⟩ := h.cons
  obtain ⟨flush, _, rfl, hflush, h⟩ := h.cons
  obtain ⟨format, _, rfl, hformat, h⟩ := h.cons
  cases h
  obtain rfl : Value.null = interval := Option.some.inj (hinterval.of_omitted rfl)
  obtain rfl : Value.null = limit := Option.some.inj (hlimit.of_omitted rfl)
  obtain rfl : Value.null = flush := Option.some.inj (hflush.of_omitted rfl)
  obtain rfl : Value.formatProvider .invariant = format := Except.ok.inj (hformat.of_omitted rfl)
  exact ⟨name, rfl, hname.of_given (n := logName) rfl⟩

theorem eq_policyArguments {args : Arguments}
    (h : policyScope.AreSupplied "Policy" policySection.field? policyConstructor.parameters args) :
    args = policyArguments := by
  obtain ⟨configuration, _, rfl, hconfiguration, h⟩ := h.cons
  obtain ⟨format, _, rfl, hformat, h⟩ := h.cons
  obtain ⟨depth, _, rfl, hdepth, h⟩ := h.cons
  cases h
  obtain rfl : Value.node (.top .empty) = configuration :=
    Except.ok.inj (hconfiguration.of_omitted rfl)
  obtain rfl : Value.formatProvider .invariant = format := Except.ok.inj (hformat.of_omitted rfl)
  obtain rfl : Value.int 7 = depth := Option.some.inj (hdepth.of_omitted rfl)
  rfl

/-- The sink is called with the name, its defaults and the number format, as if nothing else had
been supplied; the policy is constructed with the configuration, the number format and its
default. -/
theorem supplied_of_select_file :
    Overload.select (scope.methods .sink) "File" .sink fileDirective.supplied = some fileSink ∧
    (∃ name next, Fresh.Yields (Call.bind scope fileDirective fileSink) 0
        ⟨fileSink, fileArguments name⟩ next ∧
      ∃ k m, Fresh.Yields (scope.convert logName .string) k name m) ∧
    Call.bind scope ⟨"File", "WriteTo:0", [("path", logName)]⟩ fileSink =
      Call.bind scope fileDirective fileSink ∧
    ∃ identity next, Fresh.Yields
      (policyScope.object policySection (fun c _ u => policyScope.convert c u) "Sample.IPolicy") 0
      (.object "Sample.Policy" identity "injected" (some policyArguments)) next := by
  have hselect : Overload.select (scope.methods .sink) "File" .sink fileDirective.supplied =
      some fileSink := rfl
  obtain ⟨hyields, -, hmatched⟩ := scope.supplied_of_select.1 _ _ _ _ _ hselect
  obtain ⟨-, hobject, -, hruns⟩ := policyScope.supplied_of_select
  refine ⟨hselect, ?_, hmatched _ rfl rfl, ?_⟩
  · have hbound : ((Call.bind scope fileDirective fileSink).run 0).isOk = true := by decide +kernel
    obtain ⟨⟨method, args⟩, next, hcall⟩ := Fresh.exists_yields hbound
    obtain ⟨rfl, hargs⟩ := hyields 0 _ next hcall
    obtain ⟨name, rfl, hname⟩ := eq_fileArguments hargs
    exact ⟨name, next, hcall, hname⟩
  · have hmade : ((policyScope.object policySection (fun c _ u => policyScope.convert c u)
        "Sample.IPolicy").run 0).isOk = true := by decide +kernel
    obtain ⟨v, next, hv⟩ := Fresh.exists_yields hmade
    have htype : policyScope.objectType policySection "Sample.IPolicy" = .ok policyType := by
      with_unfolding_all rfl
    rcases hobject policySection "Sample.IPolicy" with ⟨e, he⟩ | ⟨t, c, ht, hc⟩
    · rw [he] at hmade
      cases hmade
    · obtain rfl : policyType = t := Except.ok.inj (htype.symm.trans ht)
      obtain rfl : c = policyConstructor := List.mem_singleton.1 hc.exported
      have hconstructed := hv
      rw [hc.made, Fresh.yields_bind] at hconstructed
      obtain ⟨args, identity, hargs, hconstructed⟩ := hconstructed
      obtain rfl := eq_policyArguments ((hruns _ _ _ _ _ hc).2 _ _ _ _ hargs)
      rw [(Scope.eq_of_construct hconstructed).1] at hv
      exact ⟨identity, next, hv⟩

end Sample

end LogBinder
