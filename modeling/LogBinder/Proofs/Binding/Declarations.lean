/-
  Log binder — the switches that are declared.

  The declared switches are two maps, one for each kind.  A declaration whose
  name is valid puts a cell under its canonical name, and tells if one of
  that kind was there; a reference finds the cell that was put last.  Nothing
  else changes a map.

  * `SwitchName.Spells` : the texts that may declare a name;
  * `Operation`, `Session.operate` : declarations and references, one after
    the other;
  * `Answers`, `Answered` : what each of them gives and changes, by the
    operations before it;
  * `Session.answered_of_operate` : so it is for all of them.
-/
import LogBinder.Proofs.Binding.Returns

namespace LogBinder

open Run (Returns)

/-! ## Names -/

namespace SwitchName

/-- A text spells a bare name, which is a letter and then letters and digits: it is the name,
possibly with the sign, between blank characters. -/
structure Spells (text bare : String) : Prop where
  letter : ∃ c rest, bare.toList = c :: rest ∧ c.isAlpha = true ∧ ∀ d ∈ rest, d.isAlphanum = true
  trimmed : Text.trim text = bare ∨ Text.trim text = "$" ++ bare

/-- A name with the sign, which is added if it is missing. -/
def signed (name : String) : String :=
  if name.toList.head? = some '$' then name else "$" ++ name

variable {text bare : String}

theorem ofList_sign (cs : List Char) : String.ofList ('$' :: cs) = "$" ++ String.ofList cs :=
  String.ofList_cons

theorem signed_sign (name : String) : signed ("$" ++ name) = "$" ++ name := by
  rw [signed, String.toList_append]
  exact if_pos rfl

theorem canonical_eq (text : String) : canonical text = signed (Text.trim text) := by
  rw [canonical, signed, Text.trim, String.toList_ofList]
  split
  · next bare hbare => rw [hbare, List.head?_cons, if_pos rfl]
  · next hbare =>
    rw [if_neg ?_, ofList_sign]
    rw [List.head?_eq_some_iff]
    rintro ⟨rest, hrest⟩
    exact hbare rest hrest

theorem isIdentifier_iff {cs : List Char} :
    isIdentifier cs = true ↔
      ∃ c rest, cs = c :: rest ∧ c.isAlpha = true ∧ ∀ d ∈ rest, d.isAlphanum = true := by
  cases cs with
  | nil => simp [isIdentifier]
  | cons c rest => simp [isIdentifier]

/-- A letter is no sign. -/
theorem ne_sign_of_isAlpha {c : Char} (h : c.isAlpha = true) : c ≠ '$' := by
  rintro rfl
  exact absurd h (by decide)

theorem isValid_iff : isValid text = true ↔ ∃ bare, Spells text bare := by
  unfold isValid
  constructor
  · intro h
    split at h
    · next cs hcs =>
      refine ⟨String.ofList cs, ?_, .inr ?_⟩
      · rw [String.toList_ofList]
        exact isIdentifier_iff.1 h
      · rw [Text.trim, hcs, ofList_sign]
    · refine ⟨Text.trim text, ?_, .inl rfl⟩
      rw [Text.trim, String.toList_ofList]
      exact isIdentifier_iff.1 h
  · rintro ⟨bare, hletter, htrim⟩
    have hbare : isIdentifier bare.toList = true := isIdentifier_iff.2 hletter
    rcases htrim with htrim | htrim
    · obtain ⟨c, rest, hlist, hc, -⟩ := hletter
      have hcs : Text.trimChars text.toList = c :: rest := by
        rw [← hlist, ← htrim, Text.trim, String.toList_ofList]
      rw [hlist] at hbare
      rw [hcs]
      split
      · next heq => exact absurd (List.cons.inj heq).1 (ne_sign_of_isAlpha hc)
      · exact hbare
    · have hcs : Text.trimChars text.toList = '$' :: bare.toList := by
        rw [← String.toList_ofList (l := Text.trimChars text.toList), ← Text.trim, htrim,
          String.toList_append]
        rfl
      rw [hcs]
      exact hbare

/-- The canonical name of a declaration is the sign and the bare name. -/
theorem Spells.canonical_eq (h : Spells text bare) : canonical text = "$" ++ bare := by
  rw [SwitchName.canonical_eq]
  obtain ⟨⟨c, rest, hlist, hc, -⟩, htrim | htrim⟩ := h
  · rw [htrim, signed, if_neg]
    rw [hlist, List.head?_cons, Option.some_inj]
    exact ne_sign_of_isAlpha hc
  · rw [htrim, signed_sign]

end SwitchName

/-! ## Operations -/

open SwitchName (Spells signed)

/-- What is done with the declared switches. -/
inductive Operation where
  | declare (kind : SwitchKind) (name : String) (cell : Nat) (path : String)
  | lookUp (kind : SwitchKind) (reference path : String)

/-- What an operation gives. -/
inductive Answer where
  | name (canonical : String)
  | cell (cell : Nat)
  deriving DecidableEq, Repr

namespace Operation

/-- Performs an operation. -/
def perform : Operation → Run Answer
  | declare kind name cell path => do
    return .name (← Run.declare kind name cell path)
  | lookUp kind reference path => do
    return .cell (← (← get).registry.cell kind reference path)

/-- An operation is a declaration that is accepted, under a canonical name. -/
inductive Declares : Operation → SwitchKind → String → Nat → Prop
  | intro {kind : SwitchKind} {text bare : String} {cell : Nat} {path : String} :
      Spells text bare → Declares (.declare kind text cell path) kind ("$" ++ bare) cell

end Operation

/-- Performs operations, each after the other and also after one that fails. -/
def Session.operate (s : Session) :
    List Operation → List (Except ResolveError Answer) × Session
  | [] => ([], s)
  | op :: rest =>
    let (outcome, t) := op.perform s
    let (outcomes, u) := t.operate rest
    (outcome :: outcomes, u)

/-- No operation declares a name. -/
def Undeclared (ops : List Operation) (kind : SwitchKind) (name : String) : Prop :=
  ∀ op ∈ ops, ∀ cell, ¬ op.Declares kind name cell

/-- The last operation that declares a name declares a cell under it. -/
def Last (ops : List Operation) (kind : SwitchKind) (name : String) (cell : Nat) : Prop :=
  ∃ before op after, ops = before ++ op :: after ∧ op.Declares kind name cell ∧
    Undeclared after kind name

/-- What an operation gives after others have been performed, and how it leaves the session. -/
inductive Answers (before : List Operation) (s : Session) :
    Operation → Except ResolveError Answer → Session → Prop
  | declared {kind : SwitchKind} {text bare path : String} {cell : Nat} (registry : Registry) :
      Spells text bare → Undeclared before kind ("$" ++ bare) →
      Answers before s (.declare kind text cell path) (.ok (.name ("$" ++ bare)))
        { s with registry }
  | redeclared {kind : SwitchKind} {text bare path : String} {cell old : Nat}
      (registry : Registry) :
      Spells text bare → Last before kind ("$" ++ bare) old →
      Answers before s (.declare kind text cell path) (.ok (.name ("$" ++ bare)))
        { s with
          registry
          diagnostics := s.diagnostics ++ [.switchRedeclared ("$" ++ bare) path] }
  | rejected {kind : SwitchKind} {text path : String} {cell : Nat} :
      (∀ bare, ¬ Spells text bare) →
      Answers before s (.declare kind text cell path) (.error (.invalidSwitchName kind text path))
        s
  | found {kind : SwitchKind} {reference path : String} {cell : Nat} :
      Last before kind (signed (Text.trim reference)) cell →
      Answers before s (.lookUp kind reference path) (.ok (.cell cell)) s
  | missing {kind : SwitchKind} {reference path : String} :
      Undeclared before kind (signed (Text.trim reference)) →
      Answers before s (.lookUp kind reference path)
        (.error (.undeclaredSwitch kind (signed (Text.trim reference)) path)) s

/-- Operations answer one after the other. -/
inductive Answered : List Operation → Session → List Operation →
    List (Except ResolveError Answer) → Session → Prop
  | nil {before : List Operation} {s : Session} : Answered before s [] [] s
  | cons {before : List Operation} {s t u : Session} {op : Operation} {rest : List Operation}
      {outcome : Except ResolveError Answer} {outcomes : List (Except ResolveError Answer)} :
      Answers before s op outcome t → Answered (before ++ [op]) t rest outcomes u →
      Answered before s (op :: rest) (outcome :: outcomes) u

/-! ## The declared switches are a record of the operations -/

section Record

variable {ops : List Operation} {op : Operation} {r : Registry} {kind other : SwitchKind}
  {name ref : String} {cell c : Nat}

theorem Undeclared.concat (h : Undeclared ops kind name) (hop : ∀ c, ¬ op.Declares kind name c) :
    Undeclared (ops ++ [op]) kind name := by
  intro o ho
  rcases List.mem_append.1 ho with ho | ho
  · exact h o ho
  · rw [List.mem_singleton.1 ho]
    exact hop

theorem Last.concat (h : Last ops kind name cell) (hop : ∀ c, ¬ op.Declares kind name c) :
    Last (ops ++ [op]) kind name cell := by
  obtain ⟨before, o, after, rfl, ho, hafter⟩ := h
  exact ⟨before, o, after ++ [op], by simp, ho, hafter.concat hop⟩

theorem Operation.Declares.last (h : op.Declares kind name cell) :
    Last (ops ++ [op]) kind name cell :=
  ⟨ops, op, [], rfl, h, nofun⟩

theorem Operation.Declares.unique {kind' : SwitchKind} {name' : String} {c' : Nat}
    (h : op.Declares kind name c) (h' : op.Declares kind' name' c') :
    kind' = kind ∧ name' = name := by
  obtain ⟨hs⟩ := h
  obtain ⟨hs'⟩ := h'
  exact ⟨rfl, hs'.canonical_eq.symm.trans hs.canonical_eq⟩

/-- Under each name stands the cell of the last operation that declared it. -/
structure Registry.Records (ops : List Operation) (r : Registry) : Prop where
  last : ∀ {kind name cell}, r.cell? kind name = some cell → Last ops kind name cell
  undeclared : ∀ {kind name}, r.cell? kind name = none → Undeclared ops kind name

theorem Registry.records_empty : Registry.empty.Records [] where
  last {kind name cell} h := by cases kind <;> simp [cell?, switches, empty] at h
  undeclared _ := nofun

/-- An operation that declares nothing changes no record. -/
theorem Registry.Records.skip (h : r.Records ops) (hop : ∀ kind name c, ¬ op.Declares kind name c) :
    r.Records (ops ++ [op]) where
  last hcell := (h.last hcell).concat (hop _ _)
  undeclared hcell := (h.undeclared hcell).concat (hop _ _)

/-- An operation that declares a cell under a name is recorded there, and nowhere else. -/
theorem Registry.Records.put (h : r.Records ops) (hop : op.Declares kind name cell) :
    (r.put kind name cell).Records (ops ++ [op]) := by
  have hother : ∀ {other ref}, ¬ (other = kind ∧ ref = name) →
      (r.put kind name cell).cell? other ref = r.cell? other ref ∧
        ∀ c, ¬ op.Declares other ref c := by
    intro other ref hne
    refine ⟨cell?_put_of_ne (by tauto), fun c hc => hne ?_⟩
    exact hop.unique hc
  constructor
  · intro other ref c hc
    by_cases heq : other = kind ∧ ref = name
    · obtain ⟨rfl, rfl⟩ := heq
      rw [cell?_put_self] at hc
      obtain rfl := Option.some.inj hc
      exact hop.last
    · rw [(hother heq).1] at hc
      exact (h.last hc).concat (hother heq).2
  · intro other ref hc
    by_cases heq : other = kind ∧ ref = name
    · obtain ⟨rfl, rfl⟩ := heq
      rw [cell?_put_self] at hc
      cases hc
    · rw [(hother heq).1] at hc
      exact (h.undeclared hc).concat (hother heq).2

end Record

/-! ## Performing operations -/

namespace Operation

variable {ops : List Operation} {s : Session}

theorem perform_declare (kind : SwitchKind) (text : String) (cell : Nat) (path : String)
    (s : Session) :
    perform (.declare kind text cell path) s = match Registry.declaredName kind text path with
      | .ok name => (.ok (.name name), s.declare kind name cell path)
      | .error e => (.error e, s) := by
  rw [perform, Run.bind_apply, Run.declare, Run.bind_apply, Run.lift_apply]
  cases Registry.declaredName kind text path <;> rfl

theorem perform_lookUp (kind : SwitchKind) (reference path : String) (s : Session) :
    perform (.lookUp kind reference path) s =
      ((s.registry.cell kind reference path).map .cell, s) := by
  rw [perform, Run.bind_apply]
  change ((liftM (s.registry.cell kind reference path) : Run Nat) >>= _) s = _
  rw [Run.bind_apply, Run.lift_apply]
  cases s.registry.cell kind reference path <;> rfl

/-- A declaration answers by what is recorded, and is recorded. -/
theorem answers_declare (h : s.registry.Records ops) (kind : SwitchKind) (text : String)
    (cell : Nat) (path : String) :
    ∃ outcome t, perform (.declare kind text cell path) s = (outcome, t) ∧
      Answers ops s (.declare kind text cell path) outcome t ∧
      t.registry.Records (ops ++ [.declare kind text cell path]) := by
  rw [perform_declare, Registry.declaredName]
  by_cases hvalid : SwitchName.isValid text = true
  · obtain ⟨bare, hspells⟩ := SwitchName.isValid_iff.1 hvalid
    rw [if_pos hvalid, hspells.canonical_eq]
    refine ⟨_, _, rfl, ?_, ?_⟩
    · unfold Session.declare
      cases hold : s.registry.cell? kind ("$" ++ bare) with
      | none => exact .declared _ hspells (h.undeclared hold)
      | some old => exact .redeclared _ hspells (h.last hold)
    · have hregistry : (s.declare kind ("$" ++ bare) cell path).registry =
          s.registry.put kind ("$" ++ bare) cell := by
        unfold Session.declare
        split <;> rfl
      rw [hregistry]
      exact h.put (.intro hspells)
  · have hnone : ∀ bare, ¬ Spells text bare := fun bare hspells =>
      hvalid (SwitchName.isValid_iff.2 ⟨bare, hspells⟩)
    rw [if_neg hvalid]
    refine ⟨_, _, rfl, .rejected hnone, h.skip ?_⟩
    rintro kind' name c ⟨hspells⟩
    exact hnone _ hspells

/-- A reference answers by what is recorded. -/
theorem answers_lookUp (h : s.registry.Records ops) (kind : SwitchKind) (reference path : String) :
    ∃ outcome, perform (.lookUp kind reference path) s = (outcome, s) ∧
      Answers ops s (.lookUp kind reference path) outcome s := by
  refine ⟨_, perform_lookUp kind reference path s, ?_⟩
  rw [Registry.cell, SwitchName.canonical_eq]
  cases hcell : s.registry.cell? kind (signed (Text.trim reference)) with
  | none => exact .missing (h.undeclared hcell)
  | some cell => exact .found (h.last hcell)

/-- An operation answers by what is recorded, and what is recorded stays a record. -/
theorem answers_of_perform (h : s.registry.Records ops) (op : Operation) :
    ∃ outcome t, op.perform s = (outcome, t) ∧ Answers ops s op outcome t ∧
      t.registry.Records (ops ++ [op]) := by
  cases op with
  | declare kind text cell path => exact answers_declare h kind text cell path
  | lookUp kind reference path =>
    obtain ⟨outcome, hperform, hanswers⟩ := answers_lookUp h kind reference path
    exact ⟨outcome, s, hperform, hanswers, h.skip nofun⟩

end Operation

namespace Session

theorem answered_of_records {s : Session} {before : List Operation}
    (h : s.registry.Records before) (ops : List Operation) :
    Answered before s ops (s.operate ops).1 (s.operate ops).2 := by
  induction ops generalizing s before with
  | nil => exact .nil
  | cons op rest ih =>
    obtain ⟨outcome, t, hperform, hanswers, hrecords⟩ := Operation.answers_of_perform h op
    rw [operate, hperform]
    exact .cons hanswers (ih hrecords)

/-- **The declared switches are two maps in which the last declaration counts**: after any
declarations and references, a declaration is accepted if and only if its name is valid, and then
gives the canonical name and tells if that name was taken; a rejected one leaves everything as it
is; and a reference finds the cell of the last declaration of its canonical name and its kind, or
is undeclared. -/
theorem answered_of_operate {s : Session} (hs : s.registry = .empty) (ops : List Operation) :
    Answered [] s ops (s.operate ops).1 (s.operate ops).2 := by
  refine answered_of_records ?_ ops
  rw [hs]
  exact Registry.records_empty

/-- Some declarations and references. -/
def Sample.switchOperations : List Operation :=
  [.declare .level "$a" 0 "LevelSwitches:$a", .declare .filter " a" 1 "FilterSwitches: a",
   .declare .level "a " 2 "LevelSwitches:a ", .declare .level "a-b" 3 "LevelSwitches:a-b",
   .lookUp .level " a" "MinimumLevel", .lookUp .filter "$a" "Filter", .lookUp .level "$A" "WriteTo"]

theorem answered_switchOperations :
    let s := Session.start ⟨[], []⟩ .empty
    let outcomes := [.ok (.name "$a"), .ok (.name "$a"), .ok (.name "$a"),
      .error (.invalidSwitchName .level "a-b" "LevelSwitches:a-b"), .ok (.cell 2), .ok (.cell 1),
      .error (.undeclaredSwitch .level "$A" "WriteTo")]
    s.registry = .empty ∧
      (s.operate Sample.switchOperations).2.diagnostics =
        [.switchRedeclared "$a" "LevelSwitches:a "] ∧
      Answered [] s Sample.switchOperations outcomes (s.operate Sample.switchOperations).2 := by
  intro s outcomes
  have houtcomes : (s.operate Sample.switchOperations).1 = outcomes := by decide +kernel
  have hanswered := answered_of_operate (s := s) rfl Sample.switchOperations
  rw [houtcomes] at hanswered
  exact ⟨rfl, by decide +kernel, hanswered⟩

end Session

end LogBinder
