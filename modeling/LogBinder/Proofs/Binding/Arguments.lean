/-
  Log binder — arguments for parameters.

  An argument is what a parameter is given, converted, or what is injected, or
  the default.  A parameter with none of these would have no value; but those
  of a method that is selected and of a constructor that suits are covered, so
  it does not matter what would stand there instead.

  * `Scope.Supplied` : where an argument comes from;
  * `Scope.argumentsOr` : the arguments for parameters, with something else in
    the place of a value that is missing (`argumentsOr_eq_of_areCovered`).
-/
import LogBinder.Binding.Conversion
import LogBinder.Proofs.Binding.Yields

namespace LogBinder

namespace Parameter

/-- Whether every parameter is given something or may be left out. -/
def AreCovered (given : Parameter → Option Node) (ps : List Parameter) : Prop :=
  ∀ p ∈ ps, (given p).isSome = true ∨ p.canOmit = true

end Parameter

namespace Scope

open Fresh

/-- The value of a parameter that nothing is given for: what is injected, or the default, or else
something instead. -/
def omittedOr (s : Scope) (instead : Except ResolveError Value) (p : Parameter) (path : String) :
    Except ResolveError Value :=
  if p.type.isImplicit then s.injected p.type p.name path else p.default.elim instead .ok

/-- The arguments for parameters, of which some are given nodes. -/
def argumentsOr (s : Scope) (instead : Except ResolveError Value) (path : String)
    (given : Parameter → Option Node) (ps : List Parameter) : Fresh Arguments :=
  ps.mapM fun p => do
    match given p with
    | some n => return (p.name, ← s.convert n p.type)
    | none => return (p.name, ← s.omittedOr instead p path)

/-- Where the value of a parameter comes from. -/
inductive Supplied (s : Scope) (path : String) (given : Parameter → Option Node) (p : Parameter)
    (v : Value) : Prop
  | converted {n : Node} {k m : Nat} (hn : given p = some n)
    (hv : Yields (s.convert n p.type) k v m)
  | injected (hn : given p = none) (hp : p.type.isImplicit = true)
    (hv : s.injected p.type p.name path = .ok v)
  | default (hn : given p = none) (hp : p.type.isImplicit = false) (hv : p.default = some v)

/-- Arguments for parameters: one for each, with its name, in order. -/
def AreSupplied (s : Scope) (path : String) (given : Parameter → Option Node) (ps : List Parameter)
    (args : Arguments) : Prop :=
  List.Forall₂ (fun p a => a.1 = p.name ∧ s.Supplied path given p a.2) ps args

variable {s : Scope} {path : String} {given : Parameter → Option Node} {ps : List Parameter}
  {p : Parameter} {v : Value}

theorem Supplied.of_given (h : s.Supplied path given p v) {n : Node} (hn : given p = some n) :
    ∃ k m, Yields (s.convert n p.type) k v m := by
  cases h with
  | converted hn' hv =>
    rw [hn] at hn'
    cases hn'
    exact ⟨_, _, hv⟩
  | injected hn' | default hn' =>
    rw [hn] at hn'
    cases hn'

theorem Supplied.of_omitted (h : s.Supplied path given p v) (hn : given p = none) :
    if p.type.isImplicit then s.injected p.type p.name path = .ok v else p.default = some v := by
  cases h with
  | converted hn' =>
    rw [hn] at hn'
    cases hn'
  | injected _ hp hv => rwa [if_pos hp]
  | default _ hp hv => rwa [if_neg (Bool.eq_false_iff.1 hp)]

theorem AreSupplied.cons {args : Arguments} (h : s.AreSupplied path given (p :: ps) args) :
    ∃ v rest, args = (p.name, v) :: rest ∧ s.Supplied path given p v ∧
      s.AreSupplied path given ps rest := by
  cases h with
  | @cons _ a _ rest ha h =>
    obtain ⟨name, v⟩ := a
    obtain ⟨rfl, hv⟩ := ha
    exact ⟨v, rest, rfl, hv, h⟩

theorem omittedOr_null (s : Scope) (p : Parameter) (path : String) :
    s.omittedOr (.ok .null) p path = s.omitted p path := by
  rw [omittedOr, omitted]
  cases p.default <;> rfl

theorem omittedOr_eq_of_canOmit (h : p.canOmit = true) (s : Scope)
    (instead instead' : Except ResolveError Value) (path : String) :
    s.omittedOr instead p path = s.omittedOr instead' p path := by
  rw [omittedOr, omittedOr]
  split
  · rfl
  · next hp =>
    obtain ⟨v, hv⟩ : ∃ v, p.default = some v := by
      simpa [Parameter.canOmit, hp, Option.isSome_iff_exists] using h
    rw [hv]
    rfl

/-- It does not matter what would stand instead of a value where all parameters are covered. -/
theorem argumentsOr_eq_of_areCovered (h : Parameter.AreCovered given ps) (s : Scope)
    (instead instead' : Except ResolveError Value) (path : String) :
    s.argumentsOr instead path given ps = s.argumentsOr instead' path given ps := by
  refine mapM_congr fun p hp => ?_
  cases hgiven : given p with
  | some n => rfl
  | none =>
    have homit : p.canOmit = true := by simpa [hgiven] using h p hp
    dsimp only
    rw [omittedOr_eq_of_canOmit homit s instead instead']

theorem areSupplied_of_areCovered (h : Parameter.AreCovered given ps)
    {instead : Except ResolveError Value} {args : Arguments} {k m : Nat}
    (hargs : Yields (s.argumentsOr instead path given ps) k args m) :
    s.AreSupplied path given ps args := by
  -- A missing value may as well be an error, which cannot be yielded.
  let missing : ResolveError := .conversion "" "" path .notInjected
  rw [argumentsOr_eq_of_areCovered h s instead (.error missing)] at hargs
  refine (Yields.threaded hargs).forall₂.imp ?_
  rintro p a ⟨i, j, ha⟩
  cases hgiven : given p with
  | some n =>
    simp only [hgiven, yields_bind] at ha
    obtain ⟨v, l, hv, ha⟩ := ha
    obtain ⟨rfl, -⟩ := yields_pure.1 ha
    exact ⟨rfl, .converted hgiven hv⟩
  | none =>
    simp only [hgiven, yields_bind, yields_lift] at ha
    obtain ⟨v, l, ⟨hv, -⟩, ha⟩ := ha
    obtain ⟨rfl, -⟩ := yields_pure.1 ha
    refine ⟨rfl, ?_⟩
    rw [omittedOr] at hv
    split at hv
    · next hp => exact .injected hgiven hp hv
    · next hp =>
      cases hdefault : p.default with
      | none => simp [hdefault] at hv
      | some w =>
        rw [hdefault] at hv
        exact .default hgiven (Bool.eq_false_iff.2 hp) (by rw [hdefault, Except.ok.inj hv])

end Scope

end LogBinder
