/-
  Log binder — declared switches.

  Level switches and filter switches are declared under canonical names,
  each kind apart; a later declaration of a name replaces an earlier one.

  * `Registry.put` declares a switch, `Registry.cell` finds one;
  * `cell?_put_self`, `cell?_put_of_ne` : what a declaration changes.
-/
import LogBinder.Binding.Error

namespace LogBinder

/-- The cells of the declared switches by canonical name. -/
structure Registry where
  levels : List (String × Nat)
  filters : List (String × Nat)

namespace Registry

/-- Nothing declared. -/
def empty : Registry := ⟨[], []⟩

/-- The switches of a kind. -/
def switches (r : Registry) : SwitchKind → List (String × Nat)
  | .level => r.levels
  | .filter => r.filters

/-- The cell of the switch with a canonical name. -/
def cell? (r : Registry) (kind : SwitchKind) (name : String) : Option Nat :=
  (r.switches kind).lookup name

/-- Puts a cell under a name, in the place of the one that is there. -/
def putCell (name : String) (cell : Nat) : List (String × Nat) → List (String × Nat)
  | [] => [(name, cell)]
  | e :: rest => if e.1 = name then (name, cell) :: rest else e :: putCell name cell rest

/-- Declares a switch under a canonical name. -/
def put (r : Registry) (kind : SwitchKind) (name : String) (cell : Nat) : Registry :=
  match kind with
  | .level => { r with levels := putCell name cell r.levels }
  | .filter => { r with filters := putCell name cell r.filters }

/-- The canonical name of a declaration, if its name is valid. -/
def declaredName (kind : SwitchKind) (name path : String) : Except ResolveError String :=
  if SwitchName.isValid name then .ok (SwitchName.canonical name)
  else .error (.invalidSwitchName kind name path)

/-- The cell that a reference denotes. -/
def cell (r : Registry) (kind : SwitchKind) (reference path : String) :
    Except ResolveError Nat :=
  match r.cell? kind (SwitchName.canonical reference) with
  | some c => .ok c
  | none => .error (.undeclaredSwitch kind (SwitchName.canonical reference) path)

/-- The declared names of a kind, sorted. -/
def names (r : Registry) (kind : SwitchKind) : List String :=
  ((r.switches kind).map (·.1)).mergeSort (· ≤ ·)

theorem lookup_cons_of_ne {name other : String} (cell : Nat) (l : List (String × Nat))
    (h : other ≠ name) : ((name, cell) :: l).lookup other = l.lookup other := by
  rw [List.lookup_cons, beq_false_of_ne h]

theorem lookup_putCell (name other : String) (cell : Nat) (l : List (String × Nat)) :
    (putCell name cell l).lookup other = if other = name then some cell else l.lookup other := by
  induction l with
  | nil => by_cases h : other = name <;> simp [putCell, h, lookup_cons_of_ne]
  | cons e rest ih =>
    obtain ⟨key, held⟩ := e
    by_cases hkey : key = name
    · by_cases h : other = name <;> simp [putCell, hkey, h, lookup_cons_of_ne]
    · by_cases h : other = key
      · simp [putCell, h, hkey]
      · simp [putCell, hkey, h, ih, lookup_cons_of_ne]

theorem cell?_put_self (r : Registry) (kind : SwitchKind) (name : String) (c : Nat) :
    (r.put kind name c).cell? kind name = some c := by
  cases kind <;> simp [put, cell?, switches, lookup_putCell]

theorem cell?_put_of_ne {r : Registry} {kind other : SwitchKind} {name ref : String} {c : Nat}
    (h : other ≠ kind ∨ ref ≠ name) : (r.put kind name c).cell? other ref = r.cell? other ref := by
  cases kind <;> cases other <;> simp_all [put, cell?, switches, lookup_putCell]

end Registry

end LogBinder
