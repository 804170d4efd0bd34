/-
  Log binder — TOML documents that are still being read.

  While a document is read, a table remembers how it came about (`Origin`),
  which decides what may still be added to it; `define`, `openTable` and
  `openElement` add to the entries read so far, or fail.

  * `Draft.settle` gives the value that a draft stands for in the end;
  * `openTable_eq_append` : a table that is opened stands last in the table
    around it.
-/
import LogBinder.Toml.Basic
import LogBinder.Toml.Moment

namespace LogBinder.Toml

/-- How a table came about. -/
inductive Origin where
  | header
  /-- By the header of a table inside it. -/
  | implied
  | dotted
  | inline
  deriving DecidableEq, Repr

/-- A value to which something may still be added. -/
inductive Draft where
  | scalar (s : Scalar)
  | array (items : List Draft)
  | table (origin : Origin) (entries : List (String × Draft))
  /-- An array of tables that headers add to. -/
  | tables (elements : List (List (String × Draft)))
  deriving Inhabited

/-- The entries of a table. -/
abbrev Entries := List (String × Draft)

namespace Draft

/-! ## Adding to entries -/

/-- Replaces the value of a key, or puts a new key at the end. -/
def alter (key : String) (f : Option Draft → Option Draft) : Entries → Option Entries
  | [] => (f none).map fun v => [(key, v)]
  | (k, v) :: rest =>
    if k = key then (f (some v)).map fun v' => (k, v') :: rest
    else (alter key f rest).map ((k, v) :: ·)

/-- Changes the entries of the last element of an array of tables. -/
def alterLast (f : Entries → Option Entries) : List Entries → Option (List Entries)
  | [] => none
  | [e] => (f e).map ([·])
  | e :: rest => (alterLast f rest).map (e :: ·)

/-- Changes the entries found by walking down keys from a header. -/
def within (f : Entries → Option Entries) : List String → Entries → Option Entries
  | [], entries => f entries
  | key :: path, entries => alter key (fun
      | none => (within f path []).map (table .implied)
      | some (table .inline _) => none
      | some (table origin inner) => (within f path inner).map (table origin)
      | some (tables elements) => (alterLast (within f path) elements).map tables
      | some _ => none) entries

/-- Adds a key to entries that do not have it. -/
def add (key : String) (value : Draft) (entries : Entries) : Option Entries :=
  alter key (fun
    | none => some value
    | some _ => none) entries

/-- Adds a value under a dotted key; the table that holds it must be made by dotted keys too. -/
def define (key : String) (value : Draft) : List String → Entries → Option Entries
  | [], entries => add key value entries
  | [last], entries => alter last (fun
      | none => (add key value []).map (table .dotted)
      | some (table .dotted inner) => (add key value inner).map (table .dotted)
      | some _ => none) entries
  | next :: path, entries => alter next (fun
      | none => (define key value path []).map (table .dotted)
      | some (table .header _) | some (table .inline _) => none
      | some (table origin inner) => (define key value path inner).map (table origin)
      | some (tables elements) => (alterLast (define key value path) elements).map tables
      | some _ => none) entries

/-- Opens the table of a header.  One that exists only by the headers of tables inside it keeps
what it has, but moves to the end. -/
def openTable (key : String) (entries : Entries) : Option Entries :=
  match entries.lookup key with
  | none => some (entries ++ [(key, table .header [])])
  | some (table .implied inner) =>
    some (entries.filter (fun e => e.1 ≠ key) ++ [(key, table .header inner)])
  | some _ => none

/-- Opens a further element of an array of tables. -/
def openElement (key : String) (entries : Entries) : Option Entries :=
  alter key (fun
    | none => some (tables [[]])
    | some (tables elements) => some (tables (elements ++ [[]]))
    | some _ => none) entries

/-- A table that is opened stands last, behind the entries of the other keys. -/
theorem openTable_eq_append {key : String} {entries after : Entries}
    (h : openTable key entries = some after) :
    ∃ inner, after = entries.filter (fun e => e.1 ≠ key) ++ [(key, table .header inner)] := by
  rw [openTable] at h
  split at h
  · next hnone =>
    have hkeep : entries.filter (fun e => e.1 ≠ key) = entries := by
      rw [List.filter_eq_self]
      intro e he
      have hne := List.lookup_eq_none_iff.1 hnone e he
      exact decide_eq_true fun heq => by simp [heq] at hne
    exact ⟨[], by rw [hkeep]; exact (Option.some.inj h).symm⟩
  · next inner _ => exact ⟨inner, (Option.some.inj h).symm⟩
  · cases h

/-! ## Settling -/

/-- The key that, in front of all others, makes a table stand for a date or a time. -/
def momentKey : String := "$__toml_private_datetime"

/-- The date or time that a string spells. -/
def moment? : Draft → Option Toml
  | scalar (.string s) => (scanMoment.whole s.toList).map fun text => .scalar (.moment text)
  | _ => none

mutual

/-- The value that a draft stands for. -/
def settle : Draft → Option Toml
  | scalar s => some (.scalar s)
  | array items => do return .array (← settleItems items)
  | table _ entries => settleTable entries
  | tables elements => do return .array (← settleTables elements)

/-- The value that a table stands for: what follows a leading `momentKey` does not count. -/
def settleTable : Entries → Option Toml
  | [] => some (.table [])
  | (key, value) :: rest =>
    if key = momentKey then moment? value
    else do return .table ((key, ← settle value) :: (← settleEntries rest))

/-- The entries of a table, each with the value that it stands for. -/
def settleEntries : Entries → Option (List (String × Toml))
  | [] => some []
  | (key, value) :: rest => do return (key, ← settle value) :: (← settleEntries rest)

/-- The items of an array, each as the value that it stands for. -/
def settleItems : List Draft → Option (List Toml)
  | [] => some []
  | item :: rest => do return (← settle item) :: (← settleItems rest)

/-- The tables of an array, each as the value that it stands for. -/
def settleTables : List Entries → Option (List Toml)
  | [] => some []
  | entries :: rest => do return (← settleTable entries) :: (← settleTables rest)

end

end Draft

end LogBinder.Toml
