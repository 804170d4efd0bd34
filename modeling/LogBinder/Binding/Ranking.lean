/-
  Log binder — ranks.

  Methods and constructors compete for what is supplied.  One that binds
  more of it wins, then one that binds more of it as plain text, then one
  that leaves fewer parameters open; of equals the first one listed.

  * `Rank.exceeds` compares ranks;
  * `best` finds the first item of greatest rank (`best_mem`).
-/
import LogBinder.Plugin.Method

namespace LogBinder

/-- How well something fits what is supplied. -/
structure Rank where
  bound : Nat
  strings : Nat
  /-- The number of parameters that could be left out; fewer are better. -/
  omittable : Nat
  deriving DecidableEq, Repr

namespace Rank

/-- Whether one rank is better than another. -/
def exceeds (a b : Rank) : Bool :=
  b.bound < a.bound || (a.bound = b.bound &&
    (b.strings < a.strings || (a.strings = b.strings && a.omittable < b.omittable)))

/-- The rank of parameters of which some are bound; those that could be left out count against
it. -/
def of (parameters : List Parameter) (isBound : Parameter → Bool) : Rank where
  bound := (parameters.filter isBound).length
  strings := ((parameters.filter isBound).filter fun p => p.type.isString).length
  omittable := (parameters.filter Parameter.canOmit).length

/-- A rank that disregards what could be left out. -/
def coarse (r : Rank) : Rank := { r with omittable := 0 }

end Rank

/-- The first of some items that no other one exceeds in rank. -/
def best {α : Type} (rank : α → Rank) : List α → Option α
  | [] => none
  | x :: rest => match best rank rest with
    | some y => if (rank y).exceeds (rank x) then some y else some x
    | none => some x

theorem best_mem {α : Type} {rank : α → Rank} {xs : List α} {x : α} (h : best rank xs = some x) :
    x ∈ xs := by
  induction xs generalizing x with
  | nil => cases h
  | cons y rest ih => grind [best]

theorem best_eq_none_iff {α : Type} {rank : α → Rank} {xs : List α} :
    best rank xs = none ↔ xs = [] := by
  cases xs with
  | nil => simp [best]
  | cons x rest => grind [best]

end LogBinder
