/-
  Log binder — lists that are related item by item.

  What goes through a list gives a list of results, each related to its item,
  and two values that are alike have lists of parts that are.

  * `exists_of_forall₂`, `exists_right_of_forall₂` : the item on the other side;
  * `exists_split_of_forall₂`, `exists_append_of_forall₂` : related lists come
    apart in the same places;
  * `forall₂_of_mem`, `forall₂_trans` : other relations of the same items.
-/
import Mathlib.Data.List.Forall2

namespace LogBinder

variable {α β : Type} {R S : α → β → Prop} {xs : List α} {ys : List β}

theorem exists_of_forall₂ (h : List.Forall₂ R xs ys) {y : β} (hy : y ∈ ys) :
    ∃ x ∈ xs, R x y := by
  induction h with
  | nil => cases hy
  | @cons x z xs zs hx _ ih =>
    rcases List.mem_cons.1 hy with rfl | hy
    · exact ⟨x, List.mem_cons_self .., hx⟩
    · obtain ⟨x', hx', h'⟩ := ih hy
      exact ⟨x', List.mem_cons_of_mem _ hx', h'⟩

theorem exists_right_of_forall₂ (h : List.Forall₂ R xs ys) {x : α} (hx : x ∈ xs) :
    ∃ y ∈ ys, R x y :=
  exists_of_forall₂ (R := fun y x => R x y) h.flip hx

/-- What stands before and at an item of a related list. -/
theorem exists_split_of_forall₂ {y : β} {zs : List β} (h : List.Forall₂ R xs (ys ++ y :: zs)) :
    ∃ before x after, xs = before ++ x :: after ∧ List.Forall₂ R before ys ∧ R x y := by
  induction ys generalizing xs with
  | nil =>
    cases h with
    | @cons x _ xs _ hx _ => exact ⟨[], x, xs, rfl, .nil, hx⟩
  | cons y' ys ih =>
    cases h with
    | @cons x _ xs _ hx h =>
      obtain ⟨before, x', after, rfl, hbefore, hx'⟩ := ih h
      exact ⟨x :: before, x', after, rfl, .cons hx hbefore, hx'⟩

/-- What is related to one list after another consists of two such lists. -/
theorem exists_append_of_forall₂ {xs' : List α} (h : List.Forall₂ R (xs ++ xs') ys) :
    ∃ us vs, ys = us ++ vs ∧ List.Forall₂ R xs us ∧ List.Forall₂ R xs' vs :=
  ⟨ys.take xs.length, ys.drop xs.length, (List.take_append_drop ..).symm,
    (List.forall₂_take_append _ _ _ h.flip).flip, (List.forall₂_drop_append _ _ _ h.flip).flip⟩

/-- Items may be related otherwise according to where they come from. -/
theorem forall₂_of_mem (h : List.Forall₂ R xs ys) (hS : ∀ x ∈ xs, ∀ y, R x y → S x y) :
    List.Forall₂ S xs ys :=
  ((List.forall₂_and_left ..).2 ⟨hS, h⟩).imp fun _ y h => h.1 y h.2

theorem forall₂_trans {R : α → α → Prop} {as bs cs : List α} (h : List.Forall₂ R as bs)
    (h' : List.Forall₂ R bs cs) (hR : ∀ a ∈ as, ∀ b c, R a b → R b c → R a c) :
    List.Forall₂ R as cs := by
  induction h generalizing cs with
  | nil => exact h'
  | cons hab _ ih =>
    cases h' with
    | cons hbc h' =>
      obtain ⟨hhead, htail⟩ := List.forall_mem_cons.1 hR
      exact .cons (hhead _ _ hab hbc) (ih h' htail)

end LogBinder
