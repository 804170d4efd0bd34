/-
  Log binder — insertions into lists.

  * `Inserted` : one list arises from another by inserting hidden items
    anywhere;
  * `Inserted.map_filter_eq` : a filter that drops hidden items does not see
    what is inserted.
-/
import Mathlib.Data.List.Basic

namespace LogBinder

/-- One list arises from another by inserting hidden items; the others change as a relation says. -/
inductive Inserted {α : Type} (hidden : α → Prop) (R : α → α → Prop) : List α → List α → Prop
  | nil : Inserted hidden R [] []
  | keep {x y : α} {xs ys : List α} : R x y → Inserted hidden R xs ys →
      Inserted hidden R (x :: xs) (y :: ys)
  | insert {y : α} {xs ys : List α} : hidden y → Inserted hidden R xs ys →
      Inserted hidden R xs (y :: ys)

namespace Inserted

variable {α : Type} {hidden : α → Prop} {R : α → α → Prop} {xs ys : List α}

theorem refl (hR : ∀ x, R x x) (xs : List α) : Inserted hidden R xs xs := by
  induction xs with
  | nil => exact .nil
  | cons x _ ih => exact .keep (hR x) ih

theorem append {us vs : List α} (h : Inserted hidden R xs ys) (h' : Inserted hidden R us vs) :
    Inserted hidden R (xs ++ us) (ys ++ vs) := by
  induction h with
  | nil => exact h'
  | keep hR _ ih => exact .keep hR ih
  | insert hy _ ih => exact .insert hy ih

/-- What stands in the longer list was inserted or stood there before. -/
theorem hidden_or_mem (h : Inserted hidden Eq xs ys) {y : α} (hy : y ∈ ys) :
    hidden y ∨ y ∈ xs := by
  induction h with
  | nil => cases hy
  | @keep x z xs ys hxz _ ih =>
    rcases List.mem_cons.1 hy with rfl | hy
    · exact .inr (hxz ▸ List.mem_cons_self ..)
    · exact (ih hy).imp_right (List.mem_cons_of_mem _)
  | insert hz _ ih =>
    rcases List.mem_cons.1 hy with rfl | hy
    · exact .inl hz
    · exact ih hy

/-- A filter that drops what is hidden does not see what is inserted. -/
theorem map_filter_eq {β : Type} {p : α → Bool} {f : α → β} (h : Inserted hidden R xs ys)
    (hp : ∀ y, hidden y → p y = false) (hR : ∀ x y, R x y → p y = p x ∧ f y = f x) :
    (ys.filter p).map f = (xs.filter p).map f := by
  induction h with
  | nil => rfl
  | @keep x y xs ys hxy _ ih =>
    obtain ⟨hpy, hfy⟩ := hR x y hxy
    cases hx : p x with
    | true => simp [hpy, hx, hfy, ih]
    | false => simp [hpy, hx, ih]
  | insert hy _ ih => rw [List.filter_cons_of_neg (by simp [hp _ hy]), ih]

theorem filter_eq {p : α → Bool} (h : Inserted hidden Eq xs ys)
    (hp : ∀ y, hidden y → p y = false) : ys.filter p = xs.filter p := by
  simpa using h.map_filter_eq (f := id) hp fun x y hxy => ⟨hxy ▸ rfl, hxy ▸ rfl⟩

/-- A list arises from what a filter keeps of it, if all that it drops is hidden. -/
theorem of_filter {p : α → Bool} (hp : ∀ y, p y = false → hidden y) (ys : List α) :
    Inserted hidden Eq (ys.filter p) ys := by
  induction ys with
  | nil => exact .nil
  | cons y _ ih =>
    cases hy : p y with
    | true =>
      rw [List.filter_cons_of_pos hy]
      exact .keep rfl ih
    | false =>
      rw [List.filter_cons_of_neg (by simp [hy])]
      exact .insert (hp y hy) ih

end Inserted

end LogBinder
