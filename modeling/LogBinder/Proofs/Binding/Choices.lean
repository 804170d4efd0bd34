/-
  Log binder — the best choice.

  Methods and constructors are chosen by a key, in lexicographic order: of
  those that come into question, the first one of greatest key.  There is at
  most one such item, and it neither depends on items that do not come into
  question nor, if no other one has its key, on the order of the list.

  * `Rank.key` : ranks as keys;
  * `FirstBest` : the first item of greatest key among those that come into
    question;
  * `Overload.Fits`, `Method.key` : which methods a directive may call, and
    how well they fit it;
  * `Overload.select_firstBest` : a directive calls the first of the methods
    that fit it best.
-/
import LogBinder.Binding.Overload
import LogBinder.Plugin.Sample
import Mathlib.Data.Prod.Lex

namespace LogBinder

variable {α β κ : Type}

/-! ## Keys -/

namespace Rank

/-- Numbers of bound parameters, of bound parameters that take plain text, and of parameters that
could be left out, of which fewer are better. -/
abbrev Key := ℕ ×ₗ ℕ ×ₗ ℕᵒᵈ

/-- A rank as a key. -/
def key (r : Rank) : Key :=
  toLex (r.bound, toLex (r.strings, OrderDual.toDual r.omittable))

theorem exceeds_iff {a b : Rank} : a.exceeds b = true ↔ b.key < a.key := by
  simp only [exceeds, key, Prod.Lex.toLex_lt_toLex, OrderDual.toDual_lt_toDual, Bool.or_eq_true,
    Bool.and_eq_true, decide_eq_true_eq]
  omega

end Rank

/-! ## The first of the best -/

/-- An item comes into question, none before it that does has a key as great, and none after it has
a greater one. -/
def FirstBest [LT κ] [LE κ] (p : α → Prop) (key : α → κ) (xs : List α) (x : α) : Prop :=
  ∃ before after, xs = before ++ x :: after ∧ p x ∧ (∀ y ∈ before, p y → key y < key x) ∧
    ∀ y ∈ after, p y → key y ≤ key x

namespace FirstBest

variable [LinearOrder κ] {p : α → Prop} {key : α → κ} {xs ys : List α} {x y : α}

theorem mem (h : FirstBest p key xs x) : x ∈ xs := by
  obtain ⟨before, after, rfl, -⟩ := h
  simp

theorem holds (h : FirstBest p key xs x) : p x := by
  obtain ⟨-, -, -, hx, -⟩ := h
  exact hx

/-- No item that comes into question has a greater key. -/
theorem key_le (h : FirstBest p key xs x) (hy : y ∈ xs) (hp : p y) : key y ≤ key x := by
  obtain ⟨before, after, rfl, -, hbefore, hafter⟩ := h
  rcases List.mem_append.1 hy with hy | hy
  · exact (hbefore y hy hp).le
  · rcases List.mem_cons.1 hy with rfl | hy
    · exact le_rfl
    · exact hafter y hy hp

theorem head (hx : p x) (h : ∀ y ∈ xs, p y → key y ≤ key x) : FirstBest p key (x :: xs) x :=
  ⟨[], xs, rfl, hx, List.forall_mem_nil _, h⟩

/-- An item that does not come into question stands before all others. -/
theorem cons_of_not (h : FirstBest p key xs x) (hy : ¬ p y) : FirstBest p key (y :: xs) x := by
  obtain ⟨before, after, rfl, hx, hbefore, hafter⟩ := h
  exact ⟨y :: before, after, rfl, hx,
    List.forall_mem_cons.2 ⟨fun hp => absurd hp hy, hbefore⟩, hafter⟩

/-- There is only one. -/
theorem unique (h : FirstBest p key xs x) (h' : FirstBest p key xs y) : x = y := by
  obtain ⟨before, after, rfl, hx, hbefore, hafter⟩ := h
  obtain ⟨before', after', heq, hy, hbefore', hafter'⟩ := h'
  rcases List.append_eq_append_iff.1 heq with ⟨between, rfl, hrest⟩ | ⟨between, rfl, hrest⟩
  · cases between with
    | nil => exact (List.cons.inj hrest).1
    | cons z between =>
      obtain ⟨rfl, rfl⟩ := List.cons.inj hrest
      exact absurd (hbefore' x (by simp) hx) (hafter y (by simp) hy).not_gt
  · cases between with
    | nil => exact (List.cons.inj hrest).1.symm
    | cons z between =>
      obtain ⟨rfl, rfl⟩ := List.cons.inj hrest
      exact absurd (hbefore y (by simp) hy) (hafter' x (by simp) hx).not_gt

/-- An item whose key no other one has is the best of the list in any order. -/
theorem perm (h : FirstBest p key xs x) (hxs : xs.Perm ys)
    (hunique : ∀ y ∈ xs, p y → key y = key x → y = x) : FirstBest p key ys x := by
  obtain ⟨before, after, rfl, hnot⟩ := List.eq_append_cons_of_mem (hxs.mem_iff.1 h.mem)
  have hle : ∀ y ∈ before ++ x :: after, p y → key y ≤ key x := fun y hy =>
    h.key_le (hxs.mem_iff.2 hy)
  refine ⟨before, after, rfl, h.holds, fun y hy hp => ?_, fun y hy => hle y (by simp [hy])⟩
  refine (hle y (by simp [hy]) hp).lt_of_ne fun heq => ?_
  have hyx := hunique y (hxs.mem_iff.2 (by simp [hy])) hp heq
  exact hnot (hyx ▸ hy)

end FirstBest

/-- If some items give something, and it ranks as the items do by their keys, then the best of what
they give comes from the first best of them. -/
theorem firstBest_of_best [LinearOrder κ] {rank : β → Rank} {p : α → Prop} {k : α → κ}
    {f : α → Option β} (hp : ∀ x, p x ↔ ∃ z, f x = some z)
    (hkey : ∀ x y z w, f x = some z → f y = some w →
      ((rank z).exceeds (rank w) = true ↔ k y < k x))
    {xs : List α} {z : β} (h : best rank (xs.filterMap f) = some z) :
    ∃ x, f x = some z ∧ FirstBest p k xs x := by
  induction xs generalizing z with
  | nil => cases h
  | cons y rest ih =>
    cases hy : f y with
    | none =>
      rw [List.filterMap_cons_none hy] at h
      obtain ⟨x, hx, hbest⟩ := ih h
      exact ⟨x, hx, hbest.cons_of_not (by simp [hp, hy])⟩
    | some w =>
      have hpy : p y := (hp y).2 ⟨w, hy⟩
      rw [List.filterMap_cons_some hy, best] at h
      cases hrest : best rank (rest.filterMap f) with
      | none =>
        rw [hrest] at h
        obtain rfl := Option.some.inj h
        rw [best_eq_none_iff, List.filterMap_eq_nil_iff] at hrest
        refine ⟨y, hy, .head hpy fun u hu hpu => ?_⟩
        simp [hp, hrest u hu] at hpu
      | some v =>
        obtain ⟨x, hx, hbest⟩ := ih hrest
        rw [hrest] at h
        dsimp only at h
        split at h
        · next hexceeds =>
          obtain rfl := Option.some.inj h
          obtain ⟨before, after, rfl, hpx, hbefore, hafter⟩ := hbest
          refine ⟨x, hx, y :: before, after, rfl, hpx, ?_, hafter⟩
          exact List.forall_mem_cons.2 ⟨fun _ => (hkey x y _ w hx hy).1 hexceeds, hbefore⟩
        · next hexceeds =>
          obtain rfl := Option.some.inj h
          refine ⟨y, hy, .head hpy fun u hu hpu => ?_⟩
          exact (hbest.key_le hu hpu).trans (not_lt.1 fun hlt =>
            hexceeds ((hkey x y _ _ hx hy).2 hlt))

/-! ## Methods -/

namespace Method

/-- Every parameter is supplied, has a default or is injected. -/
def Accepts (m : Method) (supplied : List String) : Prop :=
  ∀ p ∈ m.parameters, p.name ∈ supplied ∨ p.default.isSome = true ∨ p.type.isImplicit = true

/-- How many parameters are supplied, how many of these take plain text, and how few could be left
out. -/
def key (supplied : List String) (m : Method) : Rank.Key :=
  toLex (m.parameters.countP fun p => supplied.contains p.name,
    toLex (m.parameters.countP fun p => supplied.contains p.name && p.type.isString,
      OrderDual.toDual (m.parameters.countP fun p => p.default.isSome || p.type.isImplicit)))

variable {m : Method} {supplied : List String}

theorem isEligible_iff : m.isEligible supplied = true ↔ m.Accepts supplied := by
  simp only [isEligible, Accepts, Parameter.canOmit, List.all_eq_true, Bool.or_eq_true,
    List.contains_iff_mem, or_comm]

theorem key_rank : (m.rank supplied).key = key supplied m := by
  simp only [rank, Rank.of, Rank.key, key, List.countP_eq_length_filter, List.filter_filter,
    Bool.and_comm]
  rfl

end Method

namespace Overload

/-- A method has a name and a capability, and accepts what is supplied. -/
structure Fits (name : String) (capability : Capability) (supplied : List String) (m : Method) :
    Prop where
  name : m.name = name
  capability : m.capability = capability
  accepts : m.Accepts supplied

variable {methods methods' : List Method} {name : String} {capability : Capability}
  {supplied supplied' : List String} {m : Method}

theorem fits_iff :
    Fits name capability supplied m ↔
      (m.name == name && m.capability = capability && m.isEligible supplied) = true := by
  simp only [Bool.and_eq_true, beq_iff_eq, decide_eq_true_eq, Method.isEligible_iff]
  exact ⟨fun h => ⟨⟨h.name, h.capability⟩, h.accepts⟩, fun h => ⟨h.1.1, h.1.2, h.2⟩⟩

theorem select_eq_none_iff :
    select methods name capability supplied = none ↔
      ∀ m ∈ methods, ¬ Fits name capability supplied m := by
  simp only [select, best_eq_none_iff, eligible, List.filter_eq_nil_iff, fits_iff]

/-- The method that is selected is the first of those that fit best. -/
theorem firstBest_of_select (h : select methods name capability supplied = some m) :
    FirstBest (Fits name capability supplied) (Method.key supplied) methods m := by
  have hguard : ∀ x y : Method, Option.guard (fun m =>
      m.name == name && m.capability = capability && m.isEligible supplied) x = some y ↔
        y = x ∧ Fits name capability supplied x := by
    intro x y
    rw [Option.guard_eq_some_iff, fits_iff, eq_comm]
  rw [select, eligible, ← List.filterMap_eq_filter] at h
  obtain ⟨x, hx, hbest⟩ := firstBest_of_best (p := Fits name capability supplied)
    (k := Method.key supplied) (fun x => by simp [hguard]) (fun x y z w hz hw => by
      rw [((hguard x z).1 hz).1, ((hguard y w).1 hw).1, Rank.exceeds_iff, Method.key_rank,
        Method.key_rank]) h
  rwa [((hguard x m).1 hx).1]

theorem select_eq_some_iff :
    select methods name capability supplied = some m ↔
      FirstBest (Fits name capability supplied) (Method.key supplied) methods m := by
  refine ⟨firstBest_of_select, fun h => ?_⟩
  cases hselect : select methods name capability supplied with
  | none => exact absurd h.holds (select_eq_none_iff.1 hselect m h.mem)
  | some found => rw [(firstBest_of_select hselect).unique h]

/-- Only the set of what is supplied matters. -/
theorem select_congr (h : ∀ argument, argument ∈ supplied ↔ argument ∈ supplied') :
    select methods name capability supplied = select methods name capability supplied' := by
  have hcontains : ∀ argument, supplied.contains argument = supplied'.contains argument := by
    intro argument
    rw [Bool.eq_iff_iff, List.contains_iff_mem, List.contains_iff_mem, h]
  simp only [select, eligible, Method.rank, Method.isEligible, hcontains]

/-- A method that does not fit makes no difference. -/
theorem select_insert (before after : List Method) (h : ¬ Fits name capability supplied m) :
    select (before ++ m :: after) name capability supplied =
      select (before ++ after) name capability supplied := by
  rw [fits_iff] at h
  simp only [select, eligible, List.filter_append, List.filter_cons, if_neg h]

/-- **A directive calls the method that fits it best.**  No method is selected if and only if none
has the name and the capability and accepts what is supplied.  Otherwise the first one of greatest
key among these is selected, and no other.  The choice depends only on the set of what is supplied;
it does not change when a method that does not fit is inserted or removed anywhere, nor when methods
are permuted of which no other one that fits has the same key. -/
theorem select_firstBest (methods : List Method) (name : String) (capability : Capability)
    (supplied : List String) :
    (select methods name capability supplied = none ↔
      ∀ m ∈ methods, ¬ Fits name capability supplied m) ∧
    (∀ m, select methods name capability supplied = some m ↔
      FirstBest (Fits name capability supplied) (Method.key supplied) methods m) ∧
    (∀ supplied', (∀ argument, argument ∈ supplied ↔ argument ∈ supplied') →
      select methods name capability supplied' = select methods name capability supplied) ∧
    (∀ before m after, methods = before ++ m :: after → ¬ Fits name capability supplied m →
      select (before ++ after) name capability supplied =
        select methods name capability supplied) ∧
    ∀ m methods', select methods name capability supplied = some m → methods.Perm methods' →
      (∀ m' ∈ methods, Fits name capability supplied m' →
        m'.key supplied = m.key supplied → m' = m) →
      select methods' name capability supplied = some m := by
  refine ⟨select_eq_none_iff, fun m => select_eq_some_iff, fun supplied' h => ?_, ?_, ?_⟩
  · exact (select_congr h).symm
  · rintro before m after rfl hm
    exact (select_insert before after hm).symm
  · intro m methods' hm hperm hunique
    exact select_eq_some_iff.2 ((select_eq_some_iff.1 hm).perm hperm hunique)

end Overload

/-! ## Sinks for an address -/

namespace Sample

/-- Of two sinks of one name, the one that takes the address as plain text fits better; so it is
selected from the sample packages, whatever else they hold and in whatever order. -/
theorem select_firstBest_seq :
    let methods := (Catalog.ofList packages).candidates .sink .all false
    let text := { Method.of "Seq" .sink [.required "serverUrl" .string] with
      package := "Sample.Network" }
    (Overload.select methods "Seq" .sink ["serverUrl"]).map Method.signature =
        some "Seq(serverUrl: string)" ∧
      FirstBest (Overload.Fits "Seq" .sink ["serverUrl"]) (Method.key ["serverUrl"]) methods text ∧
      Overload.select methods "Seq" .sink ["serverUrl", "serverUrl"] = some text ∧
      Overload.select methods.reverse "Seq" .sink ["serverUrl"] = some text := by
  intro methods text
  have hselect : Overload.select methods "Seq" .sink ["serverUrl"] = some text := by rfl
  obtain ⟨-, hsome, hset, -, hperm⟩ :=
    Overload.select_firstBest methods "Seq" .sink ["serverUrl"]
  have hbest := (hsome text).1 hselect
  refine ⟨by rw [hselect]; decide +kernel, hbest, ?_, ?_⟩
  · rw [hset _ (by simp), hselect]
  · refine hperm text methods.reverse hselect methods.reverse_perm.symm fun m hm hfits hkey => ?_
    have hmem : m ∈ methods.filter fun m =>
        m.name == "Seq" && m.key ["serverUrl"] = text.key ["serverUrl"] := by
      simp [hm, hfits.name, hkey]
    rw [show methods.filter _ = [text] from rfl] at hmem
    exact List.mem_singleton.1 hmem

end Sample

end LogBinder
