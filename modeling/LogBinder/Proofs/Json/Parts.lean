/-
  Log binder — the parts of JSON values.

  A value holds its parts by keys: an object its members by name, an array
  its items by index.  A value is plain if the names in every object of it
  hold no colons and differ in more than case; all its keys then do.

  * `Json.parts` and `Json.Holds` : what a value holds, and what is below it;
  * `Json.parts_induction` : induction on values from their parts;
  * `pairwise_keys` : no two keys of a plain value are alike;
  * `isReadable_of_document` : every part of a document that is read denotes
    something.
-/
import LogBinder.Json.Reader
import LogBinder.Proofs.Text.Characters
import LogBinder.Text.Ascii
import Mathlib.Data.List.Sigma
import Std.Data.String.ToNat

namespace LogBinder

/-! ## Values by keys -/

namespace Json

/-- The text of a value that is no container. -/
def scalar? : Json → Option String
  | null => some ""
  | bool true => some "true"
  | bool false => some "false"
  | number n => some n.text
  | string s => some s
  | unreadable | array _ | object _ => none

/-- What a value holds, by key: the members of an object, and the items of an array by their
indices. -/
def parts : Json → List (String × Json)
  | array items => items.zipIdx.map fun e => (toString e.2, e.1)
  | object members => members
  | _ => []

/-- A value holds another one at the keys that lead to it. -/
inductive Holds : Json → List String → Json → Prop where
  | here (d : Json) : Holds d [] d
  | inPart {d part e : Json} {key : String} {keys : List String} (hp : (key, part) ∈ d.parts)
    (h : Holds part keys e) : Holds d (key :: keys) e

/-- Whether names hold no colons, and no two of them differ in case only. -/
def plainNames (names : List String) : Bool :=
  names.all (fun name => !name.toList.contains ':') &&
    names.Pairwise fun a b => Text.alike a b = false

mutual

/-- Whether the names in every object are plain. -/
def isPlain : Json → Bool
  | array items => plainItems items
  | object members => plainNames (members.map (·.1)) && plainMembers members
  | _ => true

/-- Whether the names in every object of some items are plain. -/
def plainItems : List Json → Bool
  | [] => true
  | item :: rest => isPlain item && plainItems rest

/-- Whether the names in every object of some members are plain. -/
def plainMembers : List (String × Json) → Bool
  | [] => true
  | (_, value) :: rest => isPlain value && plainMembers rest

end

variable {d e : Json} {p : String × Json}

theorem depth_le_of_mem_items {items : List Json} (h : d ∈ items) : d.depth ≤ depthItems items := by
  induction items with
  | nil => cases h
  | cons item rest ih =>
    rw [depthItems]
    rcases List.mem_cons.1 h with rfl | h
    · exact Nat.le_max_left ..
    · exact Nat.le_trans (ih h) (Nat.le_max_right ..)

theorem depth_le_of_mem_members {members : List (String × Json)} (h : p ∈ members) :
    p.2.depth ≤ depthMembers members := by
  induction members with
  | nil => cases h
  | cons m rest ih =>
    obtain ⟨name, value⟩ := m
    rw [depthMembers]
    rcases List.mem_cons.1 h with rfl | h
    · exact Nat.le_max_left ..
    · exact Nat.le_trans (ih h) (Nat.le_max_right ..)

theorem mem_items_of_mem_parts {items : List Json} (h : p ∈ (array items).parts) : p.2 ∈ items := by
  obtain ⟨e, he, rfl⟩ := List.mem_map.1 h
  exact List.fst_mem_of_mem_zipIdx he

theorem depth_lt_of_mem_parts (h : p ∈ d.parts) : p.2.depth < d.depth := by
  cases d with
  | array items =>
    rw [depth]
    exact Nat.lt_succ_of_le (depth_le_of_mem_items (mem_items_of_mem_parts h))
  | object members =>
    rw [depth]
    exact Nat.lt_succ_of_le (depth_le_of_mem_members h)
  | _ => cases h

/-- What holds of a value if it holds of its parts holds of all values. -/
theorem parts_induction {P : Json → Prop} (h : ∀ d : Json, (∀ p ∈ d.parts, P p.2) → P d)
    (d : Json) : P d := by
  induction hd : d.depth using Nat.strongRecOn generalizing d with
  | ind depth ih =>
    refine h d ?_
    intro p hp
    exact ih p.2.depth (hd ▸ depth_lt_of_mem_parts hp) p.2 rfl

theorem scalar?_eq_none (h : d.parts ≠ []) : d.scalar? = none := by
  cases d with
  | array | object => rfl
  | _ => exact absurd rfl h

/-! ## Keys of plain values -/

theorem toLower_digit {c : Char} (h : c.isDigit = true) : c.toLower = c :=
  Text.toLower_eq_self (Text.isAlpha_eq_false_of_isDigit h)

theorem isDigit_of_mem_index {c : Char} {i : Nat} (h : c ∈ (toString i).toList) :
    c.isDigit = true := by
  rw [Nat.toString_eq_ofList_toDigits, String.toList_ofList] at h
  exact Nat.isDigit_of_mem_toDigits (by decide) (by decide) h

theorem folded_index (i : Nat) : Text.folded (toString i) = (toString i).toList := by
  rw [Text.folded]
  conv_rhs => rw [← List.map_id (toString i).toList]
  exact List.map_congr_left fun c hc => toLower_digit (isDigit_of_mem_index hc)

theorem alike_index {i j : Nat} (h : Text.alike (toString i) (toString j) = true) : i = j := by
  rw [Text.alike_iff, folded_index, folded_index] at h
  exact Nat.repr_inj.1 (String.toList_inj.1 h)

theorem not_mem_key (h : d.isPlain = true) (hp : p ∈ d.parts) : ':' ∉ p.1.toList := by
  cases d with
  | array items =>
    obtain ⟨e, -, rfl⟩ := List.mem_map.1 hp
    exact fun hcolon => absurd (isDigit_of_mem_index hcolon) (by decide)
  | object members =>
    rw [isPlain, Bool.and_eq_true, plainNames, Bool.and_eq_true, List.all_eq_true] at h
    simpa using h.1.1 p.1 (List.mem_map_of_mem hp)
  | _ => cases hp

/-- No two keys of a plain value are alike. -/
theorem pairwise_keys (h : d.isPlain = true) :
    (d.parts.map (·.1)).Pairwise fun a b => Text.alike a b = false := by
  cases d with
  | array items =>
    rw [parts, List.map_map, List.pairwise_map]
    have hnodup := List.nodup_zipIdx_map_snd items
    rw [List.Nodup, List.pairwise_map] at hnodup
    exact hnodup.imp fun hne => Bool.eq_false_iff.2 fun h => hne (alike_index h)
  | object members =>
    rw [isPlain, Bool.and_eq_true, plainNames, Bool.and_eq_true] at h
    simpa [parts] using h.1.2
  | _ => exact .nil

theorem plainItems_eq (items : List Json) : plainItems items = items.all isPlain := by
  induction items with
  | nil => rfl
  | cons item rest ih => rw [plainItems, ih, List.all_cons]

theorem plainMembers_eq (members : List (String × Json)) :
    plainMembers members = members.all fun m => m.2.isPlain := by
  induction members with
  | nil => rfl
  | cons m rest ih => rw [plainMembers, ih, List.all_cons]

theorem isPlain_of_mem_parts (h : d.isPlain = true) (hp : p ∈ d.parts) : p.2.isPlain = true := by
  cases d with
  | array items =>
    rw [isPlain, plainItems_eq, List.all_eq_true] at h
    exact h p.2 (mem_items_of_mem_parts hp)
  | object members =>
    rw [isPlain, Bool.and_eq_true, plainMembers_eq, List.all_eq_true] at h
    exact h.2 p hp
  | _ => cases hp

/-! ## Readable values -/

theorem readableItems_eq (items : List Json) : readableItems items = items.all isReadable := by
  induction items with
  | nil => rfl
  | cons item rest ih => rw [readableItems, ih, List.all_cons]

theorem readableMembers_eq (members : List (String × Json)) :
    readableMembers members = members.all fun m => m.2.isReadable := by
  induction members with
  | nil => rfl
  | cons m rest ih => rw [readableMembers, ih, List.all_cons]

theorem isReadable_of_mem_parts (h : d.isReadable = true) (hp : p ∈ d.parts) :
    p.2.isReadable = true := by
  cases d with
  | array items =>
    rw [isReadable, readableItems_eq, List.all_eq_true] at h
    exact h p.2 (mem_items_of_mem_parts hp)
  | object members =>
    rw [isReadable, readableMembers_eq, List.all_eq_true] at h
    exact h p hp
  | _ => cases hp

theorem exists_mem_parts {items : List Json} (h : d ∈ items) :
    ∃ p ∈ (array items).parts, p.2 = d := by
  obtain ⟨i, hi, rfl⟩ := List.mem_iff_getElem.1 h
  have hindex : (items[i], i) ∈ items.zipIdx := by simp [List.mem_zipIdx_iff_getElem?, hi]
  exact ⟨(toString i, items[i]), List.mem_map.2 ⟨_, hindex, rfl⟩, rfl⟩

theorem settleItems_eq (items : List Json) : settleItems items = items.map settle := by
  induction items with
  | nil => rfl
  | cons item rest ih => rw [settleItems, ih, List.map_cons]

theorem mem_put {α : Type} {name : String} {value : α} {m : String × α} {ms : List (String × α)}
    (h : m ∈ put name value ms) : m = (name, value) ∨ m ∈ ms := by
  induction ms with
  | nil => exact .inl (List.mem_singleton.1 h)
  | cons c rest ih =>
    rw [put] at h
    split at h
    · rcases List.mem_cons.1 h with rfl | h
      · exact .inl rfl
      · exact .inr (List.mem_cons_of_mem _ h)
    · rcases List.mem_cons.1 h with rfl | h
      · exact .inr (List.mem_cons_self ..)
      · exact (ih h).imp_right (List.mem_cons_of_mem _)

theorem mem_settleMembers {before members : List (String × Json)}
    (h : p ∈ settleMembers before members) : p ∈ before ∨ ∃ m ∈ members, p.2 = m.2.settle := by
  induction members generalizing before with
  | nil => exact .inl h
  | cons m rest ih =>
    obtain ⟨name, value⟩ := m
    rw [settleMembers] at h
    rcases ih h with h | ⟨m, hm, hp⟩
    · rcases mem_put h with rfl | h
      · exact .inr ⟨_, List.mem_cons_self .., rfl⟩
      · exact .inl h
    · exact .inr ⟨m, List.mem_cons_of_mem _ hm, hp⟩

/-- Settling repeated names leaves a value readable. -/
theorem isReadable_settle (h : d.isReadable = true) : d.settle.isReadable = true := by
  induction d using parts_induction with
  | h d ih =>
    have hparts := fun p hp => ih p hp (isReadable_of_mem_parts h hp)
    cases d with
    | array items =>
      rw [settle, isReadable, readableItems_eq, settleItems_eq, List.all_eq_true]
      intro e he
      obtain ⟨item, hitem, rfl⟩ := List.mem_map.1 he
      obtain ⟨p, hp, rfl⟩ := exists_mem_parts hitem
      exact hparts p hp
    | object members =>
      rw [settle, isReadable, readableMembers_eq, List.all_eq_true]
      intro m hm
      rcases mem_settleMembers hm with hm | ⟨p, hp, hsettled⟩
      · cases hm
      · exact hsettled ▸ hparts p hp
    | _ => exact h

theorem isReadable_of_document {cs : List Char} (h : document cs = some d) :
    d.isReadable = true := by
  rw [document] at h
  obtain ⟨e, -, h⟩ := Option.bind_eq_some_iff.1 h
  split at h
  · next hreadable =>
    rw [Bool.and_eq_true] at hreadable
    cases h
    exact isReadable_settle hreadable.1
  · cases h

end Json

end LogBinder
