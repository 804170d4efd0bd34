/-
  Log binder — when values are equal.

  Two values are equal if they agree in themselves and what is inside of them
  is equal, one by one.  Data agree if they are the same, numbers if they
  compare equal; what is shared agrees if it is one and the same, which the
  cell of a switch tells, the identity of an object or a function, the kind and
  path of a callback, and the path of a node.

  A copy of a value has the same data and shares what the value shares.  Only a
  NaN keeps a value from being equal to its copies, as it is to itself.

  * `Value.contents` : what is compared inside of a value;
  * `Value.Agrees`, `Value.Matches` : values that agree in themselves, and all
    the way down, for some relations between numbers (`Matches.symm`,
    `Matches.trans` : it is as good a relation as these are);
  * `Value.same_iff_matches` : equality is one of them;
  * `Value.same_partialEquivalence` : it is symmetric and transitive, and holds
    of the copies of values without NaN.
-/
import LogBinder.Plugin.Value
import LogBinder.Proofs.Number.Comparison
import LogBinder.Proofs.Related

namespace LogBinder

namespace Value

/-! ## What is inside of a value -/

/-- The values that are compared when a value is: its items, or the keys and values of its entries.
What an object was constructed from is not compared. -/
def contents : Value → List Value
  | array items | sequence _ items => items
  | map _ entries => entries.flatMap fun e => [e.1, e.2]
  | _ => []

/-- A double is compared when a value is. -/
inductive Holds : Value → Binary64 → Prop
  | self (x : Binary64) : Holds (.float x) x
  | part {v w : Value} {x : Binary64} (hw : w ∈ v.contents) (h : Holds w x) : Holds v x

variable {u v w : Value}

theorem sizeOf_lt_of_mem_contents (h : w ∈ v.contents) : sizeOf w < sizeOf v := by
  cases v with
  | array items | sequence container items =>
    have := List.sizeOf_lt_of_mem (show w ∈ items from h)
    simp
    omega
  | map container entries =>
    obtain ⟨⟨key, value⟩, he, hw⟩ := List.mem_flatMap.1 h
    have := List.sizeOf_lt_of_mem he
    simp at this hw ⊢
    rcases hw with rfl | rfl <;> omega
  | _ => cases h

/-- What holds of a value if it holds of its contents holds of all values. -/
theorem contents_induction {P : Value → Prop} (h : ∀ v, (∀ w ∈ v.contents, P w) → P v)
    (v : Value) : P v := by
  induction hn : sizeOf v using Nat.strongRecOn generalizing v with
  | ind n ih => exact h v fun w hw => ih (sizeOf w) (hn ▸ sizeOf_lt_of_mem_contents hw) w rfl

/-! ## Values that match -/

/-- Whether a value is compared as it stands: it is data with one representation, or a switch, which
is known by its cell. -/
def isPlain : Value → Bool
  | null | string _ | bool _ | char _ | int _ | uint _ | moment _ | duration _ | uri _ | level _
  | enum _ _ _ | typeName _ | levelSwitch _ | filterSwitch _ | formatProvider _ => true
  | _ => false

theorem contents_of_isPlain (h : v.isPlain = true) : v.contents = [] := by
  cases v with
  | array | sequence | map => cases h
  | _ => rfl

/-- Two values agree in themselves, whatever their contents are, if `F` is what it means for doubles
to agree and `D` for decimals. -/
inductive Agrees (F : Binary64 → Binary64 → Prop) (D : Decimal → Decimal → Prop) :
    Value → Value → Prop
  | plain {v : Value} (h : v.isPlain = true) : Agrees F D v v
  | float {x y : Binary64} (h : F x y) : Agrees F D (.float x) (.float y)
  | decimal {a b : Decimal} (h : D a b) : Agrees F D (.decimal a) (.decimal b)
  | array {vs ws : List Value} : Agrees F D (.array vs) (.array ws)
  | sequence {container : String} {vs ws : List Value} :
      Agrees F D (.sequence container vs) (.sequence container ws)
  | map {container : String} {as bs : List (Value × Value)} :
      Agrees F D (.map container as) (.map container bs)
  | object {type type' label label' : String} {identity : Nat}
      {arguments arguments' : Option (List (String × Value))} :
      Agrees F D (.object type identity label arguments) (.object type' identity label' arguments')
  | callback {kind : CallbackKind} {path : String} {body body' : CallbackBody} :
      Agrees F D (.callback kind path body) (.callback kind path body')
  | delegate {name name' : String} {signature signature' : Signature} {identity : Nat}
      {body body' : FunctionBody} :
      Agrees F D (.delegate name signature identity body)
        (.delegate name' signature' identity body')
  | node {n n' : Node} (h : n.path = n'.path) : Agrees F D (.node n) (.node n')

/-- Two values agree in themselves, and their contents match one by one. -/
inductive Matches (F : Binary64 → Binary64 → Prop) (D : Decimal → Decimal → Prop) :
    Value → Value → Prop
  | intro {v w : Value} (agrees : v.Agrees F D w)
      (contents : List.Forall₂ (Matches F D) v.contents w.contents) : Matches F D v w

/-- A value is a copy of another one: the same data, and the same things shared. -/
abbrev Copies : Value → Value → Prop := Matches Eq Eq

variable {F F' : Binary64 → Binary64 → Prop} {D D' : Decimal → Decimal → Prop}

theorem Agrees.symm (hF : ∀ x y, F x y → F y x) (hD : ∀ a b, D a b → D b a)
    (h : v.Agrees F D w) : w.Agrees F D v := by
  cases h with
  | plain hv => exact .plain hv
  | float h => exact .float (hF _ _ h)
  | decimal h => exact .decimal (hD _ _ h)
  | node h => exact .node h.symm
  | _ => constructor

theorem Agrees.trans (hF : ∀ x y z, F x y → F y z → F x z) (hD : ∀ a b c, D a b → D b c → D a c)
    (h : u.Agrees F D v) (h' : v.Agrees F D w) : u.Agrees F D w := by
  cases h' with
  | plain => exact h
  | float h' =>
    cases h with
    | plain hv => cases hv
    | float h => exact .float (hF _ _ _ h h')
  | decimal h' =>
    cases h with
    | plain hv => cases hv
    | decimal h => exact .decimal (hD _ _ _ h h')
  | node h' =>
    cases h with
    | plain hv => cases hv
    | node h => exact .node (h.trans h')
  | _ =>
    cases h with
    | plain hv => cases hv
    | _ => constructor

theorem Agrees.mono (hF : ∀ x y, v.Holds x → F x y → F' x y) (hD : ∀ a b, D a b → D' a b)
    (h : v.Agrees F D w) : v.Agrees F' D' w := by
  cases h with
  | plain hv => exact .plain hv
  | float h => exact .float (hF _ _ (.self _) h)
  | decimal h => exact .decimal (hD _ _ h)
  | node h => exact .node h
  | _ => constructor

theorem agrees_self (hF : ∀ x, v = .float x → F x x) (hD : ∀ a, D a a) : v.Agrees F D v := by
  cases v with
  | float x => exact .float (hF x rfl)
  | decimal a => exact .decimal (hD a)
  | node n => exact .node rfl
  | array => exact .array
  | sequence => exact .sequence
  | map => exact .map
  | object => exact .object
  | callback => exact .callback
  | delegate => exact .delegate
  | _ => exact .plain rfl

theorem Matches.symm (hF : ∀ x y, F x y → F y x) (hD : ∀ a b, D a b → D b a)
    (h : v.Matches F D w) : w.Matches F D v := by
  induction v using contents_induction generalizing w with
  | h v ih =>
    obtain ⟨hagrees, hcontents⟩ := h
    exact ⟨hagrees.symm hF hD, .flip (forall₂_of_mem hcontents fun a ha _ => ih a ha)⟩

theorem Matches.trans (hF : ∀ x y z, F x y → F y z → F x z)
    (hD : ∀ a b c, D a b → D b c → D a c) (h : u.Matches F D v) (h' : v.Matches F D w) :
    u.Matches F D w := by
  induction u using contents_induction generalizing v w with
  | h u ih =>
    obtain ⟨hagrees, hcontents⟩ := h
    obtain ⟨hagrees', hcontents'⟩ := h'
    exact ⟨hagrees.trans hF hD hagrees', forall₂_trans hcontents hcontents' fun a ha _ _ => ih a ha⟩

/-- Values match themselves if the doubles that are compared do. -/
theorem matches_self_iff (hD : ∀ a, D a a) :
    v.Matches F D v ↔ ∀ x, v.Holds x → F x x := by
  induction v using contents_induction with
  | h v ih =>
    constructor
    · rintro ⟨hagrees, hcontents⟩ x hx
      cases hx with
      | self =>
        cases hagrees with
        | plain hv => cases hv
        | float h => exact h
      | part hw hx => exact (ih _ hw).1 (List.forall₂_same.1 hcontents _ hw) x hx
    · intro hF
      refine ⟨agrees_self ?_ hD, List.forall₂_same.2 fun w hw => ?_⟩
      · rintro x rfl
        exact hF x (.self x)
      · exact (ih w hw).2 fun x hx => hF x (.part hw hx)

theorem Matches.mono (hF : ∀ x y, v.Holds x → F x y → F' x y) (hD : ∀ a b, D a b → D' a b)
    (h : v.Matches F D w) : v.Matches F' D' w := by
  induction v using contents_induction generalizing w with
  | h v ih =>
    obtain ⟨hagrees, hcontents⟩ := h
    refine ⟨hagrees.mono hF hD, forall₂_of_mem hcontents fun a ha _ => ?_⟩
    exact ih a ha fun x y hx => hF x y (.part ha hx)

theorem Copies.refl (v : Value) : v.Copies v :=
  (matches_self_iff fun _ => rfl).2 fun _ _ => rfl

/-! ## Equality -/

theorem same_of_isPlain (h : v.isPlain = true) : v.same w = true ↔ v = w := by
  cases v with
  | float | decimal | array | sequence | map | object | callback | delegate | node => cases h
  | _ => cases w <;> simp [same, and_assoc]

theorem sameItems_iff (vs ws : List Value) :
    sameItems vs ws = true ↔ List.Forall₂ (fun v w => v.same w = true) vs ws := by
  induction vs generalizing ws with
  | nil => cases ws <;> simp [sameItems]
  | cons v vs ih => cases ws <;> simp [sameItems, ih]

theorem sameEntries_eq (as bs : List (Value × Value)) :
    sameEntries as bs =
      sameItems (as.flatMap fun e => [e.1, e.2]) (bs.flatMap fun e => [e.1, e.2]) := by
  induction as generalizing bs with
  | nil => cases bs <;> simp [sameEntries, sameItems]
  | cons a as ih => cases bs <;> simp [sameEntries, sameItems, ih, Bool.and_assoc]

theorem agrees_of_same (h : v.same w = true) :
    v.Agrees Binary64.Equal Decimal.Equal w := by
  cases v with
  | float x =>
    cases w with
    | float y => exact .float h
    | _ => cases h
  | decimal a =>
    cases w with
    | decimal b => exact .decimal h
    | _ => cases h
  | array vs =>
    cases w with
    | array ws => exact .array
    | _ => cases h
  | sequence container vs =>
    cases w with
    | sequence container' ws =>
      rw [same, Bool.and_eq_true, beq_iff_eq] at h
      exact h.1 ▸ .sequence
    | _ => cases h
  | map container as =>
    cases w with
    | map container' bs =>
      rw [same, Bool.and_eq_true, beq_iff_eq] at h
      exact h.1 ▸ .map
    | _ => cases h
  | object type identity label arguments =>
    cases w with
    | object type' identity' label' arguments' =>
      rw [same, beq_iff_eq] at h
      exact h ▸ .object
    | _ => cases h
  | callback kind path body =>
    cases w with
    | callback kind' path' body' =>
      rw [same, Bool.and_eq_true, beq_iff_eq, beq_iff_eq] at h
      exact h.1 ▸ h.2 ▸ .callback
    | _ => cases h
  | delegate name signature identity body =>
    cases w with
    | delegate name' signature' identity' body' =>
      rw [same, beq_iff_eq] at h
      exact h ▸ .delegate
    | _ => cases h
  | node n =>
    cases w with
    | node n' =>
      rw [same, beq_iff_eq] at h
      exact .node h
    | _ => cases h
  | _ =>
    obtain rfl := (same_of_isPlain rfl).1 h
    exact .plain rfl

/-- Of values that agree in themselves only the contents are left to compare. -/
theorem Agrees.same_eq (h : v.Agrees Binary64.Equal Decimal.Equal w) :
    v.same w = sameItems v.contents w.contents := by
  cases h with
  | @plain v hv =>
    rw [(same_of_isPlain hv).2 rfl, contents_of_isPlain hv]
    rfl
  | float h => exact h
  | decimal h => exact h
  | array => rfl
  | sequence => simp [same, contents]
  | map => simp [same, contents, sameEntries_eq]
  | object | callback | delegate => simp [same, contents, sameItems]
  | node h => simp [same, contents, sameItems, h]

/-- **Equality is to match, with numbers that compare equal.** -/
theorem same_iff_matches : v.same w = true ↔ v.Matches Binary64.Equal Decimal.Equal w := by
  induction v using contents_induction generalizing w with
  | h v ih =>
    constructor
    · intro h
      have hagrees := agrees_of_same h
      rw [hagrees.same_eq, sameItems_iff] at h
      exact ⟨hagrees, forall₂_of_mem h fun a ha _ => (ih a ha).1⟩
    · rintro ⟨hagrees, hcontents⟩
      rw [hagrees.same_eq, sameItems_iff]
      exact forall₂_of_mem hcontents fun a ha _ => (ih a ha).2

theorem same_symm (h : v.same w = true) : w.same v = true :=
  same_iff_matches.2 ((same_iff_matches.1 h).symm (fun _ _ => .symm) fun _ _ => .symm)

theorem same_trans (h : u.same v = true) (h' : v.same w = true) : u.same w = true :=
  same_iff_matches.2 ((same_iff_matches.1 h).trans (fun _ _ _ => .trans) (fun _ _ _ => .trans)
    (same_iff_matches.1 h'))

/-- A value is equal to itself unless it holds a NaN. -/
theorem same_self_iff : v.same v = true ↔ ∀ x, v.Holds x → x.isNaN = false := by
  rw [same_iff_matches, matches_self_iff Decimal.Equal.refl]
  exact forall₂_congr fun x _ => Binary64.equal_self_iff

/-- **Equality of values is a partial equivalence that respects copies.**  Values are equal if they
match all the way down, with numbers that compare equal.  This is symmetric and transitive, and a
value equals its copies, of which it is one itself, exactly if it holds no NaN. -/
theorem same_partialEquivalence :
    (∀ v w : Value, v.same w = true ↔ v.Matches Binary64.Equal Decimal.Equal w) ∧
    (∀ v w : Value, v.same w = true → w.same v = true) ∧
    (∀ u v w : Value, u.same v = true → v.same w = true → u.same w = true) ∧
    (∀ v : Value, v.Copies v) ∧
    ∀ v w : Value, v.Copies w → (v.same w = true ↔ ∀ x, v.Holds x → x.isNaN = false) := by
  refine ⟨fun v w => same_iff_matches, fun v w => same_symm, fun u v w => same_trans, Copies.refl,
    fun v w hcopy => ?_⟩
  constructor
  · intro h
    exact same_self_iff.1 (same_trans h (same_symm h))
  · intro h
    refine same_iff_matches.2 (hcopy.mono ?_ ?_)
    · rintro x _ hx rfl
      exact Binary64.equal_self_iff.2 (h x hx)
    · rintro a _ rfl
      exact .refl a

/-- A number, a decimal in an entry, and an object that was constructed from another number. -/
def assorted (x : Binary64) (d : Decimal) (label : String) (argument : Binary64) : Value :=
  .array [.float x, .map "M" [(.string "k", .decimal d)],
    .object "T" 7 label (some [("x", .float argument)])]

/-- Zeros of both signs are equal, decimals of different scale, and objects that are one; a NaN from
which an object was constructed is not compared, but one among items is. -/
theorem same_partialEquivalence_assorted :
    let v := assorted (.ofMagnitude true 0) ⟨false, 110, 2⟩ "a" .nan
    let w := assorted (.ofMagnitude false 0) ⟨false, 11, 1⟩ "b" .infinity
    v.same w = true ∧ w.same v = true ∧ v.same v = true ∧
      (Value.array [v, .float .nan]).same (.array [v, .float .nan]) = false := by
  obtain ⟨-, hsymm, htrans, hcopies, hcopy⟩ := same_partialEquivalence
  intro v w
  have h : v.same w = true := by decide +kernel
  refine ⟨h, hsymm v w h, htrans v w v h (hsymm v w h), Bool.eq_false_iff.2 fun hnan => ?_⟩
  have hall := (hcopy _ _ (hcopies _)).1 hnan .nan (.part (.tail _ (.head _)) (.self .nan))
  exact absurd hall (by decide +kernel)

end Value

end LogBinder
