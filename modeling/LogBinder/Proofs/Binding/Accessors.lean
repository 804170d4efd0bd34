/-
  Log binder — which texts are accessors.

  An accessor is documented as the name of a type, two colons and the name of
  a member, perhaps with qualifiers of the type after a comma.  What is read
  as one is more: anything without a colon may follow the member, and all of
  it goes to the name of the type.

  * `Accessor.Spells` : the parts of an accessor, and `Accessor.Spells.unique`:
    a text has no others;
  * `Accessor.read_eq_some_iff` : what is read from a text;
  * `Scope.convertScalar_of_named` : which texts are resolved as members, and
    what becomes of the others.
-/
import LogBinder.Binding.Conversion
import LogBinder.Proofs.Binding.Soundness

namespace LogBinder

/-! ## Runs -/

namespace Text

/-- A run ends where a character of another kind follows. -/
theorem span_append {p : Char → Bool} {run rest : List Char} (hrun : ∀ c ∈ run, p c = true)
    (hrest : ∀ c ∈ rest.head?, p c = false) :
    (run ++ rest).takeWhile p = run ∧ (run ++ rest).dropWhile p = rest := by
  rw [List.takeWhile_append_of_pos hrun, List.dropWhile_append_of_pos hrun]
  cases rest with
  | nil => simp
  | cons c rest => simp [hrest c rfl]

theorem dropWhile_head {p : Char → Bool} {cs : List Char} {c : Char}
    (h : c ∈ (cs.dropWhile p).head?) : p c = false := by
  have hstop := List.head?_dropWhile_not p cs
  rwa [Option.mem_def.1 h] at hstop

theorem isAlphanum_of_isAlpha {c : Char} (h : c.isAlpha = true) : c.isAlphanum = true := by
  simp [Char.isAlphanum, h]

end Text

/-! ## The parts of an accessor -/

namespace Accessor

/-- Whether a text is the name of a member: a letter and then letters and digits. -/
def IsMemberName (member : String) : Prop :=
  ∃ d tail, member.toList = d :: tail ∧ d.isAlpha = true ∧ ∀ c ∈ tail, c.isAlphanum = true

/-- Whether a text without the blank characters around it consists of the name of a type, two
colons, the whole name of a member and a rest. -/
structure Spells (text type member rest : String) : Prop where
  trimmed : Text.trim text = type ++ "::" ++ member ++ rest
  type_ne : type ≠ ""
  type_plain : ':' ∉ type.toList
  member_name : IsMemberName member
  member_whole : ∀ c ∈ rest.toList.head?, c.isAlphanum = false
  rest_plain : ':' ∉ rest.toList

/-- Whether a rest is as documented: nothing, or qualifiers after a comma. -/
def IsQualifying (rest : String) : Prop :=
  rest = "" ∨ rest.toList.head? = some ','

variable {text type member rest : String}

theorem IsMemberName.isAlphanum (h : IsMemberName member) :
    ∀ c ∈ member.toList, c.isAlphanum = true := by
  obtain ⟨d, tail, hmember, hd, htail⟩ := h
  rw [hmember, List.forall_mem_cons]
  exact ⟨Text.isAlphanum_of_isAlpha hd, htail⟩

namespace Spells

theorem chars (h : Spells text type member rest) :
    Text.trimChars text.toList =
      type.toList ++ ':' :: ':' :: (member.toList ++ rest.toList) := by
  have htrimmed := congrArg String.toList h.trimmed
  simpa [Text.trim] using htrimmed

theorem cut (h : Spells text type member rest) :
    Text.cut ':' (Text.trimChars text.toList) =
      some (type.toList, ':' :: (member.toList ++ rest.toList)) := by
  rw [h.chars, Text.cut_append h.type_plain]

theorem span (h : Spells text type member rest) :
    (member.toList ++ rest.toList).takeWhile Char.isAlphanum = member.toList ∧
      (member.toList ++ rest.toList).dropWhile Char.isAlphanum = rest.toList :=
  Text.span_append h.member_name.isAlphanum h.member_whole

/-- **A text has no other parts.** -/
theorem unique {type' member' rest' : String} (h : Spells text type member rest)
    (h' : Spells text type' member' rest') : type' = type ∧ member' = member ∧ rest' = rest := by
  have hcut := h'.cut.symm.trans h.cut
  simp only [Option.some.injEq, Prod.mk.injEq, List.cons.injEq, true_and] at hcut
  obtain ⟨htype, hparts⟩ := hcut
  have hspan := h'.span
  rw [hparts, h.span.1, h.span.2] at hspan
  exact ⟨String.toList_inj.1 htype, String.toList_inj.1 hspan.1.symm,
    String.toList_inj.1 hspan.2.symm⟩

/-- The parts of an accessor are read from it. -/
theorem read (h : Spells text type member rest) :
    Accessor.read text = some ⟨type ++ rest, member⟩ := by
  obtain ⟨d, tail, hmember, hd, htail⟩ := h.member_name
  obtain ⟨c, front, htype⟩ := List.exists_cons_of_ne_nil (mt String.toList_eq_nil_iff.1 h.type_ne)
  have hspan := Text.span_append htail h.member_whole
  have hplain : ':' ∉ tail ++ rest.toList := by
    rw [List.mem_append, not_or]
    exact ⟨fun hcolon => by simpa using htail _ hcolon, h.rest_plain⟩
  have hread : Accessor.read text = some ⟨String.ofList (c :: front ++ rest.toList),
      String.ofList (d :: tail)⟩ := by
    rw [Accessor.read, readChars, h.cut, htype, hmember]
    simp [hd, hplain, hspan]
  rw [hread, ← htype, ← hmember]
  simp

end Spells

/-- **What is read from a text.** -/
theorem read_eq_some_iff {a : Accessor} :
    Accessor.read text = some a ↔
      ∃ type member rest, Spells text type member rest ∧ a = ⟨type ++ rest, member⟩ := by
  constructor
  · intro h
    rw [Accessor.read, readChars] at h
    split at h
    · next c front d tail hcut =>
      rw [Option.ite_none_right_eq_some, Bool.and_eq_true, Bool.not_eq_true'] at h
      obtain ⟨⟨hd, hplain⟩, h⟩ := h
      obtain ⟨hchars, hfront⟩ := Text.cut_eq_some hcut
      refine ⟨String.ofList (c :: front), String.ofList (d :: tail.takeWhile Char.isAlphanum),
        String.ofList (tail.dropWhile Char.isAlphanum), ?_, ?_⟩
      · refine ⟨?_, by simp, by simpa using hfront, ⟨d, _, String.toList_ofList, hd,
          List.all_eq_true.1 List.all_takeWhile⟩, fun e he => ?_, fun hcolon => ?_⟩
        · refine String.toList_inj.1 ?_
          simp [Text.trim, hchars]
        · rw [String.toList_ofList] at he
          exact Text.dropWhile_head he
        · rw [String.toList_ofList] at hcolon
          simp [(List.dropWhile_suffix _).subset hcolon] at hplain
      · rw [← Option.some.inj h, String.ofList_append]
    · cases h
  · rintro ⟨type, member, rest, h, rfl⟩
    exact h.read

theorem read_eq_none_iff :
    Accessor.read text = none ↔ ∀ type member rest, ¬ Spells text type member rest := by
  rw [Option.eq_none_iff_forall_not_mem]
  constructor
  · exact fun h type member rest hspells => h _ hspells.read
  · rintro h a ha
    obtain ⟨type, member, rest, hspells, -⟩ := read_eq_some_iff.1 ha
    exact h type member rest hspells

/-! ## What an accessor is looked up as -/

/-- The value that members of one name give where a type is expected. -/
def among? (members : List Member) (typeName : String) : TypeRef → Option Value
  | .delegate parameters returns =>
    (function? members ⟨parameters, returns⟩).bind fun m => m.bind? typeName
  | _ => data? members

theorem value_of_type_error {s : Scope} {a : Accessor} {path : String} {e : ResolveError}
    (h : s.type a.typeName path = .error e) (target : TypeRef) :
    a.value s path target = .error e := by
  rw [value, h]
  rfl

/-- The value of an accessor is looked up as its member, in its type. -/
theorem value_of_type {s : Scope} {a : Accessor} {path : String} {t : TypeSpec}
    (h : s.type a.typeName path = .ok t) (target : TypeRef) :
    a.value s path target =
      match among? (t.accessible a.member) t.fullName target with
      | none => .error (.memberNotFound t.fullName a.member path)
      | some v => do
        ensureAssignable s v path target
        return v := by
  rw [value, h]
  cases target with
  | delegate parameters returns =>
    dsimp only [among?, bind, Except.bind]
    cases (function? (t.accessible a.member) ⟨parameters, returns⟩).bind fun m =>
      m.bind? t.fullName <;> rfl
  | _ =>
    dsimp only [among?, bind, Except.bind]
    cases data? (t.accessible a.member) <;> rfl

end Accessor

/-! ## Texts of a section -/

theorem Fresh.liftM_check (check : Except ResolveError Unit) (v : Value) :
    (liftM (do check; return v : Except ResolveError Value) : Fresh Value) =
      do check; return v := by
  cases check <;> rfl

namespace TypeRef

/-- The type as which a text may name a member, unless the type gives the text another meaning. -/
def named? (text : String) : TypeRef → Option TypeRef
  | .nullable inner => if text.isEmpty then none else inner.named? text
  | .levelSwitch | .filterSwitch | .node | .level | .enum _ | .typeName | .uri | .duration => none
  | target => some target

end TypeRef

namespace Scope

variable {s : Scope} {n : Node} {text : String} {target inner : TypeRef}

theorem convertScalar_eq_convertNamed (h : target.named? text = some inner) :
    s.convertScalar n text target = s.convertNamed text n.path inner := by
  fun_induction TypeRef.named? text target with
  | case1 => cases h
  | case2 inner hempty ih => rw [convertScalar, if_neg hempty, ih h]
  | case11 target =>
    obtain rfl := Option.some.inj h
    rw [convertScalar] <;> assumption
  | _ => cases h

theorem convertNamed_of_read {a : Accessor} (h : Accessor.read text = some a) (path : String) :
    s.convertNamed text path target = a.value s path target := by
  rw [convertNamed, h]

/-- A text that is no accessor is read as a type or converted by itself. -/
theorem convertNamed_of_read_eq_none (h : Accessor.read text = none) (path : String) :
    s.convertNamed text path target =
      if (Text.trim text).isEmpty then liftM (s.primitive text path target)
      else s.convertPlain text path target := by
  rw [convertNamed, h]

/-- **Which texts are static members.**  Where a text may name a member, it is looked up as one
exactly when it spells a type, a member and a rest without a colon, in the only way it does: the
type is that of the name with the rest behind it, the member that of the name.  Every other text
falls through.  The rest need not be qualifiers after a comma, so accessors are those that are
documented only as long as the rest of each is. -/
theorem convertScalar_of_named (h : target.named? text = some inner) :
    (∀ type member rest, Accessor.Spells text type member rest →
      (∀ e, s.type (type ++ rest) n.path = .error e → s.convertScalar n text target = throw e) ∧
      (∀ t, s.type (type ++ rest) n.path = .ok t →
        s.convertScalar n text target =
          match Accessor.among? (t.accessible member) t.fullName inner with
          | none => throw (.memberNotFound t.fullName member n.path)
          | some v => do
            Accessor.ensureAssignable s v n.path inner
            return v) ∧
      ∀ type' member' rest', Accessor.Spells text type' member' rest' →
        type' = type ∧ member' = member ∧ rest' = rest) ∧
    ((∀ type member rest, ¬ Accessor.Spells text type member rest) →
      s.convertScalar n text target =
        if (Text.trim text).isEmpty then liftM (s.primitive text n.path inner)
        else s.convertPlain text n.path inner) ∧
    (((Accessor.read text).isSome ↔
        ∃ type member rest, Accessor.Spells text type member rest ∧ Accessor.IsQualifying rest) ↔
      ∀ type member rest, Accessor.Spells text type member rest → Accessor.IsQualifying rest) := by
  rw [convertScalar_eq_convertNamed h]
  refine ⟨fun type member rest hspells => ⟨fun e he => ?_, fun t ht => ?_, ?_⟩, fun hnone => ?_,
    ⟨fun hdocumented => ?_, fun hqualifying => ⟨fun hread => ?_, ?_⟩⟩⟩
  · rw [convertNamed_of_read hspells.read,
      Accessor.value_of_type_error (a := ⟨type ++ rest, member⟩) he]
    rfl
  · rw [convertNamed_of_read hspells.read,
      Accessor.value_of_type (a := ⟨type ++ rest, member⟩) ht]
    cases Accessor.among? (t.accessible member) t.fullName inner with
    | none => rfl
    | some v => exact Fresh.liftM_check _ v
  · exact fun type' member' rest' hspells' => hspells.unique hspells'
  · exact convertNamed_of_read_eq_none (Accessor.read_eq_none_iff.2 hnone) _
  · intro type member rest hspells
    obtain ⟨type', member', rest', hspells', hrest⟩ :=
      hdocumented.1 (by rw [hspells.read]; rfl)
    obtain ⟨-, -, rfl⟩ := hspells.unique hspells'
    exact hrest
  · obtain ⟨a, ha⟩ := Option.isSome_iff_exists.1 hread
    obtain ⟨type, member, rest, hspells, -⟩ := Accessor.read_eq_some_iff.1 ha
    exact ⟨type, member, rest, hspells, hqualifying type member rest hspells⟩
  · rintro ⟨type, member, rest, hspells, -⟩
    rw [hspells.read]
    rfl

end Scope

namespace Sample

theorem spells_qualified :
    Accessor.Spells " Sample.AnsiTheme::Both, Sample.Console" "Sample.AnsiTheme" "Both"
      ", Sample.Console" :=
  ⟨by decide +kernel, by decide, by decide +kernel,
    ⟨'B', ['o', 't', 'h'], by decide, by decide, List.all_eq_true.1 (by decide)⟩,
    fun c hc => by cases hc; decide, by decide +kernel⟩

theorem spells_vector : Accessor.Spells "std::vector<int>" "std" "vector" "<int>" :=
  ⟨by decide +kernel, by decide, by decide +kernel,
    ⟨'v', ['e', 'c', 't', 'o', 'r'], by decide, by decide, List.all_eq_true.1 (by decide)⟩,
    fun c hc => by cases hc; decide, by decide +kernel⟩

/-- An accessor with qualifiers gives its member; a text that was not meant as one names a type that
nobody wrote. -/
theorem convertScalar_of_named_vector :
    scope.convertScalar themeSection " Sample.AnsiTheme::Both, Sample.Console" .string =
        pure (.string "from property") ∧
      scope.convertScalar themeSection "std::vector<int>" .string =
        throw (.typeNotFound "std<int>" "Theme") ∧
      ¬ Accessor.IsQualifying "<int>" := by
  have ht : scope.type ("Sample.AnsiTheme" ++ ", Sample.Console") themeSection.path =
      .ok { TypeSpec.of "Sample.AnsiTheme" [] [] themeMembers with package := "Sample.Console" } :=
    rfl
  obtain ⟨hqualified, -⟩ := @Scope.convertScalar_of_named scope themeSection
    " Sample.AnsiTheme::Both, Sample.Console" .string .string rfl
  obtain ⟨hvector, -⟩ := @Scope.convertScalar_of_named scope themeSection "std::vector<int>"
    .string .string rfl
  refine ⟨?_, (hvector _ _ _ spells_vector).1 _ rfl, by unfold Accessor.IsQualifying; decide⟩
  rw [(hqualified _ _ _ spells_qualified).2.1 _ ht]
  rfl

end Sample

end LogBinder
