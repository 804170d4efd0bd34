/-
  Log binder — the readings of a level agree.

  A level is read in three ways: exactly, in any ASCII case, and as a member
  of the enumeration of the level names.  All take a name or an ordinal, each
  with bounds of its own on the numbers that it reads.

  * `Level.Spells` : a text spells the ordinal of a level;
  * `readExact_eq_some_iff`, `read_eq_ok_iff` : which texts denote a level;
  * `enum_read_eq` : the enumeration reads what is read exactly;
  * `Level.readings_agree` : a text denotes the level that some spelling of
    it in another case denotes exactly.
-/
import LogBinder.Level
import LogBinder.Plugin.TypeRef
import LogBinder.Proofs.Number.Numerals
import LogBinder.Proofs.Text.Recasing

namespace LogBinder

/-! ## Numerals with a plus sign -/

namespace Integer

/-- The characters after a plus sign, if there is one. -/
def withoutPlus : List Char → List Char
  | '+' :: rest => rest
  | cs => cs

variable {limit limit' n : Nat} {cs : List Char}

theorem readUnsigned_eq (hne : cs ≠ []) :
    readUnsigned limit cs = digits limit .tooLarge (withoutPlus cs) := by
  cases cs with
  | nil => exact absurd rfl hne
  | cons c rest =>
    by_cases hc : c = '+'
    · rw [hc, readUnsigned, withoutPlus]
    · have hplus : withoutPlus (c :: rest) = c :: rest := by simp [withoutPlus, hc]
      rw [hplus, readUnsigned]
      exact hc

theorem readUnsigned_eq_ok_iff :
    readUnsigned limit cs = .ok n ↔
      IsNumeral (withoutPlus cs) ∧ number (withoutPlus cs) = n ∧ n ≤ limit := by
  by_cases hne : cs = []
  · subst hne
    exact ⟨nofun, fun h => absurd rfl h.1.ne_nil⟩
  · rw [readUnsigned_eq hne, digits_eq_ok_iff]

/-- A numeral holds no letters. -/
theorem isAlpha_of_mem_numeral (h : IsNumeral (withoutPlus cs)) :
    ∀ c ∈ cs, c.isAlpha = false := by
  intro c hc
  by_cases hplus : c = '+'
  · rw [hplus]
    rfl
  · refine Text.isAlpha_eq_false_of_isDigit (h.digits c ?_)
    unfold withoutPlus
    split
    · exact (List.mem_cons.1 hc).resolve_left hplus
    · exact hc

/-- What numbers are bounded by does not matter where they are indices of a shorter list. -/
theorem getElem?_readUnsigned {α : Type} {xs : List α} (h : xs.length ≤ limit)
    (h' : xs.length ≤ limit') (cs : List Char) :
    (readUnsigned limit cs).toOption.bind (xs[·]?) =
      (readUnsigned limit' cs).toOption.bind (xs[·]?) := by
  ext x
  have hread : ∀ {bound}, xs.length ≤ bound → ∀ n, xs[n]? = some x →
      (readUnsigned bound cs = .ok n ↔
        IsNumeral (withoutPlus cs) ∧ number (withoutPlus cs) = n) := by
    intro bound hbound n hn
    have hlt := (List.getElem?_eq_some_iff.1 hn).1
    rw [readUnsigned_eq_ok_iff]
    exact and_congr_right fun _ => and_iff_left (by omega)
  have hoption : ∀ {bound n}, (readUnsigned bound cs).toOption = some n ↔
      readUnsigned bound cs = .ok n := by
    intro bound n
    cases readUnsigned bound cs <;> simp [Except.toOption]
  simp only [Option.bind_eq_some_iff, hoption]
  exact exists_congr fun n => and_congr_left fun hn => (hread h n hn).trans (hread h' n hn).symm

end Integer

namespace Level

open Integer (IsNumeral number withoutPlus)

variable {l m : Level} {text : String} {cs : List Char} {n : Nat}

/-! ## Levels and their names -/

theorem mem_all (l : Level) : l ∈ all := by
  cases l <;> decide

theorem eq_of_alike_name (h : Text.alike l.name m.name = true) : l = m := by
  revert h
  cases l <;> cases m <;> decide

theorem isBlank_of_mem_name (l : Level) : ∀ c ∈ l.name.toList, Text.isBlank c = false := by
  have h : l.name.toList.any Text.isBlank = false := by
    cases l <;> decide
  intro c hc
  exact eq_false_of_ne_true (List.any_eq_false.1 h c hc)

theorem exists_letter (l : Level) : ∃ c ∈ l.name.toList, c.isAlpha = true := by
  have h : l.name.toList.any Char.isAlpha = true := by
    cases l <;> decide
  exact List.any_eq_true.1 h

theorem trim_name (l : Level) : Text.trim l.name = l.name := by
  rw [Text.trim, Text.trimChars_eq_self l.isBlank_of_mem_name, String.ofList_toList]

theorem ordinal_getElem : ∀ i : Fin all.length, all[i].ordinal = i := by
  decide

theorem ofOrdinal_eq_some_iff : ofOrdinal n = some l ↔ n = l.ordinal := by
  constructor
  · intro h
    obtain ⟨hn, rfl⟩ := List.getElem?_eq_some_iff.1 h
    exact (ordinal_getElem ⟨n, hn⟩).symm
  · rintro rfl
    exact ofOrdinal_ordinal l

theorem findIdx?_all (p : Level → Bool) : all.findIdx? p = (all.find? p).map ordinal := by
  simp only [all, List.findIdx?_cons, List.find?_cons]
  repeat' split
  all_goals simp_all [ordinal]

/-! ## What denotes a level -/

/-- A text spells the ordinal of a level. -/
structure Spells (cs : List Char) (l : Level) : Prop where
  numeral : IsNumeral (withoutPlus cs)
  number_eq : number (withoutPlus cs) = l.ordinal

theorem ordinal_le (l : Level) : l.ordinal ≤ 5 := by
  cases l <;> decide

theorem readOrdinal_eq_some_iff : readOrdinal cs = some l ↔ Spells cs l := by
  unfold readOrdinal
  split
  · next n hread =>
    obtain ⟨hnumeral, hnumber, -⟩ := Integer.readUnsigned_eq_ok_iff.1 hread
    rw [ofOrdinal_eq_some_iff]
    exact ⟨fun h => ⟨hnumeral, hnumber.trans h⟩, fun h => hnumber.symm.trans h.number_eq⟩
  · next fault hread =>
    refine ⟨nofun, fun h => ?_⟩
    have hle := l.ordinal_le
    rw [Integer.readUnsigned_eq_ok_iff.2 ⟨h.numeral, h.number_eq, by omega⟩] at hread
    cases hread

/-- What spells an ordinal is no name, in whatever case. -/
theorem Spells.not_alike (h : Spells text.toList l) (m : Level) :
    Text.alike m.name text = false := by
  refine Bool.eq_false_iff.2 fun halike => ?_
  have hplain := Integer.isAlpha_of_mem_numeral h.numeral
  obtain ⟨c, hc, hletter⟩ := m.exists_letter
  rw [Text.eq_of_alike halike hplain] at hc
  simp [hplain c hc] at hletter

/-- A text denotes a level exactly by its name or its ordinal. -/
theorem readExact_eq_some_iff :
    readExact text = some l ↔ l.name = Text.trim text ∨ Spells (Text.trim text).toList l := by
  unfold readExact
  split
  · next m hm =>
    have hname : m.name = Text.trim text := by simpa using List.find?_some hm
    rw [← hname]
    constructor
    · rintro ⟨⟩
      exact .inl rfl
    · rintro (h | h)
      · rw [eq_of_alike_name (h ▸ Text.alike_refl _ : Text.alike l.name m.name = true)]
      · simpa using h.not_alike m
  · next hnone =>
    have hname : l.name ≠ Text.trim text := by simpa using List.find?_eq_none.1 hnone l (mem_all l)
    rw [readOrdinal_eq_some_iff, or_iff_right hname]

/-- A text denotes a level by its name in any case or its ordinal. -/
theorem read_eq_ok_iff :
    read text = .ok l ↔
      Text.alike l.name (Text.trim text) = true ∨ Spells (Text.trim text).toList l := by
  unfold read
  split
  · next m hm =>
    have hname : Text.alike m.name (Text.trim text) = true := by simpa using List.find?_some hm
    constructor
    · rintro ⟨⟩
      exact .inl hname
    · rintro (h | h)
      · rw [eq_of_alike_name (Text.alike_trans h (Text.alike_symm hname))]
      · simp [h.not_alike m] at hname
  · next hnone =>
    have hname : ¬ Text.alike l.name (Text.trim text) = true := by
      simpa using List.find?_eq_none.1 hnone l (mem_all l)
    rw [or_iff_right hname, ← readOrdinal_eq_some_iff]
    split
    · next m hm => simp [hm]
    · next hnone => simp [hnone]

/-! ## Agreement -/

theorem readOrdinal_eq {limit : Nat} (h : all.length ≤ limit) (cs : List Char) :
    readOrdinal cs = (Integer.readUnsigned limit cs).toOption.bind ofOrdinal := by
  have hbounds : (Integer.readUnsigned 255 cs).toOption.bind (all[·]?) =
      (Integer.readUnsigned limit cs).toOption.bind (all[·]?) :=
    Integer.getElem?_readUnsigned (by decide) h cs
  unfold readOrdinal ofOrdinal
  rw [← hbounds]
  cases Integer.readUnsigned 255 cs <;> rfl

theorem getElem?_names (n : Nat) :
    ((all.map name)[n]?).map (fun m => (n, m)) =
      (ofOrdinal n).map fun l => (l.ordinal, l.name) := by
  rw [List.getElem?_map, ← ofOrdinal]
  cases h : ofOrdinal n with
  | none => rfl
  | some l =>
    rw [ofOrdinal_eq_some_iff.1 h]
    rfl

/-- The enumeration of the level names reads what is read exactly. -/
theorem enum_read_eq (enumeration text : String) :
    EnumSpec.read ⟨enumeration, all.map name⟩ text =
      (readExact text).map fun l => (l.ordinal, l.name) := by
  have hindex : (all.map name).findIdx? (fun m => m == Text.trim text) =
      (all.find? fun l => l.name == Text.trim text).map ordinal := by
    rw [List.findIdx?_map, ← findIdx?_all]
    rfl
  unfold EnumSpec.read readExact
  simp only [hindex]
  cases all.find? fun l => l.name == Text.trim text with
  | some l => exact (getElem?_names l.ordinal).trans (by rw [ofOrdinal_ordinal])
  | none =>
    have hlimit : all.length ≤ Integer.maxUnsigned := by decide
    simp only [Option.map_none, getElem?_names, readOrdinal_eq hlimit]
    cases Integer.readUnsigned Integer.maxUnsigned (Text.trim text).toList <;> rfl

theorem read_of_readExact (h : readExact text = some l) : read text = .ok l := by
  rw [read_eq_ok_iff]
  refine (readExact_eq_some_iff.1 h).imp_left fun hname => ?_
  rw [hname]
  exact Text.alike_refl _

/-- Texts that differ in case only denote the same level, if they denote one. -/
theorem read_of_alike {t : String} (h : Text.alike t text = true) (ht : read t = .ok l) :
    read text = .ok l := by
  have htrim : Text.alike (Text.trim t) (Text.trim text) = true := Text.alike_trim h
  rw [read_eq_ok_iff] at ht ⊢
  rcases ht with hname | hspells
  · exact .inl (Text.alike_trans hname htrim)
  · -- What spells an ordinal has no letters, and is written in one case only.
    have heq := Text.eq_of_alike (Text.alike_symm htrim)
      (Integer.isAlpha_of_mem_numeral hspells.numeral)
    exact .inr (heq ▸ hspells)

/-- A text in any case denotes what it denotes exactly in some case. -/
theorem exists_readExact_of_read (h : read text = .ok l) :
    ∃ t, Text.alike t text = true ∧ readExact t = some l := by
  rcases read_eq_ok_iff.1 h with hname | hspells
  · obtain ⟨t, ht, htrim⟩ := Text.exists_alike_trim hname l.trim_name
    exact ⟨t, ht, readExact_eq_some_iff.2 (.inl htrim.symm)⟩
  · exact ⟨text, Text.alike_refl _, readExact_eq_some_iff.2 (.inr hspells)⟩

/-- **The readings of a level agree**: the enumeration of the level names reads what is read
exactly; what is read exactly is read in any case as well; and a text that is read in any case
denotes the one level that its spellings in other cases denote exactly. -/
theorem readings_agree (text : String) :
    (∀ enumeration, EnumSpec.read ⟨enumeration, all.map name⟩ text =
      (readExact text).map fun l => (l.ordinal, l.name)) ∧
    (∀ l, readExact text = some l → read text = .ok l) ∧
    (∀ l, read text = .ok l ↔ ∃ t, Text.alike t text = true ∧ readExact t = some l) ∧
    ∀ t u l m, Text.alike t text = true → Text.alike u text = true →
      readExact t = some l → readExact u = some m → l = m := by
  refine ⟨fun enumeration => enum_read_eq enumeration text, fun l => read_of_readExact,
    fun l => ⟨exists_readExact_of_read, ?_⟩, ?_⟩
  · rintro ⟨t, ht, hexact⟩
    exact read_of_alike ht (read_of_readExact hexact)
  · intro t u l m ht hu hl hm
    have htext : read text = .ok l := read_of_alike ht (read_of_readExact hl)
    rw [read_of_alike hu (read_of_readExact hm)] at htext
    cases htext
    rfl

/-- A name in the wrong case, which only its other spellings denote exactly, and an ordinal. -/
theorem readings_agree_recased :
    readExact " wARNING\t" = none ∧ read " wARNING\t" = .ok .warning ∧
      EnumSpec.read ⟨"LogLevel", all.map name⟩ "+003" = some (3, "Warning") ∧
      read "+003" = .ok .warning := by
  have hname := (readings_agree " wARNING\t").2.2.1 .warning
  obtain ⟨henum, hexact, -⟩ := readings_agree "+003"
  have hordinal : readExact "+003" = some .warning := by decide +kernel
  refine ⟨by decide +kernel, hname.2 ⟨" Warning\t", by decide +kernel, by decide +kernel⟩, ?_,
    hexact _ hordinal⟩
  rw [henum, hordinal]
  rfl

end Level

end LogBinder
