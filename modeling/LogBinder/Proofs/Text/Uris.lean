/-
  Log binder — which texts are URIs.

  A text spells a URI if its first colon stands between a scheme and
  something else, and nothing in it is blank.

  * `Uri.IsScheme`, `Uri.Spells` : the grammar (`Spells.text_eq`: a text is
    that of the URI that it spells);
  * `Uri.readTrimmed_eq_ok_iff` : reading decides the grammar;
  * `Uri.read_spelled` : what is read is what the text spells between the
    blanks around it, and reading its text again gives it back.
-/
import LogBinder.Uri

namespace LogBinder.Uri

variable {cs : List Char} {text : String} {u : Uri}

/-! ## The grammar -/

/-- Whether a run of characters is a scheme: a letter before letters, digits and three signs. -/
def IsScheme (cs : List Char) : Prop :=
  ∃ first rest, cs = first :: rest ∧ first.isAlpha = true ∧
    ∀ c ∈ rest, c.isAlpha = true ∨ c.isDigit = true ∨ c ∈ ['+', '-', '.']

/-- A text spells a URI. -/
structure Spells (cs : List Char) (u : Uri) : Prop where
  parts : cs = u.scheme.toList ++ ':' :: u.rest.toList
  first : ':' ∉ u.scheme.toList
  scheme : IsScheme u.scheme.toList
  rest : u.rest ≠ ""
  plain : ∀ c ∈ cs, Text.isBlank c = false

theorem Spells.text_eq (h : Spells cs u) : u.text = String.ofList cs := by
  rw [h.parts, text, ← String.toList_inj]
  simp

theorem isSchemeChar_iff {c : Char} :
    isSchemeChar c = true ↔ c.isAlpha = true ∨ c.isDigit = true ∨ c ∈ ['+', '-', '.'] := by
  simp [isSchemeChar, Char.isAlphanum, or_assoc]

/-! ## Reading -/

theorem spells_of_readTrimmed (h : readTrimmed cs = .ok u) : Spells cs u := by
  unfold readTrimmed at h
  split at h
  · cases h
  · cases h
  · next first scheme rest hcut =>
    obtain ⟨hparts, hfirst⟩ := Text.cut_eq_some hcut
    split at h
    · cases h
    next hletter =>
    split at h
    · cases h
    next hscheme =>
    split at h
    · cases h
    next hrest =>
    split at h
    · cases h
    next hblank =>
    cases h
    constructor
    · simpa using hparts
    · simpa using hfirst
    · refine ⟨first, scheme, String.toList_ofList, by simpa using hletter, fun c hc => ?_⟩
      rw [Bool.not_eq_true', Bool.not_eq_false, List.all_eq_true] at hscheme
      exact isSchemeChar_iff.1 (hscheme c hc)
    · simpa using hrest
    · simpa using hblank

theorem readTrimmed_of_spells (h : Spells cs u) : readTrimmed cs = .ok u := by
  obtain ⟨first, scheme, hscheme, hletter, hchars⟩ := h.scheme
  have hcut : Text.cut ':' cs = some (first :: scheme, u.rest.toList) := by
    rw [h.parts, Text.cut_append h.first, hscheme]
  have hall : scheme.all isSchemeChar = true :=
    List.all_eq_true.2 fun c hc => isSchemeChar_iff.2 (hchars c hc)
  have hrest : u.rest.toList.isEmpty = false := by simpa using h.rest
  have hplain : cs.any Text.isBlank = false := by simpa using h.plain
  rw [readTrimmed, hcut]
  simp [hletter, hall, hrest, hplain, ← hscheme]

/-- **Reading decides the grammar.** -/
theorem readTrimmed_eq_ok_iff : readTrimmed cs = .ok u ↔ Spells cs u :=
  ⟨spells_of_readTrimmed, readTrimmed_of_spells⟩

theorem read_eq_ok_iff : read text = .ok u ↔ Spells (Text.trim text).toList u := by
  rw [read, readTrimmed_eq_ok_iff, Text.trim, String.toList_ofList]

/-- The text of a URI that was read has nothing to trim. -/
theorem trim_text (h : Spells cs u) : Text.trim u.text = u.text := by
  rw [h.text_eq, Text.trim, String.toList_ofList, Text.trimChars_eq_self h.plain]

/-- **A text is read as the URI that it spells** between the blanks around it, if it spells one; the
URI has this text, and is read from it again. -/
theorem read_spelled (text : String) :
    (∀ u, read text = .ok u ↔ Spells (Text.trim text).toList u) ∧
    ∀ u, read text = .ok u →
      u.text = Text.trim text ∧ Text.trim text = u.scheme ++ ":" ++ u.rest ∧
        read u.text = .ok u := by
  refine ⟨fun u => read_eq_ok_iff, fun u h => ?_⟩
  have hspells : Spells (Text.trim text).toList u := read_eq_ok_iff.1 h
  have htext : u.text = Text.trim text := by rw [hspells.text_eq, String.ofList_toList]
  refine ⟨htext, htext.symm, ?_⟩
  rw [read_eq_ok_iff, trim_text hspells, htext]
  exact hspells

/-- Blanks of several kinds around a URI whose rest holds further colons. -/
theorem read_spelled_padded :
    read "\u3000\tgit+ssh2.x-y://höst:22/\n\u0085" = .ok ⟨"git+ssh2.x-y", "//höst:22/"⟩ ∧
      read "git+ssh2.x-y://höst:22/" = .ok ⟨"git+ssh2.x-y", "//höst:22/"⟩ := by
  have hread : read "\u3000\tgit+ssh2.x-y://höst:22/\n\u0085" =
      .ok ⟨"git+ssh2.x-y", "//höst:22/"⟩ := by rfl
  have hagain := ((read_spelled _).2 _ hread).2.2
  exact ⟨hread, hagain⟩

end LogBinder.Uri
