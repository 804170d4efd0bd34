/-
  Log binder — texts in another case.

  Writing letters of a text in another case changes neither what is blank in
  it nor any character that is no letter.  So texts that are alike stay alike
  when they are trimmed, and a trimmed text can be written in another case
  inside the text that it was trimmed from.

  * `eq_of_folded_eq` : a text without letters has one case;
  * `folded_trim`, `exists_alike_trim` : trimming and folding.
-/
import LogBinder.Proofs.Text.Characters
import LogBinder.Text.Ascii
import Mathlib.Data.List.TakeWhile

namespace LogBinder.Text

variable {a b s t : String} {cs ds front back : List Char}

/-! ## Runs of characters -/

/-- Texts that differ in case only are equal if one has no letters. -/
theorem eq_of_folded_eq (h : cs.map Char.toLower = ds.map Char.toLower)
    (hds : ∀ d ∈ ds, d.isAlpha = false) : cs = ds := by
  induction ds generalizing cs with
  | nil => exact List.map_eq_nil_iff.1 h
  | cons d ds ih =>
    cases cs with
    | nil => cases h
    | cons c cs =>
      obtain ⟨hd, hrest⟩ := List.forall_mem_cons.1 hds
      obtain ⟨hfirst, htail⟩ := List.cons.inj h
      rw [eq_of_toLower_eq hfirst hd, ih htail hrest]

theorem trimStart_map_toLower (cs : List Char) :
    trimStart (cs.map Char.toLower) = (trimStart cs).map Char.toLower := by
  have hblank : isBlank ∘ Char.toLower = isBlank := funext isBlank_toLower
  rw [trimStart, List.dropWhile_map, hblank, trimStart]

theorem trimChars_map_toLower (cs : List Char) :
    trimChars (cs.map Char.toLower) = (trimChars cs).map Char.toLower := by
  rw [trimChars, trimStart_map_toLower, ← List.map_reverse, trimStart_map_toLower,
    ← List.map_reverse, trimChars]

theorem trimStart_eq_nil (h : ∀ c ∈ cs, isBlank c = true) : trimStart cs = [] :=
  List.dropWhile_eq_nil_iff.2 h

/-- Blanks at either end of a text are trimmed with its own. -/
theorem trimChars_append (hfront : ∀ c ∈ front, isBlank c = true)
    (hback : ∀ c ∈ back, isBlank c = true) (cs : List Char) :
    trimChars (front ++ cs ++ back) = trimChars cs := by
  have hstart : trimStart (front ++ cs ++ back) = trimStart (cs ++ back) := by
    rw [List.append_assoc, trimStart, List.dropWhile_append_of_pos hfront, trimStart]
  have hend : ∀ ds : List Char, trimStart (ds ++ back).reverse = trimStart ds.reverse := by
    intro ds
    rw [List.reverse_append, trimStart,
      List.dropWhile_append_of_pos fun c hc => hback c (List.mem_reverse.1 hc), trimStart]
  have hsplit : trimStart (cs ++ back) =
      if (trimStart cs).isEmpty then trimStart back else trimStart cs ++ back :=
    List.dropWhile_append
  rw [trimChars, hstart, hsplit]
  split
  · next hempty =>
    -- Nothing but blanks is left.
    rw [trimStart_eq_nil hback, trimChars, List.isEmpty_iff.1 hempty]
  · rw [hend, trimChars]

/-! ## Texts -/

theorem folded_trim (s : String) : folded (trim s) = trimChars (folded s) := by
  rw [folded, trim, String.toList_ofList, folded, trimChars_map_toLower]

theorem alike_trim (h : alike a b = true) : alike (trim a) (trim b) = true := by
  rw [alike_iff, folded_trim, folded_trim, alike_iff.1 h]

theorem eq_of_alike (h : alike a b = true) (hb : ∀ c ∈ b.toList, c.isAlpha = false) : a = b :=
  String.toList_inj.1 (eq_of_folded_eq (alike_iff.1 h) hb)

theorem ne_empty_of_alike (h : alike a b = true) (hb : b ≠ "") : a ≠ "" := by
  rintro rfl
  exact hb (eq_of_alike (alike_symm h) (by simp))

/-- A text can be trimmed to every spelling of what it is trimmed to. -/
theorem exists_alike_trim (h : alike t (trim s) = true) (ht : trim t = t) :
    ∃ u, alike u s = true ∧ trim u = t := by
  obtain ⟨front, back, hs, hfront, hback⟩ := trimChars_eq s.toList
  refine ⟨String.ofList (front ++ t.toList ++ back), ?_, ?_⟩
  · have hfolded : t.toList.map Char.toLower = (trimChars s.toList).map Char.toLower := by
      simpa [alike_iff, folded, trim] using h
    rw [alike_iff, folded, folded, String.toList_ofList, hs]
    simp only [List.map_append, hfolded]
  · rw [trim, String.toList_ofList, trimChars_append hfront hback, ← trim, ht]

end LogBinder.Text
