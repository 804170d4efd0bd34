/-
  Log binder — cutting texts at a separator.

  * `pieces sep s` are the parts of `s` between occurrences of `sep`; there
    is at least one, none holds `sep`, and joining them restores `s`;
  * `split_joined` : what is joined from parts without `sep` splits into them;
  * `cut sep s` is the part before the first `sep` and the part after it.
-/
namespace LogBinder.Text

/-- The runs of characters between occurrences of `sep`. -/
def pieces (sep : Char) : List Char → List (List Char)
  | [] => [[]]
  | c :: rest =>
    if c = sep then [] :: pieces sep rest
    else match pieces sep rest with
      | [] => [[c]]
      | p :: ps => (c :: p) :: ps

/-- Runs of characters with `sep` between them. -/
def join (sep : Char) : List (List Char) → List Char
  | [] => []
  | [p] => p
  | p :: q :: ps => p ++ sep :: join sep (q :: ps)

/-- The characters before the first `sep` and those after it. -/
def cut (sep : Char) : List Char → Option (List Char × List Char)
  | [] => none
  | c :: rest => if c = sep then some ([], rest) else (cut sep rest).map fun p => (c :: p.1, p.2)

/-- The parts of a text between occurrences of `sep`. -/
def split (sep : Char) (s : String) : List String :=
  (pieces sep s.toList).map String.ofList

/-- Texts written one after the other with `sep` between them. -/
def joined (sep : String) (parts : List String) : String :=
  sep.intercalate parts

theorem pieces_ne_nil (sep : Char) (cs : List Char) : pieces sep cs ≠ [] := by
  cases cs with
  | nil => simp [pieces]
  | cons c rest =>
    rw [pieces]
    split
    · simp
    · split <;> simp

/-- A text without the separator is one piece. -/
theorem pieces_of_not_mem {sep : Char} {cs : List Char} (h : sep ∉ cs) : pieces sep cs = [cs] := by
  induction cs with
  | nil => rfl
  | cons c rest ih =>
    rw [List.mem_cons, not_or] at h
    rw [pieces, ih h.2, if_neg (Ne.symm h.1)]

theorem split_of_not_mem {sep : Char} {s : String} (h : sep ∉ s.toList) : split sep s = [s] := by
  rw [split, pieces_of_not_mem h]
  simp

/-- Joining the pieces of a text restores it. -/
theorem join_pieces (sep : Char) (cs : List Char) : join sep (pieces sep cs) = cs := by
  induction cs with
  | nil => rfl
  | cons c rest ih =>
    rw [pieces]
    cases hp : pieces sep rest with
    | nil => exact absurd hp (pieces_ne_nil sep rest)
    | cons p ps =>
      rw [hp] at ih
      split
      · next hc => rw [join, ih, hc, List.nil_append]
      · cases ps with
        | nil => simpa [join] using ih
        | cons q qs => simpa [join] using ih

theorem not_mem_of_mem_pieces {sep : Char} {cs p : List Char} (h : p ∈ pieces sep cs) :
    sep ∉ p := by
  induction cs generalizing p with
  | nil =>
    rw [pieces, List.mem_singleton] at h
    simp [h]
  | cons c rest ih =>
    rw [pieces] at h
    split at h
    · rcases List.mem_cons.1 h with rfl | h
      · simp
      · exact ih h
    · next hc =>
      split at h
      · next hp => exact absurd hp (pieces_ne_nil sep rest)
      · next q qs hq =>
        rw [hq] at ih
        rcases List.mem_cons.1 h with rfl | h
        · simp [Ne.symm hc, ih (List.mem_cons_self ..)]
        · exact ih (List.mem_cons_of_mem _ h)

theorem not_mem_of_mem_split {sep : Char} {s key : String} (h : key ∈ split sep s) :
    sep ∉ key.toList := by
  obtain ⟨p, hp, rfl⟩ := List.mem_map.1 h
  simpa using not_mem_of_mem_pieces hp

theorem pieces_eq_splitOn (sep : Char) (cs : List Char) : pieces sep cs = cs.splitOn sep := by
  induction cs with
  | nil => rfl
  | cons c rest ih =>
    rw [pieces, ih, List.splitOn_cons_eq_if_modifyHead]
    by_cases hc : c = sep
    · simp [hc]
    · obtain ⟨p, ps, hp⟩ := List.exists_cons_of_ne_nil (pieces_ne_nil sep rest)
      rw [ih] at hp
      simp [hc, hp]

/-- Texts without the separator are the pieces of what they are joined to. -/
theorem split_joined {sep : Char} {parts : List String} (hne : parts ≠ [])
    (h : ∀ p ∈ parts, sep ∉ p.toList) :
    split sep (joined (String.singleton sep) parts) = parts := by
  have hpieces : ∀ p ∈ parts.map String.toList, sep ∉ p := by simpa using h
  have hne' : parts.map String.toList ≠ [] := by simpa using hne
  rw [split, joined, String.toList_intercalate, String.toList_singleton, pieces_eq_splitOn,
    List.splitOn_intercalate sep hpieces hne', List.map_map]
  simp [Function.comp_def]

/-- A cut restores the text, and its first part does not hold the separator. -/
theorem cut_eq_some {sep : Char} {cs front back : List Char} (h : cut sep cs = some (front, back)) :
    cs = front ++ sep :: back ∧ sep ∉ front := by
  induction cs generalizing front with
  | nil => simp [cut] at h
  | cons c rest ih =>
    rw [cut] at h
    split at h
    · next hc => simp_all
    · next hc =>
      obtain ⟨p, hp, he⟩ := Option.map_eq_some_iff.1 h
      obtain ⟨rfl, rfl⟩ := Prod.mk.injEq .. ▸ he
      obtain ⟨h1, h2⟩ := ih hp
      exact ⟨by rw [h1]; simp, by simp [h2, Ne.symm hc]⟩

/-- A text is cut at its first separator. -/
theorem cut_append {sep : Char} {front : List Char} (h : sep ∉ front) (back : List Char) :
    cut sep (front ++ sep :: back) = some (front, back) := by
  induction front with
  | nil => simp [cut]
  | cons c front ih =>
    rw [List.mem_cons, not_or] at h
    rw [List.cons_append, cut, if_neg (Ne.symm h.1), ih h.2]
    rfl

theorem cut_eq_none_iff {sep : Char} {cs : List Char} : cut sep cs = none ↔ sep ∉ cs := by
  induction cs with
  | nil => simp [cut]
  | cons c rest ih =>
    by_cases hc : c = sep
    · simp [cut, hc]
    · simp [cut, hc, ih, Ne.symm hc]

/-- The first piece of a text ends at its first separator. -/
theorem pieces_append {sep : Char} {front : List Char} (h : sep ∉ front) (back : List Char) :
    pieces sep (front ++ sep :: back) = front :: pieces sep back := by
  induction front with
  | nil => simp [pieces]
  | cons c front ih =>
    rw [List.mem_cons, not_or] at h
    rw [List.cons_append, pieces, if_neg (Ne.symm h.1), ih h.2]

end LogBinder.Text
