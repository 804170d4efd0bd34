/-
  Log binder — blank characters and trimming.

  A character is blank when it has the Unicode property White_Space; the
  zero-width space and the byte order mark do not.

  * `isBlank` decides the property and `trim` removes blank characters at
    both ends of a text;
  * `trimChars_eq` : what `trim` removes is blank, and the rest is contiguous;
    `trim_trim` : it removes all that is blank.
-/
namespace LogBinder.Text

/-- The ranges of the White_Space property, ends included. -/
def blankRanges : List (Nat × Nat) :=
  [(0x09, 0x0D), (0x20, 0x20), (0x85, 0x85), (0xA0, 0xA0), (0x1680, 0x1680), (0x2000, 0x200A),
   (0x2028, 0x2029), (0x202F, 0x202F), (0x205F, 0x205F), (0x3000, 0x3000)]

/-- Whether a character has the White_Space property. -/
def isBlank (c : Char) : Bool :=
  blankRanges.any fun r => r.1 ≤ c.toNat && c.toNat ≤ r.2

/-- The characters of a text from its first non-blank one on. -/
def trimStart (cs : List Char) : List Char :=
  cs.dropWhile isBlank

/-- The characters of a text without blank ones at either end. -/
def trimChars (cs : List Char) : List Char :=
  (trimStart (trimStart cs).reverse).reverse

/-- A text without blank characters at either end. -/
def trim (s : String) : String :=
  String.ofList (trimChars s.toList)

theorem trimEnd_append (cs : List Char) :
    (trimStart cs.reverse).reverse ++ (cs.reverse.takeWhile isBlank).reverse = cs := by
  rw [trimStart, ← List.reverse_append, List.takeWhile_append_dropWhile, List.reverse_reverse]

/-- Trimming cuts a blank run off either end. -/
theorem trimChars_eq (cs : List Char) :
    ∃ front back, cs = front ++ trimChars cs ++ back ∧
      (∀ c ∈ front, isBlank c = true) ∧ (∀ c ∈ back, isBlank c = true) := by
  refine ⟨cs.takeWhile isBlank, ((trimStart cs).reverse.takeWhile isBlank).reverse, ?_,
    fun c hc => List.all_eq_true.1 List.all_takeWhile c hc,
    fun c hc => List.all_eq_true.1 List.all_takeWhile c (List.mem_reverse.1 hc)⟩
  rw [List.append_assoc, trimChars, trimEnd_append, trimStart, List.takeWhile_append_dropWhile]

theorem trimStart_trimStart (cs : List Char) : trimStart (trimStart cs) = trimStart cs := by
  induction cs with
  | nil => rfl
  | cons c rest ih =>
    cases hc : isBlank c with
    | false => simp [trimStart, hc]
    | true => simpa [trimStart, hc] using ih

theorem trimStart_of_append {front back : List Char}
    (h : trimStart (front ++ back) = front ++ back) : trimStart front = front := by
  cases front with
  | nil => rfl
  | cons c rest =>
    cases hc : isBlank c with
    | false => simp [trimStart, hc]
    | true =>
      -- A blank character at the front would have been cut.
      have hlen := congrArg List.length h
      have hle := (List.dropWhile_suffix isBlank (l := rest ++ back)).length_le
      simp only [trimStart, List.cons_append, List.dropWhile_cons, hc, if_true,
        List.length_cons] at hlen
      omega

theorem trimChars_trimChars (cs : List Char) : trimChars (trimChars cs) = trimChars cs := by
  have hcut : trimChars cs ++ ((trimStart cs).reverse.takeWhile isBlank).reverse = trimStart cs :=
    trimEnd_append (trimStart cs)
  have hstart : trimStart (trimChars cs) = trimChars cs :=
    trimStart_of_append (by rw [hcut, trimStart_trimStart])
  rw [trimChars, hstart, trimChars, List.reverse_reverse, trimStart_trimStart]

/-- A text without blank characters has nothing to trim. -/
theorem trimChars_eq_self {cs : List Char} (h : ∀ c ∈ cs, isBlank c = false) :
    trimChars cs = cs := by
  have hstart : ∀ ds : List Char, (∀ c ∈ ds, isBlank c = false) → trimStart ds = ds := by
    intro ds hds
    cases ds with
    | nil => rfl
    | cons c rest => simp [trimStart, hds c (List.mem_cons_self ..)]
  rw [trimChars, hstart cs h, hstart cs.reverse fun c hc => h c (List.mem_reverse.1 hc),
    List.reverse_reverse]

theorem trim_trim (s : String) : trim (trim s) = trim s := by
  rw [trim, trim, String.toList_ofList, trimChars_trimChars]

end LogBinder.Text
