/-
  Log binder — expansion as a substitution.

  A text divides into literal runs with a reference between each two of them.
  A division is leftmost if no reference to a known name begins before the
  one that it names next: the literal run before a reference, with the sign
  that opens it, holds none, and the last run holds none.

  * `Expansion.Division` : the parts of a text, and what they are filled to;
  * `Expansion.IsLiteral` : no known name is referred to, read off a text
    sign by sign (`isLiteral_append_iff`, `isLiteral_reference_iff`);
  * `Expansion.expand_leftmost` : a text has one leftmost division, and
    expansion fills it.
-/
import LogBinder.Expansion
import Mathlib.Data.List.Infix

namespace LogBinder.Expansion

/-! ## References -/

/-- A name between two percent signs. -/
def reference (name : List Char) : List Char := '%' :: (name ++ ['%'])

/-- Whether a name can be referred to: it has characters, none of them a percent sign, and is
known. -/
structure IsName (known : List Char → Prop) (name : List Char) : Prop where
  ne_nil : name ≠ []
  plain : '%' ∉ name
  isKnown : known name

/-- Whether no known name is referred to in a text. -/
def IsLiteral (known : List Char → Prop) (cs : List Char) : Prop :=
  ∀ name, IsName known name → ¬ reference name <:+: cs

variable {known : List Char → Prop} {name name' front back cs : List Char}

/-- Two runs without a percent sign that end at one are the same run. -/
theorem eq_of_append_eq (h : '%' ∉ name) (h' : '%' ∉ name') {back' : List Char}
    (heq : name ++ '%' :: back = name' ++ '%' :: back') : name = name' ∧ back = back' := by
  have hcut := Text.cut_append h back
  rw [heq, Text.cut_append h' back', Option.some.injEq, Prod.mk.injEq] at hcut
  exact ⟨hcut.1.symm, hcut.2.symm⟩

theorem isLiteral_of_not_mem (h : '%' ∉ cs) : IsLiteral known cs :=
  fun _ _ hoccurs => h (hoccurs.subset (List.mem_cons_self ..))

/-- A character that is no percent sign begins no reference. -/
theorem isLiteral_append_iff (h : '%' ∉ front) :
    IsLiteral known (front ++ cs) ↔ IsLiteral known cs := by
  induction front with
  | nil => rfl
  | cons c front ih =>
    rw [List.mem_cons, not_or] at h
    rw [← ih h.2, List.cons_append]
    refine forall₂_congr fun name _ => not_congr ?_
    rw [List.infix_cons_iff, or_iff_right_iff_imp]
    intro hprefix
    exact absurd (List.cons_prefix_cons.1 hprefix).1 h.1

/-- The last percent sign of a text begins no reference. -/
theorem isLiteral_sign (h : '%' ∉ cs) : IsLiteral known ('%' :: cs) := by
  intro name _ hoccurs
  have hcount := hoccurs.sublist.count_le '%'
  simp [reference, List.count_eq_zero.2 h] at hcount

/-- What stands between two percent signs is referred to if it is a known name; the second sign may
begin another reference. -/
theorem isLiteral_reference_iff (h : '%' ∉ name) :
    IsLiteral known ('%' :: (name ++ '%' :: back)) ↔
      ¬ IsName known name ∧ IsLiteral known ('%' :: back) := by
  have hskip : IsLiteral known (name ++ '%' :: back) ↔ IsLiteral known ('%' :: back) :=
    isLiteral_append_iff h
  rw [← hskip]
  constructor
  · refine fun hliteral => ⟨fun hname => hliteral name hname ?_, fun n hn hoccurs => ?_⟩
    · exact ⟨[], back, by simp [reference]⟩
    · exact hliteral n hn (hoccurs.trans (List.suffix_cons ..).isInfix)
  · rintro ⟨hname, hliteral⟩ n hn hoccurs
    rcases List.infix_cons_iff.1 hoccurs with hprefix | hoccurs
    · obtain ⟨rest, hrest⟩ := hprefix
      have heq : n ++ '%' :: rest = name ++ '%' :: back := by simpa [reference] using hrest
      exact hname ((eq_of_append_eq hn.plain h heq).1 ▸ hn)
    · exact hliteral n hn hoccurs

/-! ## Divisions -/

/-- The parts of a text: literal runs, each with the name that is referred to after it, and the last
run. -/
structure Division where
  references : List (List Char × List Char)
  last : List Char

namespace Division

/-- The text that is divided. -/
def text (d : Division) : List Char :=
  d.references.flatMap (fun r => r.1 ++ reference r.2) ++ d.last

/-- The text with a value in the place of each reference. -/
def filled (lookup : List Char → Option (List Char)) (d : Division) : List Char :=
  d.references.flatMap (fun r => r.1 ++ (lookup r.2).getD []) ++ d.last

/-- Whether a division has the first reference to a known name wherever there is one. -/
structure IsLeftmost (known : List Char → Prop) (d : Division) : Prop where
  names : ∀ r ∈ d.references, IsName known r.2
  /-- No reference begins before the next. -/
  literals : ∀ r ∈ d.references, IsLiteral known (r.1 ++ ['%'])
  last : IsLiteral known d.last

/-- A division with a run and a reference in front. -/
def cons (literal name : List Char) (d : Division) : Division :=
  ⟨(literal, name) :: d.references, d.last⟩

/-- A division with a run in front of its first. -/
def extend (front : List Char) : Division → Division
  | ⟨[], last⟩ => ⟨[], front ++ last⟩
  | ⟨(literal, name) :: rest, last⟩ => ⟨(front ++ literal, name) :: rest, last⟩

variable {d e : Division} {literal : List Char} {lookup : List Char → Option (List Char)}

theorem text_cons (literal name : List Char) (d : Division) :
    (d.cons literal name).text = literal ++ '%' :: (name ++ '%' :: d.text) := by
  simp [text, cons, reference]

theorem filled_cons (literal name : List Char) (d : Division) :
    (d.cons literal name).filled lookup = literal ++ (lookup name).getD [] ++ d.filled lookup := by
  simp [filled, cons]

theorem text_extend (front : List Char) (d : Division) :
    (d.extend front).text = front ++ d.text := by
  obtain ⟨_ | ⟨r, rest⟩, last⟩ := d <;> simp [text, extend]

theorem filled_extend (front : List Char) (d : Division) :
    (d.extend front).filled lookup = front ++ d.filled lookup := by
  obtain ⟨_ | ⟨r, rest⟩, last⟩ := d <;> simp [filled, extend]

theorem isLeftmost_cons_iff : (d.cons literal name).IsLeftmost known ↔
    IsName known name ∧ IsLiteral known (literal ++ ['%']) ∧ d.IsLeftmost known := by
  constructor
  · rintro ⟨hnames, hliterals, hlast⟩
    obtain ⟨hname, hnames⟩ := List.forall_mem_cons.1 hnames
    obtain ⟨hliteral, hliterals⟩ := List.forall_mem_cons.1 hliterals
    exact ⟨hname, hliteral, hnames, hliterals, hlast⟩
  · rintro ⟨hname, hliteral, hnames, hliterals, hlast⟩
    exact ⟨List.forall_mem_cons.2 ⟨hname, hnames⟩,
      List.forall_mem_cons.2 ⟨hliteral, hliterals⟩, hlast⟩

/-- What begins with a percent sign and is extended by a name that is not known stays literal. -/
theorem isLiteral_extend (hfront : '%' ∉ front) (hplain : '%' ∉ name)
    (hname : ¬ IsName known name) (h : IsLiteral known ('%' :: back)) :
    IsLiteral known (front ++ '%' :: name ++ '%' :: back) := by
  rw [List.append_assoc, List.cons_append, isLiteral_append_iff hfront,
    isLiteral_reference_iff hplain]
  exact ⟨hname, h⟩

/-- An unknown name goes to the run that begins with the sign that closes it. -/
theorem IsLeftmost.extend (h : d.IsLeftmost known) (htext : d.text = '%' :: back)
    (hfront : '%' ∉ front) (hplain : '%' ∉ name) (hname : ¬ IsName known name) :
    (d.extend (front ++ '%' :: name)).IsLeftmost known := by
  obtain ⟨references, last⟩ := d
  cases references with
  | nil =>
    obtain rfl : last = '%' :: back := by simpa [text] using htext
    exact ⟨nofun, nofun, isLiteral_extend hfront hplain hname h.last⟩
  | cons r rest =>
    obtain ⟨hr, hnames, hrest⟩ := isLeftmost_cons_iff (d := ⟨rest, last⟩).1 h
    -- The first run may be empty; then the sign is that of its reference.
    obtain ⟨tail, htail⟩ : ∃ tail, r.1 ++ ['%'] = '%' :: tail := by
      have hbegins := text_cons r.1 r.2 ⟨rest, last⟩
      rw [show cons r.1 r.2 ⟨rest, last⟩ = ⟨r :: rest, last⟩ from rfl, htext] at hbegins
      cases hliteral : r.1 with
      | nil => exact ⟨[], rfl⟩
      | cons c literal =>
        rw [hliteral, List.cons_append, List.cons.injEq] at hbegins
        exact ⟨literal ++ ['%'], by rw [List.cons_append, ← hbegins.1]⟩
    refine isLeftmost_cons_iff (d := ⟨rest, last⟩).2 ⟨hr, ?_, hrest⟩
    rw [List.append_assoc, htail]
    exact isLiteral_extend hfront hplain hname (htail ▸ hnames)

/-! ## There is one leftmost division -/

/-- A run before a reference does not reach beyond the beginning of another reference. -/
theorem length_le_of_isLiteral {run other tail : List Char} (hname : IsName known name)
    (hother : IsLiteral known (other ++ ['%']))
    (heq : run ++ '%' :: (name ++ '%' :: back) = other ++ '%' :: tail) :
    other.length ≤ run.length := by
  by_contra hlt
  obtain ⟨between, rfl⟩ : run <+: other :=
    List.prefix_of_prefix_length_le ⟨_, heq⟩ ⟨_, rfl⟩ (by omega)
  rw [List.append_assoc, List.append_cancel_left_eq] at heq
  cases between with
  | nil => simp at hlt
  | cons c between =>
    rw [List.cons_append, List.cons.injEq] at heq
    obtain ⟨rfl, heq⟩ := heq
    -- The name ends at the first sign after the one that opens it.
    obtain ⟨first, rest, hfirst, hplain⟩ :=
      List.eq_append_cons_of_mem (List.mem_append_right between (List.mem_singleton.2 rfl) :
        '%' ∈ between ++ ['%'])
    have hends : name ++ '%' :: back = first ++ '%' :: (rest ++ tail) := by
      rw [heq, List.append_cons, hfirst]
      simp
    obtain ⟨rfl, -⟩ := eq_of_append_eq hname.plain hplain hends
    refine hother name hname ⟨run, rest, ?_⟩
    calc run ++ reference name ++ rest
        = run ++ '%' :: (name ++ '%' :: rest) := by simp [reference]
      _ = run ++ '%' :: between ++ ['%'] := by rw [← hfirst]; simp

theorem not_isLiteral_text_cons (hname : IsName known name) :
    ¬ IsLiteral known (d.cons literal name).text := by
  refine fun h => h name hname ⟨literal, d.text, ?_⟩
  simp [text_cons, reference]

/-- **A text has no other leftmost division.** -/
theorem IsLeftmost.unique (h : d.IsLeftmost known) (h' : e.IsLeftmost known)
    (heq : d.text = e.text) : d = e := by
  obtain ⟨references, last⟩ := d
  obtain ⟨references', last'⟩ := e
  induction references generalizing references' with
  | nil =>
    cases references' with
    | nil => simpa [text] using heq
    | cons r' rest' =>
      have hname := (isLeftmost_cons_iff (d := ⟨rest', last'⟩).1 h').1
      have hlast : IsLiteral known (text ⟨[], last⟩) := h.last
      exact absurd (heq ▸ hlast) (not_isLiteral_text_cons (d := ⟨rest', last'⟩) hname)
  | cons r rest ih =>
    obtain ⟨hname, hliteral, hrest⟩ := isLeftmost_cons_iff (d := ⟨rest, last⟩).1 h
    cases references' with
    | nil =>
      have hlast : IsLiteral known (text ⟨[], last'⟩) := h'.last
      exact absurd (heq ▸ hlast) (not_isLiteral_text_cons (d := ⟨rest, last⟩) hname)
    | cons r' rest' =>
      obtain ⟨hname', hliteral', hrest'⟩ := isLeftmost_cons_iff (d := ⟨rest', last'⟩).1 h'
      have hparts : r.1 ++ '%' :: (r.2 ++ '%' :: text ⟨rest, last⟩) =
          r'.1 ++ '%' :: (r'.2 ++ '%' :: text ⟨rest', last'⟩) := by
        rw [← text_cons, ← text_cons]
        exact heq
      have hlength : r.1.length = r'.1.length :=
        Nat.le_antisymm (length_le_of_isLiteral hname' hliteral hparts.symm)
          (length_le_of_isLiteral hname hliteral' hparts)
      obtain ⟨hrun, hparts⟩ := List.append_inj hparts hlength
      obtain ⟨hsame, htext⟩ := eq_of_append_eq hname.plain hname'.plain (List.cons.inj hparts).2
      have htail := ih hrest rest' hrest' htext
      simp only [Division.mk.injEq] at htail
      rw [Prod.ext hrun hsame, htail.1, htail.2]

end Division

/-! ## Expansion -/

/-- Whether a lookup knows a name. -/
def Knows (lookup : List Char → Option (List Char)) (name : List Char) : Prop :=
  (lookup name).isSome = true

variable {lookup : List Char → Option (List Char)}

theorem isLiteral_of_cut_none (h : Text.cut '%' cs = some (front, back))
    (h' : Text.cut '%' back = none) : IsLiteral known cs := by
  obtain ⟨rfl, hfront⟩ := Text.cut_eq_some h
  rw [isLiteral_append_iff hfront]
  exact isLiteral_sign (Text.cut_eq_none_iff.1 h')

/-- Expansion fills a leftmost division of the text. -/
theorem exists_filled (lookup : List Char → Option (List Char)) (cs : List Char) :
    ∃ d : Division, d.text = cs ∧ d.IsLeftmost (Knows lookup) ∧
      expand lookup cs = d.filled lookup := by
  fun_induction expand lookup cs with
  | case1 cs hcut =>
    exact ⟨⟨[], cs⟩, rfl, ⟨nofun, nofun, isLiteral_of_not_mem (Text.cut_eq_none_iff.1 hcut)⟩, rfl⟩
  | case2 cs literal after hcut hcut' =>
    exact ⟨⟨[], cs⟩, rfl, ⟨nofun, nofun, isLiteral_of_cut_none hcut hcut'⟩, rfl⟩
  | case3 cs literal after hcut name rest hcut' value hvalue ih =>
    obtain ⟨rfl, hliteral⟩ := Text.cut_eq_some hcut
    obtain ⟨rfl, hplain⟩ := Text.cut_eq_some hcut'
    obtain ⟨d, rfl, hleftmost, hfilled⟩ := ih
    rw [dite_eq_ite, Option.ite_none_left_eq_some, List.isEmpty_iff] at hvalue
    refine ⟨d.cons literal name, Division.text_cons .., ?_, ?_⟩
    · refine Division.isLeftmost_cons_iff.2 ⟨⟨hvalue.1, hplain, ?_⟩, ?_, hleftmost⟩
      · rw [Knows, hvalue.2]
        rfl
      · rw [isLiteral_append_iff hliteral]
        exact isLiteral_sign List.not_mem_nil
    · rw [Division.filled_cons, hvalue.2, hfilled]
      rfl
  | case4 cs literal after hcut name rest hcut' hvalue ih =>
    obtain ⟨rfl, hliteral⟩ := Text.cut_eq_some hcut
    obtain ⟨rfl, hplain⟩ := Text.cut_eq_some hcut'
    obtain ⟨d, htext, hleftmost, hfilled⟩ := ih
    have hname : ¬ IsName (Knows lookup) name := by
      rintro ⟨hne, -, hknown⟩
      rw [dite_eq_ite, if_neg (mt List.isEmpty_iff.1 hne)] at hvalue
      simp [Knows, hvalue] at hknown
    refine ⟨d.extend (literal ++ '%' :: name), ?_, hleftmost.extend htext hliteral hplain hname, ?_⟩
    · rw [Division.text_extend, htext]
      simp
    · rw [Division.filled_extend, hfilled]

/-- **Expansion is the leftmost substitution.**  A text has exactly one leftmost division by the
names that are known.  Expansion copies its literal runs and replaces its references by their
values; so the values play no part in where references are found.  A text that refers to no known
name stays as it is. -/
theorem expand_leftmost (lookup : List Char → Option (List Char)) (cs : List Char) :
    (∃! d : Division, d.text = cs ∧ d.IsLeftmost (Knows lookup)) ∧
    (∀ d : Division, d.text = cs → d.IsLeftmost (Knows lookup) →
      ∀ lookup' : List Char → Option (List Char),
        (∀ name, (lookup' name).isSome = (lookup name).isSome) →
          expand lookup' cs = d.filled lookup') ∧
    (IsLiteral (Knows lookup) cs → expand lookup cs = cs) := by
  have hfills : ∀ d : Division, d.text = cs → d.IsLeftmost (Knows lookup) →
      ∀ lookup' : List Char → Option (List Char),
        (∀ name, (lookup' name).isSome = (lookup name).isSome) →
          expand lookup' cs = d.filled lookup' := by
    intro d htext hleftmost lookup' hsame
    obtain ⟨e, rfl, hleftmost', hfilled⟩ := exists_filled lookup' cs
    have hknows : Knows lookup' = Knows lookup := by
      funext name
      rw [Knows, Knows, hsame]
    rw [hknows] at hleftmost'
    rw [hfilled, hleftmost.unique hleftmost' htext]
  obtain ⟨d, htext, hleftmost, -⟩ := exists_filled lookup cs
  refine ⟨⟨d, ⟨htext, hleftmost⟩, fun e he => he.2.unique hleftmost (he.1.trans htext.symm)⟩,
    hfills, fun hliteral => ?_⟩
  exact hfills ⟨[], cs⟩ rfl ⟨nofun, nofun, hliteral⟩ lookup fun _ => rfl

/-! ## Signs that stand close -/

/-- Two names, the value of one of which looks like a reference to the other. -/
def nested (name : List Char) : Option (List Char) :=
  [("APP", "demo"), ("HOME", "%APP%")].lookup (String.ofList name) |>.map String.toList

/-- The parts of `%%APP%/%HOME%100%`. -/
def adjacent : Division :=
  ⟨[("%".toList, "APP".toList), ("/".toList, "HOME".toList)], "100%".toList⟩

theorem isLeftmost_adjacent : adjacent.IsLeftmost (Knows nested) := by
  have hopening : IsLiteral (Knows nested) ['%', '%'] :=
    (isLiteral_reference_iff List.not_mem_nil).2
      ⟨fun h => h.ne_nil rfl, isLiteral_sign List.not_mem_nil⟩
  have hslash : IsLiteral (Knows nested) ['/', '%'] :=
    (isLiteral_append_iff (show '%' ∉ ['/'] by decide)).2 (isLiteral_sign List.not_mem_nil)
  have hlast : IsLiteral (Knows nested) ['1', '0', '0', '%'] :=
    (isLiteral_append_iff (show '%' ∉ ['1', '0', '0'] by decide)).2
      (isLiteral_sign List.not_mem_nil)
  refine ⟨?_, ?_, hlast⟩
  · refine List.forall_mem_cons.2 ⟨⟨by decide, by decide, rfl⟩, List.forall_mem_singleton.2 ?_⟩
    exact ⟨by decide, by decide, rfl⟩
  · exact List.forall_mem_cons.2 ⟨hopening, List.forall_mem_singleton.2 hslash⟩

/-- The sign that closes nothing opens the next reference, and what a value says is not read. -/
theorem expand_leftmost_adjacent :
    adjacent.text = "%%APP%/%HOME%100%".toList ∧ adjacent.IsLeftmost (Knows nested) ∧
      expand nested "%%APP%/%HOME%100%".toList = "%demo/%APP%100%".toList ∧
      expand nested "100%".toList = "100%".toList := by
  have htext : adjacent.text = "%%APP%/%HOME%100%".toList := by decide
  refine ⟨htext, isLeftmost_adjacent, ?_, ?_⟩
  · exact (expand_leftmost nested _).2.1 adjacent htext isLeftmost_adjacent nested fun _ => rfl
  · exact (expand_leftmost nested _).2.2 isLeftmost_adjacent.last

end LogBinder.Expansion
