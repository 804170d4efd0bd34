/-
  Log binder — what is stored is read back.

  The stored form of a format provider is a sequence of tokens without blanks
  between them.  Each is read as itself whatever follows it, strings included:
  every character of a string is written so that one part is read for it,
  which stands for the character.

  * `Part.StandsFor`, `exists_part` : the parts that characters are read as;
  * `Token.Writes` : a text is read as a token wherever it stands
    (`exists_writes_quoted` for strings);
  * `Token.all_of_writes` : texts of tokens in a row are read as the tokens;
  * `FormatProvider.ofStored?_stored` : a provider is read back.
-/
import LogBinder.Json.Stored
import Mathlib.Data.List.Forall2

namespace LogBinder

namespace Json

/-! ## Strings -/

theorem hexValue_hexDigit : ∀ n < 16, hexValue (hexDigit n) = some n := by
  decide

/-- A part of a string stands for a character, whatever parts follow. -/
def Part.StandsFor (p : Part) (c : Char) : Prop :=
  ∀ parts, join (p :: parts) = (join parts).map (c :: ·)

theorem Part.char_standsFor (c : Char) : (char c).StandsFor c := fun _ => rfl

/-- A unit that is no half of a pair stands for its character. -/
theorem Part.unit_standsFor {n : Nat} (h : n < 0xD800) : (unit n).StandsFor (Char.ofNat n) := by
  have hhigh : isHigh n = false := by simp [isHigh]; omega
  have hlow : isLow n = false := by simp [isLow]; omega
  intro parts
  cases parts with
  | nil => simp [join, hhigh, hlow]
  | cons p rest => cases p <;> simp [join, hhigh, hlow]

theorem scanParts_short {c d : Char} (hu : c ≠ 'u') (h : shortEscape c = some d)
    (rest : List Char) :
    scanParts ('\\' :: c :: rest) = (scanParts rest).map fun r => (.char d :: r.1, r.2) := by
  rw [scanParts, h]
  · cases scanParts rest <;> rfl
  all_goals simp [hu]

theorem scanParts_unit {a b c d : Char} {n : Nat} (h : hexUnit a b c d = some n)
    (rest : List Char) :
    scanParts ('\\' :: 'u' :: a :: b :: c :: d :: rest) =
      (scanParts rest).map fun r => (.unit n :: r.1, r.2) := by
  rw [scanParts, h]
  cases scanParts rest <;> rfl

theorem scanParts_plain {c : Char} (hquote : c ≠ '"') (hbackslash : c ≠ '\\')
    (h : ¬ c.toNat < 0x20) (rest : List Char) :
    scanParts (c :: rest) = (scanParts rest).map fun r => (.char c :: r.1, r.2) := by
  rw [scanParts, if_neg h]
  · cases scanParts rest <;> rfl
  all_goals simp [hquote, hbackslash]

/-- The unit of a control character is written with its two last digits. -/
theorem hexUnit_control {n : Nat} (h : n < 0x20) :
    hexUnit '0' '0' (hexDigit (n / 16)) (hexDigit (n % 16)) = some n := by
  have hhigh : hexValue (hexDigit (n / 16)) = some (n / 16) := hexValue_hexDigit _ (by omega)
  have hlow : hexValue (hexDigit (n % 16)) = some (n % 16) := hexValue_hexDigit _ (by omega)
  have hzero : hexValue '0' = some 0 := rfl
  rw [hexUnit, hhigh, hlow, hzero]
  change some (((0 * 16 + 0) * 16 + n / 16) * 16 + n % 16) = some n
  rw [Option.some.injEq]
  omega

/-- Reading the written form of a character gives one part. -/
theorem exists_part (c : Char) :
    ∃ p : Part, p.StandsFor c ∧
      ∀ rest, scanParts (escaped c ++ rest) = (scanParts rest).map fun r => (p :: r.1, r.2) := by
  unfold escaped
  split
  · exact ⟨.char '"', Part.char_standsFor _, scanParts_short (by decide) rfl⟩
  · exact ⟨.char '\\', Part.char_standsFor _, scanParts_short (by decide) rfl⟩
  · exact ⟨.char '\x08', Part.char_standsFor _, scanParts_short (by decide) rfl⟩
  · exact ⟨.char '\x0c', Part.char_standsFor _, scanParts_short (by decide) rfl⟩
  · exact ⟨.char '\n', Part.char_standsFor _, scanParts_short (by decide) rfl⟩
  · exact ⟨.char '\r', Part.char_standsFor _, scanParts_short (by decide) rfl⟩
  · exact ⟨.char '\t', Part.char_standsFor _, scanParts_short (by decide) rfl⟩
  · next hquote hbackslash _ _ _ _ _ =>
    split
    · next hcontrol =>
      refine ⟨.unit c.toNat, ?_, scanParts_unit (hexUnit_control hcontrol)⟩
      have h := Part.unit_standsFor (n := c.toNat) (by omega)
      rwa [Char.ofNat_toNat] at h
    · next hplain =>
      exact ⟨.char c, Part.char_standsFor c, scanParts_plain hquote hbackslash hplain⟩

/-- Reading a written string gives parts that stand for its characters, whatever follows it. -/
theorem exists_parts (cs : List Char) :
    ∃ parts, Part.join parts = some cs ∧
      ∀ rest, scanParts (cs.flatMap escaped ++ '"' :: rest) = some (parts, rest) := by
  induction cs with
  | nil => exact ⟨[], rfl, fun rest => rfl⟩
  | cons c cs ih =>
    obtain ⟨part, hpart, hread⟩ := exists_part c
    obtain ⟨parts, hparts, hrest⟩ := ih
    refine ⟨part :: parts, ?_, fun rest => ?_⟩
    · rw [hpart parts, hparts]
      rfl
    · rw [List.flatMap_cons, List.append_assoc, hread, hrest]
      rfl

/-! ## Tokens -/

namespace Token

/-- A text is read as a token wherever it stands. -/
structure Writes (t : Token) (cs : List Char) : Prop where
  scan_append : ∀ rest, scan (cs ++ rest) = some (t, rest)
  start : ∃ c tail, cs = c :: tail ∧ isSpace c = false

/-- A written string is read as a token whose parts stand for its characters. -/
theorem exists_writes_quoted (cs : List Char) :
    ∃ parts, Part.join parts = some cs ∧ Writes (.string parts) (quoted cs) := by
  obtain ⟨parts, hparts, hread⟩ := exists_parts cs
  refine ⟨parts, hparts, fun rest => ?_, '"', _, rfl, rfl⟩
  have htext : quoted cs ++ rest = '"' :: (cs.flatMap escaped ++ '"' :: rest) := by simp [quoted]
  rw [htext]
  change (scanParts _).map (fun p => (Token.string p.1, p.2)) = _
  rw [hread]
  rfl

theorem allWithin_of_writes {ts : List Token} {texts : List (List Char)}
    (h : List.Forall₂ Writes ts texts) {fuel : Nat} (hfuel : ts.length ≤ fuel) :
    allWithin fuel texts.flatten = some ts := by
  induction h generalizing fuel with
  | nil => cases fuel <;> rfl
  | @cons t cs ts texts hfirst hrest ih =>
    obtain ⟨fuel, rfl⟩ : ∃ n, fuel = n + 1 := Nat.exists_eq_succ_of_ne_zero (by
      rw [List.length_cons] at hfuel
      omega)
    have hlater := ih (Nat.le_of_succ_le_succ hfuel)
    have hscan := hfirst.scan_append texts.flatten
    obtain ⟨c, tail, rfl, hspace⟩ := hfirst.start
    rw [List.cons_append] at hscan
    rw [List.flatten_cons, List.cons_append, allWithin,
      List.dropWhile_cons_of_neg (by simp [hspace])]
    simp only [hscan, Option.bind_eq_bind, Option.bind_some, hlater]
    rfl

/-- **Texts of tokens in a row are read as the tokens.** -/
theorem all_of_writes {ts : List Token} {texts : List (List Char)}
    (h : List.Forall₂ Writes ts texts) : all texts.flatten = some ts := by
  refine allWithin_of_writes h ?_
  induction h with
  | nil => exact Nat.le_refl _
  | cons hfirst _ ih =>
    obtain ⟨c, tail, rfl, -⟩ := hfirst.start
    rw [List.flatten_cons, List.length_append, List.length_cons, List.length_cons]
    omega

end Token

/-! ## Readings -/

open Reading (stringText objectValue)

/-- A text takes a reading from one state to another. -/
def Leads (cs : List Char) (x y : Reading) : Prop :=
  ∃ ts texts, List.Forall₂ Token.Writes ts texts ∧ texts.flatten = cs ∧
    ts.foldlM Reading.take x = some y

variable {cs ds : List Char} {x y z : Reading} {v d : Json} {members : List (Option String × Json)}
  {opened : List Open}

theorem leads_token {t : Token} (h : t.Writes cs) (htake : x.take t = some y) : Leads cs x y :=
  ⟨[t], [cs], .cons h .nil, by simp, by simp [htake]⟩

theorem Leads.append (h : Leads cs x y) (h' : Leads ds y z) : Leads (cs ++ ds) x z := by
  obtain ⟨ts, texts, hwrites, htexts, hrun⟩ := h
  obtain ⟨us, rest, hwrites', hrest, hrun'⟩ := h'
  refine ⟨ts ++ us, texts ++ rest, List.rel_append hwrites hwrites', ?_, ?_⟩
  · rw [List.flatten_append, htexts, hrest]
  · rw [List.foldlM_append, hrun]
    exact hrun'

theorem syntaxOf_of_leads (h : Leads cs (.value []) (.done d)) : syntaxOf cs = some d := by
  obtain ⟨ts, texts, hwrites, htexts, hrun⟩ := h
  rw [syntaxOf, ← htexts, Token.all_of_writes hwrites]
  change (ts.foldlM Reading.take (.value [])).bind _ = _
  rw [hrun]
  rfl

/-! ## Values and members -/

/-- A text is read as a value that is one token. -/
def WritesValue (v : Json) (cs : List Char) : Prop :=
  ∀ opened, Leads cs (.value opened) (Reading.complete v opened)

theorem writesValue_null : WritesValue .null "null".toList :=
  fun _ => leads_token ⟨fun _ => rfl, _, _, rfl, rfl⟩ rfl

theorem writesValue_quoted (cs : List Char) :
    WritesValue (.string (String.ofList cs)) (quoted cs) := by
  intro opened
  obtain ⟨parts, hparts, hwrites⟩ := Token.exists_writes_quoted cs
  refine leads_token hwrites ?_
  rw [Reading.take, Reading.takeValue, Reading.stringValue, stringText, hparts]
  rfl

theorem leads_openObject : Leads ['{'] (.value opened) (.firstName opened) :=
  leads_token ⟨fun _ => rfl, _, _, rfl, rfl⟩ rfl

theorem leads_comma {key : Option String} :
    Leads [','] (.more (.object members key) opened) (.name members opened) :=
  leads_token ⟨fun _ => rfl, _, _, rfl, rfl⟩ rfl

theorem leads_closeObject {key : Option String} :
    Leads ['}'] (.more (.object members key) opened)
      (Reading.complete (objectValue members) opened) :=
  leads_token ⟨fun _ => rfl, _, _, rfl, rfl⟩ rfl

/-- A member is read where a name may stand. -/
theorem leads_member (hx : ∀ parts,
      x.take (.string parts) = some (.colon (.object members (stringText parts) :: opened)))
    (hv : WritesValue v cs) (name : String) :
    Leads (quoted name.toList ++ [':'] ++ cs) x
      (.more (.object ((some name, v) :: members) (some name)) opened) := by
  obtain ⟨parts, hparts, hwrites⟩ := Token.exists_writes_quoted name.toList
  have hname : stringText parts = some name := by simp [stringText, hparts]
  have hcolon : Leads [':'] (.colon (.object members (some name) :: opened))
      (.value (.object members (some name) :: opened)) :=
    leads_token ⟨fun _ => rfl, _, _, rfl, rfl⟩ rfl
  have hstart := leads_token hwrites (hx parts)
  rw [hname] at hstart
  exact (hstart.append hcolon).append (hv _)

end Json

/-! ## Providers -/

namespace FormatProvider

open Json (quoted escaped WritesValue)

variable {p : FormatProvider}

/-- The document that describes a provider. -/
def toJson (p : FormatProvider) : Json :=
  .object [("name", .string p.name), ("decimal_separator", .string (String.singleton p.decimal)),
    ("group_separator", p.group.elim .null fun c => .string (String.singleton c))]

theorem ofJson?_toJson (p : FormatProvider) : ofJson? p.toJson = some p := by
  obtain ⟨name, decimal, _ | group⟩ := p <;>
    simp [ofJson?, toJson, Fields.take, Json.character?, Json.optionalCharacter?]

/-- The text of a grouping character. -/
def storedGroup : Option Char → List Char
  | none => "null".toList
  | some c => quoted [c]

theorem writesValue_group (group : Option Char) :
    WritesValue (group.elim .null fun c => .string (String.singleton c)) (storedGroup group) := by
  cases group with
  | none => exact Json.writesValue_null
  | some c => exact Json.writesValue_quoted [c]

/-- A provider is stored as three members. -/
theorem stored_eq (p : FormatProvider) :
    p.stored = ['{'] ++ (quoted "name".toList ++ [':'] ++ quoted p.name.toList) ++ [','] ++
      (quoted "decimal_separator".toList ++ [':'] ++ quoted [p.decimal]) ++ [','] ++
      (quoted "group_separator".toList ++ [':'] ++ storedGroup p.group) ++ ['}'] := by
  have hname : "\x7b\"name\":".toList = '{' :: (quoted "name".toList ++ [':']) := by
    simp [quoted, escaped]
  have hdecimal : ",\"decimal_separator\":".toList =
      ',' :: (quoted "decimal_separator".toList ++ [':']) := by
    simp [quoted, escaped]
  have hgroup : ",\"group_separator\":".toList =
      ',' :: (quoted "group_separator".toList ++ [':']) := by
    simp [quoted, escaped]
  unfold stored
  rw [hname, hdecimal, hgroup]
  cases p.group <;>
    simp only [storedGroup, List.append_assoc, List.cons_append, List.nil_append]

theorem syntaxOf_stored (p : FormatProvider) : Json.syntaxOf p.stored = some p.toJson := by
  have hname : WritesValue (.string p.name) (quoted p.name.toList) := by
    simpa using Json.writesValue_quoted p.name.toList
  have hdecimal : WritesValue (.string (String.singleton p.decimal)) (quoted [p.decimal]) :=
    Json.writesValue_quoted [p.decimal]
  have hopen : Json.Leads ['{'] (.value []) (.firstName []) := Json.leads_openObject
  have hread := hopen.append (Json.leads_member (fun _ => rfl) hname "name")
    |>.append Json.leads_comma
    |>.append (Json.leads_member (fun _ => rfl) hdecimal "decimal_separator")
    |>.append Json.leads_comma
    |>.append (Json.leads_member (fun _ => rfl) (writesValue_group p.group) "group_separator")
    |>.append Json.leads_closeObject
  rw [← stored_eq] at hread
  exact Json.syntaxOf_of_leads hread

/-- **A stored provider is read back.** -/
theorem ofStored?_stored (p : FormatProvider) : ofStored? p.stored = some p := by
  rw [ofStored?, syntaxOf_stored]
  exact ofJson?_toJson p

end FormatProvider

end LogBinder
