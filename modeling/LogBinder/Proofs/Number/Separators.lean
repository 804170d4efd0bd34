/-
  Log binder — numbers with separators.

  The separators of a format provider are told apart from each other and from
  everything else that a numeral is made of.  Then a numeral can be recovered
  from what is written: grouping may stand anywhere, even before the sign and
  after the last digit, and the decimal separator stands for the point.

  * `Integer.readSigned_signed` : a numeral with a sign is read if its number
    is in range, and nothing wraps around;
  * `FormatProvider.IsProper`, `FormatProvider.Groups` : separators that can
    be told apart, and what is written with grouping;
  * `FormatProvider.normalizeChars_of_groups` : normalizing undoes both;
  * `Primitive.numbers_of_groups` : what integers and fractions convert to.
-/
import LogBinder.Binding.Primitive
import LogBinder.Proofs.Number.Numerals
import LogBinder.Proofs.Text.Insertions

namespace LogBinder

/-! ## Numerals with a sign -/

namespace Integer

/-- Digits with a minus sign in front, if there is to be one. -/
def signed (negative : Bool) (ds : List Char) : List Char :=
  if negative then '-' :: ds else ds

/-- The number that digits with a sign denote. -/
def signedNumber (negative : Bool) (ds : List Char) : Int :=
  if negative then -(number ds : Int) else number ds

/-- The fault of a number that lies out of range on the side of its sign. -/
def outOfRange (negative : Bool) : IntegerFault :=
  if negative then .tooSmall else .tooLarge

variable {limit below above acc : Nat} {beyond : IntegerFault} {negative : Bool} {ds : List Char}

theorem magnitude_of_digits (hacc : acc ≤ limit) (h : ∀ c ∈ ds, c.isDigit = true) :
    magnitude limit beyond acc ds =
      if Nat.ofDigitChars 10 ds acc ≤ limit then .ok (Nat.ofDigitChars 10 ds acc)
      else .error beyond := by
  by_cases hle : Nat.ofDigitChars 10 ds acc ≤ limit
  · rw [if_pos hle, magnitude_eq_ok_iff hacc]
    exact ⟨h, rfl, hle⟩
  · rw [if_neg hle]
    induction ds generalizing acc with
    | nil => exact absurd hacc hle
    | cons c rest ih =>
      obtain ⟨hc, hrest⟩ := List.forall_mem_cons.1 h
      rw [magnitude, if_pos hc]
      split
      · next hstep =>
        refine ih hstep hrest ?_
        rwa [Nat.ofDigitChars_cons, Nat.mul_comm] at hle
      · rfl

/-- A numeral is read unless its number exceeds the limit. -/
theorem IsNumeral.digits_eq (h : IsNumeral ds) :
    Integer.digits limit beyond ds =
      if number ds ≤ limit then .ok (number ds) else .error beyond := by
  cases ds with
  | nil => exact absurd rfl h.ne_nil
  | cons c rest => exact magnitude_of_digits (Nat.zero_le _) h.digits

/-- A numeral without a sign is read unless its number exceeds the limit. -/
theorem readUnsigned_numeral (h : IsNumeral ds) :
    readUnsigned limit ds = if number ds ≤ limit then .ok (number ds) else .error .tooLarge := by
  have hplus : '+' ∉ ds := h.not_mem (by decide)
  cases ds with
  | nil => exact absurd rfl h.ne_nil
  | cons c rest =>
    rw [← h.digits_eq, readUnsigned]
    rintro rfl
    exact hplus (List.mem_cons_self ..)

/-- **A numeral with a sign is read** if its number is in range. -/
theorem readSigned_signed (h : IsNumeral ds) (negative : Bool) :
    readSigned below above (signed negative ds) =
      if -(below : Int) ≤ signedNumber negative ds ∧ signedNumber negative ds ≤ above then
        .ok (signedNumber negative ds)
      else .error (outOfRange negative) := by
  cases negative with
  | true =>
    rw [show signed true ds = '-' :: ds from rfl, readSigned, h.digits_eq]
    simp only [signedNumber, outOfRange, if_true]
    split
    · rw [if_pos (by omega)]
      rfl
    · rw [if_neg (by omega)]
      rfl
  | false =>
    have hplus : '+' ∉ ds := h.not_mem (by decide)
    have hminus : '-' ∉ ds := h.not_mem (by decide)
    cases ds with
    | nil => exact absurd rfl h.ne_nil
    | cons c rest =>
      rw [show signed false (c :: rest) = c :: rest from rfl, readSigned, h.digits_eq]
      · simp only [signedNumber, outOfRange, Bool.false_eq_true, if_false]
        split
        · rw [if_pos (by omega)]
          rfl
        · rw [if_neg (by omega)]
          rfl
      · rintro rfl
        exact hplus (List.mem_cons_self ..)
      · rintro rfl
        exact hminus (List.mem_cons_self ..)

/-- The bounds that the signed numbers of 64 bits are read within are the bounds of such numbers. -/
theorem readInt64_signed (h : IsNumeral ds) (negative : Bool) :
    readInt64 (signed negative ds) =
      if -2 ^ 63 ≤ signedNumber negative ds ∧ signedNumber negative ds < 2 ^ 63 then
        .ok (Int64.ofInt (signedNumber negative ds))
      else .error (outOfRange negative) := by
  have hbelow : ((maxSigned + 1 : Nat) : Int) = 2 ^ 63 := rfl
  have habove : ((maxSigned : Nat) : Int) = 2 ^ 63 - 1 := rfl
  rw [readInt64, readSigned_signed h]
  split
  · next hread =>
    rw [if_pos (by omega)]
    rfl
  · next hread =>
    rw [if_neg (by omega)]
    rfl

theorem readUInt64_numeral (h : IsNumeral ds) :
    readUInt64 ds =
      if number ds < 2 ^ 64 then .ok (UInt64.ofNat (number ds)) else .error .tooLarge := by
  have hlimit : maxUnsigned = 2 ^ 64 - 1 := rfl
  rw [readUInt64, readUnsigned_numeral h]
  split
  · next hread =>
    rw [if_pos (by omega)]
    rfl
  · next hread =>
    rw [if_neg (by omega)]
    rfl

end Integer

open Integer (IsNumeral number signed signedNumber outOfRange)

/-! ## Separators -/

namespace FormatProvider

/-- A character that can be told apart from digits, signs and blanks. -/
structure IsSeparator (c : Char) : Prop where
  not_digit : c.isDigit = false
  not_sign : c ≠ '-' ∧ c ≠ '+'
  not_blank : Text.isBlank c = false

/-- Both separators can be told apart from the rest of a number, and from each other. -/
structure IsProper (p : FormatProvider) : Prop where
  decimal : IsSeparator p.decimal
  group : ∀ c ∈ p.group, IsSeparator c
  distinct : p.group ≠ some p.decimal

/-- What is written arises from a text by inserting grouping characters anywhere. -/
def Groups (p : FormatProvider) (cs written : List Char) : Prop :=
  Inserted (fun c => p.group = some c) Eq cs written

theorem groups_of_filter {p : FormatProvider} {cs written : List Char}
    (h : (written.filter fun c => some c ≠ p.group) = cs) : p.Groups cs written := by
  subst h
  exact Inserted.of_filter (fun c hc => (not_not.1 (of_decide_eq_false hc)).symm) written

/-- A character that normalizing leaves alone. -/
structure IsPlain (p : FormatProvider) (c : Char) : Prop where
  not_blank : Text.isBlank c = false
  not_group : p.group ≠ some c
  not_decimal : c ≠ p.decimal

variable {p : FormatProvider} {cs ds fraction written : List Char} {negative : Bool}

theorem isPlain_of_isDigit (hp : p.IsProper) {c : Char} (hc : c.isDigit = true) : p.IsPlain c where
  not_blank := Integer.isBlank_eq_false_of_isDigit hc
  not_group h := by simp [(hp.group c h).not_digit] at hc
  not_decimal h := by simp [h, hp.decimal.not_digit] at hc

theorem isPlain_minus (hp : p.IsProper) : p.IsPlain '-' where
  not_blank := rfl
  not_group h := (hp.group _ h).not_sign.1 rfl
  not_decimal h := hp.decimal.not_sign.1 h.symm

theorem isPlain_of_mem_signed (hp : p.IsProper) (hds : ∀ c ∈ ds, c.isDigit = true) :
    ∀ c ∈ signed negative ds, p.IsPlain c := by
  intro c hc
  cases negative with
  | true =>
    rcases List.mem_cons.1 hc with rfl | hc
    · exact isPlain_minus hp
    · exact isPlain_of_isDigit hp (hds c hc)
  | false => exact isPlain_of_isDigit hp (hds c hc)

theorem map_of_isPlain (hcs : ∀ c ∈ cs, p.IsPlain c) :
    (cs.map fun c => if c = p.decimal then '.' else c) = cs :=
  (List.map_congr_left fun c hc => if_neg (hcs c hc).not_decimal).trans (List.map_id' cs)

/-- Normalizing takes grouping out, wherever it stands, and puts a point for the decimal
separator. -/
theorem normalizeChars_of_groups (hp : p.IsProper) (h : p.Groups cs written)
    (hcs : ∀ c ∈ cs, Text.isBlank c = false ∧ p.group ≠ some c) :
    p.normalizeChars written = cs.map fun c => if c = p.decimal then '.' else c := by
  have hblank : ∀ c ∈ written, Text.isBlank c = false := by
    intro c hc
    rcases h.hidden_or_mem hc with hgroup | hmem
    · exact (hp.group c hgroup).not_blank
    · exact (hcs c hmem).1
  have hdrop : written.filter (fun c => some c ≠ p.group) = cs.filter (fun c => some c ≠ p.group) :=
    h.filter_eq fun c hc => by simp [hc]
  have hkeep : cs.filter (fun c => some c ≠ p.group) = cs :=
    List.filter_eq_self.2 fun c hc => by simpa using (hcs c hc).2.symm
  rw [normalizeChars, Text.trimChars_eq_self hblank, hdrop, hkeep]

/-- An integer written with grouping is normalized to the integer. -/
theorem normalizeChars_signed (hp : p.IsProper) (hds : ∀ c ∈ ds, c.isDigit = true)
    (h : p.Groups (signed negative ds) written) :
    p.normalizeChars written = signed negative ds := by
  have hplain : ∀ c ∈ signed negative ds, p.IsPlain c := isPlain_of_mem_signed hp hds
  rw [normalizeChars_of_groups hp h fun c hc => ⟨(hplain c hc).not_blank, (hplain c hc).not_group⟩,
    map_of_isPlain hplain]

/-- A fraction written with the decimal separator, and with grouping before it, is normalized to
the fraction with a point. -/
theorem normalizeChars_fraction (hp : p.IsProper) (hds : ∀ c ∈ ds, c.isDigit = true)
    (hfraction : ∀ c ∈ fraction, c.isDigit = true) (h : p.Groups (signed negative ds) written) :
    p.normalizeChars (written ++ p.decimal :: fraction) =
      signed negative ds ++ '.' :: fraction := by
  have hwhole : ∀ c ∈ signed negative ds, p.IsPlain c := isPlain_of_mem_signed hp hds
  have hafter : ∀ c ∈ fraction, p.IsPlain c := fun c hc => isPlain_of_isDigit hp (hfraction c hc)
  have hgroups : p.Groups (signed negative ds ++ p.decimal :: fraction)
      (written ++ p.decimal :: fraction) := h.append (Inserted.refl (fun _ => rfl) _)
  rw [normalizeChars_of_groups hp hgroups, List.map_append, List.map_cons, map_of_isPlain hwhole,
    map_of_isPlain hafter, if_pos rfl]
  intro c hc
  rcases List.mem_append.1 hc with hc | hc
  · exact ⟨(hwhole c hc).not_blank, (hwhole c hc).not_group⟩
  · rcases List.mem_cons.1 hc with rfl | hc
    · exact ⟨hp.decimal.not_blank, hp.distinct⟩
    · exact ⟨(hafter c hc).not_blank, (hafter c hc).not_group⟩

end FormatProvider

/-! ## Conversions -/

namespace Primitive

variable {p : FormatProvider} {text : String} {ds : List Char} {negative : Bool}

/-- An integer with grouping is converted exactly if it fits in 64 bits with a sign. -/
theorem convert_int_of_groups (hp : p.IsProper) (hds : IsNumeral ds)
    (h : p.Groups (signed negative ds) text.toList) :
    if -2 ^ 63 ≤ signedNumber negative ds ∧ signedNumber negative ds < 2 ^ 63 then
      ∃ i : Int64, i.toInt = signedNumber negative ds ∧ convert p text .int = some (.ok (.int i))
    else convert p text .int = some (.error (.integer (outOfRange negative))) := by
  rw [convert, FormatProvider.normalizeChars_signed hp hds.digits h, Integer.readInt64_signed hds]
  split
  · next hrange =>
    exact ⟨Int64.ofInt (signedNumber negative ds),
      Int64.toInt_ofInt_of_le hrange.1 hrange.2, rfl⟩
  · rfl

/-- An integer with grouping and no sign is converted exactly if it fits in 64 bits. -/
theorem convert_uint_of_groups (hp : p.IsProper) (hds : IsNumeral ds)
    (h : p.Groups ds text.toList) :
    if number ds < 2 ^ 64 then
      ∃ u : UInt64, u.toNat = number ds ∧ convert p text .uint = some (.ok (.uint u))
    else convert p text .uint = some (.error (.integer .tooLarge)) := by
  have hunsigned : p.Groups (signed false ds) text.toList := h
  rw [convert, FormatProvider.normalizeChars_signed hp hds.digits hunsigned,
    show signed false ds = ds from rfl, Integer.readUInt64_numeral hds]
  split
  · next hrange =>
    exact ⟨UInt64.ofNat (number ds), UInt64.toNat_ofNat_of_lt' hrange, rfl⟩
  · rfl

/-- **Numbers with separators** are the numbers without them: whole numbers are converted exactly
as far as they fit in 64 bits, and fractions are brought to invariant form. -/
theorem numbers_of_groups (hp : p.IsProper) :
    (∀ negative ds (text : String), IsNumeral ds → p.Groups (signed negative ds) text.toList →
      if -2 ^ 63 ≤ signedNumber negative ds ∧ signedNumber negative ds < 2 ^ 63 then
        ∃ i : Int64, i.toInt = signedNumber negative ds ∧ convert p text .int = some (.ok (.int i))
      else convert p text .int = some (.error (.integer (outOfRange negative)))) ∧
    (∀ ds (text : String), IsNumeral ds → p.Groups ds text.toList →
      if number ds < 2 ^ 64 then
        ∃ u : UInt64, u.toNat = number ds ∧ convert p text .uint = some (.ok (.uint u))
      else convert p text .uint = some (.error (.integer .tooLarge))) ∧
    (∀ negative ds fraction whole, (∀ c ∈ ds, c.isDigit = true) →
      (∀ c ∈ fraction, c.isDigit = true) → p.Groups (signed negative ds) whole →
      p.normalize (String.ofList (whole ++ p.decimal :: fraction)) =
        String.ofList (signed negative ds ++ '.' :: fraction)) := by
  refine ⟨fun negative ds text hds h => convert_int_of_groups hp hds h,
    fun ds text hds h => convert_uint_of_groups hp hds h, ?_⟩
  intro negative ds fraction whole hds hfraction h
  rw [FormatProvider.normalize, String.toList_ofList,
    FormatProvider.normalizeChars_fraction hp hds hfraction h]

end Primitive

namespace Sample

/-- Separators that are the other way around than in invariant form. -/
def swapped : FormatProvider := ⟨"de-DE", ',', some '.'⟩

theorem isProper_swapped : swapped.IsProper where
  decimal := ⟨by decide, by decide, by decide⟩
  group := by
    rintro c ⟨⟩
    exact ⟨by decide, by decide, by decide⟩
  distinct := by decide

/-- Both bounds of the signed range, the first number beyond it and beyond the unsigned range, and
a fraction. -/
theorem numbers_of_groups_swapped :
    Primitive.convert swapped "-9.223.372.036.854.775.808" .int =
      some (.ok (.int Int64.minValue)) ∧
    Primitive.convert swapped "9.223.372.036.854.775.808" .int =
      some (.error (.integer .tooLarge)) ∧
    Primitive.convert swapped "18.446.744.073.709.551.616" .uint =
      some (.error (.integer .tooLarge)) ∧
    swapped.normalize "-1.234,5" = "-1234.5" := by
  obtain ⟨hint, huint, hfraction⟩ := Primitive.numbers_of_groups isProper_swapped
  have hnumber : ∀ n, number (Nat.toDigits 10 n) = n := fun n => Nat.ofDigitChars_ten_toDigits
  refine ⟨?_, ?_, ?_, ?_⟩
  · have h := hint true (Nat.toDigits 10 9223372036854775808) "-9.223.372.036.854.775.808"
      (Digits.isNumeral_toDigits _) (FormatProvider.groups_of_filter (by decide +kernel))
    rw [if_pos (by simp [signedNumber, hnumber])] at h
    obtain ⟨i, hi, hconvert⟩ := h
    have hmin : i = Int64.minValue := Int64.toInt_inj.1 (by rw [hi]; simp [signedNumber, hnumber])
    rw [hconvert, hmin]
  · have h := hint false (Nat.toDigits 10 9223372036854775808) "9.223.372.036.854.775.808"
      (Digits.isNumeral_toDigits _) (FormatProvider.groups_of_filter (by decide +kernel))
    rwa [if_neg (by simp [signedNumber, hnumber])] at h
  · have h := huint (Nat.toDigits 10 18446744073709551616) "18.446.744.073.709.551.616"
      (Digits.isNumeral_toDigits _) (FormatProvider.groups_of_filter (by decide +kernel))
    rwa [if_neg (by simp [hnumber])] at h
  · have h := hfraction true "1234".toList "5".toList "-1.234".toList
      (List.all_eq_true.1 (by decide +kernel)) (List.all_eq_true.1 (by decide +kernel))
      (FormatProvider.groups_of_filter (by decide +kernel))
    exact h

end Sample

end LogBinder
