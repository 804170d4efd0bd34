/-
  Log binder — how durations are written.

  A duration is written as a whole number of days, or as a time of day,
  perhaps with days before it and with a fraction of the seconds after it.
  What is written is exact: no number on the way to it overflows.

  * `Duration.Spelling` : what is written, and the time that it denotes;
  * `Duration.read_eq_some_iff` : which texts are read, and as what;
  * `Duration.ofClockWords_eq` : words that wrap around compute the same;
  * `Duration.read_written` : durations of whole ticks are read back;
  * `Duration.read_grammar` : all of it.
-/
import LogBinder.Proofs.Number.Numerals
import LogBinder.Time.Duration

namespace LogBinder

open Integer (IsNumeral number)

namespace Duration

/-! ## Spellings -/

/-- A time of day in digits. -/
structure Clock where
  days : Option (List Char)
  hours : List Char
  minutes : List Char
  /-- The seconds after another colon, and their fraction after a point, if there are any. -/
  seconds : Option (List Char × Option (List Char))

namespace Clock

/-- Days and hours with a point between them. -/
def headText : Option (List Char) → List Char → List Char
  | none, hours => hours
  | some days, hours => days ++ '.' :: hours

/-- Seconds and their fraction with a point between them. -/
def tailText : List Char → Option (List Char) → List Char
  | whole, none => whole
  | whole, some fraction => whole ++ '.' :: fraction

/-- The parts with the signs between them. -/
def text (c : Clock) : List Char :=
  match c.seconds with
  | none => headText c.days c.hours ++ ':' :: c.minutes
  | some (whole, fraction) =>
    headText c.days c.hours ++ ':' :: (c.minutes ++ ':' :: tailText whole fraction)

/-- The digits of the whole seconds, none if they are left out. -/
def whole (c : Clock) : List Char := (c.seconds.map (·.1)).getD []

/-- The digits of the fraction, none if it is left out. -/
def fraction (c : Clock) : List Char := (c.seconds.bind (·.2)).getD []

/-- Whether the parts that are not left out are numerals. -/
structure HasNumerals (c : Clock) : Prop where
  days : ∀ ds ∈ c.days, IsNumeral ds
  hours : IsNumeral c.hours
  minutes : IsNumeral c.minutes
  whole : ∀ s ∈ c.seconds, IsNumeral s.1
  fraction : ∀ s ∈ c.seconds, ∀ fs ∈ s.2, IsNumeral fs

/-- The whole seconds that have passed. -/
def total (c : Clock) : Nat :=
  number (c.days.getD []) * 86400 + number c.hours * 3600 + number c.minutes * 60 + number c.whole

end Clock

/-- How a duration is written. -/
inductive Spelling where
  | days (digits : List Char)
  | clock (c : Clock)

namespace Spelling

/-- The text. -/
def text : Spelling → List Char
  | days digits => digits
  | clock c => c.text

/-- The whole seconds. -/
def total : Spelling → Nat
  | days digits => number digits * 86400
  | clock c => c.total

/-- The digits of the fraction of a second. -/
def fraction : Spelling → List Char
  | days _ => []
  | clock c => c.fraction

/-- Whether a spelling has digits for its parts, each in its range, and whole seconds of at most 64
bits. -/
inductive IsValid : Spelling → Prop
  | days {digits : List Char} (numeral : IsNumeral digits)
      (fits : number digits * 86400 ≤ 2 ^ 64 - 1) : IsValid (.days digits)
  | clock {c : Clock} (numerals : c.HasNumerals) (hours : number c.hours ≤ 23)
      (minutes : number c.minutes ≤ 59) (whole : number c.whole ≤ 59)
      (fraction : c.fraction.length ≤ 7) (fits : c.total ≤ 2 ^ 64 - 1) : IsValid (.clock c)

/-- Whether a duration is what a spelling says: its nanoseconds are to a second as the digits of the
fraction are to a power of ten. -/
structure Denotes (s : Spelling) (t : Duration) : Prop where
  seconds : t.seconds = s.total
  nanos : t.nanos * 10 ^ s.fraction.length = number s.fraction * 10 ^ 9

end Spelling

/-! ## Reading the parts -/

variable {cs : List Char} {n : Nat} {t : Duration}

theorem readDigits_eq_some_iff :
    readDigits cs = some n ↔ IsNumeral cs ∧ number cs = n ∧ n ≤ 2 ^ 64 - 1 := by
  have hdigits : Integer.digits Integer.maxUnsigned IntegerFault.tooLarge cs = .ok n ↔
      IsNumeral cs ∧ number cs = n ∧ n ≤ 2 ^ 64 - 1 := Integer.digits_eq_ok_iff
  rw [← hdigits, readDigits]
  cases Integer.digits Integer.maxUnsigned IntegerFault.tooLarge cs <;> simp [Except.toOption]

/-- A fraction of at most seven digits is below one second. -/
theorem fraction_lt (h : ∀ c ∈ cs, c.isDigit = true) (hlength : cs.length ≤ 7) :
    number cs * 10 ^ (9 - cs.length) < 1000000000 := by
  have hpow : 10 ^ cs.length * 10 ^ (9 - cs.length) = 10 ^ 9 := by
    rw [← Nat.pow_add]
    congr 1
    omega
  calc number cs * 10 ^ (9 - cs.length)
      < 10 ^ cs.length * 10 ^ (9 - cs.length) :=
        Nat.mul_lt_mul_of_pos_right (Integer.number_lt h) (Nat.pow_pos (by omega))
    _ = 1000000000 := hpow

theorem readFraction_eq_some_iff : readFraction cs = some n ↔
    IsNumeral cs ∧ cs.length ≤ 7 ∧ number cs * 10 ^ (9 - cs.length) = n := by
  unfold readFraction fractionDigits
  by_cases hlength : 7 < cs.length
  · rw [if_pos hlength]
    exact ⟨nofun, fun h => absurd h.2.1 (by omega)⟩
  · rw [if_neg hlength, Option.map_eq_some_iff]
    simp only [readDigits_eq_some_iff]
    constructor
    · rintro ⟨_, ⟨hcs, rfl, -⟩, rfl⟩
      exact ⟨hcs, by omega, rfl⟩
    · rintro ⟨hcs, -, rfl⟩
      refine ⟨_, ⟨hcs, rfl, ?_⟩, rfl⟩
      have hlt := Integer.number_lt hcs.digits
      have hpow : 10 ^ cs.length ≤ 10 ^ 7 := Nat.pow_le_pow_right (by omega) (by omega)
      omega

theorem readHours_headText {ds : Option (List Char)} {hs : List Char}
    (hds : ∀ d ∈ ds, IsNumeral d) (hdays : number (ds.getD []) ≤ 2 ^ 64 - 1) (hhs : IsNumeral hs)
    (hle : number hs ≤ 2 ^ 64 - 1) :
    readHours (Clock.headText ds hs) = some (number (ds.getD []), number hs) := by
  have hhours : readDigits hs = some (number hs) := readDigits_eq_some_iff.2 ⟨hhs, rfl, hle⟩
  cases ds with
  | none =>
    have hcut : Text.cut '.' hs = none := Text.cut_eq_none_iff.2 (hhs.not_mem rfl)
    rw [Clock.headText, readHours, hcut, hhours]
    rfl
  | some ds =>
    have hds : IsNumeral ds := hds ds rfl
    rw [Clock.headText, readHours, Text.cut_append (hds.not_mem rfl)]
    dsimp only
    rw [readDigits_eq_some_iff.2 ⟨hds, rfl, hdays⟩, hhours]
    rfl

theorem exists_of_readHours {days hours : Nat} (h : readHours cs = some (days, hours)) :
    ∃ ds hs, cs = Clock.headText ds hs ∧ (∀ d ∈ ds, IsNumeral d) ∧ IsNumeral hs ∧
      number (ds.getD []) = days ∧ number hs = hours := by
  rw [readHours] at h
  split at h
  · obtain ⟨n, hn, h⟩ := Option.bind_eq_some_iff.1 h
    cases h
    obtain ⟨hcs, rfl, -⟩ := readDigits_eq_some_iff.1 hn
    exact ⟨none, cs, rfl, nofun, hcs, rfl, rfl⟩
  · next ds hs hcut =>
    obtain ⟨n, hn, h⟩ := Option.bind_eq_some_iff.1 h
    obtain ⟨m, hm, h⟩ := Option.bind_eq_some_iff.1 h
    cases h
    obtain ⟨hds, rfl, -⟩ := readDigits_eq_some_iff.1 hn
    obtain ⟨hhs, rfl, -⟩ := readDigits_eq_some_iff.1 hm
    refine ⟨some ds, hs, (Text.cut_eq_some hcut).1, ?_, hhs, rfl, rfl⟩
    rintro _ ⟨⟩
    exact hds

/-- The nanoseconds that the digits of a fraction stand for. -/
def nanosOf (fraction : List Char) : Nat := number fraction * 10 ^ (9 - fraction.length)

theorem readSeconds_tailText {ws : List Char} {fs : Option (List Char)} (hws : IsNumeral ws)
    (hle : number ws ≤ 2 ^ 64 - 1) (hfs : ∀ f ∈ fs, IsNumeral f)
    (hlength : (fs.getD []).length ≤ 7) :
    readSeconds (Clock.tailText ws fs) = some (number ws, nanosOf (fs.getD [])) := by
  have hwhole : readDigits ws = some (number ws) := readDigits_eq_some_iff.2 ⟨hws, rfl, hle⟩
  cases fs with
  | none =>
    have hcut : Text.cut '.' ws = none := Text.cut_eq_none_iff.2 (hws.not_mem rfl)
    rw [Clock.tailText, readSeconds, hcut, hwhole]
    rfl
  | some fs =>
    have hfs : IsNumeral fs := hfs fs rfl
    rw [Clock.tailText, readSeconds, Text.cut_append (hws.not_mem rfl)]
    dsimp only
    rw [hwhole, readFraction_eq_some_iff.2 ⟨hfs, hlength, rfl⟩]
    rfl

theorem exists_of_readSeconds {seconds nanos : Nat} (h : readSeconds cs = some (seconds, nanos)) :
    ∃ ws fs, cs = Clock.tailText ws fs ∧ IsNumeral ws ∧ (∀ f ∈ fs, IsNumeral f ∧ f.length ≤ 7) ∧
      number ws = seconds ∧ nanosOf (fs.getD []) = nanos := by
  rw [readSeconds] at h
  split at h
  · obtain ⟨n, hn, h⟩ := Option.bind_eq_some_iff.1 h
    cases h
    obtain ⟨hcs, rfl, -⟩ := readDigits_eq_some_iff.1 hn
    exact ⟨cs, none, rfl, hcs, nofun, rfl, rfl⟩
  · next ws fs hcut =>
    obtain ⟨n, hn, h⟩ := Option.bind_eq_some_iff.1 h
    obtain ⟨m, hm, h⟩ := Option.bind_eq_some_iff.1 h
    cases h
    obtain ⟨hws, rfl, -⟩ := readDigits_eq_some_iff.1 hn
    obtain ⟨hfs, hlength, rfl⟩ := readFraction_eq_some_iff.1 hm
    refine ⟨ws, some fs, (Text.cut_eq_some hcut).1, hws, ?_, rfl, rfl⟩
    rintro _ ⟨⟩
    exact ⟨hfs, hlength⟩

/-! ## Putting the parts together -/

theorem of?_eq_some_iff {seconds nanos : Nat} :
    of? seconds nanos = some t ↔ t.seconds = seconds ∧ t.nanos = nanos := by
  rw [of?]
  split
  · obtain ⟨s, n, hs, hn⟩ := t
    rw [Option.some.injEq, Duration.mk.injEq, eq_comm, @eq_comm _ nanos]
  · next hbounds =>
    refine ⟨nofun, ?_⟩
    rintro ⟨rfl, rfl⟩
    exact absurd ⟨t.seconds_le, t.nanos_lt⟩ hbounds

theorem ofClock_eq_some_iff {days hours minutes seconds nanos : Nat} :
    ofClock days hours minutes seconds nanos = some t ↔
      (hours ≤ 23 ∧ minutes ≤ 59 ∧ seconds ≤ 59) ∧
        t.seconds = days * 86400 + hours * 3600 + minutes * 60 + seconds ∧ t.nanos = nanos := by
  rw [ofClock, Option.ite_none_right_eq_some, of?_eq_some_iff, secondsPerDay]
  simp only [Nat.lt_succ_iff]

theorem nanos_eq_iff {fraction : List Char} (h : fraction.length ≤ 7) :
    n * 10 ^ fraction.length = number fraction * 10 ^ 9 ↔ n = nanosOf fraction := by
  have hpow : 10 ^ 9 = 10 ^ (9 - fraction.length) * 10 ^ fraction.length := by
    rw [← Nat.pow_add]
    congr 1
    omega
  rw [nanosOf, hpow, ← Nat.mul_assoc, Nat.mul_left_inj (by simp)]

/-- Days and hours consist of digits and a point. -/
theorem isDigit_or_of_mem_headText {ds : Option (List Char)} {hs : List Char}
    (hds : ∀ d ∈ ds, IsNumeral d) (hhs : IsNumeral hs) :
    ∀ c ∈ Clock.headText ds hs, c.isDigit = true ∨ c = '.' := by
  intro c hc
  cases ds with
  | none => exact .inl (hhs.digits c hc)
  | some ds =>
    rcases List.mem_append.1 hc with hc | hc
    · exact .inl ((hds ds rfl).digits c hc)
    · exact (List.mem_cons.1 hc).symm.imp_left (hhs.digits c)

/-- Seconds and their fraction consist of digits and a point. -/
theorem isDigit_or_of_mem_tailText {ws : List Char} {fs : Option (List Char)}
    (hws : IsNumeral ws) (hfs : ∀ f ∈ fs, IsNumeral f) :
    ∀ c ∈ Clock.tailText ws fs, c.isDigit = true ∨ c = '.' := by
  intro c hc
  cases fs with
  | none => exact .inl (hws.digits c hc)
  | some fs =>
    rcases List.mem_append.1 hc with hc | hc
    · exact .inl (hws.digits c hc)
    · exact (List.mem_cons.1 hc).symm.imp_left ((hfs fs rfl).digits c)

/-- The pieces of a time of day between colons. -/
theorem pieces_text {c : Clock} (h : c.HasNumerals) :
    Text.pieces ':' c.text = Clock.headText c.days c.hours :: c.minutes ::
      (c.seconds.map fun s => Clock.tailText s.1 s.2).toList := by
  obtain ⟨days, hours, minutes, seconds⟩ := c
  obtain ⟨hdays, hhours, hminutes, hwhole, hfraction⟩ := h
  have hhead : ':' ∉ Clock.headText days hours := fun hmem => by
    simpa using isDigit_or_of_mem_headText hdays hhours ':' hmem
  cases seconds with
  | none =>
    rw [Clock.text, Text.pieces_append hhead, Text.pieces_of_not_mem (hminutes.not_mem rfl)]
    rfl
  | some s =>
    obtain ⟨ws, fs⟩ := s
    have htail : ':' ∉ Clock.tailText ws fs := fun hmem => by
      simpa using isDigit_or_of_mem_tailText (hwhole _ rfl) (hfraction _ rfl) ':' hmem
    rw [Clock.text, Text.pieces_append hhead, Text.pieces_append (hminutes.not_mem rfl),
      Text.pieces_of_not_mem htail]
    rfl

/-- What is written in a valid way is read. -/
theorem read_of_isValid {text : String} {s : Spelling} (h : s.IsValid)
    (htext : Text.trimChars text.toList = s.text) (hdenotes : s.Denotes t) :
    read text = some t := by
  obtain ⟨hseconds, hnanos⟩ := hdenotes
  rw [read, htext]
  cases h with
  | @days digits numeral fits =>
    have hdigits : readDigits digits = some (number digits) :=
      readDigits_eq_some_iff.2 ⟨numeral, rfl, by omega⟩
    rw [Spelling.text, Text.pieces_of_not_mem (numeral.not_mem rfl)]
    simp only [hdigits, Option.bind_eq_bind, Option.bind_some]
    exact of?_eq_some_iff.2 ⟨hseconds, by simpa [Spelling.fraction] using hnanos⟩
  | @clock c numerals hours minutes whole fraction fits =>
    rw [Spelling.fraction, nanos_eq_iff fraction] at hnanos
    rw [Spelling.text, pieces_text numerals]
    obtain ⟨hdays, hhours, hminutes, hwhole, hfraction⟩ := numerals
    have htotal : c.total = number (c.days.getD []) * 86400 + number c.hours * 3600 +
      number c.minutes * 60 + number c.whole := rfl
    have hhead := readHours_headText hdays (by omega) hhours (by omega)
    have hmiddle : readDigits c.minutes = some (number c.minutes) :=
      readDigits_eq_some_iff.2 ⟨hminutes, rfl, by omega⟩
    cases hs : c.seconds with
    | none =>
      simp only [Option.map_none, Option.toList_none, hhead, hmiddle, Option.bind_eq_bind,
        Option.bind_some]
      refine ofClock_eq_some_iff.2 ⟨⟨hours, minutes, by omega⟩, ?_, ?_⟩
      · simpa [Spelling.total, Clock.total, Clock.whole, hs] using hseconds
      · simpa [Clock.fraction, hs, nanosOf] using hnanos
    | some s =>
      obtain ⟨ws, fs⟩ := s
      have hwholes : c.whole = ws := by rw [Clock.whole, hs]; rfl
      have hfractions : c.fraction = fs.getD [] := by rw [Clock.fraction, hs]; rfl
      rw [hwholes] at whole
      rw [hfractions] at fraction hnanos
      have hws : IsNumeral ws := hwhole _ hs
      have htail := readSeconds_tailText hws (by omega) (hfraction _ hs) fraction
      simp only [Option.map_some, Option.toList_some, hhead, hmiddle, htail, Option.bind_eq_bind,
        Option.bind_some]
      refine ofClock_eq_some_iff.2 ⟨⟨hours, minutes, whole⟩, ?_, hnanos⟩
      rw [hseconds, Spelling.total, htotal, hwholes]

/-- What is read is written in a valid way. -/
theorem exists_of_read {text : String} (h : read text = some t) :
    ∃ s : Spelling, Text.trimChars text.toList = s.text ∧ s.IsValid ∧ s.Denotes t := by
  have hseconds := t.seconds_le
  rw [read] at h
  have hjoin := Text.join_pieces ':' (Text.trimChars text.toList)
  split at h
  · next days hpieces =>
    rw [hpieces] at hjoin
    obtain ⟨n, hn, h⟩ := Option.bind_eq_some_iff.1 h
    obtain ⟨hdays, rfl, -⟩ := readDigits_eq_some_iff.1 hn
    obtain ⟨htotal, hnanos⟩ := of?_eq_some_iff.1 h
    refine ⟨.days days, hjoin.symm, .days hdays ?_, htotal, by simp [Spelling.fraction, hnanos]⟩
    rw [← secondsPerDay, ← htotal]
    exact hseconds
  · next head minutes hpieces =>
    rw [hpieces] at hjoin
    obtain ⟨⟨d, k⟩, hhead, h⟩ := Option.bind_eq_some_iff.1 h
    obtain ⟨m, hm, h⟩ := Option.bind_eq_some_iff.1 h
    obtain ⟨ds, hs, rfl, hds, hhs, rfl, rfl⟩ := exists_of_readHours hhead
    obtain ⟨hminutes, rfl, -⟩ := readDigits_eq_some_iff.1 hm
    obtain ⟨⟨hhour, hminute, -⟩, htotal, hnanos⟩ := ofClock_eq_some_iff.1 h
    refine ⟨.clock ⟨ds, hs, minutes, none⟩, hjoin.symm,
      .clock ⟨hds, hhs, hminutes, nofun, nofun⟩ hhour hminute (by simp [Clock.whole])
        (by simp [Clock.fraction]) ?_, htotal, ?_⟩
    · exact Nat.le_trans (Nat.le_of_eq htotal.symm) hseconds
    · simp [Spelling.fraction, Clock.fraction, hnanos]
  · next head minutes seconds hpieces =>
    rw [hpieces] at hjoin
    obtain ⟨⟨d, k⟩, hhead, h⟩ := Option.bind_eq_some_iff.1 h
    obtain ⟨⟨w, f⟩, htail, h⟩ := Option.bind_eq_some_iff.1 h
    obtain ⟨m, hm, h⟩ := Option.bind_eq_some_iff.1 h
    obtain ⟨ds, hs, rfl, hds, hhs, rfl, rfl⟩ := exists_of_readHours hhead
    obtain ⟨ws, fs, rfl, hws, hfs, rfl, rfl⟩ := exists_of_readSeconds htail
    obtain ⟨hminutes, rfl, -⟩ := readDigits_eq_some_iff.1 hm
    obtain ⟨⟨hhour, hminute, hwhole⟩, htotal, hnanos⟩ := ofClock_eq_some_iff.1 h
    have hlength : (fs.getD []).length ≤ 7 := by
      cases fs with
      | none => simp
      | some fs => exact (hfs fs rfl).2
    refine ⟨.clock ⟨ds, hs, minutes, some (ws, fs)⟩, hjoin.symm,
      .clock ⟨hds, hhs, hminutes, ?_, ?_⟩ hhour hminute hwhole hlength ?_, htotal,
      (nanos_eq_iff hlength).2 hnanos⟩
    · rintro _ ⟨⟩
      exact hws
    · rintro _ ⟨⟩ f hf
      exact (hfs f hf).1
    · exact Nat.le_trans (Nat.le_of_eq htotal.symm) hseconds
  · cases h

/-- **Which texts are durations**, and which durations they are. -/
theorem read_eq_some_iff {text : String} : read text = some t ↔
    ∃ s : Spelling, Text.trimChars text.toList = s.text ∧ s.IsValid ∧ s.Denotes t :=
  ⟨exists_of_read, fun ⟨_, htext, hvalid, hdenotes⟩ => read_of_isValid hvalid htext hdenotes⟩

theorem Clock.HasNumerals.isDigit_fraction {c : Clock} (h : c.HasNumerals) :
    ∀ d ∈ c.fraction, d.isDigit = true := by
  obtain ⟨days, hours, minutes, _ | ⟨ws, _ | fs⟩⟩ := c
  · exact nofun
  · exact nofun
  · exact (h.fraction _ rfl fs rfl).digits

/-- Every valid spelling says a duration. -/
theorem Spelling.IsValid.exists_denotes {s : Spelling} (h : s.IsValid) : ∃ t, s.Denotes t := by
  cases h with
  | @days digits numeral fits =>
    exact ⟨⟨number digits * 86400, 0, fits, by omega⟩, rfl, by simp [Spelling.fraction]⟩
  | @clock c numerals hours minutes whole fraction fits =>
    have hlt := fraction_lt numerals.isDigit_fraction fraction
    exact ⟨⟨c.total, nanosOf c.fraction, fits, hlt⟩, rfl, (nanos_eq_iff fraction).2 rfl⟩

/-! ## Words -/

/-- The nanoseconds of a fraction in a word of 32 bits that wraps around. -/
def nanosWord (fraction : List Char) : UInt32 :=
  UInt32.ofNat (number fraction) * UInt32.ofNat (10 ^ (9 - fraction.length))

/-- The duration of a clock reading in words that wrap around; the ranges of the parts, the seconds
in the days and the sum with them are checked. -/
def ofClockWords (days hours minutes seconds : UInt64) (nanos : UInt32) : Option Duration :=
  let today := hours * 3600 + minutes * 60 + seconds
  if (hours ≤ 23 ∧ minutes ≤ 59 ∧ seconds ≤ 59) ∧ days.toNat * 86400 < 2 ^ 64 ∧
      (days * 86400).toNat + today.toNat < 2 ^ 64 then
    of? (days * 86400 + today).toNat nanos.toNat
  else none

/-- No product of a fraction wraps around. -/
theorem toNat_nanosWord (h : ∀ c ∈ cs, c.isDigit = true) (hlength : cs.length ≤ 7) :
    (nanosWord cs).toNat = nanosOf cs := by
  have hlt := fraction_lt h hlength
  have hpow : 10 ^ (9 - cs.length) ≤ 10 ^ 9 := Nat.pow_le_pow_right (by omega) (by omega)
  have hnumber : number cs ≤ number cs * 10 ^ (9 - cs.length) :=
    Nat.le_mul_of_pos_right _ (Nat.pow_pos (by omega))
  rw [nanosWord, UInt32.toNat_mul, UInt32.toNat_ofNat', UInt32.toNat_ofNat',
    Nat.mod_eq_of_lt (a := number cs) (by omega), Nat.mod_eq_of_lt (a := 10 ^ _) (by omega),
    Nat.mod_eq_of_lt (by omega), nanosOf]

theorem toNat_today {hours minutes seconds : UInt64} (hhours : hours.toNat ≤ 23)
    (hminutes : minutes.toNat ≤ 59) (hseconds : seconds.toNat ≤ 59) :
    (hours * 3600 + minutes * 60 + seconds).toNat =
      hours.toNat * 3600 + minutes.toNat * 60 + seconds.toNat := by
  simp only [UInt64.toNat_add, UInt64.toNat_mul, UInt64.reduceToNat]
  omega

/-- **No sum of a clock reading wraps around.** -/
theorem ofClockWords_eq (days hours minutes seconds : UInt64) (nanos : UInt32) :
    ofClockWords days hours minutes seconds nanos =
      ofClock days.toNat hours.toNat minutes.toNat seconds.toNat nanos.toNat := by
  refine Option.ext fun t => ?_
  rw [ofClock_eq_some_iff, ofClockWords, Option.ite_none_right_eq_some, of?_eq_some_iff, and_assoc]
  have hranges : (hours ≤ 23 ∧ minutes ≤ 59 ∧ seconds ≤ 59) ↔
      (hours.toNat ≤ 23 ∧ minutes.toNat ≤ 59 ∧ seconds.toNat ≤ 59) := by
    simp only [UInt64.le_iff_toNat_le, UInt64.reduceToNat]
  rw [hranges]
  refine and_congr_right fun ⟨hhours, hminutes, hseconds⟩ => ?_
  have htoday := toNat_today hhours hminutes hseconds
  have hproduct : (days * 86400).toNat = days.toNat * 86400 % 2 ^ 64 := by
    simp only [UInt64.toNat_mul, UInt64.reduceToNat]
  have hsum : (days * 86400 + (hours * 3600 + minutes * 60 + seconds)).toNat =
      ((days * 86400).toNat + (hours * 3600 + minutes * 60 + seconds).toNat) % 2 ^ 64 :=
    UInt64.toNat_add ..
  rw [hsum, hproduct, htoday]
  have hmax : t.seconds ≤ 2 ^ 64 - 1 := t.seconds_le
  omega

/-! ## Texts without blank characters -/

/-- Digits, points and colons are not blank. -/
theorem isBlank_eq_false {c : Char} (h : c.isDigit = true ∨ c = '.' ∨ c = ':') :
    Text.isBlank c = false := by
  rcases h with h | rfl | rfl
  · exact Integer.isBlank_eq_false_of_isDigit h
  · rfl
  · rfl

/-- A valid spelling has digits, points and colons only. -/
theorem Spelling.IsValid.isMark {s : Spelling} (h : s.IsValid) :
    ∀ c ∈ s.text, c.isDigit = true ∨ c = '.' ∨ c = ':' := by
  cases h with
  | days numeral => exact fun c hc => .inl (numeral.digits c hc)
  | @clock c numerals =>
    obtain ⟨days, hours, minutes, seconds⟩ := c
    obtain ⟨hdays, hhours, hminutes, hwhole, hfraction⟩ := numerals
    have hhead := isDigit_or_of_mem_headText hdays hhours
    intro c hc
    cases seconds with
    | none =>
      rcases List.mem_append.1 hc with hc | hc
      · exact (hhead c hc).imp_right .inl
      · rcases List.mem_cons.1 hc with rfl | hc
        · exact .inr (.inr rfl)
        · exact .inl (hminutes.digits c hc)
    | some s =>
      have htail := isDigit_or_of_mem_tailText (hwhole s rfl) (hfraction s rfl)
      rcases List.mem_append.1 hc with hc | hc
      · exact (hhead c hc).imp_right .inl
      · rcases List.mem_cons.1 hc with rfl | hc
        · exact .inr (.inr rfl)
        · rcases List.mem_append.1 hc with hc | hc
          · exact .inl (hminutes.digits c hc)
          · rcases List.mem_cons.1 hc with rfl | hc
            · exact .inr (.inr rfl)
            · exact (htail c hc).imp_right .inl

theorem Spelling.IsValid.trimChars_text {s : Spelling} (h : s.IsValid) :
    Text.trimChars s.text = s.text :=
  Text.trimChars_eq_self fun c hc => isBlank_eq_false (h.isMark c hc)

/-- A valid spelling by itself is read as what it says. -/
theorem read_text {s : Spelling} (h : s.IsValid) (hdenotes : s.Denotes t) :
    read (String.ofList s.text) = some t :=
  read_of_isValid h (by rw [String.toList_ofList, h.trimChars_text]) hdenotes

/-! ## Zeros in front -/

/-- A clock reading with zeros in front of its days, hours, minutes and seconds. -/
def Clock.zeroed (k : Nat) (c : Clock) : Clock where
  days := c.days.map (List.replicate k '0' ++ ·)
  hours := List.replicate k '0' ++ c.hours
  minutes := List.replicate k '0' ++ c.minutes
  seconds := c.seconds.map fun s => (List.replicate k '0' ++ s.1, s.2)

/-- A spelling with zeros in front of all but the fraction. -/
def Spelling.zeroed (k : Nat) : Spelling → Spelling
  | days digits => days (List.replicate k '0' ++ digits)
  | clock c => clock (c.zeroed k)

theorem Clock.fraction_zeroed (k : Nat) (c : Clock) : (c.zeroed k).fraction = c.fraction := by
  obtain ⟨days, hours, minutes, _ | s⟩ := c <;> rfl

theorem Clock.whole_zeroed (k : Nat) (c : Clock) :
    number (c.zeroed k).whole = number c.whole := by
  obtain ⟨days, hours, minutes, _ | s⟩ := c
  · rfl
  · exact Integer.number_replicate_append k s.1

theorem Clock.total_zeroed (k : Nat) (c : Clock) : (c.zeroed k).total = c.total := by
  have hdays : number ((c.zeroed k).days.getD []) = number (c.days.getD []) := by
    obtain ⟨_ | ds, hours, minutes, seconds⟩ := c
    · rfl
    · exact Integer.number_replicate_append k ds
  rw [Clock.total, Clock.total, hdays, whole_zeroed, zeroed, Integer.number_replicate_append,
    Integer.number_replicate_append]

theorem Clock.HasNumerals.zeroed {c : Clock} (h : c.HasNumerals) (k : Nat) :
    (c.zeroed k).HasNumerals := by
  obtain ⟨days, hours, minutes, seconds⟩ := c
  obtain ⟨hdays, hhours, hminutes, hwhole, hfraction⟩ := h
  refine ⟨?_, hhours.replicate_append k, hminutes.replicate_append k, ?_, ?_⟩
  · rintro _ hds
    obtain ⟨ds, rfl, rfl⟩ := Option.map_eq_some_iff.1 hds
    exact (hdays ds rfl).replicate_append k
  · rintro _ hs
    obtain ⟨s, rfl, rfl⟩ := Option.map_eq_some_iff.1 hs
    exact (hwhole s rfl).replicate_append k
  · rintro _ hs
    obtain ⟨s, rfl, rfl⟩ := Option.map_eq_some_iff.1 hs
    exact hfraction s rfl

theorem Spelling.IsValid.zeroed {s : Spelling} (h : s.IsValid) (k : Nat) :
    (s.zeroed k).IsValid := by
  cases h with
  | days numeral fits =>
    refine .days (numeral.replicate_append k) ?_
    rwa [Integer.number_replicate_append]
  | @clock c numerals hours minutes whole fraction fits =>
    refine .clock (numerals.zeroed k) ?_ ?_ ?_ ?_ ?_
    · rwa [Clock.zeroed, Integer.number_replicate_append]
    · rwa [Clock.zeroed, Integer.number_replicate_append]
    · rwa [Clock.whole_zeroed]
    · rwa [Clock.fraction_zeroed]
    · rwa [Clock.total_zeroed]

theorem Spelling.Denotes.zeroed {s : Spelling} (h : s.Denotes t) (k : Nat) :
    (s.zeroed k).Denotes t := by
  obtain ⟨hseconds, hnanos⟩ := h
  cases s with
  | days digits =>
    refine ⟨hseconds.trans ?_, hnanos⟩
    rw [total, Spelling.zeroed, total, Integer.number_replicate_append]
  | clock c =>
    refine ⟨hseconds.trans ?_, ?_⟩
    · rw [total, Spelling.zeroed, total, Clock.total_zeroed]
    · rwa [Spelling.zeroed, fraction, Clock.fraction_zeroed]

/-! ## Writing -/

/-- The digits of a duration: days, two for the hours, minutes and seconds, and seven for ticks of a
hundred nanoseconds. -/
def spelled (t : Duration) : Clock where
  days := some (Nat.toDigits 10 (t.seconds / 86400))
  hours := Digits.padded 2 (t.seconds % 86400 / 3600)
  minutes := Digits.padded 2 (t.seconds % 3600 / 60)
  seconds := some (Digits.padded 2 (t.seconds % 60), some (Digits.padded 7 (t.nanos / 100)))

/-- The text `d.hh:mm:ss.fffffff` of a duration. -/
def written (t : Duration) : String :=
  toString (t.seconds / 86400) ++ "." ++ String.ofList (Digits.padded 2 (t.seconds % 86400 / 3600)) ++
    ":" ++ String.ofList (Digits.padded 2 (t.seconds % 3600 / 60)) ++
    ":" ++ String.ofList (Digits.padded 2 (t.seconds % 60)) ++
    "." ++ String.ofList (Digits.padded 7 (t.nanos / 100))

theorem written_eq (t : Duration) : written t = String.ofList t.spelled.text := by
  refine String.toList_inj.1 ?_
  simp [written, spelled, Clock.text, Clock.headText, Clock.tailText]

theorem total_spelled (t : Duration) : t.spelled.total = t.seconds := by
  have hdays : number (Nat.toDigits 10 (t.seconds / 86400)) = t.seconds / 86400 :=
    Nat.ofDigitChars_ten_toDigits
  simp only [Clock.total, Clock.whole, spelled, Option.getD_some, Option.map_some, hdays,
    Digits.number_padded]
  omega

theorem length_fraction_spelled (t : Duration) : t.spelled.fraction.length = 7 := by
  have hlt := t.nanos_lt
  exact Digits.length_padded (by omega) (by omega)

theorem isValid_spelled (t : Duration) : Spelling.IsValid (.clock t.spelled) := by
  refine .clock ⟨?_, Digits.isNumeral_padded .., Digits.isNumeral_padded .., ?_, ?_⟩ ?_ ?_ ?_ ?_ ?_
  · rintro _ ⟨⟩
    exact Digits.isNumeral_toDigits _
  · rintro _ ⟨⟩
    exact Digits.isNumeral_padded ..
  · rintro _ ⟨⟩ _ ⟨⟩
    exact Digits.isNumeral_padded ..
  · rw [spelled, Digits.number_padded]
    omega
  · rw [spelled, Digits.number_padded]
    omega
  · change number (Digits.padded 2 (t.seconds % 60)) ≤ 59
    rw [Digits.number_padded]
    omega
  · exact Nat.le_of_eq (length_fraction_spelled t)
  · rw [total_spelled]
    exact t.seconds_le

theorem denotes_spelled (h : t.nanos % 100 = 0) : Spelling.Denotes (.clock t.spelled) t where
  seconds := (total_spelled t).symm
  nanos := by
    have hnumber : number t.spelled.fraction = t.nanos / 100 := Digits.number_padded ..
    rw [Spelling.fraction, length_fraction_spelled, hnumber]
    omega

/-- **Durations of whole ticks are read back.** -/
theorem read_written (h : t.nanos % 100 = 0) : read t.written = some t := by
  rw [written_eq]
  exact read_text (s := .clock t.spelled) (isValid_spelled t) (denotes_spelled h)

/-! ## The grammar -/

/-- **Durations are read exactly as they are written.**  A text is read if and only if, without the
blank characters around it, it is a valid spelling, and then as the duration that this denotes.
Zeros in front do not matter.  Fractions are below a second, and words that wrap around compute the
same.  Durations of whole ticks, written in full, are read back. -/
theorem read_grammar (text : String) :
    (∀ t, read text = some t ↔
      ∃ s : Spelling, Text.trim text = String.ofList s.text ∧ s.IsValid ∧ s.Denotes t) ∧
    ((read text).isSome = true ↔
      ∃ s : Spelling, Text.trim text = String.ofList s.text ∧ s.IsValid) ∧
    (∀ (s : Spelling) (t : Duration) (k : Nat), s.IsValid → s.Denotes t →
      read (String.ofList (s.zeroed k).text) = some t) ∧
    ((∀ fraction nanos, readFraction fraction = some nanos →
        nanos < 1000000000 ∧ (nanosWord fraction).toNat = nanos) ∧
      ∀ days hours minutes seconds nanos,
        ofClockWords days hours minutes seconds nanos =
          ofClock days.toNat hours.toNat minutes.toNat seconds.toNat nanos.toNat) ∧
    ∀ t : Duration, t.nanos % 100 = 0 → read t.written = some t := by
  have htrim : ∀ s : Spelling, Text.trim text = String.ofList s.text ↔
      Text.trimChars text.toList = s.text := by
    intro s
    rw [Text.trim, String.ofList_inj]
  refine ⟨fun t => ?_, ⟨fun hread => ?_, ?_⟩, fun s t k hvalid hdenotes => ?_,
    ⟨fun fraction nanos hread => ?_, ofClockWords_eq⟩, fun t => read_written⟩
  · simp only [htrim]
    exact read_eq_some_iff
  · obtain ⟨t, ht⟩ := Option.isSome_iff_exists.1 hread
    obtain ⟨s, htext, hvalid, -⟩ := exists_of_read ht
    exact ⟨s, (htrim s).2 htext, hvalid⟩
  · rintro ⟨s, htext, hvalid⟩
    obtain ⟨t, hdenotes⟩ := hvalid.exists_denotes
    rw [read_of_isValid hvalid ((htrim s).1 htext) hdenotes]
    rfl
  · exact read_text (hvalid.zeroed k) (hdenotes.zeroed k)
  · obtain ⟨hfraction, hlength, rfl⟩ := readFraction_eq_some_iff.1 hread
    exact ⟨fraction_lt hfraction.digits hlength, toNat_nanosWord hfraction.digits hlength⟩

/-! ## A full reading -/

/-- One day, two hours, three minutes and four and a half seconds. -/
def halfSecond : Duration := ⟨93784, 500000000, by decide, by decide⟩

/-- A duration that is written with blanks around it and a short fraction, one with zeros in front,
and one that is written in full. -/
theorem read_grammar_halfSecond :
    read " 1.02:03:04.5\t" = some halfSecond ∧ read "0001.00002:00003:00004.5" = some halfSecond ∧
      read "1.02:03:04.5000000" = some halfSecond := by
  have hparts : Spelling.IsValid (.clock ⟨some ['1'], ['0', '2'], ['0', '3'],
      some (['0', '4'], some ['5'])⟩) := by
    have hnumeral : ∀ cs : List Char, cs ≠ [] → cs.all Char.isDigit = true → IsNumeral cs :=
      fun cs hne hall => ⟨hne, List.all_eq_true.1 hall⟩
    refine .clock ⟨?_, hnumeral _ nofun rfl, hnumeral _ nofun rfl, ?_, ?_⟩ (by decide) (by decide)
      (by decide) (by decide) (by decide)
    · rintro _ ⟨⟩
      exact hnumeral _ nofun rfl
    · rintro _ ⟨⟩
      exact hnumeral _ nofun rfl
    · rintro _ ⟨⟩ _ ⟨⟩
      exact hnumeral _ nofun rfl
  have hdenotes : Spelling.Denotes (.clock ⟨some ['1'], ['0', '2'], ['0', '3'],
      some (['0', '4'], some ['5'])⟩) halfSecond := ⟨by decide, by decide⟩
  refine ⟨?_, ?_, ?_⟩
  · exact ((read_grammar " 1.02:03:04.5\t").1 halfSecond).2
      ⟨_, by decide +kernel, hparts, hdenotes⟩
  · have hzeroed := (read_grammar "").2.2.1 _ halfSecond 3 hparts hdenotes
    rwa [show String.ofList _ = "0001.00002:00003:00004.5" by decide +kernel] at hzeroed
  · have hfull := (read_grammar "").2.2.2.2 halfSecond (by decide)
    rwa [show halfSecond.written = "1.02:03:04.5000000" by decide +kernel] at hfull

end Duration

end LogBinder
