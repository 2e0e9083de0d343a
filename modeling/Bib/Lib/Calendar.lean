import Bib.Lib.Json.Literal
import Mathlib.Data.List.DropRight
import Mathlib.Tactic.Ring

/-!
# Bib.Lib.Calendar

**Dates, times of day and their text in RFC 3339.** Moments are counted in nanoseconds since
1970-01-01T00:00:00Z, days since 0001-01-01, both in the proleptic Gregorian calendar and without leap seconds.
`toDays_ofDays` is that a day is found again from its date; on it rests that a moment written in RFC 3339 is
read back (`parse_format`).
-/

namespace Bib.Lib.Calendar

open Json List

/-! ### Days -/

def isLeap (year : Int) : Bool := year % 4 = 0 && (year % 100 ≠ 0 || year % 400 = 0)

def monthLengths (leap : Bool) : List Nat :=
  [31, if leap then 29 else 28, 31, 30, 31, 30, 31, 31, 30, 31, 30, 31]

/-- A date; months and days count from 1. -/
structure Date where
  year : Int
  (month day : Nat)

/-- The days from 0001-01-01 to the first of January of the year. -/
def daysBeforeYear (year : Int) : Int :=
  365 * (year - 1) + (year - 1) / 4 - (year - 1) / 100 + (year - 1) / 400

/-- The year of a day, and how many days of the year have passed. The last day of a cycle of
400 or of 4 years belongs to its last part, which is one day longer. -/
def yearDay (days : Int) : Int × Nat :=
  let n400 := days / 146097
  let d400 := (days % 146097).toNat
  let n100 := d400 / 36524 - d400 / 36524 / 4
  let d100 := d400 - 36524 * n100
  let n4 := d100 / 1461
  let d4 := d100 - 1461 * n4
  let n := d4 / 365 - d4 / 365 / 4
  (400 * n400 + 100 * n100 + 4 * n4 + n + 1, d4 - 365 * n)

/-- How many months have passed, and how many days of the next one. -/
def monthDay : List Nat → Nat → Nat × Nat
  | [], d => (0, d)
  | length :: rest, d =>
    if d < length then (0, d) else ((monthDay rest (d - length)).1 + 1, (monthDay rest (d - length)).2)

def ofDays (days : Int) : Date :=
  let year := (yearDay days).1
  let md := monthDay (monthLengths (isLeap year)) (yearDay days).2
  { year, month := md.1 + 1, day := md.2 + 1 }

def Date.toDays (date : Date) : Int :=
  daysBeforeYear date.year +
    ((monthLengths (isLeap date.year)).take (date.month - 1)).sum + (date.day - 1)

def Date.daysIn (date : Date) : Nat := (monthLengths (isLeap date.year)).getD (date.month - 1) 0

/-! ### A day is found again -/

/-- At most three parts are cut off; what is left is longer by one day only after the third. -/
theorem cut_century {d : Nat} (hd : d < 146097) :
    ∃ q r, d / 36524 - d / 36524 / 4 = q ∧ d - 36524 * q = r ∧ d = 36524 * q + r ∧ q ≤ 3 ∧
      (r < 36524 ∨ r = 36524 ∧ q = 3) := by
  refine ⟨_, _, rfl, rfl, ?_, ?_, ?_⟩ <;> omega

theorem cut_year {d : Nat} (hd : d < 1461) :
    ∃ q r, d / 365 - d / 365 / 4 = q ∧ d - 365 * q = r ∧ d = 365 * q + r ∧ q ≤ 3 ∧
      (r < 365 ∨ r = 365 ∧ q = 3) := by
  refine ⟨_, _, rfl, rfl, ?_, ?_, ?_⟩ <;> omega

theorem sum_monthLengths (leap : Bool) : (monthLengths leap).sum = if leap then 366 else 365 := by
  cases leap <;> rfl

theorem yearDay_eq (days : Int) : ∃ (n400 : Int) (n100 n4 n r : Nat),
      yearDay days = (400 * n400 + 100 * n100 + 4 * n4 + n + 1, r) ∧
      days = 146097 * n400 + 36524 * n100 + 1461 * n4 + 365 * n + r ∧
      n100 ≤ 3 ∧ n4 ≤ 24 ∧ n ≤ 3 ∧ r ≤ 365 ∧ (r = 365 → n = 3 ∧ (n4 ≠ 24 ∨ n100 = 3)) := by
  have hd400 : (days % 146097).toNat < 146097 := by omega
  obtain ⟨n100, d100, hn100, hd100, hs100, hle100, hl100⟩ := cut_century hd400
  obtain ⟨n, r, hn, hr, hs, hle, hlast⟩ := cut_year (d := d100 % 1461) (Nat.mod_lt _ (by decide))
  have hd4 : d100 - 1461 * (d100 / 1461) = d100 % 1461 := by omega
  refine ⟨days / 146097, n100, d100 / 1461, n, r, ?_, ?_, hle100, ?_, hle, ?_, ?_⟩
  · simp [yearDay, hn100, hd100, hd4, hn, hr]
  · omega
  · omega
  · omega
  · omega

/-- The last year of four is a leap year, unless it ends a century before the last of four. -/
theorem isLeap_last (n400 : Int) {n100 n4 : Nat} (hn4 : n4 ≤ 24) (hc : n4 ≠ 24 ∨ n100 = 3) :
    isLeap (400 * n400 + 100 * n100 + 4 * n4 + (3 : Nat) + 1) = true := by
  have hm : (400 * n400 + 100 * (n100 : Int) + 4 * n4 + (3 : Nat) + 1) % 4 = 0 := by omega
  simp only [isLeap, hm, decide_true, Bool.true_and, Bool.or_eq_true, decide_eq_true_eq]
  rcases hc with hne | rfl
  · left
    omega
  · by_cases hlast : n4 = 24
    · right
      omega
    · left
      omega

theorem yearDay_spec (days : Int) : daysBeforeYear (yearDay days).1 + (yearDay days).2 = days ∧
      (yearDay days).2 < (monthLengths (isLeap (yearDay days).1)).sum := by
  obtain ⟨n400, n100, n4, n, r, heq, hd, hn100, hn4, hn, hr, hlast⟩ := yearDay_eq days
  rw [heq, sum_monthLengths]
  generalize hy : 400 * n400 + 100 * (n100 : Int) + 4 * n4 + n + 1 = year
  constructor
  · simp only [daysBeforeYear]
    omega
  · by_cases hr' : r = 365
    · obtain ⟨rfl, hc⟩ := hlast hr'
      have hl : isLeap year = true := by
        rw [← hy]
        exact isLeap_last n400 hn4 hc
      simp only [hl, if_true]
      omega
    · split <;> omega
theorem monthDay_spec (lengths : List Nat) (d : Nat) (h : d < lengths.sum) :
    (lengths.take (monthDay lengths d).1).sum + (monthDay lengths d).2 = d ∧
      (monthDay lengths d).1 < lengths.length ∧
      (monthDay lengths d).2 < lengths.getD (monthDay lengths d).1 0 := by
  induction lengths generalizing d with
  | nil => simp at h
  | cons length rest ih =>
    rw [sum_cons] at h
    by_cases hlt : d < length
    · simp [monthDay, hlt]
    · obtain ⟨hs, hl, hd⟩ := ih (d - length) (by omega)
      simp only [monthDay, hlt, if_false, take_succ_cons, sum_cons, length_cons, getD_cons_succ]
      refine ⟨?_, ?_, hd⟩
      · omega
      · omega

/-- **A day is found again from its date.** -/
theorem toDays_ofDays (days : Int) : (ofDays days).toDays = days := by
  obtain ⟨hd, hlt⟩ := yearDay_spec days
  obtain ⟨hs, -, -⟩ := monthDay_spec _ _ hlt
  simp only [Date.toDays, ofDays, Nat.add_sub_cancel]
  omega

structure Date.InRange (date : Date) : Prop where
  month_pos : 1 ≤ date.month
  month_le : date.month ≤ 12
  day_pos : 1 ≤ date.day
  day_le : date.day ≤ date.daysIn
  daysIn_le : date.daysIn ≤ 31

theorem monthLengths_le (leap : Bool) (m : Nat) : (monthLengths leap).getD m 0 ≤ 31 := by
  by_cases hm : m < 12
  · revert leap m
    decide
  · rw [getD_eq_getElem?_getD, getElem?_eq_none (by simpa [monthLengths] using hm)]
    decide

theorem ofDays_inRange (days : Int) : (ofDays days).InRange := by
  obtain ⟨-, hlt⟩ := yearDay_spec days
  obtain ⟨-, hm, hd⟩ := monthDay_spec _ _ hlt
  exact
    { month_pos := Nat.le_add_left 1 _
      month_le := hm
      day_pos := Nat.le_add_left 1 _
      day_le := hd
      daysIn_le := monthLengths_le _ _ }

/-! ### Moments -/

/-- A moment, in nanoseconds since 1970, with the offset of its zone in seconds. -/
structure Stamp where
  (nanos offset : Int)
  deriving DecidableEq

/-- The day of 1970-01-01. -/
def epochDay : Int := 719162

structure Civil where
  date : Date
  (hour min sec nano : Nat)

/-- What is shown at a number of nanoseconds since 1970. -/
def civil (nanos : Int) : Civil :=
  let secs := nanos / 1000000000
  let ofDay := (secs % 86400).toNat
  { date := ofDays (secs / 86400 + epochDay)
    hour := ofDay / 3600
    min := ofDay / 60 % 60
    sec := ofDay % 60
    nano := (nanos % 1000000000).toNat }

/-- The nanoseconds since 1970 at which this is shown. -/
def Civil.toNanos (c : Civil) : Int :=
  (((c.date.toDays - epochDay) * 86400 + c.hour * 3600 + c.min * 60 + c.sec) * 1000000000) + c.nano

theorem toNanos_civil (nanos : Int) : (civil nanos).toNanos = nanos := by
  simp only [Civil.toNanos, civil, toDays_ofDays]
  omega

structure Civil.InRange (c : Civil) : Prop where
  date : c.date.InRange
  hour_le : c.hour ≤ 23
  min_le : c.min ≤ 59
  sec_le : c.sec ≤ 59
  nano_lt : c.nano < 1000000000

theorem civil_inRange (nanos : Int) : (civil nanos).InRange where
  date := ofDays_inRange _
  hour_le := by
    simp only [civil]
    omega
  min_le := by
    simp only [civil]
    omega
  sec_le := by
    simp only [civil]
    omega
  nano_lt := by
    simp only [civil]
    omega

/-! ### Writing -/

/-- The last `width` decimal digits. -/
def fixedDigits : Nat → Nat → Text
  | 0, _ => []
  | width + 1, n => fixedDigits width (n / 10) ++ [digit (n % 10)]

/-- A number with at least `width` decimal digits. -/
def padDigits (width n : Nat) : Text := if n < 10 ^ width then fixedDigits width n else natText n

/-- A year with at least four digits. -/
def yearText (year : Int) : Text :=
  (if year < 0 then [0x2d] else []) ++ padDigits 4 year.natAbs

def trimZeros (digits : Text) : Text := digits.rdropWhile (· = 0x30)

/-- The fraction of a second, without zeros at the end. -/
def fractionText (nano : Nat) : Text :=
  if nano = 0 then [] else 0x2e :: trimZeros (fixedDigits 9 nano)

def Stamp.zone (t : Stamp) : Int := t.offset.tdiv 60

def Stamp.zoneText (t : Stamp) : Text :=
  if t.offset = 0 then [0x5a]
  else
    (if t.zone < 0 then 0x2d else 0x2b) ::
      (padDigits 2 (t.zone.natAbs / 60) ++ 0x3a :: fixedDigits 2 (t.zone.natAbs % 60))

def Stamp.civil (t : Stamp) : Civil := Calendar.civil (t.nanos + t.offset * 1000000000)

/-- Date and time of day up to the second. -/
def Civil.secondsText (c : Civil) : Text :=
  yearText c.date.year ++ 0x2d :: fixedDigits 2 c.date.month ++
    0x2d :: fixedDigits 2 c.date.day ++ 0x54 :: fixedDigits 2 c.hour ++
    0x3a :: fixedDigits 2 c.min ++ 0x3a :: fixedDigits 2 c.sec

/-- The layout `RFC3339`. -/
def Stamp.secondsText (t : Stamp) : Text := t.civil.secondsText ++ t.zoneText

/-- The layout `RFC3339Nano`. -/
def Stamp.text (t : Stamp) : Text :=
  t.civil.secondsText ++ (fractionText t.civil.nano ++ t.zoneText)

/-- The text is one of RFC 3339: the year has four digits and the zone less than 24 hours. -/
def Stamp.inRange (t : Stamp) : Bool :=
  0 ≤ t.civil.date.year && t.civil.date.year ≤ 9999 && t.zone.natAbs < 1440

/-- The text of a moment, if RFC 3339 has one. -/
def format (t : Stamp) : Option Text := if t.inRange then some t.text else none

/-! ### Reading -/

/-- Digits with a value in a range. -/
def parseUint (text : Text) (low high : Nat) : Option Nat :=
  if text.all isDigit ∧ low ≤ natValue text ∧ natValue text ≤ high then some (natValue text)
  else none

/-- A fraction at the beginning of the text, in nanoseconds, and what follows. -/
def parseFraction : Text → Nat × Text
  | 0x2e :: rest =>
    let digits := rest.takeWhile isDigit
    if digits = [] then (0, 0x2e :: rest)
    else (natValue (digits.take 9) * 10 ^ (9 - digits.length), rest.dropWhile isDigit)
  | text => (0, text)

def parseZone : Text → Option Int
  | [0x5a] => some 0
  | [sign, h₁, h₂, colon, m₁, m₂] => do
    let hour ← parseUint [h₁, h₂] 0 23
    let min ← parseUint [m₁, m₂] 0 59
    let seconds : Int := (hour * 60 + min) * 60
    if colon ≠ 0x3a then none
    else if sign = 0x2b then some seconds
    else if sign = 0x2d then some (-seconds)
    else none
  | _ => none

def parse : Text → Option Stamp
  | y₁ :: y₂ :: y₃ :: y₄ :: dash₁ :: m₁ :: m₂ :: dash₂ :: d₁ :: d₂ :: tee :: h₁ :: h₂ :: colon₁ ::
      i₁ :: i₂ :: colon₂ :: s₁ :: s₂ :: rest => do
    let year ← parseUint [y₁, y₂, y₃, y₄] 0 9999
    let month ← parseUint [m₁, m₂] 1 12
    let day ← parseUint [d₁, d₂] 1 (Date.daysIn { year, month, day := 1 })
    let hour ← parseUint [h₁, h₂] 0 23
    let min ← parseUint [i₁, i₂] 0 59
    let sec ← parseUint [s₁, s₂] 0 59
    if dash₁ = 0x2d ∧ dash₂ = 0x2d ∧ tee = 0x54 ∧ colon₁ = 0x3a ∧ colon₂ = 0x3a then
      let (nano, rest) := parseFraction rest
      let offset ← parseZone rest
      let c : Civil := { date := { year, month, day }, hour, min, sec, nano }
      some { nanos := c.toNanos - offset * 1000000000, offset }
    else none
  | _ => none

/-! ### A moment is read back -/

/-- A moment as it is read back: the zone has whole minutes. -/
def Stamp.received (t : Stamp) : Stamp :=
  { nanos := t.nanos + (t.offset - t.zone * 60) * 1000000000, offset := t.zone * 60 }

section Digits

theorem all_isDigit_fixedDigits (width n : Nat) : (fixedDigits width n).all isDigit := by
  induction width generalizing n with
  | zero => rfl
  | succ width ih =>
    have hlast := (digit_spec (n % 10) (Nat.mod_lt n (by decide))).1
    simp [fixedDigits, ih, hlast]

@[simp] theorem length_fixedDigits (width n : Nat) : (fixedDigits width n).length = width := by
  induction width generalizing n with
  | zero => rfl
  | succ width ih => simp [fixedDigits, ih]

theorem natValue_append_digit (text : Text) {d : Nat} (hd : d < 10) :
    natValue (text ++ [digit d]) = 10 * natValue text + d := by
  simp [natValue, foldl_append, (digit_spec d hd).2.2.2]

variable {width n : Nat}

theorem natValue_fixedDigits (h : n < 10 ^ width) : natValue (fixedDigits width n) = n := by
  induction width generalizing n with
  | zero =>
    have hz : n = 0 := by omega
    rw [hz]
    rfl
  | succ width ih =>
    have hlt : n / 10 < 10 ^ width := by
      omega
    rw [fixedDigits, natValue_append_digit _ (Nat.mod_lt n (by decide)), ih hlt]
    omega

theorem parseUint_fixedDigits {low high : Nat} (hn : n < 10 ^ width) (hl : low ≤ n)
    (hh : n ≤ high) : parseUint (fixedDigits width n) low high = some n := by
  rw [parseUint, natValue_fixedDigits hn, if_pos ⟨all_isDigit_fixedDigits width n, hl, hh⟩]

theorem padDigits_of_lt (h : n < 10 ^ width) : padDigits width n = fixedDigits width n := if_pos h

theorem yearText_of_inRange {year : Int} (hl : 0 ≤ year) (hh : year ≤ 9999) :
    yearText year = fixedDigits 4 year.toNat := by
  have ha : year.natAbs = year.toNat := by omega
  rw [yearText, if_neg (by omega), nil_append, ha, padDigits_of_lt (by omega)]

theorem natValue_append_zeros (text : Text) (k : Nat) :
    natValue (text ++ replicate k 0x30) = natValue text * 10 ^ k := by
  induction k with
  | zero => simp
  | succ k ih =>
    have hz : (0x30 : UInt8) = digit 0 := rfl
    rw [replicate_succ', ← append_assoc, hz, natValue_append_digit _ (by decide), ← hz, ih]
    ring

end Digits

section Fraction

variable {nano : Nat}

theorem trimZeros_front (digits : Text) : trimZeros digits <+: digits := rdropWhile_prefix _ _

theorem trimZeros_append (digits : Text) :
    trimZeros digits ++ replicate (digits.length - (trimZeros digits).length) 0x30 =
      digits := by
  induction digits using reverseRecOn with
  | nil => rfl
  | append_singleton digits c ih =>
    have hle := (trimZeros_front digits).length_le
    by_cases hc : c = 0x30
    · have ht : trimZeros (digits ++ [c]) = trimZeros digits := by
        simp [trimZeros, hc]
      rw [ht, length_append, length_singleton, Nat.succ_sub hle, replicate_succ', ← append_assoc, ih, hc]
    · have ht : trimZeros (digits ++ [c]) = digits ++ [c] := by
        simp [trimZeros, hc]
      rw [ht, Nat.sub_self, replicate_zero, append_nil]

theorem natValue_trimZeros (h : nano < 1000000000) :
    natValue (trimZeros (fixedDigits 9 nano)) * 10 ^ (9 - (trimZeros (fixedDigits 9 nano)).length) =
      nano := by
  have hs := trimZeros_append (fixedDigits 9 nano)
  rw [length_fixedDigits] at hs
  rw [← natValue_append_zeros, hs]
  exact natValue_fixedDigits h

theorem takeWhile_digits {digits tail : Text} (hd : digits.all isDigit) (ht : ∀ c ∈ tail.head?, isDigit c = false) :
    (digits ++ tail).takeWhile isDigit = digits ∧ (digits ++ tail).dropWhile isDigit = tail := by
  have hall : ∀ c ∈ digits, isDigit c = true := all_eq_true.mp hd
  rw [takeWhile_append_of_pos hall, dropWhile_append_of_pos hall]
  cases tail with
  | nil => simp
  | cons c tail => simp [ht c rfl]

theorem parseFraction_fractionText (h : nano < 1000000000) {tail : Text}
    (ht : ∀ c ∈ tail.head?, isDigit c = false ∧ c ≠ 0x2e) :
    parseFraction (fractionText nano ++ tail) = (nano, tail) := by
  by_cases hz : nano = 0
  · subst hz
    cases tail with
    | nil => rfl
    | cons c tail =>
      have hc := (ht c rfl).2
      unfold parseFraction
      split
      next heq =>
        cases heq
        exact absurd rfl hc
      · rfl
  · have hv := natValue_trimZeros h
    have hle := (trimZeros_front (fixedDigits 9 nano)).length_le
    have hall : (trimZeros (fixedDigits 9 nano)).all isDigit := by
      rw [all_eq_true]
      intro c hc
      exact all_eq_true.mp (all_isDigit_fixedDigits 9 nano) c ((trimZeros_front _).subset hc)
    rw [length_fixedDigits] at hle
    generalize hd : trimZeros (fixedDigits 9 nano) = digits at hv hle hall
    have hne : digits ≠ [] := by
      rintro rfl
      rw [← hv] at hz
      exact hz (Nat.zero_mul _)
    obtain ⟨hta, hdr⟩ := takeWhile_digits hall fun c hc => (ht c hc).1
    rw [fractionText, if_neg hz, hd, cons_append, parseFraction]
    simp [hta, hdr, hne, take_of_length_le hle, hv]

end Fraction

section Zone

variable (t : Stamp)

theorem head?_zoneText : ∀ c ∈ t.zoneText.head?, isDigit c = false ∧ c ≠ 0x2e := by
  intro c hc
  unfold Stamp.zoneText at hc
  split at hc
  · cases hc
    decide
  · cases hc
    split <;> decide

theorem parseZone_cons {hour min : Nat} (hh : hour ≤ 23) (hm : min ≤ 59) {sign : UInt8}
    (hs : sign = 0x2b ∨ sign = 0x2d) :
    parseZone (sign :: (fixedDigits 2 hour ++ 0x3a :: fixedDigits 2 min)) =
      some (if sign = 0x2b then ((hour : Int) * 60 + min) * 60 else -(((hour : Int) * 60 + min) * 60)) := by
  have hre : parseUint (fixedDigits 2 hour) 0 23 = some hour :=
    parseUint_fixedDigits (by omega) (by omega) hh
  have hr : parseUint (fixedDigits 2 min) 0 59 = some min :=
    parseUint_fixedDigits (by omega) (by omega) hm
  simp only [fixedDigits, nil_append, cons_append] at hre hr ⊢
  simp only [parseZone, hre, hr, Option.bind_eq_bind, Option.bind_some]
  rcases hs with rfl | rfl
  · rfl
  · rfl

theorem parseZone_zoneText (h : t.zone.natAbs < 1440) : parseZone t.zoneText = some (t.zone * 60) := by
  unfold Stamp.zoneText
  by_cases ho : t.offset = 0
  · rw [Stamp.zone, ho]
    rfl
  · rw [if_neg ho, padDigits_of_lt (by omega)]
    by_cases hn : t.zone < 0
    · rw [if_pos hn, parseZone_cons (by omega) (by omega) (.inr rfl), if_neg (by decide)]
      congr 1
      omega
    · rw [if_neg hn, parseZone_cons (by omega) (by omega) (.inl rfl), if_pos rfl]
      congr 1
      omega

end Zone

theorem parse_fixedDigits {c : Civil} (h : c.InRange) (hl : 0 ≤ c.date.year)
    (hh : c.date.year ≤ 9999) {rest rest' : Text} {offset : Int}
    (hrest : parseFraction rest = (c.nano, rest')) (hz : parseZone rest' = some offset) :
    parse (fixedDigits 4 c.date.year.toNat ++ 0x2d :: fixedDigits 2 c.date.month ++
        0x2d :: fixedDigits 2 c.date.day ++ 0x54 :: fixedDigits 2 c.hour ++
        0x3a :: fixedDigits 2 c.min ++ 0x3a :: fixedDigits 2 c.sec ++ rest) =
      some { nanos := c.toNanos - offset * 1000000000, offset } := by
  obtain ⟨⟨hmo, hmo', hda, hda', hdy⟩, hho, hm, hs, -⟩ := h
  obtain ⟨year, hy⟩ := Int.eq_ofNat_of_zero_le hl
  have ht : c.date.year.toNat = year := by omega
  have hry : parseUint (fixedDigits 4 year) 0 9999 = some year :=
    parseUint_fixedDigits (by omega) (by omega) (by omega)
  have hrm : parseUint (fixedDigits 2 c.date.month) 1 12 = some c.date.month :=
    parseUint_fixedDigits (by omega) hmo hmo'
  have hr : parseUint (fixedDigits 2 c.date.day) 1 c.date.daysIn = some c.date.day :=
    parseUint_fixedDigits (by omega) hda hda'
  have hrh : parseUint (fixedDigits 2 c.hour) 0 23 = some c.hour :=
    parseUint_fixedDigits (by omega) (by omega) hho
  have hre : parseUint (fixedDigits 2 c.min) 0 59 = some c.min :=
    parseUint_fixedDigits (by omega) (by omega) hm
  have hrs : parseUint (fixedDigits 2 c.sec) 0 59 = some c.sec :=
    parseUint_fixedDigits (by omega) (by omega) hs
  have hd : c.date.daysIn = Date.daysIn { year := year, month := c.date.month, day := 1 } := by
    rw [Date.daysIn, hy]
    rfl
  rw [hd] at hr
  -- the digits stand where `parse` looks for them
  simp only [fixedDigits, nil_append, cons_append, ht] at *
  simp only [parse, hry, hrm, hr, hrh, hre, hrs,
    Option.bind_eq_bind, Option.bind_some, and_self, if_true, hrest, hz]
  have hdt : c.date = { year := year, month := c.date.month, day := c.date.day } := by
    rw [← hy]
  rw [← hdt]

variable {t : Stamp} {text : Text} {width : Nat}

/-- **A moment that has a text is read back from it.** -/
theorem parse_format (h : format t = some text) : parse text = some t.received := by
  unfold format at h
  split at h
  next hr =>
    cases h
    simp only [Stamp.inRange, Bool.and_eq_true, decide_eq_true_eq] at hr
    obtain ⟨⟨hl, hh⟩, hz⟩ := hr
    have hc : t.civil.InRange := civil_inRange _
    rw [Stamp.text, Civil.secondsText, yearText_of_inRange hl hh, parse_fixedDigits hc hl hh
      (parseFraction_fractionText hc.nano_lt (head?_zoneText t)) (parseZone_zoneText t hz)]
    rw [Stamp.civil, toNanos_civil]
    congr 2
    ring
  · cases h

/-! ### The text is plain -/

theorem isPlain_of_isDigit {c : UInt8} (h : isDigit c) : isPlain c := by
  simp only [isDigit, isPlain, Bool.and_eq_true, decide_eq_true_eq, UInt8.le_iff_toNat_le,
    UInt8.lt_iff_toNat_lt, UInt8.reduceToNat, ne_eq, ← UInt8.toNat_inj] at h ⊢
  omega

theorem isPlain_fixedDigits {n : Nat} : ∀ c ∈ fixedDigits width n, isPlain c := by
  intro c hc
  exact isPlain_of_isDigit (all_eq_true.mp (all_isDigit_fixedDigits width n) c hc)

theorem isPlain_fractionText (nano : Nat) : ∀ c ∈ fractionText nano, isPlain c := by
  intro c hc
  unfold fractionText at hc
  split at hc
  · cases hc
  · rcases mem_cons.mp hc with rfl | hc
    · decide
    · exact isPlain_fixedDigits c ((trimZeros_front _).subset hc)

theorem isPlain_padDigits {n : Nat} : ∀ c ∈ padDigits width n, isPlain c := by
  intro c hc
  unfold padDigits at hc
  split at hc
  · exact isPlain_fixedDigits c hc
  · exact isPlain_of_isDigit (all_isDigit_natText n c hc).1

theorem isPlain_zoneText (t : Stamp) : ∀ c ∈ t.zoneText, isPlain c := by
  intro c hc
  unfold Stamp.zoneText at hc
  split at hc
  · rw [mem_singleton] at hc
    subst hc
    decide
  · simp only [mem_cons, mem_append] at hc
    rcases hc with rfl | hc | rfl | hc
    · split <;> decide
    · exact isPlain_padDigits c hc
    · decide
    · exact isPlain_fixedDigits c hc

theorem isPlain_yearText (year : Int) : ∀ c ∈ yearText year, isPlain c := by
  intro c hc
  rcases mem_append.mp hc with hc | hc
  · split at hc
    · rw [mem_singleton] at hc
      subst hc
      decide
    · cases hc
  · exact isPlain_padDigits c hc

theorem isPlain_text (t : Stamp) : ∀ c ∈ t.text, isPlain c := by
  intro c hc
  simp only [Stamp.text, Civil.secondsText, mem_append, mem_cons] at hc
  rcases hc with (((((hc | rfl | hc) | rfl | hc) | rfl | hc) | rfl | hc) | rfl | hc) | hc | hc
  all_goals first
    | exact isPlain_yearText _ c hc
    | exact isPlain_fixedDigits c hc
    | exact isPlain_fractionText _ c hc
    | exact isPlain_zoneText t c hc
    | decide

theorem isPlain_of_format (h : format t = some text) : ∀ c ∈ text, isPlain c := by
  unfold format at h
  split at h
  · cases h
    exact isPlain_text t
  · cases h

end Bib.Lib.Calendar
