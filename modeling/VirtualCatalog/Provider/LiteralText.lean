import VirtualCatalog.Json.Text
import VirtualCatalog.Provider.FilterValue
import Mathlib.Data.Rat.Defs
import Mathlib.Tactic.Ring

/-!
# Literals as text

A constant that JSON cannot carry is written as text by DuckDB and read by Python.

* `dateText`, `IsClock`, `decimalText` : how DuckDB writes dates, times of day and decimals.
* `dateFromIsoformat`, `timeFromIsoformat`, `datetimeFromIsoformat`, `decimalOf`, `intOf` : Python's
  `fromisoformat` of the three types, `Decimal` and `int`, on texts of the form DuckDB writes.
* `dateFromIsoformat_text`, `timeFromIsoformat_text`, `datetimeFromIsoformat_text`,
  `decimalOf_text`, `intOf_text` : what comes back.

A date comes back if its year has four digits and is not before Christ, a time of day if it is
before 24:00, and what is below a microsecond is cut off.
-/

namespace VirtualCatalog

namespace Provider

/-! ### Digits -/

/-- The last `k` digits of a number. -/
def padded : Nat → Nat → List Char
  | 0, _ => []
  | k + 1, n => padded k (n / 10) ++ [(n % 10).digitChar]

/-- Exactly `k` digits. -/
def readDigits (k : Nat) (cs : List Char) : Option (Nat × List Char) :=
  if (cs.take k).length = k ∧ (cs.take k).all Char.isDigit then
    some (Nat.ofDigitChars 10 (cs.take k) 0, cs.drop k)
  else none

/-- The character `c`. -/
def readChar (c : Char) : List Char → Option (List Char)
  | [] => none
  | d :: cs => if d = c then some cs else none

@[simp] theorem length_padded (k n : Nat) : (padded k n).length = k := by
  induction k generalizing n with
  | zero => rfl
  | succ k ih => rw [padded, List.length_append, ih, List.length_singleton]

theorem isDigit_padded (k n : Nat) : (padded k n).all Char.isDigit = true := by
  induction k generalizing n with
  | zero => rfl
  | succ k ih =>
    have hdigit : (n % 10).digitChar.isDigit = true := by
      rw [Nat.isDigit_digitChar]
      exact decide_eq_true (Nat.mod_lt _ (by decide))
    rw [padded, List.all_append, ih, List.all_cons, hdigit]
    rfl

theorem ofDigitChars_padded {k n : Nat} (h : n < 10 ^ k) :
    Nat.ofDigitChars 10 (padded k n) 0 = n := by
  induction k generalizing n with
  | zero =>
    have hzero : n = 0 := by simpa using h
    rw [hzero]
    rfl
  | succ k ih =>
    have hquot : n / 10 < 10 ^ k := by
      rw [pow_succ] at h
      omega
    rw [padded, Nat.ofDigitChars_append, ih hquot,
      Nat.ofDigitChars_cons_digitChar_of_lt_ten (Nat.mod_lt _ (by decide)), Nat.ofDigitChars_nil]
    omega

theorem readDigits_padded {k n : Nat} (h : n < 10 ^ k) (r : List Char) :
    readDigits k (padded k n ++ r) = some (n, r) := by
  have htake : (padded k n ++ r).take k = padded k n := List.take_left' (length_padded k n)
  have hdrop : (padded k n ++ r).drop k = r := List.drop_left' (length_padded k n)
  rw [readDigits, htake, hdrop, if_pos ⟨length_padded k n, isDigit_padded k n⟩,
    ofDigitChars_padded h]

theorem readChar_self (c : Char) (r : List Char) : readChar c (c :: r) = some r := if_pos rfl

/-! ### Dates -/

/-- Whether the year has a 29th of February. -/
def isLeapYear (year : Int) : Bool := year % 4 == 0 && (year % 100 != 0 || year % 400 == 0)

/-- How many days the month has. -/
def daysInMonth (year : Int) (month : Nat) : Nat :=
  if month = 2 then if isLeapYear year then 29 else 28
  else if month = 4 ∨ month = 6 ∨ month = 9 ∨ month = 11 then 30
  else 31

/-- A day that there is. -/
def CivilDate.Valid (d : CivilDate) : Prop :=
  1 ≤ d.month ∧ d.month ≤ 12 ∧ 1 ≤ d.day ∧ d.day ≤ daysInMonth d.year d.month

instance (d : CivilDate) : Decidable d.Valid :=
  inferInstanceAs (Decidable (1 ≤ d.month ∧ d.month ≤ 12 ∧ 1 ≤ d.day ∧
    d.day ≤ daysInMonth d.year d.month))

/-- A year, with four digits at least. -/
def yearText (year : Nat) : List Char :=
  if year < 10000 then padded 4 year else Nat.toDigits 10 year

/-- A day as DuckDB writes it; the year 0 is the first before Christ. -/
def dateText (d : CivilDate) : List Char :=
  yearText (if d.year ≤ 0 then (1 - d.year).toNat else d.year.toNat) ++
    '-' :: (padded 2 d.month ++ '-' :: (padded 2 d.day ++
      if d.year ≤ 0 then [' ', '(', 'B', 'C', ')'] else []))

/-- `infinity` and `-infinity`, or the text of a value that is neither. -/
def timedText {α : Type} (text : α → List Char) : Timed α → List Char
  | .beforeAll => ['-', 'i', 'n', 'f', 'i', 'n', 'i', 't', 'y']
  | .at a => text a
  | .afterAll => ['i', 'n', 'f', 'i', 'n', 'i', 't', 'y']

/-- `YYYY-MM-DD`. -/
def readDate (cs : List Char) : Option (CivilDate × List Char) := do
  let (year, cs) ← readDigits 4 cs
  let cs ← readChar '-' cs
  let (month, cs) ← readDigits 2 cs
  let cs ← readChar '-' cs
  let (day, cs) ← readDigits 2 cs
  let d : CivilDate := ⟨year, month, day⟩
  if 1 ≤ year ∧ d.Valid then some (d, cs) else none

/-- `date.fromisoformat`. -/
def dateFromIsoformat (text : String) : Option CivilDate :=
  match readDate text.toList with
  | some (d, []) => some d
  | _ => none

/-- The years of Python's dates. -/
def CivilDate.InRange (d : CivilDate) : Prop := 1 ≤ d.year ∧ d.year ≤ 9999

instance (d : CivilDate) : Decidable d.InRange :=
  inferInstanceAs (Decidable (1 ≤ d.year ∧ d.year ≤ 9999))

theorem daysInMonth_le (year : Int) (month : Nat) : daysInMonth year month ≤ 31 := by
  unfold daysInMonth
  split_ifs <;> omega

/-- Four digits, and two and two. -/
theorem readDate_digits {year month day : Nat} (hy : year < 10000) (hm : month < 100)
    (hd : day < 100) (r : List Char) :
    readDate (padded 4 year ++ '-' :: (padded 2 month ++ '-' :: (padded 2 day ++ r))) =
      if 1 ≤ year ∧ (CivilDate.mk year month day).Valid then some (⟨year, month, day⟩, r)
      else none := by
  have hyear := readDigits_padded (k := 4) hy
  have hmonth := readDigits_padded (k := 2) hm
  have hday := readDigits_padded (k := 2) hd
  simp only [readDate, hyear, hmonth, hday, readChar_self, Option.bind_eq_bind, Option.bind_some]

/-- A fifth digit of the year. -/
theorem readDate_late {year : Nat} (hy : 10000 ≤ year) (r : List Char) :
    readDate (Nat.toDigits 10 year ++ r) = none := by
  have hlength : 4 < (Nat.toDigits 10 year).length := by
    by_contra hle
    have hlt := (Nat.length_toDigits_le_iff (b := 10) (k := 4) (by decide) (by decide)).1
      (Nat.le_of_not_lt hle)
    omega
  obtain ⟨c, hc⟩ : ∃ c, ((Nat.toDigits 10 year ++ r).drop 4).head? = some c ∧ c.isDigit := by
    rw [List.drop_append_of_le_length (by omega)]
    cases hdrop : (Nat.toDigits 10 year).drop 4 with
    | nil =>
      rw [List.drop_eq_nil_iff] at hdrop
      omega
    | cons c cs =>
      exact ⟨c, rfl, Json.isDigit_toDigits c (List.mem_of_mem_drop (hdrop ▸ List.mem_cons_self))⟩
  have hdash : readChar '-' ((Nat.toDigits 10 year ++ r).drop 4) = none := by
    cases hdrop : (Nat.toDigits 10 year ++ r).drop 4 with
    | nil => rfl
    | cons d cs =>
      rw [hdrop] at hc
      refine if_neg fun hd => ?_
      have hdigit := hc.2
      rw [← Option.some.inj hc.1, hd] at hdigit
      cases hdigit
  unfold readDate readDigits
  split_ifs
  · simp only [Option.bind_eq_bind, Option.bind_some, hdash, Option.bind_none]
  · rfl

/-- A date is read if its year is one of Python's, and else what is left begins before Christ. -/
theorem readDate_text {d : CivilDate} (hd : d.Valid) (r : List Char) :
    (d.InRange → readDate (dateText d ++ r) = some (d, r)) ∧
      (¬ d.InRange → ∀ d' cs, readDate (dateText d ++ r) = some (d', cs) →
        cs = ' ' :: '(' :: 'B' :: 'C' :: ')' :: r) := by
  have hmonth : d.month < 100 := by
    have h12 := hd.2.1
    omega
  have hday : d.day < 100 := by
    have h31 := hd.2.2.2.trans (daysInMonth_le _ _)
    omega
  rw [dateText]
  simp only [List.append_assoc, List.cons_append]
  constructor
  · intro hin
    have hbc : ¬ d.year ≤ 0 := by
      have h1 := hin.1
      omega
    have hyear : d.year.toNat < 10000 := by
      have h9999 := hin.2
      omega
    have hcast : ((d.year.toNat : Nat) : Int) = d.year := Int.toNat_of_nonneg (by omega)
    rw [if_neg hbc, if_neg hbc, yearText, if_pos hyear, readDate_digits hyear hmonth hday, hcast,
      if_pos ⟨by omega, hd⟩, List.nil_append]
  · intro hout d' cs hread
    rw [yearText] at hread
    by_cases hbc : d.year ≤ 0
    · rw [if_pos hbc, if_pos hbc] at hread
      split_ifs at hread with hyear
      · rw [readDate_digits hyear hmonth hday] at hread
        split_ifs at hread
        cases hread
        rfl
      · rw [readDate_late (by omega)] at hread
        cases hread
    · have hyear : ¬ d.year.toNat < 10000 := fun hlt => hout ⟨by omega, by omega⟩
      rw [if_neg hbc, if_neg hbc, if_neg hyear, readDate_late (by omega)] at hread
      cases hread

/-- **A date** comes back if its year is one of Python's. -/
theorem dateFromIsoformat_text {d : CivilDate} (hd : d.Valid) {text : String}
    (h : text.toList = dateText d) :
    dateFromIsoformat text = if d.InRange then some d else none := by
  obtain ⟨hin, hout⟩ := readDate_text hd []
  rw [List.append_nil] at hin hout
  rw [dateFromIsoformat, h]
  split_ifs with hrange
  · rw [hin hrange]
  · cases hread : readDate (dateText d) with
    | none => rfl
    | some p =>
      obtain ⟨d', cs⟩ := p
      rw [hout hrange d' cs hread]

theorem dateFromIsoformat_infinite {text : String} {d : Timed CivilDate}
    (hd : d = .beforeAll ∨ d = .afterAll) (h : text.toList = timedText dateText d) :
    dateFromIsoformat text = none := by
  rw [dateFromIsoformat, h]
  rcases hd with rfl | rfl <;> rfl

/-! ### Times of day -/

/-- What stands behind the seconds: nothing, or a point and up to nine digits. -/
def IsFraction (nanos : Nat) (cs : List Char) : Prop :=
  (nanos = 0 ∧ cs = []) ∨ ∃ digits, cs = '.' :: digits ∧ digits ≠ [] ∧ digits.length ≤ 9 ∧
    digits.all Char.isDigit = true ∧
      Nat.ofDigitChars 10 digits 0 * 10 ^ (9 - digits.length) = nanos

/-- A time of day as DuckDB writes it. -/
def IsClock (nanos : Nat) (cs : List Char) : Prop :=
  ∃ fraction, IsFraction (nanos % 1000000000) fraction ∧
    cs = padded 2 (nanos / 3600000000000) ++ ':' :: (padded 2 (nanos / 60000000000 % 60) ++
      ':' :: (padded 2 (nanos / 1000000000 % 60) ++ fraction))

/-- A `datetime.time`: microseconds of the day, and seconds east of UTC. -/
structure ClockTime where
  micros : Nat
  offset : Option Int
deriving DecidableEq

/-- A colon and two digits, if anything is left. -/
def readPart : List Char → Option (Nat × List Char)
  | [] => some (0, [])
  | c :: cs => if c = ':' then readDigits 2 cs else none

/-- The offset, to the end. -/
def readOffset : List Char → Option (Option Int)
  | [] => some none
  | sign :: cs =>
    if sign = '+' ∨ sign = '-' then do
      let (hours, cs) ← readDigits 2 cs
      let (minutes, cs) ← readPart cs
      let (seconds, cs) ← readPart cs
      let offset : Int := ((hours * 60 + minutes) * 60 + seconds : Nat)
      if cs = [] ∧ hours < 24 ∧ minutes < 60 ∧ seconds < 60 then
        some (some (if sign = '-' then -offset else offset))
      else none
    else none

/-- The microseconds that the digits behind the point are; what is below is cut off. -/
def microsOf (digits : List Char) : Nat :=
  Nat.ofDigitChars 10 (digits.take 6) 0 * 10 ^ (6 - digits.length)

/-- `HH:MM:SS`, with a fraction and an offset. -/
def readTime (cs : List Char) : Option ClockTime := do
  let (hour, cs) ← readDigits 2 cs
  let cs ← readChar ':' cs
  let (minute, cs) ← readDigits 2 cs
  let cs ← readChar ':' cs
  let (second, cs) ← readDigits 2 cs
  let (digits, cs) ← Json.parseFraction cs
  let offset ← readOffset cs
  if hour < 24 ∧ minute < 60 ∧ second < 60 then
    some ⟨((hour * 60 + minute) * 60 + second) * 1000000 + microsOf digits, offset⟩
  else none

/-- `time.fromisoformat`. -/
def timeFromIsoformat (text : String) : Option ClockTime := readTime text.toList

/-- `datetime.fromisoformat`; any character may separate the date from the time. -/
def datetimeFromIsoformat (text : String) : Option (CivilDate × ClockTime) := do
  let (d, cs) ← readDate text.toList
  let t ← readTime cs.tail
  return (d, t)

theorem ofDigitChars_lt {cs : List Char} (h : cs.all Char.isDigit = true) :
    Nat.ofDigitChars 10 cs 0 < 10 ^ cs.length := by
  induction cs with
  | nil => exact Nat.one_pos
  | cons c cs ih =>
    rw [List.all_cons, Bool.and_eq_true] at h
    have hdigit : c.toNat - '0'.toNat ≤ 9 := by
      have hrange := h.1
      simp only [Char.isDigit, Bool.and_eq_true, decide_eq_true_eq, ge_iff_le,
        UInt32.le_iff_toNat_le] at hrange
      have hnine : '9'.val.toNat = 57 := rfl
      have hzero : '0'.toNat = 48 := rfl
      have hc : c.toNat = c.val.toNat := rfl
      omega
    have htail := ih h.2
    have hmul : 10 ^ cs.length * (c.toNat - '0'.toNat) ≤ 10 ^ cs.length * 9 :=
      Nat.mul_le_mul_left _ hdigit
    rw [Nat.ofDigitChars_cons, Nat.ofDigitChars_eq_ofDigitChars_zero, List.length_cons, pow_succ,
      Nat.mul_zero, Nat.zero_add]
    omega

/-- What is below a microsecond is cut off. -/
theorem microsOf_eq {digits : List Char} {nanos : Nat} (hlength : digits.length ≤ 9)
    (hdigits : digits.all Char.isDigit = true)
    (h : Nat.ofDigitChars 10 digits 0 * 10 ^ (9 - digits.length) = nanos) :
    microsOf digits = nanos / 1000 := by
  rw [microsOf, ← h]
  by_cases hle : digits.length ≤ 6
  · have hpow : 10 ^ (9 - digits.length) = 10 ^ (6 - digits.length) * 1000 := by
      rw [show 9 - digits.length = 6 - digits.length + 3 by omega, pow_add]
      rfl
    rw [List.take_of_length_le hle, hpow, ← mul_assoc, Nat.mul_div_cancel _ (by decide)]
  · -- six digits, and one to three more
    have hsplit : Nat.ofDigitChars 10 digits 0 = 10 ^ (digits.length - 6) *
        Nat.ofDigitChars 10 (digits.take 6) 0 + Nat.ofDigitChars 10 (digits.drop 6) 0 := by
      conv_lhs => rw [← List.take_append_drop 6 digits]
      rw [Nat.ofDigitChars_append, Nat.ofDigitChars_eq_ofDigitChars_zero, List.length_drop]
    have hrest : Nat.ofDigitChars 10 (digits.drop 6) 0 < 10 ^ (digits.length - 6) := by
      have hall : (digits.drop 6).all Char.isDigit = true :=
        List.all_eq_true.2 fun c hc => List.all_eq_true.1 hdigits c (List.mem_of_mem_drop hc)
      have hlt := ofDigitChars_lt hall
      rwa [List.length_drop] at hlt
    have hpow : 10 ^ (digits.length - 6) * 10 ^ (9 - digits.length) = 1000 := by
      rw [← pow_add, show digits.length - 6 + (9 - digits.length) = 3 by omega]
      rfl
    have hbelow : Nat.ofDigitChars 10 (digits.drop 6) 0 * 10 ^ (9 - digits.length) < 1000 := by
      rw [← hpow]
      exact Nat.mul_lt_mul_of_pos_right hrest (Nat.pow_pos (by decide))
    have hwhole : Nat.ofDigitChars 10 digits 0 * 10 ^ (9 - digits.length) =
        1000 * Nat.ofDigitChars 10 (digits.take 6) 0 +
          Nat.ofDigitChars 10 (digits.drop 6) 0 * 10 ^ (9 - digits.length) := by
      rw [hsplit, add_mul, ← hpow]
      ring
    rw [hwhole, show 6 - digits.length = 0 by omega]
    omega

/-- The fraction, and what is left. -/
theorem parseFraction_fraction {nanos : Nat} {cs zone : List Char} (h : IsFraction nanos cs)
    (hzone : ∀ c ∈ zone.head?, c.isDigit = false ∧ c ≠ '.') :
    ∃ digits, Json.parseFraction (cs ++ zone) = some (digits, zone) ∧
      microsOf digits = nanos / 1000 := by
  rcases h with ⟨rfl, rfl⟩ | ⟨digits, rfl, hne, hlength, hall, hvalue⟩
  · exact ⟨[], Json.parseFraction_ends fun c hc => (hzone c hc).2, rfl⟩
  · refine ⟨digits, ?_, microsOf_eq hlength hall hvalue⟩
    rw [List.cons_append, Json.parseFraction, if_pos rfl]
    exact Json.parseDigits_append hne (List.all_eq_true.1 hall) fun c hc => (hzone c hc).1

/-- **A time of day** is read if it is before 24:00, down to microseconds. -/
theorem readTime_clock {nanos : Nat} {cs zone : List Char} {offset : Option Int}
    (h : IsClock nanos cs) (hle : nanos ≤ 86400000000000)
    (hzone : ∀ c ∈ zone.head?, c.isDigit = false ∧ c ≠ '.')
    (hoffset : readOffset zone = some offset) :
    readTime (cs ++ zone) =
      if nanos < 86400000000000 then some ⟨nanos / 1000, offset⟩ else none := by
  obtain ⟨fraction, hfraction, rfl⟩ := h
  obtain ⟨digits, hparse, hmicros⟩ := parseFraction_fraction hfraction hzone
  have hour : nanos / 3600000000000 < 10 ^ 2 := by omega
  have minute : nanos / 60000000000 % 60 < 10 ^ 2 := by omega
  have second : nanos / 1000000000 % 60 < 10 ^ 2 := by omega
  simp only [List.append_assoc, List.cons_append, readTime, readDigits_padded hour,
    readDigits_padded minute, readDigits_padded second, readChar_self, hparse, hoffset,
    Option.bind_eq_bind, Option.bind_some]
  split_ifs with hrange hbefore hbefore
  · have hwhole : ((nanos / 3600000000000 * 60 + nanos / 60000000000 % 60) * 60 +
        nanos / 1000000000 % 60) * 1000000 + microsOf digits = nanos / 1000 := by
      rw [hmicros]
      omega
    rw [hwhole]
  · omega
  · exact absurd ⟨by omega, by omega, by omega⟩ hrange
  · rfl

theorem timeFromIsoformat_text {nanos : Nat} {text : String} (h : IsClock nanos text.toList)
    (hle : nanos ≤ 86400000000000) :
    timeFromIsoformat text =
      if nanos < 86400000000000 then some ⟨nanos / 1000, none⟩ else none := by
  have hread := @readTime_clock nanos text.toList [] none h hle (fun c hc => by cases hc) rfl
  rwa [List.append_nil] at hread

/-- **A timestamp** is read if its year is one of Python's, down to microseconds. -/
theorem datetimeFromIsoformat_text {d : CivilDate} {nanos : Nat} {text : String}
    {cs zone : List Char} {offset : Option Int} (hd : d.Valid) (hclock : IsClock nanos cs)
    (hlt : nanos < 86400000000000) (hzone : ∀ c ∈ zone.head?, c.isDigit = false ∧ c ≠ '.')
    (hoffset : readOffset zone = some offset)
    (h : text.toList = dateText d ++ ' ' :: (cs ++ zone)) :
    datetimeFromIsoformat text =
      if d.InRange then some (d, ⟨nanos / 1000, offset⟩) else none := by
  obtain ⟨hin, hout⟩ := readDate_text hd (' ' :: (cs ++ zone))
  rw [datetimeFromIsoformat, h]
  split_ifs with hrange
  · rw [hin hrange]
    show (readTime (cs ++ zone)).bind _ = _
    rw [readTime_clock hclock hlt.le hzone hoffset, if_pos hlt]
    rfl
  · cases hread : readDate (dateText d ++ ' ' :: (cs ++ zone)) with
    | none => rfl
    | some p =>
      obtain ⟨d', rest⟩ := p
      rw [hout hrange d' rest hread]
      rfl

theorem datetimeFromIsoformat_infinite {text : String} {cs : List Char}
    (h : text.toList = '-' :: 'i' :: 'n' :: 'f' :: cs ∨
      text.toList = 'i' :: 'n' :: 'f' :: 'i' :: cs) :
    datetimeFromIsoformat text = none := by
  rw [datetimeFromIsoformat]
  rcases h with h | h <;> rw [h] <;> rfl

/-! ### Numbers -/

/-- A decimal as DuckDB writes it; one without digits before the point has none there. -/
def decimalText (width scale : Nat) (unscaled : Int) : List Char :=
  (if unscaled < 0 then ['-'] else []) ++
    if scale = 0 then Nat.toDigits 10 unscaled.natAbs
    else (if scale < width then Nat.toDigits 10 (unscaled.natAbs / 10 ^ scale) else []) ++
      '.' :: padded scale (unscaled.natAbs % 10 ^ scale)

/-- `Decimal`. -/
def decimalOf (text : String) : Option Rat :=
  let cs := (Json.parseSign text.toList).2
  match Json.parseFraction (cs.dropWhile Char.isDigit) with
  | some (fraction, []) =>
    let digits := cs.takeWhile Char.isDigit ++ fraction
    if digits = [] then none
    else some ((Json.signed (Json.parseSign text.toList).1 digits : Rat) / 10 ^ fraction.length)
  | _ => none

/-- `int`. -/
def intOf (text : String) : Option Int :=
  match Json.parseDigits (Json.parseSign text.toList).2 with
  | some (digits, []) => some (Json.signed (Json.parseSign text.toList).1 digits)
  | _ => none

theorem intOf_text {i : Int} {text : String} (h : text.toList = intText i) :
    intOf text = some i := by
  have hsign := Json.parseSign_intText i []
  have hdigits := @Json.parseDigits_toDigits i.natAbs [] fun c hc => by cases hc
  rw [List.append_nil] at hsign
  rw [intOf, h, hsign]
  simp only [hdigits, Json.signed_natAbs]

/-- What stands behind the sign. -/
theorem parseSign_signed {i : Int} {cs : List Char} (h : cs.head? ≠ some '-') :
    Json.parseSign ((if i < 0 then ['-'] else []) ++ cs) = (decide (i < 0), cs) := by
  by_cases hneg : i < 0
  · rw [if_pos hneg, decide_eq_true hneg]
    show Json.parseSign ('-' :: cs) = _
    rw [Json.parseSign, if_pos rfl]
  · rw [if_neg hneg, decide_eq_false hneg, List.nil_append]
    cases cs with
    | nil => rfl
    | cons c cs =>
      have hc : c ≠ '-' := fun hc => h (by rw [hc]; rfl)
      rw [Json.parseSign, if_neg hc]

/-- Digits, and a fraction if there is one. -/
theorem decimalOf_parts {i : Int} {text : String} {whole fraction cs : List Char}
    (hwhole : ∀ c ∈ whole, c.isDigit = true) (hcs : ∀ c ∈ cs.head?, c.isDigit = false)
    (hfraction : Json.parseFraction cs = some (fraction, []))
    (hvalue : Nat.ofDigitChars 10 (whole ++ fraction) 0 = i.natAbs) (hne : whole ++ fraction ≠ [])
    (hsign : Json.parseSign text.toList = (decide (i < 0), whole ++ cs)) :
    decimalOf text = some ((i : Rat) / 10 ^ fraction.length) := by
  have hnone : cs.takeWhile Char.isDigit = [] ∧ cs.dropWhile Char.isDigit = cs := by
    cases cs with
    | nil => exact ⟨rfl, rfl⟩
    | cons c cs =>
      have hc := hcs c rfl
      exact ⟨List.takeWhile_cons_of_neg (by rw [hc]; decide),
        List.dropWhile_cons_of_neg (by rw [hc]; decide)⟩
  have htake : (whole ++ cs).takeWhile Char.isDigit = whole := by
    rw [List.takeWhile_append_of_pos hwhole, hnone.1, List.append_nil]
  have hdrop : (whole ++ cs).dropWhile Char.isDigit = cs := by
    rw [List.dropWhile_append_of_pos hwhole, hnone.2]
  rw [decimalOf, hsign]
  simp only [hdrop, hfraction, htake, if_neg hne, Json.signed_eq hvalue]

/-- **A decimal** comes back. -/
theorem decimalOf_text {width scale : Nat} {unscaled : Int} {text : String}
    (hwidth : unscaled.natAbs < 10 ^ width) (hscale : scale ≤ width)
    (h : text.toList = decimalText width scale unscaled) :
    decimalOf text = some ((unscaled : Rat) / 10 ^ scale) := by
  have hdash : ∀ {c : Char}, c.isDigit = true → c ≠ '-' := by
    rintro c hc rfl
    cases hc
  rw [decimalText] at h
  by_cases hzero : scale = 0
  · rw [if_pos hzero] at h
    have hhead : (Nat.toDigits 10 unscaled.natAbs).head? ≠ some '-' := fun hc =>
      hdash (Json.isDigit_toDigits _ (List.mem_of_mem_head? hc)) rfl
    have hsign := parseSign_signed (i := unscaled) hhead
    rw [← h] at hsign
    have hparts := @decimalOf_parts unscaled text (Nat.toDigits 10 unscaled.natAbs) [] []
      Json.isDigit_toDigits (fun c hc => by cases hc) rfl
      (by rw [List.append_nil, Nat.ofDigitChars_ten_toDigits])
      (by rw [List.append_nil]; exact Nat.toDigits_ne_nil) (by rw [List.append_nil, hsign])
    rw [hparts, hzero]
    rfl
  · rw [if_neg hzero] at h
    generalize hwhole : (if scale < width then Nat.toDigits 10 (unscaled.natAbs / 10 ^ scale)
      else []) = whole at h
    -- the digits before the point: none if there are none but zeros
    have hall : ∀ c ∈ whole, c.isDigit = true := by
      intro c hc
      rw [← hwhole] at hc
      split_ifs at hc
      · exact Json.isDigit_toDigits c hc
      · cases hc
    have hvalue : Nat.ofDigitChars 10 whole 0 = unscaled.natAbs / 10 ^ scale := by
      rw [← hwhole]
      split_ifs with hlt
      · exact Nat.ofDigitChars_ten_toDigits
      · have hsame : width = scale := by omega
        rw [hsame] at hwidth
        rw [Nat.div_eq_of_lt hwidth, Nat.ofDigitChars_nil]
    have hhead : (whole ++ '.' :: padded scale (unscaled.natAbs % 10 ^ scale)).head? ≠
        some '-' := by
      cases hw : whole with
      | nil => exact fun hc => absurd (Option.some.inj hc) (by decide)
      | cons c cs =>
        intro hc
        exact hdash (hall c (hw ▸ List.mem_cons_self)) (Option.some.inj hc)
    have hsign := parseSign_signed (i := unscaled) hhead
    rw [← h] at hsign
    have hfraction : Json.parseFraction ('.' :: padded scale (unscaled.natAbs % 10 ^ scale)) =
        some (padded scale (unscaled.natAbs % 10 ^ scale), []) := by
      have hne : padded scale (unscaled.natAbs % 10 ^ scale) ≠ [] := fun hnil => hzero (by
        rw [← length_padded scale (unscaled.natAbs % 10 ^ scale), hnil]
        rfl)
      have hdigits := Json.parseDigits_append (r := []) hne
        (List.all_eq_true.1 (isDigit_padded _ _)) (fun c hc => by cases hc)
      rw [List.append_nil] at hdigits
      rw [Json.parseFraction, if_pos rfl, hdigits]
    have hsum : Nat.ofDigitChars 10
        (whole ++ padded scale (unscaled.natAbs % 10 ^ scale)) 0 = unscaled.natAbs := by
      rw [Nat.ofDigitChars_append, Nat.ofDigitChars_eq_ofDigitChars_zero, hvalue, length_padded,
        ofDigitChars_padded (Nat.mod_lt _ (Nat.pow_pos (by decide))), Nat.div_add_mod]
    have hne : whole ++ padded scale (unscaled.natAbs % 10 ^ scale) ≠ [] := by
      intro hnil
      have hlength := congrArg List.length hnil
      rw [List.length_append, length_padded, List.length_nil] at hlength
      omega
    rw [decimalOf_parts hall (fun c hc => by cases hc; rfl) hfraction hsum hne hsign,
      length_padded]

end Provider

end VirtualCatalog
