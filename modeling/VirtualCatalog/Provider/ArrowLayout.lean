import VirtualCatalog.Provider.ArrowValue
import Mathlib.Data.Rat.Lemmas
import Mathlib.Tactic.NormNum

/-!
# Keys are read exactly

An Arrow column of a layout is a list of cells, written into its buffers one after the other; a
cell means a number, a text, a date, a time of day or a point in time.  A value of DuckDB means one
too.

* `Layout`, `Layout.meaning` : the layouts that can be read, and what their cells mean.
* `Stores` : an array holds a column.
* `ReadsExactly` : what is read of a row, if something is, means the same and has the right type.
* `Exact` : the cells that are read so: a point in time that does not overflow and is a whole number
  of microseconds, a date that is a whole number of days, a decimal under its own scale.
* `readArrowValue_exact_iff` : a row is read exactly under this condition only.
-/

namespace VirtualCatalog

namespace Provider

open LittleEndian

/-! ### Meanings -/

/-- What a value of a column means. -/
inductive Meaning where
  | null
  | number (q : Rat)
  | text (bytes : List UInt8)
  /-- In milliseconds. -/
  | date (millis : Int)
  /-- In nanoseconds. -/
  | timeOfDay (nanos : Int)
  /-- A timestamp without time zone, in nanoseconds. -/
  | local (nanos : Int)
  /-- A point in time, in nanoseconds. -/
  | instant (nanos : Int)

/-- A decimal with some digits behind the point. -/
def decimalNumber (raw : Int) (scale : Nat) : Rat := raw / 10 ^ scale

/-- What a value of DuckDB means. -/
def DuckValue.meaning : DuckValue → Meaning
  | null _ => .null
  | tinyint n | smallint n | integer n | bigint n => .number n
  | decimal raw _ scale => .number (decimalNumber raw scale)
  | varchar text => .text text.toUTF8.data.toList
  | date days => .date (days * 86400000)
  | time micros => .timeOfDay (micros * 1000)
  | timeNs nanos => .timeOfDay nanos
  | timestampSec seconds => .local (seconds * 1000000000)
  | timestampMs millis => .local (millis * 1000000)
  | timestamp micros => .local (micros * 1000)
  | timestampNs nanos => .local nanos
  | timestampTz micros => .instant (micros * 1000)

/-! ### Layouts -/

/-- The integers. -/
inductive IntWidth where
  | one
  | two
  | four
  | eight
deriving DecidableEq

/-- The units of times and timestamps. -/
inductive TimeUnit where
  | second
  | milli
  | micro
  | nano
deriving DecidableEq

/-- The nanoseconds of a unit. -/
def TimeUnit.nanos : TimeUnit → Int
  | second => 1000000000
  | milli => 1000000
  | micro => 1000
  | nano => 1

/-- The letter of a unit. -/
def TimeUnit.letter : TimeUnit → Char
  | second => 's'
  | milli => 'm'
  | micro => 'u'
  | nano => 'n'

/-- The Arrow layouts of keys; a timestamp without time zone has the empty one. -/
inductive Layout where
  | int (w : IntWidth)
  /-- With or without the width of 128 bits in its format. -/
  | decimal128 (precision scale : Nat) (explicit : Bool)
  | utf8
  | largeUtf8
  | dateDays
  | dateMillis
  | time (unit : TimeUnit)
  | timestamp (unit : TimeUnit) (zone : String)

/-- The bytes of an integer. -/
def IntWidth.bytes : IntWidth → Nat
  | one => 1
  | two => 2
  | four => 4
  | eight => 8

/-- The bytes of a cell, or of an offset if the cells are texts. -/
def Layout.width : Layout → Nat
  | int w => w.bytes
  | decimal128 .. => 16
  | utf8 => 4
  | largeUtf8 => 8
  | dateDays => 4
  | dateMillis => 8
  | time .second | time .milli => 4
  | time .micro | time .nano => 8
  | timestamp .. => 8

/-- The format of an integer. -/
def IntWidth.letter : IntWidth → Char
  | one => 'c'
  | two => 's'
  | four => 'i'
  | eight => 'l'

/-- The Arrow format string. -/
def Layout.format : Layout → List Char
  | int w => [w.letter]
  | decimal128 precision scale explicit =>
    'd' :: ':' :: (toString precision).toList ++ ',' :: (toString scale).toList ++
      if explicit then [',', '1', '2', '8'] else []
  | utf8 => ['u']
  | largeUtf8 => ['U']
  | dateDays => ['t', 'd', 'D']
  | dateMillis => ['t', 'd', 'm']
  | time unit => ['t', 't', unit.letter]
  | timestamp unit zone => 't' :: 's' :: unit.letter :: ':' :: zone.toList

/-- A cell of a column. -/
inductive Cell where
  | number (n : Int)
  | text (bytes : List UInt8)

/-- What a number means in a layout. -/
def Layout.meaning (layout : Layout) : Option Cell → Meaning
  | none => .null
  | some (.text bytes) => .text bytes
  | some (.number n) =>
    match layout with
    | decimal128 _ scale _ => .number (decimalNumber n scale)
    | dateDays => .date (n * 86400000)
    | dateMillis => .date n
    | time unit => .timeOfDay (n * unit.nanos)
    | timestamp unit zone =>
      if zone = "" then .local (n * unit.nanos) else .instant (n * unit.nanos)
    | _ => .number n

/-- The cells of a layout are texts. -/
def Layout.isText : Layout → Bool
  | utf8 | largeUtf8 => true
  | _ => false

/-- A buffer holds a number as its `i`-th group of `w` bytes. -/
def HoldsNumber (w : Nat) (values : List UInt8) (i : Nat) (n : Int) : Prop :=
  Fits w n ∧ element w values i = bytesOf w n

instance (w : Nat) (values : List UInt8) (i : Nat) (n : Int) :
    Decidable (HoldsNumber w values i n) := inferInstanceAs (Decidable (_ ∧ _))

/-- The buffers hold a cell in row `i`. -/
def HoldsCell (layout : Layout) (values text : List UInt8) (i : Nat) : Cell → Prop
  | .number n => layout.isText = false ∧ HoldsNumber layout.width values i n
  | .text bytes => layout.isText = true ∧ ∃ start : Nat,
      HoldsNumber layout.width values i start ∧
        HoldsNumber layout.width values (i + 1) (start + bytes.length : Nat) ∧
          slice text start bytes.length = bytes

/-- An array holds a column: its bitmap, if it has one, says which rows are null, and its buffers
hold the cells of the others.  A null row may hold anything. -/
structure Stores (array : ArrowArray) (layout : Layout) (cells : List (Option Cell)) : Prop where
  validity : ∀ i cell, cells[i]? = some cell →
    cell.isSome = ((array.buffer 0).map fun b => bit b i).getD true
  held : ∀ i cell, cells[i]? = some (some cell) →
    HoldsCell layout ((array.buffer 1).getD []) ((array.buffer 2).getD []) i cell

/-- What is read of a row, if something is, has the type and means what the row means. -/
def ReadsExactly (array : ArrowArray) (pos : Nat) (type : LogicalType) (layout : Layout)
    (context : String) (cell : Option Cell) : Prop :=
  ∀ v, readArrowValue layout.format context array pos type = .ok v →
    v.type = type ∧ v.meaning = layout.meaning cell

/-! ### The condition -/

/-- The type of an integer. -/
def IntWidth.type : IntWidth → LogicalType
  | one => .tinyint
  | two => .smallint
  | four => .integer
  | eight => .bigint

/-- The integers that a decimal is cast to. -/
def PhysicalType.Castable : PhysicalType → Int → Prop
  | int16, n => Fits 2 n
  | int32, n => Fits 4 n
  | int64, n => Fits 8 n
  | _, _ => True

/-- What is converted of a timestamp to microseconds, is so without loss. -/
def TimeUnit.ToMicros : TimeUnit → Int → Prop
  | second, n => Fits 8 (n * 1000000)
  | milli, n => Fits 8 (n * 1000)
  | micro, _ => True
  | nano, n => 1000 ∣ n

/-- The cells that are read exactly as a type: integers and texts are not read as another type that
is stored alike, a decimal has its own scale, a date is a whole number of days, and a point in time
is a number of microseconds that does not overflow. -/
def Layout.Exact (layout : Layout) (type : LogicalType) : Option Cell → Prop
  | none => True
  | some (.text bytes) => type.internalType = .varchar →
      type = .varchar ∨ ¬ (ByteArray.mk bytes.toArray).IsValidUTF8
  | some (.number n) =>
    match layout with
    | int w => type.internalType = w.type.internalType → type = w.type
    | decimal128 _ scale _ => ∀ width scale', type = .decimal width scale' →
        type.internalType.Castable n → n = 0 ∨ scale = scale'
    | dateMillis => type = .date → Fits 4 (n.tdiv 86400000) → 86400000 ∣ n
    | timestamp unit zone => zone ≠ "" → type = .timestampTz → unit.ToMicros n
    | _ => True

variable {context : String} {values text : List UInt8} {offset : Nat} {type : LogicalType} {n : Int}

/-! ### Integers and texts -/

/-- The value of an integer. -/
def IntWidth.value : IntWidth → Int → DuckValue
  | one, n => .tinyint n
  | two, n => .smallint n
  | four, n => .integer n
  | eight, n => .bigint n

theorem IntWidth.type_value (w : IntWidth) (n : Int) : (w.value n).type = w.type := by
  cases w <;> rfl

theorem IntWidth.meaning_value (w : IntWidth) (n : Int) : (w.value n).meaning = .number n := by
  cases w <;> rfl

theorem readPlain_int {w : IntWidth} (h : type.internalType = w.type.internalType) :
    readPlain [w.letter] context values text offset type =
      .ok (w.value (signed w.bytes (element w.bytes values offset))) := by
  unfold readPlain
  rw [h]
  cases w <;> rfl

theorem readPlain_int_error {w : IntWidth} (h : type.internalType ≠ w.type.internalType) :
    ∃ e, readPlain [w.letter] context values text offset type = .error e := by
  unfold readPlain
  cases hi : type.internalType <;> cases w <;>
    first
    | exact absurd hi h
    | exact ⟨_, rfl⟩

/-- A text that a buffer holds is read whole. -/
theorem readText_of_holds {w start : Nat} {bytes : List UInt8}
    (hstart : HoldsNumber w values offset start)
    (hstop : HoldsNumber w values (offset + 1) (start + bytes.length : Nat))
    (htext : slice text start bytes.length = bytes) :
    readText w values text offset = textValue bytes := by
  have h₁ : signed w (element w values offset) = start := by
    rw [hstart.2, signed_bytesOf hstart.1]
  have h₂ : signed w (element w values (offset + 1)) = (start + bytes.length : Nat) := by
    rw [hstop.2, signed_bytesOf hstop.1]
  have hlen : ((start + bytes.length : Nat) : Int) - start = bytes.length := by
    push_cast
    omega
  unfold readText
  simp only [h₁, h₂, hlen, Int.toNat_natCast, htext]
  rw [if_neg (by omega)]

theorem readPlain_utf8 (h : type.internalType = .varchar) :
    readPlain ['u'] context values text offset type = readText 4 values text offset := by
  unfold readPlain
  rw [h]
  simp

theorem readPlain_largeUtf8 (h : type.internalType = .varchar) :
    readPlain ['U'] context values text offset type = readText 8 values text offset := by
  unfold readPlain
  rw [h]
  simp

/-- No other type is stored as texts are. -/
theorem readPlain_text_error {letter : Char} (hl : letter = 'u' ∨ letter = 'U')
    (h : type.internalType ≠ .varchar) :
    ∃ e, readPlain [letter] context values text offset type = .error e := by
  unfold readPlain
  cases hi : type.internalType <;> rcases hl with rfl | rfl <;>
    first
    | exact absurd hi h
    | exact ⟨_, rfl⟩

/-- A text value has the bytes that it was made of. -/
theorem textValue_eq_ok {bytes : List UInt8} {v : DuckValue} (h : textValue bytes = .ok v) :
    v.type = .varchar ∧ v.meaning = .text bytes := by
  unfold textValue at h
  cases hs : String.fromUTF8? ⟨bytes.toArray⟩ with
  | none =>
    rw [hs] at h
    cases h
  | some s =>
    rw [hs] at h
    obtain rfl := Except.ok.inj h
    unfold String.fromUTF8? at hs
    split_ifs at hs
    obtain rfl := Option.some.inj hs
    exact ⟨rfl, by simp [DuckValue.meaning, String.fromUTF8]⟩

theorem textValue_error_iff {bytes : List UInt8} :
    (∃ e, textValue bytes = .error e) ↔ ¬ (ByteArray.mk bytes.toArray).IsValidUTF8 := by
  unfold textValue String.fromUTF8?
  split_ifs with h
  · simp [h]
  · simp [h]

/-! ### Decimals -/

/-- A number is the same under two scales only if it is zero. -/
theorem decimalNumber_inj {raw : Int} {a b : Nat} :
    decimalNumber raw a = decimalNumber raw b ↔ raw = 0 ∨ a = b := by
  unfold decimalNumber
  constructor
  · intro h
    by_cases hraw : raw = 0
    · exact .inl hraw
    · right
      have hne : (raw : Rat) ≠ 0 := by exact_mod_cast hraw
      have hpow : (10 : Rat) ^ a = 10 ^ b := by
        rw [div_eq_div_iff (by positivity) (by positivity)] at h
        exact (mul_left_cancel₀ hne h).symm
      exact_mod_cast pow_right_injective₀ (by norm_num) (by norm_num) hpow
  · rintro (rfl | rfl)
    · simp
    · rfl

theorem comma_not_mem_toString (n : Nat) : ',' ∉ (toString n).toList := by
  intro h
  have hdigit : Char.isDigit ',' = true := by
    refine Nat.isDigit_of_mem_toDigits (b := 10) (n := n) (by decide) (by decide) ?_
    simpa [toString, Nat.repr] using h
  cases hdigit

/-- The width of a decimal format is 128. -/
theorem decimalBitWidth_format (precision scale : Nat) (explicit : Bool) :
    decimalBitWidth (Layout.decimal128 precision scale explicit).format context = .ok 128 := by
  have hp := comma_not_mem_toString precision
  have hs := comma_not_mem_toString scale
  unfold decimalBitWidth
  cases explicit with
  | false =>
    have hcut : Separators.cutLast ',' (Layout.decimal128 precision scale false).format =
        some ('d' :: ':' :: (toString precision).toList, (toString scale).toList) :=
      Separators.cutLast_eq_some.2 ⟨by simp [Layout.format], hs⟩
    rw [hcut]
    dsimp only
    rw [if_neg]
    simpa using hp
  | true =>
    have hcut : Separators.cutLast ',' (Layout.decimal128 precision scale true).format =
        some ('d' :: ':' :: (toString precision).toList ++ ',' :: (toString scale).toList,
          ['1', '2', '8']) :=
      Separators.cutLast_eq_some.2 ⟨by simp [Layout.format], by decide⟩
    rw [hcut]
    dsimp only
    rw [if_pos (by simp)]
    rfl

theorem castDecimal_of_castable {internal : PhysicalType} (h : internal.Castable n) :
    castDecimal internal n = .ok n := by
  cases internal with
  | int16 =>
    have h8 : hugeintToInt64 n = .ok n := if_pos (Fits.mono h (by decide))
    show (hugeintToInt64 n).bind (numericCast 2) = _
    rw [h8]
    exact if_pos h
  | int32 =>
    have h8 : hugeintToInt64 n = .ok n := if_pos (Fits.mono h (by decide))
    show (hugeintToInt64 n).bind (numericCast 4) = _
    rw [h8]
    exact if_pos h
  | int64 => exact if_pos h
  | _ => rfl

theorem castDecimal_error {internal : PhysicalType} (h : ¬ internal.Castable n) :
    ∃ e, castDecimal internal n = .error e := by
  have hcast : ∀ w, ¬ Fits w n →
      ∃ e, (hugeintToInt64 n).bind (numericCast w) = .error e := by
    intro w hw
    unfold hugeintToInt64
    split_ifs
    · exact ⟨_, if_neg hw⟩
    · exact ⟨_, rfl⟩
  cases internal with
  | int16 => exact hcast 2 h
  | int32 => exact hcast 4 h
  | int64 => exact ⟨_, if_neg h⟩
  | _ => exact absurd trivial h

/-- A decimal is read as it is stored, if it can be cast. -/
theorem readDecimal_decimal {precision scale width scale' : Nat} {explicit : Bool}
    (hn : HoldsNumber 16 values offset n) :
    readDecimal (Layout.decimal128 precision scale explicit).format context values offset
      (.decimal width scale') =
        (castDecimal (LogicalType.decimal width scale').internalType n).map
          fun n => .decimal n width scale' := by
  have hraw : signed 16 (element 16 values offset) = n := by rw [hn.2, signed_bytesOf hn.1]
  unfold readDecimal
  dsimp only
  rw [decimalBitWidth_format, hraw]
  rfl

/-- A decimal is read as a decimal only. -/
theorem readDecimal_error {format : List Char} (h : ∀ width scale, type ≠ .decimal width scale) :
    ∃ e, readDecimal format context values offset type = .error e := by
  unfold readDecimal
  cases type with
  | decimal width scale => exact absurd rfl (h width scale)
  | _ => exact ⟨_, rfl⟩

/-! ### Dates, times and timestamps -/

/-- The type of timestamps of a unit. -/
def TimeUnit.timestampType : TimeUnit → LogicalType
  | second => .timestampSec
  | milli => .timestampMs
  | micro => .timestamp
  | nano => .timestampNs

/-- The type that a date, time or timestamp is read as. -/
def Layout.temporalType : Layout → Option LogicalType
  | dateDays | dateMillis => some .date
  | time .nano => some .timeNs
  | time _ => some .time
  | timestamp unit zone => some (if zone = "" then unit.timestampType else .timestampTz)
  | _ => none

/-- The timestamp of a number of units. -/
def TimeUnit.timestampValue : TimeUnit → Int → DuckValue
  | second, n => .timestampSec n
  | milli, n => .timestampMs n
  | micro, n => .timestamp n
  | nano, n => .timestampNs n

/-- The microseconds that the function computes of a number of units. -/
def TimeUnit.micros : TimeUnit → Int → Int
  | second, n => wrap 8 (n * 1000000)
  | milli, n => wrap 8 (n * 1000)
  | micro, n => n
  | nano, n => n.tdiv 1000

/-- The value of a date, time or timestamp. -/
def Layout.temporalValue (layout : Layout) (n : Int) : Except ArrowError DuckValue :=
  match layout with
  | dateDays => .ok (.date n)
  | dateMillis => (numericCast 4 (n.tdiv (1000 * 86400))).map .date
  | time .nano => .ok (.timeNs n)
  | time unit => .ok (.time (unit.micros n))
  | timestamp unit zone =>
    .ok (if zone = "" then unit.timestampValue n else .timestampTz (unit.micros n))
  | _ => .ok (.null .bigint)

theorem readTemporal_eq {layout : Layout} (h : layout.temporalType = some type)
    (hn : HoldsNumber layout.width values offset n) :
    readTemporal layout.format context values offset type = layout.temporalValue n := by
  have hraw : signed layout.width (element layout.width values offset) = n := by
    rw [hn.2, signed_bytesOf hn.1]
  unfold readTemporal
  cases layout with
  | dateDays =>
    obtain rfl := Option.some.inj h
    simp [Layout.format, Layout.temporalValue, ← hraw, Layout.width]
  | dateMillis =>
    obtain rfl := Option.some.inj h
    simp only [Layout.width] at hraw
    simp [Layout.format, Layout.temporalValue, hraw]
    rfl
  | time unit =>
    cases unit <;> obtain rfl := Option.some.inj h <;>
      simp [Layout.format, TimeUnit.letter, Layout.temporalValue, TimeUnit.micros, ← hraw,
        Layout.width]
  | timestamp unit zone =>
    obtain rfl := Option.some.inj h
    by_cases hz : zone = ""
    · subst hz
      cases unit <;>
        simp [Layout.format, TimeUnit.letter, Layout.temporalValue, TimeUnit.timestampType,
          TimeUnit.timestampValue, ← hraw, Layout.width]
    · have hne : zone.toList ≠ [] := fun hnil => hz (String.toList_eq_nil_iff.1 hnil)
      have hlen : 0 < zone.toList.length := List.length_pos_iff.2 hne
      cases unit <;>
        simp [Layout.format, TimeUnit.letter, Layout.temporalValue, TimeUnit.micros, ← hraw,
          Layout.width, hz, hlen]
  | _ => cases h

/-- Dates, times and timestamps are not read as another type. -/
theorem readTemporal_mismatch {layout : Layout} {expected : LogicalType}
    (h : layout.temporalType = some expected) (hne : type ≠ expected) :
    readTemporal layout.format context values offset type =
      layoutMismatch layout.format context type := by
  unfold readTemporal
  cases layout with
  | timestamp unit zone =>
    obtain rfl := Option.some.inj h
    by_cases hz : zone = ""
    · subst hz
      cases unit <;> simp only [if_true, TimeUnit.timestampType] at hne <;>
        simp [Layout.format, TimeUnit.letter, hne]
    · rw [if_neg hz] at hne
      cases unit <;> simp [Layout.format, TimeUnit.letter, hne, hz]
  | time unit =>
    cases unit <;> obtain rfl := Option.some.inj h <;>
      simp [Layout.format, TimeUnit.letter, hne]
  | dateDays =>
    obtain rfl := Option.some.inj h
    simp [Layout.format, hne]
  | dateMillis =>
    obtain rfl := Option.some.inj h
    simp [Layout.format, hne]
  | _ => cases h

/-- A date of milliseconds is a date of days if these are a whole number. -/
theorem meaning_days_iff {days : Int} (h : days = n.tdiv (1000 * 86400)) :
    (DuckValue.date days).meaning = .date n ↔ 86400000 ∣ n := by
  subst h
  rw [DuckValue.meaning, Meaning.date.injEq]
  constructor
  · intro h
    exact ⟨_, by rw [← h, mul_comm]⟩
  · exact fun h => Int.tdiv_mul_cancel h

/-- Microseconds keep a point in time exactly if nothing is lost on the way. -/
theorem meaning_micros_iff (unit : TimeUnit) (n : Int) :
    (DuckValue.timestampTz (unit.micros n)).meaning = .instant (n * unit.nanos) ↔
      unit.ToMicros n := by
  rw [DuckValue.meaning, Meaning.instant.injEq]
  cases unit with
  | second =>
    rw [TimeUnit.ToMicros, ← wrap_eq_self_iff (by decide), TimeUnit.micros, TimeUnit.nanos]
    constructor <;> intro h <;> omega
  | milli =>
    rw [TimeUnit.ToMicros, ← wrap_eq_self_iff (by decide), TimeUnit.micros, TimeUnit.nanos]
    constructor <;> intro h <;> omega
  | micro => simp [TimeUnit.micros, TimeUnit.nanos, TimeUnit.ToMicros]
  | nano =>
    rw [TimeUnit.ToMicros, TimeUnit.micros, TimeUnit.nanos, mul_one]
    exact ⟨fun h => ⟨_, by rw [← h, mul_comm]⟩, fun h => Int.tdiv_mul_cancel h⟩

/-- A time of day of four bytes does not overflow. -/
theorem meaning_time {unit : TimeUnit} (h : Fits (Layout.time unit).width n) (hu : unit ≠ .nano) :
    (DuckValue.time (unit.micros n)).meaning = .timeOfDay (n * unit.nanos) := by
  rw [DuckValue.meaning, Meaning.timeOfDay.injEq]
  cases unit with
  | second =>
    have hfits : Fits 8 (n * 1000000) := by
      have := h.1
      have := h.2
      simp only [Layout.width] at *
      constructor <;> omega
    rw [TimeUnit.micros, wrap_of_fits hfits, TimeUnit.nanos]
    omega
  | milli =>
    have hfits : Fits 8 (n * 1000) := by
      have := h.1
      have := h.2
      simp only [Layout.width] at *
      constructor <;> omega
    rw [TimeUnit.micros, wrap_of_fits hfits, TimeUnit.nanos]
    omega
  | micro => rfl
  | nano => exact absurd rfl hu

/-! ### Every layout -/

/-- What is returned, if something is, has the type and the meaning. -/
def Returns (r : Except ArrowError DuckValue) (type : LogicalType) (meaning : Meaning) : Prop :=
  ∀ v, r = .ok v → v.type = type ∧ v.meaning = meaning

theorem Returns.of_ok_iff {v : DuckValue} {meaning : Meaning} :
    Returns (.ok v) type meaning ↔ v.type = type ∧ v.meaning = meaning := by
  refine ⟨fun h => h v rfl, fun h v' hv => ?_⟩
  obtain rfl := Except.ok.inj hv
  exact h

theorem Returns.of_error {r : Except ArrowError DuckValue} {meaning : Meaning}
    (h : ∃ e, r = .error e) : Returns r type meaning := by
  rintro v rfl
  obtain ⟨e, he⟩ := h
  cases he

theorem returns_int_iff {w : IntWidth} (hn : HoldsNumber w.bytes values offset n) :
    Returns (readPlain [w.letter] context values text offset type) type (.number n) ↔
      (Layout.int w).Exact type (some (.number n)) := by
  by_cases h : type.internalType = w.type.internalType
  · rw [readPlain_int h, hn.2, signed_bytesOf hn.1, Returns.of_ok_iff, w.type_value,
      w.meaning_value]
    exact ⟨fun h _ => h.1.symm, fun htype => ⟨(htype h).symm, rfl⟩⟩
  · exact iff_of_true (.of_error (readPlain_int_error h)) fun h' => absurd h' h

theorem returns_text_iff {bytes : List UInt8} {letter : Char} {w : Nat}
    (hl : letter = 'u' ∨ letter = 'U')
    (hread : type.internalType = .varchar →
      readPlain [letter] context values text offset type = readText w values text offset)
    (htext : readText w values text offset = textValue bytes) (layout : Layout) :
    Returns (readPlain [letter] context values text offset type) type (.text bytes) ↔
      layout.Exact type (some (.text bytes)) := by
  by_cases h : type.internalType = .varchar
  · rw [hread h, htext, Layout.Exact, ← textValue_error_iff]
    constructor
    · intro hret _
      cases hv : textValue bytes with
      | error e => exact .inr ⟨e, rfl⟩
      | ok v => exact .inl ((hret v hv).1.symm.trans (textValue_eq_ok hv).1)
    · intro hexact
      rcases hexact h with rfl | herr
      · exact fun v hv => textValue_eq_ok hv
      · exact .of_error herr
  · exact iff_of_true (.of_error (readPlain_text_error hl h)) fun h' => absurd h' h

theorem returns_decimal_iff {precision scale : Nat} {explicit : Bool}
    (hn : HoldsNumber 16 values offset n) :
    Returns (readDecimal (Layout.decimal128 precision scale explicit).format context values offset
        type) type (.number (decimalNumber n scale)) ↔
      (Layout.decimal128 precision scale explicit).Exact type (some (.number n)) := by
  by_cases h : ∃ width scale', type = .decimal width scale'
  · obtain ⟨width, scale', rfl⟩ := h
    rw [readDecimal_decimal hn]
    by_cases hcast : (LogicalType.decimal width scale').internalType.Castable n
    · rw [castDecimal_of_castable hcast]
      refine Returns.of_ok_iff.trans ?_
      rw [DuckValue.meaning, Meaning.number.injEq, decimalNumber_inj]
      constructor
      · rintro ⟨-, h⟩ width₁ scale₁ heq -
        obtain ⟨rfl, rfl⟩ := LogicalType.decimal.inj heq
        exact h.imp id Eq.symm
      · exact fun h => ⟨rfl, (h width scale' rfl hcast).imp id Eq.symm⟩
    · obtain ⟨e, he⟩ := castDecimal_error hcast
      rw [he]
      refine iff_of_true (.of_error ⟨e, rfl⟩) ?_
      rintro width₁ scale₁ heq hcast'
      exact absurd hcast' hcast
  · have hne : ∀ width scale', type ≠ .decimal width scale' :=
      fun width scale' heq => h ⟨width, scale', heq⟩
    refine iff_of_true (.of_error (readDecimal_error hne)) ?_
    intro width scale' heq
    exact absurd heq (hne width scale')

theorem returns_temporal_iff {layout : Layout} {expected : LogicalType}
    (h : layout.temporalType = some expected) (hn : HoldsNumber layout.width values offset n) :
    Returns (readTemporal layout.format context values offset type) type
        (layout.meaning (some (.number n))) ↔
      layout.Exact type (some (.number n)) := by
  -- the code compares the types before it reads, so that a mismatch raises
  by_cases htype : type = expected
  · subst htype
    rw [readTemporal_eq h hn]
    cases layout with
    | dateDays =>
      obtain rfl := Option.some.inj h
      exact iff_of_true (Returns.of_ok_iff.2 ⟨rfl, rfl⟩) trivial
    | dateMillis =>
      obtain rfl := Option.some.inj h
      by_cases hfits : Fits 4 (n.tdiv (1000 * 86400))
      · rw [Layout.temporalValue, numericCast, if_pos hfits]
        refine Returns.of_ok_iff.trans ?_
        rw [Layout.meaning, meaning_days_iff rfl]
        exact ⟨fun h _ _ => h.2, fun h => ⟨rfl, h rfl hfits⟩⟩
      · rw [Layout.temporalValue, numericCast, if_neg hfits]
        exact iff_of_true (.of_error ⟨_, rfl⟩) fun _ hfits' => absurd hfits' hfits
    | time unit =>
      refine iff_of_true ?_ trivial
      -- nanoseconds have a type of their own
      by_cases hu : unit = .nano
      · subst hu
        obtain rfl := Option.some.inj h
        exact Returns.of_ok_iff.2 ⟨rfl, by simp [DuckValue.meaning, Layout.meaning, TimeUnit.nanos]⟩
      · have hvalue : (Layout.time unit).temporalValue n = .ok (.time (unit.micros n)) := by
          cases unit <;> first | rfl | exact absurd rfl hu
        have hexpected : type = .time := by
          cases unit <;> first | exact (Option.some.inj h).symm | exact absurd rfl hu
        rw [hvalue, hexpected]
        exact Returns.of_ok_iff.2 ⟨rfl, meaning_time hn.1 hu⟩
    | timestamp unit zone =>
      obtain rfl := Option.some.inj h
      rw [Layout.temporalValue, Returns.of_ok_iff, Layout.meaning]
      -- without a zone the unit decides the type, with one all are microseconds
      by_cases hz : zone = ""
      · simp only [if_pos hz]
        refine iff_of_true ⟨?_, ?_⟩ fun hz' => absurd hz hz'
        · cases unit <;> rfl
        · cases unit <;> simp [TimeUnit.timestampValue, DuckValue.meaning, TimeUnit.nanos]
      · simp only [if_neg hz]
        rw [meaning_micros_iff]
        exact ⟨fun h _ _ => h.2, fun h => ⟨rfl, h hz rfl⟩⟩
    | _ => cases h
  · rw [readTemporal_mismatch h htype]
    refine iff_of_true (.of_error ⟨_, rfl⟩) ?_
    cases layout with
    | dateMillis => exact fun hdate => absurd (hdate.trans (Option.some.inj h)) htype
    | timestamp unit zone =>
      intro hz htz
      rw [Layout.temporalType, if_neg hz] at h
      exact absurd (htz.trans (Option.some.inj h)) htype
    | int _ | decimal128 _ _ _ | utf8 | largeUtf8 => cases h
    | _ => trivial

variable {array : ArrowArray} {pos : Nat} {layout : Layout} {cells : List (Option Cell)}
  {cell : Option Cell}

theorem Stores.isNull_eq (h : Stores array layout cells)
    (hcell : cells[array.offset + pos]? = some cell) : array.isNull pos = !cell.isSome := by
  rw [h.validity _ cell hcell, ArrowArray.isNull]
  cases array.buffer 0 <;> rfl

/-- The branch that reads a cell which is not null. -/
theorem readArrowValue_of_cell (h : Stores array layout cells) {c : Cell}
    (hcell : cells[array.offset + pos]? = some (some c)) (hplain : array.plain = some values)
    (format : List Char) : readArrowValue format context array pos type =
      if format.head? = some 'd' then
        readDecimal format context values (array.offset + pos) type
      else if format.head? = some 't' then
        readTemporal format context values (array.offset + pos) type
      else readPlain format context values ((array.buffer 2).getD []) (array.offset + pos) type := by
  have hnull := h.isNull_eq hcell
  unfold readArrowValue
  rw [hplain]
  dsimp only
  rw [hnull]
  rfl

theorem ArrowArray.buffer_of_plain (h : array.plain = some values) :
    (array.buffer 1).getD [] = values := by
  unfold plain at h
  split_ifs at h
  rw [h]
  rfl

/-- What is read of a row, case by case. -/
theorem returns_row_iff (context : String) (type : LogicalType) (h : Stores array layout cells)
    (hcell : cells[array.offset + pos]? = some cell) :
    Returns (readArrowValue layout.format context array pos type) type (layout.meaning cell) ↔
      (array.plain.isSome = true → layout.Exact type cell) := by
  cases hplain : array.plain with
  | none =>
    unfold readArrowValue
    rw [hplain]
    exact iff_of_true (.of_error ⟨_, rfl⟩) fun hsome => by cases hsome
  | some values =>
    simp only [Option.isSome_some, true_implies]
    cases cell with
    | none =>
      have hnull : array.isNull pos = true := h.isNull_eq hcell
      unfold readArrowValue
      rw [hplain]
      dsimp only
      rw [if_pos hnull]
      exact iff_of_true (Returns.of_ok_iff.2 ⟨rfl, rfl⟩) trivial
    | some c =>
      have hheld := h.held _ c hcell
      rw [ArrowArray.buffer_of_plain hplain] at hheld
      rw [readArrowValue_of_cell h hcell hplain]
      cases c with
      | text bytes =>
        obtain ⟨htext, start, hstart, hstop, hslice⟩ := hheld
        have hread := readText_of_holds hstart hstop hslice
        cases layout with
        | utf8 =>
          rw [if_neg (by simp [Layout.format]), if_neg (by simp [Layout.format])]
          exact returns_text_iff (.inl rfl) readPlain_utf8 hread .utf8
        | largeUtf8 =>
          rw [if_neg (by simp [Layout.format]), if_neg (by simp [Layout.format])]
          exact returns_text_iff (.inr rfl) readPlain_largeUtf8 hread .largeUtf8
        | _ => cases htext
      -- which of the branches is taken depends on the first letter of the format
      | number n =>
        obtain ⟨htext, hn⟩ := hheld
        cases layout with
        | int w =>
          have hbranch : w.letter ≠ 'd' ∧ w.letter ≠ 't' := by cases w <;> decide
          simp only [Layout.format, List.head?_cons, Option.some.injEq, if_neg hbranch.1,
            if_neg hbranch.2]
          exact returns_int_iff hn
        | decimal128 precision scale explicit =>
          rw [if_pos (by simp [Layout.format])]
          exact returns_decimal_iff hn
        | dateDays =>
          rw [if_neg (by simp [Layout.format]), if_pos (by simp [Layout.format])]
          exact returns_temporal_iff rfl hn
        | dateMillis =>
          rw [if_neg (by simp [Layout.format]), if_pos (by simp [Layout.format])]
          exact returns_temporal_iff rfl hn
        | time unit =>
          rw [if_neg (by simp [Layout.format]), if_pos (by simp [Layout.format])]
          cases unit <;> exact returns_temporal_iff rfl hn
        | timestamp unit zone =>
          rw [if_neg (by simp [Layout.format]), if_pos (by simp [Layout.format])]
          exact returns_temporal_iff rfl hn
        | _ => cases htext

/-- **A row of a column is read exactly, or not at all, exactly if its cell meets the condition**,
or the array cannot be read. -/
theorem readArrowValue_exact_iff (context : String) (type : LogicalType)
    (h : Stores array layout cells) (hcell : cells[array.offset + pos]? = some cell) :
    ReadsExactly array pos type layout context cell ↔
      (array.plain.isSome = true → layout.Exact type cell) :=
  returns_row_iff context type h hcell

namespace Sample

/-- A column of nanoseconds in UTC. -/
def nanosUtc : Layout := .timestamp .nano "UTC"

/-- An array of one row of it. -/
def nanosArray : ArrowArray := ⟨0, false, [none, some (bytesOf 8 1500)]⟩

/-- An array of two integers that begins at the second. -/
def integersArray : ArrowArray := ⟨1, false, [none, some (bytesOf 4 7 ++ bytesOf 4 (-2))]⟩

theorem stores_nanos : Stores nanosArray nanosUtc [some (.number 1500)] where
  validity i cell hcell := by
    match i with
    | 0 => cases hcell; rfl
    | i + 1 => cases hcell
  held i cell hcell := by
    match i with
    | 0 => cases hcell; exact ⟨rfl, by decide⟩
    | i + 1 => cases hcell

theorem stores_integers :
    Stores integersArray (.int .four) [some (.number 7), some (.number (-2))] where
  validity i cell hcell := by
    match i with
    | 0 => cases hcell; rfl
    | 1 => cases hcell; rfl
    | i + 2 => cases hcell
  held i cell hcell := by
    match i with
    | 0 => cases hcell; exact ⟨rfl, by decide⟩
    | 1 => cases hcell; exact ⟨rfl, by decide⟩
    | i + 2 => cases hcell

end Sample

/-- A point in time of 1500 nanoseconds is read as one of a microsecond. -/
theorem not_reads_exactly :
    ¬ ∀ (array : ArrowArray) (pos : Nat) (type : LogicalType) (layout : Layout)
      (context : String) (cells : List (Option Cell)) (cell : Option Cell),
      Stores array layout cells → cells[array.offset + pos]? = some cell →
        ReadsExactly array pos type layout context cell := by
  intro h
  have hread : Returns (readArrowValue Sample.nanosUtc.format "scan" Sample.nanosArray 0
      .timestampTz) .timestampTz (.instant 1500) :=
    h Sample.nanosArray 0 .timestampTz Sample.nanosUtc "scan" _ _ Sample.stores_nanos rfl
  rw [readArrowValue_of_cell Sample.stores_nanos rfl rfl,
    if_neg (by simp [Sample.nanosUtc, Layout.format]),
    if_pos (by simp [Sample.nanosUtc, Layout.format])] at hread
  have hheld : HoldsNumber Sample.nanosUtc.width (bytesOf 8 1500) 0 1500 := by decide
  have hexact : Sample.nanosUtc.Exact .timestampTz (some (.number 1500)) :=
    (returns_temporal_iff rfl hheld).1 hread
  have hdvd : (1000 : Int) ∣ 1500 := hexact (by decide) rfl
  exact absurd hdvd (by decide)

/-- The second integer is read from the first position of an array that begins there. -/
theorem readArrowValue_exact_integer :
    ReadsExactly Sample.integersArray 0 .integer (.int .four) "scan" (some (.number (-2))) :=
  (readArrowValue_exact_iff "scan" .integer Sample.stores_integers rfl).2 fun _ _ => rfl

/-! ### Distinct keys -/

theorem decimalNumber_injective {m : Int} {scale : Nat}
    (h : decimalNumber n scale = decimalNumber m scale) : n = m := by
  unfold decimalNumber at h
  have hpow : (10 : Rat) ^ scale ≠ 0 := by positivity
  exact_mod_cast (div_left_inj' hpow).1 h

/-- Different numbers of a layout mean different things. -/
theorem Layout.meaning_number_injective (layout : Layout) {m : Int}
    (h : layout.meaning (some (.number n)) = layout.meaning (some (.number m))) : n = m := by
  cases layout with
  | decimal128 precision scale explicit =>
    exact decimalNumber_injective (Meaning.number.inj h)
  | dateDays =>
    have := Meaning.date.inj h
    omega
  | dateMillis => exact Meaning.date.inj h
  | time unit =>
    have := Meaning.timeOfDay.inj h
    cases unit <;> simp only [TimeUnit.nanos] at this <;> omega
  | timestamp unit zone =>
    simp only [meaning] at h
    split_ifs at h
    · have := Meaning.local.inj h
      cases unit <;> simp only [TimeUnit.nanos] at this <;> omega
    · have := Meaning.instant.inj h
      cases unit <;> simp only [TimeUnit.nanos] at this <;> omega
  | _ => exact_mod_cast Meaning.number.inj h

/-- A number means neither a text nor null. -/
theorem Layout.meaning_number_ne (layout : Layout) (n : Int) :
    layout.meaning (some (.number n)) ≠ .null ∧
      ∀ bytes, layout.meaning (some (.number n)) ≠ .text bytes := by
  cases layout with
  | timestamp unit zone =>
    simp only [meaning]
    split_ifs <;> exact ⟨nofun, nofun⟩
  | _ => exact ⟨nofun, nofun⟩

/-- Different cells of a layout mean different things. -/
theorem Layout.meaning_injective (layout : Layout) : Function.Injective layout.meaning := by
  intro c c' h
  match c, c' with
  | none, none => rfl
  | none, some (.text bytes) => cases h
  | none, some (.number m) => exact absurd h.symm (layout.meaning_number_ne m).1
  | some (.text bytes), none => cases h
  | some (.text bytes), some (.text bytes') => rw [Meaning.text.inj h]
  | some (.text bytes), some (.number m) =>
    exact absurd h.symm ((layout.meaning_number_ne m).2 bytes)
  | some (.number n), none => exact absurd h (layout.meaning_number_ne n).1
  | some (.number n), some (.text bytes) => exact absurd h ((layout.meaning_number_ne n).2 bytes)
  | some (.number n), some (.number m) => rw [layout.meaning_number_injective h]

/-- Rows that are read exactly, as the same value, hold the same cell. -/
theorem cell_eq_of_reads {array' : ArrowArray} {pos' : Nat} {cell' : Option Cell} {v : DuckValue}
    (h : ReadsExactly array pos type layout context cell)
    (h' : ReadsExactly array' pos' type layout context cell')
    (hv : readArrowValue layout.format context array pos type = .ok v)
    (hv' : readArrowValue layout.format context array' pos' type = .ok v) : cell = cell' :=
  layout.meaning_injective ((h v hv).2.symm.trans (h' v hv').2)

end Provider

end VirtualCatalog
