import VirtualCatalog.Bytes.LittleEndian
import VirtualCatalog.Names.Separators
import Mathlib.Data.Rat.Defs

/-!
# Reading a key from an Arrow array

The scan of a keyed write reads the key columns of a record batch out of their Arrow buffers, by
the column's Arrow format and DuckDB type.

* `ArrowArray`, `LogicalType`, `DuckValue` : what is read, as what, and what is returned.
* `readArrowValue` : `ReadArrowValue`.
-/

namespace VirtualCatalog

namespace Provider

open LittleEndian

/-! ### Types and values of DuckDB -/

/-- `PhysicalType`, as far as the function tells them apart. -/
inductive PhysicalType where
  | int8
  | int16
  | int32
  | int64
  | varchar
  | other
deriving DecidableEq

/-- `LogicalType`. -/
inductive LogicalType where
  | tinyint
  | smallint
  | integer
  | bigint
  | decimal (width scale : Nat)
  | varchar
  | date
  | time
  | timeNs
  | timestampSec
  | timestampMs
  | timestamp
  | timestampNs
  | timestampTz
  /-- Any other type, with its name. -/
  | other (name : String) (internal : PhysicalType)
deriving DecidableEq

/-- `InternalType`. -/
def LogicalType.internalType : LogicalType → PhysicalType
  | tinyint => .int8
  | smallint => .int16
  | integer => .int32
  | bigint => .int64
  | decimal width _ =>
    if width ≤ 4 then .int16 else if width ≤ 9 then .int32
    else if width ≤ 18 then .int64 else .other
  | varchar => .varchar
  | date => .int32
  | time | timeNs | timestampSec | timestampMs | timestamp | timestampNs | timestampTz => .int64
  | other _ internal => internal

/-- `LogicalType::ToString`. -/
def LogicalType.toString : LogicalType → String
  | tinyint => "TINYINT"
  | smallint => "SMALLINT"
  | integer => "INTEGER"
  | bigint => "BIGINT"
  | decimal width scale =>
    "DECIMAL(" ++ ToString.toString width ++ "," ++ ToString.toString scale ++ ")"
  | varchar => "VARCHAR"
  | date => "DATE"
  | time => "TIME"
  | timeNs => "TIME_NS"
  | timestampSec => "TIMESTAMP_S"
  | timestampMs => "TIMESTAMP_MS"
  | timestamp => "TIMESTAMP"
  | timestampNs => "TIMESTAMP_NS"
  | timestampTz => "TIMESTAMP WITH TIME ZONE"
  | other name _ => name

/-- `Value`, as far as the function makes them. -/
inductive DuckValue where
  | null (type : LogicalType)
  | tinyint (n : Int)
  | smallint (n : Int)
  | integer (n : Int)
  | bigint (n : Int)
  | decimal (raw : Int) (width scale : Nat)
  | varchar (text : String)
  | date (days : Int)
  /-- In microseconds. -/
  | time (micros : Int)
  | timeNs (nanos : Int)
  | timestampSec (seconds : Int)
  | timestampMs (millis : Int)
  | timestamp (micros : Int)
  | timestampNs (nanos : Int)
  | timestampTz (micros : Int)

/-- `Value::type`. -/
def DuckValue.type : DuckValue → LogicalType
  | null type => type
  | tinyint _ => .tinyint
  | smallint _ => .smallint
  | integer _ => .integer
  | bigint _ => .bigint
  | decimal _ width scale => .decimal width scale
  | varchar _ => .varchar
  | date _ => .date
  | time _ => .time
  | timeNs _ => .timeNs
  | timestampSec _ => .timestampSec
  | timestampMs _ => .timestampMs
  | timestamp _ => .timestamp
  | timestampNs _ => .timestampNs
  | timestampTz _ => .timestampTz

/-! ### The function -/

/-- `ArrowArray`: its offset, whether it is dictionary-encoded, and its buffers. -/
structure ArrowArray where
  offset : Nat
  dictionary : Bool := false
  buffers : List (Option (List UInt8))

/-- A buffer that is there. -/
def ArrowArray.buffer (array : ArrowArray) (i : Nat) : Option (List UInt8) :=
  array.buffers[i]?.join

/-- What the function throws. -/
inductive ArrowError where
  | io (message : String)
  | internal (message : String)
  | outOfRange (message : String)
  | invalidInput (message : String)

/-- `NumericCast` to a signed integer of `w` bytes. -/
def numericCast (w : Nat) (z : Int) : Except ArrowError Int :=
  if Fits w z then .ok z
  else .error (.internal ("Information loss on integer cast: value " ++ toString z ++
    " outside of target range"))

/-- `Hugeint::Cast<int64_t>`. -/
def hugeintToInt64 (z : Int) : Except ArrowError Int :=
  if Fits 8 z then .ok z
  else .error (.outOfRange ("Type INT128 with value " ++ toString z ++
    " can't be cast because the value is out of range for the destination type INT64"))

/-- The cast of a decimal to what its type is stored as. -/
def castDecimal (internal : PhysicalType) (raw : Int) : Except ArrowError Int :=
  match internal with
  | .int16 => do numericCast 2 (← hugeintToInt64 raw)
  | .int32 => do numericCast 4 (← hugeintToInt64 raw)
  | .int64 => hugeintToInt64 raw
  | _ => .ok raw

/-- `isspace`, for the characters from the tab to the carriage return and the blank. -/
def isSpace (c : Char) : Bool := c == ' ' || (decide ('\t' ≤ c) && decide (c ≤ '\r'))

/-- `strtol` in base 10: the number, and what follows it. -/
def strtol (s : List Char) : Int × List Char :=
  let unspaced := s.dropWhile isSpace
  let negative := unspaced.head? = some '-'
  let unsigned := if negative ∨ unspaced.head? = some '+' then unspaced.tail else unspaced
  let digits := unsigned.takeWhile Char.isDigit
  let number : Int := digits.foldl (fun n c => 10 * n + (c.toNat - 48)) 0
  if digits = [] then (0, s)
  else (max (-2 ^ 63) (min (2 ^ 63 - 1) (if negative then -number else number)),
    unsigned.drop digits.length)

section Read

variable (format : List Char) (context : String)

/-- The layout and the type do not belong together. -/
def layoutMismatch {α : Type} (type : LogicalType) : Except ArrowError α :=
  .error (.io (context ++ ": primary key column has Arrow layout '" ++ String.ofList format ++
    "' but DuckDB type " ++ type.toString))

/-- The layout is none that a key can have. -/
def layoutUnreadable {α : Type} (hint : String) : Except ArrowError α :=
  .error (.io (context ++ ": primary key column uses the Arrow layout '" ++
    String.ofList format ++ "', which cannot be read as a key" ++ hint))

/-- The width in a decimal format `d:precision,scale[,bitWidth]`, 128 if it is omitted. -/
def decimalBitWidth : Except ArrowError Int :=
  match Separators.cutLast ',' format with
  | none => .ok 128
  | some (before, after) =>
    if ',' ∈ before then
      if (strtol after).2 = after ∨ (strtol after).2 ≠ [] then
        .error (.io (context ++
          ": primary key column has an unreadable decimal width in Arrow layout '" ++
          String.ofList format ++ "'"))
      else .ok (strtol after).1
    else .ok 128

/-- The branch of the decimal layouts. -/
def readDecimal (values : List UInt8) (offset : Nat) (type : LogicalType) :
    Except ArrowError DuckValue :=
  match type with
  | .decimal width scale => do
    let bitWidth ← decimalBitWidth format context
    if bitWidth ≠ 128 then
      .error (.io (context ++ ": primary key column uses " ++ toString bitWidth ++
        "-bit decimal, which cannot be read as a key; use decimal128"))
    else do
      let n ← castDecimal type.internalType (signed 16 (element 16 values offset))
      pure (.decimal n width scale)
  | _ => layoutMismatch format context type

/-- The branch of the dates, times and timestamps. -/
def readTemporal (values : List UInt8) (offset : Nat) (type : LogicalType) :
    Except ArrowError DuckValue :=
  let int32 := signed 4 (element 4 values offset)
  let int64 := signed 8 (element 8 values offset)
  if format = ['t', 'd', 'D'] ∧ type = .date then .ok (.date int32)
  else if format = ['t', 'd', 'm'] ∧ type = .date then do
    let days ← numericCast 4 (int64.tdiv (1000 * 86400))
    pure (.date days)
  else if format = ['t', 't', 's'] ∧ type = .time then .ok (.time (wrap 8 (int32 * 1000000)))
  else if format = ['t', 't', 'm'] ∧ type = .time then .ok (.time (wrap 8 (int32 * 1000)))
  else if format = ['t', 't', 'u'] ∧ type = .time then .ok (.time int64)
  else if format = ['t', 't', 'n'] ∧ type = .timeNs then .ok (.timeNs int64)
  else if format = ['t', 's', 's', ':'] ∧ type = .timestampSec then .ok (.timestampSec int64)
  else if format = ['t', 's', 'm', ':'] ∧ type = .timestampMs then .ok (.timestampMs int64)
  else if format = ['t', 's', 'u', ':'] ∧ type = .timestamp then .ok (.timestamp int64)
  else if format = ['t', 's', 'n', ':'] ∧ type = .timestampNs then .ok (.timestampNs int64)
  -- the zone is not looked at: every zoned column is read as an instant
  else if 4 < format.length ∧ format[1]? = some 's' ∧ format[3]? = some ':' ∧
      type = .timestampTz then
    if format[2]? = some 's' then .ok (.timestampTz (wrap 8 (int64 * 1000000)))
    else if format[2]? = some 'm' then .ok (.timestampTz (wrap 8 (int64 * 1000)))
    else if format[2]? = some 'u' then .ok (.timestampTz int64)
    else if format[2]? = some 'n' then .ok (.timestampTz (int64.tdiv 1000))
    else layoutMismatch format context type
  else layoutMismatch format context type

/-- `Value(string)`, which checks that the text is UTF-8. -/
def textValue (bytes : List UInt8) : Except ArrowError DuckValue :=
  match String.fromUTF8? ⟨bytes.toArray⟩ with
  | some s => .ok (.varchar s)
  | none => .error (.invalidInput
      "Invalid unicode (byte sequence mismatch) detected in value construction")

/-- A text between two offsets of `w` bytes. -/
def readText (w : Nat) (values text : List UInt8) (offset : Nat) : Except ArrowError DuckValue :=
  let start := signed w (element w values offset)
  let stop := signed w (element w values (offset + 1))
  if stop - start < 0 then
    .error (.internal ("Information loss on integer cast: value " ++ toString (stop - start) ++
      " outside of target range"))
  else textValue (slice text start.toNat (stop - start).toNat)

/-- The branch of the integers and the texts. -/
def readPlain (values text : List UInt8) (offset : Nat) (type : LogicalType) :
    Except ArrowError DuckValue :=
  -- the physical type decides, the format is only compared
  match type.internalType with
  | .int8 =>
    if format = ['c'] then .ok (.tinyint (signed 1 (element 1 values offset)))
    else layoutMismatch format context type
  | .int16 =>
    if format = ['s'] then .ok (.smallint (signed 2 (element 2 values offset)))
    else layoutMismatch format context type
  | .int32 =>
    if format = ['i'] then .ok (.integer (signed 4 (element 4 values offset)))
    else layoutMismatch format context type
  | .int64 =>
    if format = ['l'] then .ok (.bigint (signed 8 (element 8 values offset)))
    else layoutMismatch format context type
  | .varchar =>
    if format = ['u'] then readText 4 values text offset
    else if format = ['U'] then readText 8 values text offset
    else layoutUnreadable format context "; use utf8 or large_utf8"
  | .other =>
    .error (.io (context ++ ": unsupported primary key column type: " ++ type.toString))

/-- The row is null. -/
def ArrowArray.isNull (array : ArrowArray) (pos : Nat) : Bool :=
  match array.buffer 0 with
  | none => false
  | some validity => !bit validity (array.offset + pos)

/-- The buffer of the values, if the array is one that can be read. -/
def ArrowArray.plain (array : ArrowArray) : Option (List UInt8) :=
  if array.dictionary then none else array.buffer 1

/-- `ReadArrowValue`. -/
def readArrowValue (array : ArrowArray) (pos : Nat) (type : LogicalType) :
    Except ArrowError DuckValue :=
  match array.plain with
  | none => layoutUnreadable format context ""
  | some values =>
    if array.isNull pos then .ok (.null type)
    else if format.head? = some 'd' then
      readDecimal format context values (array.offset + pos) type
    else if format.head? = some 't' then
      readTemporal format context values (array.offset + pos) type
    else
      readPlain format context values ((array.buffer 2).getD []) (array.offset + pos) type

end Read

end Provider

end VirtualCatalog
