import VirtualCatalog.Sql.Truth
import Mathlib.Data.Rat.Defs

/-!
# Constants of pushed filters

A value of a filter crosses to the provider as JSON.  A value that JSON cannot carry is written as
text, with a tag that tells the reader how to rebuild it.

* `FilterValue` : a value of DuckDB, or a `NULL` of some type.
* `valueTypeTag`, `valueNode` : `ValueTypeTag` and `ValueNode`.
* `compareValues` : a comparison of two values; how DuckDB orders values that are not `NULL` is a
  parameter.
-/

namespace VirtualCatalog

namespace Provider

/-! ### Values -/

/-- The integer types that cross as JSON integers. -/
inductive IntegerType where
  | tinyint
  | smallint
  | integer
  | bigint
  | utinyint
  | usmallint
  | uinteger
  | ubigint
deriving DecidableEq

/-- `FLOAT` and `DOUBLE`. -/
inductive FloatType where
  | float
  | double
deriving DecidableEq

/-- The timestamps: `TIMESTAMP`, `TIMESTAMP_SEC`, `TIMESTAMP_MS`, `TIMESTAMP_NS`, `TIMESTAMP_TZ`. -/
inductive TimestampType where
  | micros
  | seconds
  | millis
  | nanos
  | tz
deriving DecidableEq

/-- `LogicalTypeId`. -/
inductive LogicalTypeId where
  | boolean
  | integer (type : IntegerType)
  | floating (type : FloatType)
  | varchar
  | enum
  | date
  | time
  | timeTz
  | timestamp (type : TimestampType)
  | decimal
  | hugeint
  | uhugeint
  /-- Any other type, with its name. -/
  | other (name : String)
deriving DecidableEq

/-- What a `FLOAT` or `DOUBLE` stands for. -/
inductive FloatValue where
  | nan
  | infinite (negative : Bool)
  | finite (x : Rat)
deriving DecidableEq

/-- A day of the calendar. -/
structure CivilDate where
  year : Int
  month : Nat
  day : Nat
deriving DecidableEq

/-- A value with the two infinities of its type. -/
inductive Timed (α : Type) where
  | beforeAll
  | at (a : α)
  | afterAll
deriving DecidableEq

/-- A value of DuckDB. -/
inductive FilterValue where
  | null (type : LogicalTypeId)
  | boolean (b : Bool)
  | integer (type : IntegerType) (z : Int)
  | floating (type : FloatType) (x : FloatValue)
  | varchar (s : String)
  /-- An `ENUM`, with the labels of its type and the position of its own. -/
  | enum (labels : List String) (position : Nat)
  | date (d : Timed CivilDate)
  /-- A `TIME`, in microseconds of the day. -/
  | time (micros : Nat)
  /-- A `TIME_TZ`: the time where it was written, and how far that is east of UTC in seconds. -/
  | timeTz (micros : Nat) (offset : Int)
  /-- A timestamp: a day, and nanoseconds of it. -/
  | timestamp (type : TimestampType) (t : Timed (CivilDate × Nat))
  | decimal (width scale : Nat) (unscaled : Int)
  | hugeint (z : Int)
  | uhugeint (n : Nat)
  /-- A value of another type, as text. -/
  | other (name text : String)
deriving DecidableEq

namespace FilterValue

/-- `Value::type`. -/
def type : FilterValue → LogicalTypeId
  | null type => type
  | boolean _ => .boolean
  | integer type _ => .integer type
  | floating type _ => .floating type
  | varchar _ => .varchar
  | enum _ _ => .enum
  | date _ => .date
  | time _ => .time
  | timeTz _ _ => .timeTz
  | timestamp type _ => .timestamp type
  | decimal _ _ _ => .decimal
  | hugeint _ => .hugeint
  | uhugeint _ => .uhugeint
  | other name _ => .other name

/-- `Value::IsNull`. -/
def isNull : FilterValue → Bool
  | null _ => true
  | _ => false

/-- `IsNaN`. -/
def isNaN : FilterValue → Bool
  | floating _ .nan => true
  | _ => false

end FilterValue

/-! ### Values on the wire -/

/-- A value of a clause, as JSON. -/
inductive WireValue where
  | null
  | bool (b : Bool)
  | integer (z : Int)
  /-- A number, or the token `Infinity` or `-Infinity`. -/
  | real (x : FloatValue)
  | text (s : String)
  | array (items : List WireValue)

/-- `ValueTypeTag`. -/
def valueTypeTag (val : FilterValue) : Option String :=
  if val.isNull then none
  else match val.type with
  | .boolean | .integer _ | .floating _ | .varchar | .enum => none
  | .date => some "date"
  | .time | .timeTz => some "time"
  | .timestamp _ => some "timestamp"
  | .decimal => some "decimal"
  | .hugeint | .uhugeint => some "int"
  | .other _ => some "opaque"

/-- `ValueNode`; `toString` is `Value::ToString`. -/
def valueNode (toString : FilterValue → String) : FilterValue → WireValue
  | .null _ => .null
  | .boolean b => .bool b
  | .integer _ z => .integer z
  | .floating _ x => .real x
  | val => .text (toString val)

/-! ### Comparisons -/

/-- The `ExpressionType` of a comparison. -/
inductive ComparisonType where
  | equal
  | notEqual
  | greaterThan
  | greaterThanOrEqual
  | lessThan
  | lessThanOrEqual
  | distinctFrom
  | notDistinctFrom
deriving DecidableEq

/-- `FlipComparisonExpression`: the comparison with its sides exchanged. -/
def ComparisonType.flip : ComparisonType → ComparisonType
  | greaterThan => lessThan
  | greaterThanOrEqual => lessThanOrEqual
  | lessThan => greaterThan
  | lessThanOrEqual => greaterThanOrEqual
  | type => type

/-- `ComparisonOp`; empty when the comparison has no wire representation. -/
def comparisonOp : ComparisonType → String
  | .equal => "="
  | .notEqual => "!="
  | .greaterThan => ">"
  | .greaterThanOrEqual => ">="
  | .lessThan => "<"
  | .lessThanOrEqual => "<="
  | _ => ""

section

variable (le : FilterValue → FilterValue → Bool)

/-- A comparison of values that are not `NULL`. -/
def ComparisonType.test (a b : FilterValue) : ComparisonType → Bool
  | equal => le a b && le b a
  | notEqual => !(le a b && le b a)
  | greaterThan => !le a b
  | greaterThanOrEqual => le b a
  | lessThan => !le b a
  | lessThanOrEqual => le a b
  | distinctFrom => !(le a b && le b a)
  | notDistinctFrom => le a b && le b a

/-- A comparison: `NULL` with a `NULL`, unless it is one of the two that tell `NULL`s apart. -/
def compareValues (type : ComparisonType) (a b : FilterValue) : Option Bool :=
  if a.isNull || b.isNull then
    match type with
    | .distinctFrom => some (a.isNull != b.isNull)
    | .notDistinctFrom => some (a.isNull == b.isNull)
    | _ => none
  else some (type.test le a b)

/-- `IN`: equal to one of the values. -/
def isIn (a : FilterValue) (values : List FilterValue) : Option Bool :=
  Truth.any (values.map (compareValues le .equal a))

variable {le}

theorem compareValues_flip (type : ComparisonType) (a b : FilterValue) :
    compareValues le type.flip a b = compareValues le type b a := by
  unfold compareValues
  rw [Bool.or_comm a.isNull]
  split_ifs
  · cases type <;> simp only [ComparisonType.flip]
    · rw [bne_comm]
    · rw [Bool.beq_comm]
  · cases type <;> simp only [ComparisonType.flip, ComparisonType.test, Bool.and_comm]

end

end Provider

end VirtualCatalog
