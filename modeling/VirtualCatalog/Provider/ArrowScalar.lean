import VirtualCatalog.Provider.Filters
import Mathlib.Data.String.Basic

/-!
# Values in DuckDB, in Arrow and in Python

A filter compares a value of a column with constants.  DuckDB does it on its own values, pyarrow on
what an Arrow column holds and what a Python value becomes.

* `ArrowScalar` : what an Arrow column holds; `ArrowScalar.le` : its order.
* `DuckDBDocumented`, `Pyarrow.Documented` : how the two compare, as documented; they differ on NaN
  and on the labels of an `ENUM`.
* `FilterValue.carried` : the Python value that a constant arrives as, if it does.
* `rebuildTagged_spec` : `_rebuild_value` rebuilds exactly these.
-/

namespace VirtualCatalog

namespace Provider

/-! ### Scalars -/

/-- A value of an Arrow column that is not null; times are in nanoseconds. -/
inductive ArrowScalar where
  | boolean (b : Bool)
  | number (x : FloatValue)
  | text (s : String)
  | date (d : Timed CivilDate)
  | time (nanos : Nat)
  | timestamp (zoned : Bool) (t : Timed (CivilDate × Nat))
deriving DecidableEq

/-- The values that can be compared with each other. -/
inductive ScalarKind where
  | boolean
  | number
  | text
  | date
  | time
  | timestamp (zoned : Bool)
deriving DecidableEq

/-- The kind of a value. -/
def ArrowScalar.kind : ArrowScalar → ScalarKind
  | boolean _ => .boolean
  | number _ => .number
  | text _ => .text
  | date _ => .date
  | time _ => .time
  | timestamp zoned _ => .timestamp zoned

/-- The order of numbers, with NaN above every other. -/
def FloatValue.le : FloatValue → FloatValue → Bool
  | _, nan => true
  | nan, _ => false
  | infinite true, _ => true
  | _, infinite false => true
  | infinite false, _ => false
  | _, infinite true => false
  | finite x, finite y => decide (x ≤ y)

/-- The order of days. -/
def CivilDate.le (a b : CivilDate) : Bool :=
  decide (a.year < b.year ∨ a.year = b.year ∧
    (a.month < b.month ∨ a.month = b.month ∧ a.day ≤ b.day))

/-- The order of days and nanoseconds of them. -/
def instantLe (a b : CivilDate × Nat) : Bool :=
  if a.1 = b.1 then decide (a.2 ≤ b.2) else a.1.le b.1

/-- An order with the two infinities. -/
def Timed.le {α : Type} (le : α → α → Bool) : Timed α → Timed α → Bool
  | beforeAll, _ => true
  | _, afterAll => true
  | .at a, .at b => le a b
  | _, _ => false

/-- The order of the values of one kind. -/
def ArrowScalar.le : ArrowScalar → ArrowScalar → Bool
  | boolean a, boolean b => !a || b
  | number x, number y => x.le y
  | text s, text t => decide (s ≤ t)
  | date a, date b => Timed.le CivilDate.le a b
  | time a, time b => decide (a ≤ b)
  | timestamp zoned a, timestamp zoned' b => zoned == zoned' && Timed.le instantLe a b
  | _, _ => false

/-- A comparison of two values of one kind, neither of them NaN. -/
def ComparisonType.testScalars (s t : ArrowScalar) : ComparisonType → Bool
  | equal => decide (s = t)
  | notEqual => decide (s ≠ t)
  | greaterThan => !s.le t
  | greaterThanOrEqual => t.le s
  | lessThan => !t.le s
  | lessThanOrEqual => s.le t
  | distinctFrom => decide (s ≠ t)
  | notDistinctFrom => decide (s = t)

theorem FloatValue.le_and_le (x y : FloatValue) : (x.le y && y.le x) = decide (x = y) := by
  rcases x with _ | (_ | _) | x <;> rcases y with _ | (_ | _) | y <;> try rfl
  rw [Bool.eq_iff_iff, Bool.and_eq_true, decide_eq_true_iff]
  show decide (x ≤ y) = true ∧ decide (y ≤ x) = true ↔ _
  rw [decide_eq_true_iff, decide_eq_true_iff, FloatValue.finite.injEq]
  exact ⟨fun h => le_antisymm h.1 h.2, fun h => ⟨h.le, h.ge⟩⟩

theorem CivilDate.le_and_le (a b : CivilDate) : (a.le b && b.le a) = decide (a = b) := by
  obtain ⟨y, m, d⟩ := a
  obtain ⟨y', m', d'⟩ := b
  rw [Bool.eq_iff_iff, Bool.and_eq_true, decide_eq_true_iff]
  simp only [le, decide_eq_true_iff, CivilDate.mk.injEq]
  omega

theorem instantLe_and (a b : CivilDate × Nat) :
    (instantLe a b && instantLe b a) = decide (a = b) := by
  obtain ⟨a, n⟩ := a
  obtain ⟨b, m⟩ := b
  rw [instantLe, instantLe]
  by_cases h : a = b
  · subst h
    rw [if_pos rfl, if_pos rfl, Bool.eq_iff_iff, Bool.and_eq_true]
    simp only [decide_eq_true_iff, Prod.mk.injEq, true_and]
    omega
  · rw [if_neg h, if_neg (Ne.symm h), CivilDate.le_and_le, decide_eq_false h]
    exact (decide_eq_false fun hboth => h (Prod.mk.inj hboth).1).symm

theorem Timed.le_and_le {α : Type} [DecidableEq α] {le : α → α → Bool}
    (h : ∀ a b, (le a b && le b a) = decide (a = b)) (s t : Timed α) :
    (Timed.le le s t && Timed.le le t s) = decide (s = t) := by
  rcases s with _ | a | _ <;> rcases t with _ | b | _ <;> try rfl
  show (le a b && le b a) = _
  rw [h, decide_eq_decide, Timed.at.injEq]

/-- Values that are not above each other are the same. -/
theorem ArrowScalar.le_and_le (s t : ArrowScalar) : (s.le t && t.le s) = decide (s = t) := by
  cases s with
  | boolean a =>
    cases t with
    | boolean b => cases a <;> cases b <;> rfl
    | _ => rfl
  | number x =>
    cases t with
    | number y =>
      show (x.le y && y.le x) = _
      rw [FloatValue.le_and_le, decide_eq_decide, ArrowScalar.number.injEq]
    | _ => rfl
  | text s =>
    cases t with
    | text t =>
      show (decide (s ≤ t) && decide (t ≤ s)) = _
      rw [Bool.eq_iff_iff, Bool.and_eq_true, decide_eq_true_iff, decide_eq_true_iff,
        decide_eq_true_iff, ArrowScalar.text.injEq]
      exact ⟨fun h => le_antisymm h.1 h.2, fun h => ⟨h.le, h.ge⟩⟩
    | _ => rfl
  | date a =>
    cases t with
    | date b =>
      show (Timed.le CivilDate.le a b && Timed.le CivilDate.le b a) = _
      rw [Timed.le_and_le CivilDate.le_and_le, decide_eq_decide, ArrowScalar.date.injEq]
    | _ => rfl
  | time a =>
    cases t with
    | time b =>
      show (decide (a ≤ b) && decide (b ≤ a)) = _
      rw [Bool.eq_iff_iff, Bool.and_eq_true, decide_eq_true_iff, decide_eq_true_iff,
        decide_eq_true_iff, ArrowScalar.time.injEq]
      omega
    | _ => rfl
  | timestamp zoned a =>
    cases t with
    | timestamp zoned' b =>
      show ((zoned == zoned' && Timed.le instantLe a b) &&
        (zoned' == zoned && Timed.le instantLe b a)) = _
      by_cases hz : zoned = zoned'
      · subst hz
        simp only [beq_self_eq_true, Bool.true_and, Timed.le_and_le instantLe_and,
          ArrowScalar.timestamp.injEq, true_and]
      · have hne : (zoned == zoned') = false := beq_false_of_ne hz
        rw [hne, Bool.false_and, Bool.false_and]
        exact (decide_eq_false fun heq => hz (ArrowScalar.timestamp.inj heq).1).symm
    | _ => rfl

/-! ### Values of a column -/

/-- What an Arrow column holds for a value; a type that Arrow does not have is an extension, whose
values are not compared. -/
def FilterValue.scalar : FilterValue → Option ArrowScalar
  | null _ => none
  | boolean b => some (.boolean b)
  | integer _ z => some (.number (.finite z))
  | floating _ x => some (.number x)
  | varchar s => some (.text s)
  | enum labels position => some (.text (labels.getD position ""))
  | date d => some (.date d)
  | time micros => some (.time (micros * 1000))
  | timeTz _ _ => none
  | timestamp type t => some (.timestamp (decide (type = .tz)) t)
  | decimal _ scale unscaled => some (.number (.finite (unscaled / 10 ^ scale)))
  | hugeint z => some (.number (.finite z))
  | uhugeint n => some (.number (.finite n))
  | other _ _ => none

/-- What a Python value is in Arrow, if it is anything there; the only zone is UTC. -/
def PyValue.scalar : PyValue → Option ArrowScalar
  | none => .none
  | bool b => some (.boolean b)
  | int z => some (.number (.finite z))
  | float x => some (.number x)
  | str s => some (.text s)
  | date d => some (.date (.at d))
  | time ⟨micros, .none⟩ => some (.time (micros * 1000))
  | time ⟨_, some _⟩ => .none
  | datetime d ⟨micros, .none⟩ => some (.timestamp false (.at (d, micros * 1000)))
  | datetime d ⟨micros, some offset⟩ =>
    if offset = 0 then some (.timestamp true (.at (d, micros * 1000))) else .none
  | decimal x => some (.number (.finite x))
  | list _ => .none

/-- A value of a column of this type. -/
structure FilterValue.Of (type : ColumnType) (v : FilterValue) : Prop where
  type_eq : v.type = type.id
  labels : ∀ labels position, v = .enum labels position →
    labels = type.labels ∧ position < labels.length
  date : ∀ d, v = .date (.at d) → d.Valid
  time : ∀ micros, v = .time micros → micros ≤ 86400000000
  timestamp : ∀ unit d nanos, v = .timestamp unit (.at (d, nanos)) →
    d.Valid ∧ nanos < 86400000000000
  decimal : ∀ width scale unscaled, v = .decimal width scale unscaled →
    scale ≤ width ∧ unscaled.natAbs < 10 ^ width

/-- The text of a value that crosses as text. -/
def FilterValue.IsText (text : String) : FilterValue → Prop
  | varchar s => text = s
  | enum labels position => text = labels.getD position ""
  | date d => text.toList = timedText dateText d
  | time micros => IsClock (micros * 1000) text.toList
  | timestamp type (.at (d, nanos)) => ∃ clock, IsClock nanos clock ∧
      text.toList = dateText d ++ ' ' :: (clock ++ if type = .tz then ['+', '0', '0'] else [])
  | timestamp _ .beforeAll => text.toList = timedText dateText .beforeAll
  | timestamp _ .afterAll => text.toList = timedText dateText .afterAll
  | decimal width scale unscaled => text.toList = decimalText width scale unscaled
  | hugeint z => text.toList = intText z
  | uhugeint n => text.toList = intText n
  | _ => True

/-- DuckDB, as documented: values of one type have the order of what they are in Arrow, but for the
labels of an `ENUM`, whose order is that of the type. -/
structure DuckDBDocumented (le : FilterValue → FilterValue → Bool)
    (toString : FilterValue → String) : Prop where
  le_scalar : ∀ a b s t, a.type = b.type → a.type ≠ .enum → a.scalar = some s →
    b.scalar = some t → le a b = s.le t
  le_enum : ∀ labels p q, le (.enum labels p) (.enum labels q) = decide (p ≤ q)
  text : ∀ v : FilterValue, v.IsText (toString v)

/-- Whether the condition compares with a value. -/
def ColumnCondition.hasValue : ColumnCondition → Bool
  | compare _ value => !value.isNone
  | isIn (.list values) => values.any (!·.isNone)
  | _ => false

/-- Whether the values of the type are floats, which are compared with floats only. -/
def LogicalTypeId.isFloat : LogicalTypeId → Bool
  | floating _ => true
  | _ => false

/-- Whether the value is a float. -/
def FilterValue.isFloat : FilterValue → Bool
  | floating _ _ => true
  | _ => false

/-- Whether the value is a float. -/
def PyValue.isFloat : PyValue → Bool
  | float _ => true
  | _ => false

/-- pyarrow, as documented: the order of floats is IEEE's, and `is_in` matches a null with a null in
the list. -/
structure Pyarrow.Documented (pa : Pyarrow) : Prop where
  refuses_missing : ∀ columns expr, (∃ c ∈ expr.conditions, c.1 ∉ columns.map (·.1)) →
    pa.refuses columns expr = true
  /-- There is no function for an extension type. -/
  refuses_extension : ∀ columns expr name condition type, (name, condition) ∈ expr.conditions →
    condition.hasValue = true → (name, type) ∈ columns → type.id = .timeTz →
    pa.refuses columns expr = true
  compare_null : ∀ type x value, x.isNull = true ∨ value.isNone = true →
    pa.compare type x value = none
  compare_nan : ∀ type x value, x.isNaN = true → value.scalar.isSome = true →
    pa.compare type x value = some (decide (type = .notEqual))
  compare_scalar : ∀ type x value s t, x.isNaN = false → x.scalar = some s →
    value.scalar = some t → s.kind = t.kind → x.isFloat = value.isFloat → t ≠ .number .nan →
    pa.compare type x value = some (type.testScalars s t)
  isIn_null : ∀ x values, x.isNull = true → pa.isIn x values = some (values.any PyValue.isNone)
  isIn_value : ∀ x values, x.isNull = false →
    (∀ v ∈ values, v.isNone = true ∨ x.isFloat = v.isFloat) → pa.isIn x values =
      some (values.any fun v => v.scalar.isSome && decide (v.scalar = x.scalar))
  isNull : ∀ x, pa.isNull x = x.isNull
  isValid : ∀ x, pa.isValid x = !x.isNull

/-! ### Constants on their way -/

/-- The Python value that a constant arrives as; none if the scan is refused for it. -/
def FilterValue.carried : FilterValue → Option PyValue
  | null _ => some .none
  | boolean b => some (.bool b)
  | integer _ z => some (.int z)
  | floating _ x => some (.float x)
  | varchar s => some (.str s)
  | enum labels position => some (.str (labels.getD position ""))
  | date (.at d) => if d.InRange then some (.date d) else none
  | time micros => if micros < 86400000000 then some (.time ⟨micros, none⟩) else none
  | timestamp type (.at (d, nanos)) =>
    if d.InRange then
      some (.datetime d ⟨nanos / 1000, if type = .tz then some 0 else none⟩)
    else none
  | decimal _ scale unscaled => some (.decimal (unscaled / 10 ^ scale))
  | hugeint z => some (.int z)
  | uhugeint n => some (.int n)
  | _ => none

/-- A value of an `ENUM` is its label in Arrow. -/
def FilterValue.stored : FilterValue → FilterValue
  | enum labels position => .varchar (labels.getD position "")
  | v => v

/-- The constant that Python has: a label, and a timestamp down to microseconds. -/
def FilterValue.sent : FilterValue → FilterValue
  | enum labels position => .varchar (labels.getD position "")
  | timestamp type (.at (d, nanos)) => .timestamp type (.at (d, nanos / 1000 * 1000))
  | v => v

@[simp] theorem FilterValue.isNull_stored (v : FilterValue) : v.stored.isNull = v.isNull := by
  cases v <;> rfl

@[simp] theorem FilterValue.isNull_sent (v : FilterValue) : v.sent.isNull = v.isNull := by
  cases v with
  | timestamp type t => cases t <;> rfl
  | _ => rfl

@[simp] theorem FilterValue.scalar_stored (v : FilterValue) : v.stored.scalar = v.scalar := by
  cases v <;> rfl

theorem FilterValue.stored_type_ne (v : FilterValue) (h : v.isNull = false) :
    v.stored.type ≠ .enum := by
  cases v with
  | null type => cases h
  | _ => exact fun htype => by cases htype


/-- A constant that arrives as a float was one. -/
theorem FilterValue.isFloat_of_carried {v : FilterValue} {p : PyValue} (h : v.carried = some p) :
    p.isFloat = v.isFloat := by
  cases v with
  | date d =>
    cases d with
    | «at» d =>
      rw [carried] at h
      split_ifs at h
      cases h
      rfl
    | _ => cases h
  | time micros =>
    rw [carried] at h
    split_ifs at h
    cases h
    rfl
  | timestamp type t =>
    cases t with
    | «at» t =>
      obtain ⟨d, nanos⟩ := t
      rw [carried] at h
      split_ifs at h <;>
      · cases h
        rfl
    | _ => cases h
  | timeTz _ _ => cases h
  | other _ _ => cases h
  | _ =>
    cases h
    rfl

/-- A constant that arrives is what is left of it. -/
theorem FilterValue.scalar_carried {v : FilterValue} {p : PyValue} (h : v.carried = some p) :
    p.isNone = v.isNull ∧ p.scalar = v.sent.scalar := by
  cases v with
  | date d =>
    cases d with
    | «at» d =>
      rw [carried] at h
      split_ifs at h
      cases h
      exact ⟨rfl, rfl⟩
    | _ => cases h
  | time micros =>
    rw [carried] at h
    split_ifs at h
    cases h
    exact ⟨rfl, rfl⟩
  | timestamp type t =>
    cases t with
    | «at» t =>
      obtain ⟨d, nanos⟩ := t
      rw [carried] at h
      split_ifs at h with _ htype
      · cases h
        subst htype
        exact ⟨rfl, rfl⟩
      · cases h
        refine ⟨rfl, ?_⟩
        show _ = some (ArrowScalar.timestamp (decide (type = .tz)) _)
        rw [decide_eq_false htype]
        rfl
    | _ => cases h
  | timeTz _ _ => cases h
  | other _ _ => cases h
  | _ =>
    cases h
    exact ⟨rfl, rfl⟩

/-- What the clause does with a value: without a tag it is as it arrived. -/
def rebuildTagged (tag : Option String) (column : String) (value : PyValue) :
    Except FiltersError PyValue :=
  tag.elim (.ok value) fun tag => rebuildValue tag column value

/-- What has arrived for a constant.  Python reads a `TIME_TZ`, if it does. -/
def FilterValue.Arrives (v : FilterValue) (p : PyValue) : Prop :=
  v.carried = some p ∨ v.type = .timeTz ∧ ∃ t, p = .time t

theorem rebuildValue_text (column : String) {tag text : String} {r : Option PyValue}
    (hne : tag ≠ "opaque") (h : rebuild tag text = some r) : rebuildValue tag column (.str text) =
      r.elim (.error (.malformed column text tag)) .ok := by
  have hsome : ¬ (PyValue.str text).isNone = true := Bool.false_ne_true
  rw [rebuildValue, if_neg hsome, if_neg hne]
  cases r <;> simp only [h, Option.elim]

/-- What crosses as text is rebuilt if it arrives. -/
theorem rebuild_text {toString : FilterValue → String} {type : ColumnType} {v : FilterValue}
    {tag : String} (htext : v.IsText (toString v)) (hv : v.Of type)
    (htag : valueTypeTag v = some tag) (hne : tag ≠ "opaque") (htz : v.type ≠ .timeTz) :
    valueNode toString v = .text (toString v) ∧ rebuild tag (toString v) = some v.carried := by
  cases v with
  | date d =>
    cases htag
    refine ⟨rfl, ?_⟩
    show some ((dateFromIsoformat _).map PyValue.date) = _
    cases d with
    | «at» d =>
      rw [dateFromIsoformat_text (hv.date d rfl) htext, FilterValue.carried]
      split_ifs <;> rfl
    | beforeAll => rw [dateFromIsoformat_infinite (.inl rfl) htext]; rfl
    | afterAll => rw [dateFromIsoformat_infinite (.inr rfl) htext]; rfl
  -- `24:00:00` is a time of the column, but none of Python's
  | time micros =>
    cases htag
    refine ⟨rfl, ?_⟩
    show some ((timeFromIsoformat _).map PyValue.time) = _
    have hle := hv.time micros rfl
    rw [timeFromIsoformat_text htext (by omega), FilterValue.carried,
      Nat.mul_div_cancel _ (by decide)]
    by_cases hlt : micros < 86400000000
    · rw [if_pos hlt, if_pos (by omega)]
      rfl
    · rw [if_neg hlt, if_neg (by omega)]
      rfl
  | timestamp unit t =>
    cases htag
    refine ⟨rfl, ?_⟩
    show some ((datetimeFromIsoformat _).map fun t => PyValue.datetime t.1 t.2) = _
    cases t with
    | «at» t =>
      obtain ⟨d, nanos⟩ := t
      obtain ⟨hd, hnanos⟩ := hv.timestamp unit d nanos rfl
      obtain ⟨clock, hclock, htext⟩ := htext
      -- the offset follows the digits of the fraction, and is none of them
      have hzone : ∀ c ∈ (if unit = .tz then ['+', '0', '0'] else []).head?,
          c.isDigit = false ∧ c ≠ '.' := by
        split_ifs
        · intro c hc
          cases hc
          decide
        · intro c hc
          cases hc
      have hoffset : readOffset (if unit = .tz then ['+', '0', '0'] else []) =
          some (if unit = .tz then some 0 else none) := by
        split_ifs <;> rfl
      rw [datetimeFromIsoformat_text hd hclock hnanos hzone hoffset htext, FilterValue.carried]
      split_ifs <;> rfl
    | beforeAll => rw [datetimeFromIsoformat_infinite (.inl htext)]; rfl
    | afterAll => rw [datetimeFromIsoformat_infinite (.inr htext)]; rfl
  | decimal width scale unscaled =>
    cases htag
    obtain ⟨hscale, hwidth⟩ := hv.decimal width scale unscaled rfl
    refine ⟨rfl, ?_⟩
    show some ((decimalOf _).map PyValue.decimal) = _
    rw [decimalOf_text hwidth hscale htext]
    rfl
  | hugeint z =>
    cases htag
    refine ⟨rfl, ?_⟩
    show some ((intOf _).map PyValue.int) = _
    rw [intOf_text htext]
    rfl
  | uhugeint n =>
    cases htag
    refine ⟨rfl, ?_⟩
    show some ((intOf _).map PyValue.int) = _
    rw [intOf_text htext]
    rfl
  | timeTz micros offset => exact absurd rfl htz
  | other name text =>
    cases htag
    exact absurd rfl hne
  | _ => cases htag

/-- What JSON carries, and what is text itself. -/
theorem carried_of_untagged {toString : FilterValue → String} {v : FilterValue}
    (htext : v.IsText (toString v)) (hnull : v.isNull = false) (htag : valueTypeTag v = none) :
    v.carried = some (valueNode toString v).loads := by
  cases v with
  | null type => cases hnull
  | varchar s => exact congrArg (fun text => some (PyValue.str text)) (Eq.symm htext)
  | enum labels position => exact congrArg (fun text => some (PyValue.str text)) (Eq.symm htext)
  | boolean b => rfl
  | integer type z => rfl
  | floating type x => rfl
  | _ => cases htag

/-- The text of a time with a zone may be read. -/
theorem arrives_timeTz {toString : FilterValue → String} {column : String} {micros : Nat}
    {offset : Int} {p : PyValue} (h : rebuildValue "time" column
      (valueNode toString (.timeTz micros offset)).loads = .ok p) :
    (FilterValue.timeTz micros offset).Arrives p := by
  have hread : rebuild "time" (toString (.timeTz micros offset)) =
      some ((timeFromIsoformat (toString (.timeTz micros offset))).map .time) := rfl
  have hsame := (rebuildValue_text column (by decide) hread).symm.trans h
  cases htime : timeFromIsoformat (toString (.timeTz micros offset)) with
  | none =>
    rw [htime] at hsame
    cases hsame
  | some t =>
    rw [htime] at hsame
    cases hsame
    exact .inr ⟨rfl, t, rfl⟩

/-- **A constant is rebuilt exactly if it arrives.** -/
theorem rebuildTagged_spec {toString : FilterValue → String} {type : ColumnType} {v : FilterValue}
    {tag : Option String} (column : String) (htext : v.IsText (toString v)) (hv : v.Of type)
    (htag : v.isNull = true ∨ valueTypeTag v = tag) :
    (∀ p, v.carried = some p →
        rebuildTagged tag column (valueNode toString v).loads = .ok p) ∧
      ∀ p, rebuildTagged tag column (valueNode toString v).loads = .ok p → v.Arrives p := by
  cases hnull : v.isNull with
  -- a NULL needs no tag
  | true =>
    obtain ⟨t, rfl⟩ : ∃ t, v = .null t := by
      cases v with
      | null t => exact ⟨t, rfl⟩
      | _ => cases hnull
    have hnone : rebuildTagged tag column (valueNode toString (.null t)).loads = .ok .none := by
      cases tag <;> rfl
    rw [hnone]
    exact ⟨fun p hp => (by cases hp; rfl), fun p hp => (by cases hp; exact .inl rfl)⟩
  | false =>
    obtain rfl : valueTypeTag v = tag := htag.resolve_left (by rw [hnull]; decide)
    cases htag : valueTypeTag v with
    | none =>
      have hcarried := carried_of_untagged htext hnull htag
      refine ⟨fun p hp => ?_, fun p hp => .inl (hcarried.trans (congrArg some (Except.ok.inj hp)))⟩
      rw [hcarried] at hp
      exact congrArg Except.ok (Option.some.inj hp)
    | some tag =>
      -- a time with an offset may be rebuilt as the wrong one, or not at all
      by_cases htz : v.type = .timeTz
      · obtain ⟨micros, offset, rfl⟩ : ∃ micros offset, v = .timeTz micros offset := by
          cases v with
          | null t => cases hnull
          | timeTz micros offset => exact ⟨micros, offset, rfl⟩
          | _ => cases htz
        cases htag
        exact ⟨fun p hp => (by cases hp), fun p hp => arrives_timeTz hp⟩
      · by_cases hne : tag = "opaque"
        · obtain ⟨name, text, rfl⟩ : ∃ name text, v = .other name text := by
            cases v with
            | other name text => exact ⟨name, text, rfl⟩
            | _ => simp [valueTypeTag, FilterValue.isNull, FilterValue.type, hne] at htag
          cases htag
          exact ⟨fun p hp => (by cases hp), fun p hp => (by cases hp)⟩
        · obtain ⟨hnode, hrebuild⟩ := rebuild_text htext hv htag hne htz
          have hrebuilt : rebuildTagged (some tag) column (valueNode toString v).loads =
              v.carried.elim (.error (.malformed column (toString v) tag)) .ok := by
            rw [hnode]
            exact rebuildValue_text column hne hrebuild
          rw [hrebuilt]
          refine ⟨fun p hp => (by rw [hp]; rfl), fun p hp => .inl ?_⟩
          cases hcarried : v.carried with
          | none =>
            rw [hcarried] at hp
            cases hp
          | some q =>
            rw [hcarried] at hp
            exact congrArg some (Except.ok.inj hp)

end Provider

end VirtualCatalog
