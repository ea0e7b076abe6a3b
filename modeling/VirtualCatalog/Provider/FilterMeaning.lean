import VirtualCatalog.Provider.ArrowScalar
import VirtualCatalog.Provider.FilterFidelity

/-!
# What a clause means in Python

A clause that DuckDB sends is the filter: nothing applies it again.  Python rebuilds its constants
and applies it with pyarrow.

* `Clause.Emitted` : the clauses that are sent; `emitted_serializeFiltersInto`.
* `Clause.condition` : what Python asks of a column for a clause.
* `Clause.Misread` : the cells on which that differs from what the clause says.
* `condition_eval_iff` : Python answers a clause as DuckDB does, or it is misread.
-/

namespace VirtualCatalog

namespace Provider

/-! ### One clause -/

/-- The constants of a clause. -/
def Clause.constants : Clause → List FilterValue
  | comparison _ _ value => [value]
  | isNull _ => []
  | isNotNull _ => []
  | isIn _ values => values

/-- The clauses that are rendered: no comparison that tells `NULL`s apart, and no NaN. -/
def Clause.Emitted : Clause → Prop
  | comparison _ type value => comparisonOp type ≠ "" ∧ value.isNaN = false
  | isNull _ => True
  | isNotNull _ => True
  | isIn _ values => ∀ v ∈ values, v.isNaN = false

/-- What Python asks of the column, with the constants as they arrive. -/
def Clause.condition : Clause → ColumnCondition
  | comparison _ type value => .compare type (value.carried.getD .none)
  | isNull _ => .isNull
  | isNotNull _ => .isValid
  | isIn _ values => .isIn (.list (values.map fun v => v.carried.getD .none))

/-- The cells on which Python answers the clause otherwise than DuckDB: NaN, that DuckDB has above
every number; a null with a null in the list; labels that are not in the order of their text; and
what lies between a timestamp and the microsecond it is in. -/
def Clause.Misread (le : FilterValue → FilterValue → Bool) (x : FilterValue) : Clause → Prop
  | comparison _ type value =>
    (x.isNaN = true ∧ value.isNull = false ∧
      (type = .greaterThan ∨ type = .greaterThanOrEqual)) ∨
    ¬ (compareValues le type x.stored value.sent = some true ↔
      compareValues le type x value = some true)
  | isNull _ => False
  | isNotNull _ => False
  | isIn _ values =>
    (x.isNull = true ∧ ∃ v ∈ values, v.isNull = true) ∨
    ¬ (Provider.isIn le x.stored (values.map FilterValue.sent) = some true ↔
      Provider.isIn le x values = some true)

/-- The kind that the values of a type have in Arrow. -/
def LogicalTypeId.kind : LogicalTypeId → Option ScalarKind
  | boolean => some .boolean
  | integer _ => some .number
  | floating _ => some .number
  | varchar => some .text
  | enum => some .text
  | date => some .date
  | time => some .time
  | timeTz => none
  | timestamp type => some (.timestamp (decide (type = .tz)))
  | decimal => some .number
  | hugeint => some .number
  | uhugeint => some .number
  | other _ => none

/-- The type that the values of a type have when labels are text. -/
def LogicalTypeId.stored : LogicalTypeId → LogicalTypeId
  | enum => .varchar
  | type => type

theorem FilterValue.kind_scalar {v : FilterValue} (h : v.isNull = false) :
    v.scalar.map ArrowScalar.kind = v.type.kind := by
  cases v with
  | null type => cases h
  | _ => rfl

theorem FilterValue.isFloat_type {v : FilterValue} (h : v.isNull = false) :
    v.isFloat = v.type.isFloat := by
  cases v with
  | null type => cases h
  | _ => rfl

theorem FilterValue.kind_sent (v : FilterValue) :
    v.sent.scalar.map ArrowScalar.kind = v.scalar.map ArrowScalar.kind := by
  cases v with
  | timestamp type t => cases t <;> rfl
  | _ => rfl

theorem FilterValue.type_stored {v : FilterValue} (h : v.isNull = false) :
    v.stored.type = v.type.stored := by
  cases v with
  | null type => cases h
  | _ => rfl

theorem FilterValue.type_sent {v : FilterValue} (h : v.isNull = false) :
    v.sent.type = v.type.stored := by
  cases v with
  | null type => cases h
  | timestamp type t => cases t <;> rfl
  | _ => rfl

theorem FilterValue.isSome_scalar {v : FilterValue} {p : PyValue} (h : v.carried = some p)
    (hnull : v.isNull = false) : v.scalar.isSome = true := by
  cases v with
  | null type => cases hnull
  | timeTz micros offset => cases h
  | other name text => cases h
  | _ => rfl

section

variable {le : FilterValue → FilterValue → Bool} {toString : FilterValue → String}
  {type : ColumnType} {x v : FilterValue} {p : PyValue}

/-- A value and a constant that has arrived can be compared. -/
theorem exists_scalars (hx : x.Of type) (hv : v.Of type) (hxnull : x.isNull = false)
    (hvnull : v.isNull = false) (hp : v.carried = some p) :
    ∃ s t, x.scalar = some s ∧ p.scalar = some t ∧ v.sent.scalar = some t ∧ s.kind = t.kind := by
  have hkinds : x.scalar.map ArrowScalar.kind = v.scalar.map ArrowScalar.kind := by
    rw [FilterValue.kind_scalar hxnull, FilterValue.kind_scalar hvnull, hx.type_eq, hv.type_eq]
  obtain ⟨r, hr⟩ := Option.isSome_iff_exists.1 (FilterValue.isSome_scalar hp hvnull)
  rw [hr] at hkinds
  obtain ⟨s, hs, hsr⟩ := Option.map_eq_some_iff.1 hkinds
  have hsent := v.kind_sent
  rw [hr] at hsent
  obtain ⟨t, ht, htr⟩ := Option.map_eq_some_iff.1 hsent
  exact ⟨s, t, hs, (FilterValue.scalar_carried hp).2.trans ht, ht, hsr.trans htr.symm⟩

/-- A value and a constant that has arrived are both floats, or neither is. -/
theorem isFloat_carried (hx : x.Of type) (hv : v.Of type) (hxnull : x.isNull = false)
    (hvnull : v.isNull = false) (hp : v.carried = some p) : x.isFloat = p.isFloat := by
  rw [FilterValue.isFloat_type hxnull, hx.type_eq, ← hv.type_eq, ← FilterValue.isFloat_type hvnull]
  exact (FilterValue.isFloat_of_carried hp).symm

/-- DuckDB compares a label, and a timestamp down to microseconds, as what they are in Arrow. -/
theorem compareValues_sent (hduck : DuckDBDocumented le toString) (hx : x.Of type) (hv : v.Of type)
    (hxnull : x.isNull = false) (hvnull : v.isNull = false) {s t : ArrowScalar}
    (hs : x.scalar = some s) (ht : v.sent.scalar = some t) (c : ComparisonType) :
    compareValues le c x.stored v.sent = some (c.testScalars s t) := by
  have htypes : x.stored.type = v.sent.type := by
    rw [FilterValue.type_stored hxnull, FilterValue.type_sent hvnull, hx.type_eq, hv.type_eq]
  have hne : x.stored.type ≠ .enum := x.stored_type_ne hxnull
  have hle : le x.stored v.sent = s.le t :=
    hduck.le_scalar _ _ s t htypes hne (x.scalar_stored.trans hs) ht
  have hge : le v.sent x.stored = t.le s :=
    hduck.le_scalar _ _ t s htypes.symm (htypes ▸ hne) ht (x.scalar_stored.trans hs)
  have hnull : (x.stored.isNull || v.sent.isNull) = false := by
    rw [FilterValue.isNull_stored, FilterValue.isNull_sent, hxnull, hvnull]
    rfl
  unfold compareValues
  rw [hnull, if_neg Bool.false_ne_true]
  cases c <;> simp only [ComparisonType.test, ComparisonType.testScalars, hle, hge,
    ArrowScalar.le_and_le, ne_eq, decide_not]

theorem compareValues_null {c : ComparisonType} (hop : comparisonOp c ≠ "") {a b : FilterValue}
    (h : a.isNull = true ∨ b.isNull = true) : compareValues le c a b = none := by
  have hnull : (a.isNull || b.isNull) = true := by
    rw [Bool.or_eq_true]
    exact h
  unfold compareValues
  rw [hnull, if_pos rfl]
  cases c with
  | distinctFrom => exact absurd rfl hop
  | notDistinctFrom => exact absurd rfl hop
  | _ => rfl

/-- NaN is above every other number. -/
theorem compareValues_nan (hduck : DuckDBDocumented le toString) (hx : x.Of type) (hv : v.Of type)
    (hxnan : x.isNaN = true) (hvnull : v.isNull = false) (hvnan : v.isNaN = false)
    (c : ComparisonType) : compareValues le c x v = some (decide (c = .notEqual ∨
      c = .greaterThan ∨ c = .greaterThanOrEqual ∨ c = .distinctFrom)) := by
  obtain ⟨unit, rfl⟩ : ∃ unit, x = .floating unit .nan := by
    unfold FilterValue.isNaN at hxnan
    split at hxnan
    · exact ⟨_, rfl⟩
    · cases hxnan
  obtain ⟨y, rfl, hy⟩ : ∃ y, v = .floating unit y ∧ y ≠ .nan := by
    have htype := hv.type_eq.trans hx.type_eq.symm
    cases v with
    | null t => cases hvnull
    | floating unit' y =>
      cases htype
      exact ⟨y, rfl, fun hy => by rw [hy] at hvnan; cases hvnan⟩
    | _ => cases htype
  have hle : le (.floating unit .nan) (.floating unit y) = false := by
    rw [hduck.le_scalar (.floating unit .nan) (.floating unit y) (.number .nan) (.number y) rfl
      (fun h => by cases h) rfl rfl]
    cases y with
    | nan => exact absurd rfl hy
    | infinite negative => cases negative <;> rfl
    | finite y => rfl
  have hge : le (.floating unit y) (.floating unit .nan) = true := by
    rw [hduck.le_scalar (.floating unit y) (.floating unit .nan) (.number y) (.number .nan) rfl
      (fun h => by cases h) rfl rfl]
    cases y <;> rfl
  show some (c.test le _ _) = _
  cases c <;> simp [ComparisonType.test, hle, hge]

/-- Neither side of the comparison is what it is not in Arrow. -/
theorem stored_of_isNaN (hxnan : x.isNaN = true) : x.stored = x := by
  unfold FilterValue.isNaN at hxnan
  split at hxnan
  · rfl
  · cases hxnan

theorem sent_of_floating (hx : x.Of type) (hv : v.Of type) (hxnan : x.isNaN = true) :
    v.sent = v := by
  have htype := hv.type_eq.trans hx.type_eq.symm
  unfold FilterValue.isNaN at hxnan
  split at hxnan
  · cases v with
    | enum labels position => cases htype
    | timestamp unit t => cases htype
    | _ => rfl
  · cases hxnan

/-- **A comparison in Python.** -/
theorem compare_eval_iff {pa : Pyarrow} (hpa : pa.Documented) (hduck : DuckDBDocumented le toString)
    (hx : x.Of type) (hv : v.Of type) {c : ComparisonType} (hop : comparisonOp c ≠ "")
    (hnan : v.isNaN = false) (hp : v.carried = some p) (column : String) :
    pa.compare c x p = some true ↔ (compareValues le c x v = some true ↔
      ¬ (Clause.comparison column c v).Misread le x) := by
  rw [Clause.Misread]
  obtain ⟨hnone, -⟩ := FilterValue.scalar_carried hp
  by_cases hnull : x.isNull = true ∨ v.isNull = true
  · have hnull' : x.stored.isNull = true ∨ v.sent.isNull = true := by
      rw [FilterValue.isNull_stored, FilterValue.isNull_sent]
      exact hnull
    have hnot : ¬ (x.isNaN = true ∧ v.isNull = false ∧
        (c = .greaterThan ∨ c = .greaterThanOrEqual)) := by
      rintro ⟨hxnan, hvnull, -⟩
      rcases hnull with hxnull | hvnull'
      · cases x with
        | null t => cases hxnan
        | _ => cases hxnull
      · rw [hvnull] at hvnull'
        cases hvnull'
    rw [hpa.compare_null c x p (by rw [hnone]; exact hnull), compareValues_null hop hnull,
      compareValues_null hop hnull']
    simp [hnot]
  · rw [not_or, Bool.not_eq_true, Bool.not_eq_true] at hnull
    obtain ⟨hxnull, hvnull⟩ := hnull
    obtain ⟨s, t, hs, hpt, hvt, hkind⟩ := exists_scalars hx hv hxnull hvnull hp
    by_cases hxnan : x.isNaN = true
    · rw [hpa.compare_nan c x p hxnan (by rw [hpt]; rfl), stored_of_isNaN hxnan,
        sent_of_floating hx hv hxnan, compareValues_nan hduck hx hv hxnan hvnull hnan]
      cases c with
      | distinctFrom => exact absurd rfl hop
      | notDistinctFrom => exact absurd rfl hop
      | _ => simp [hxnan, hvnull]
    · have htnan : t ≠ .number .nan := by
        rintro rfl
        cases v with
        | floating unit y =>
          cases hvt
          cases hnan
        | timestamp unit t => cases t <;> cases hvt
        | _ => cases hvt
      rw [hpa.compare_scalar c x p s t (by simpa using hxnan) hs hpt hkind
        (isFloat_carried hx hv hxnull hvnull hp) htnan,
        compareValues_sent hduck hx hv hxnull hvnull hs hvt]
      have hnot : ¬ (x.isNaN = true ∧ v.isNull = false ∧
          (c = .greaterThan ∨ c = .greaterThanOrEqual)) := fun h => hxnan h.1
      rw [or_iff_right hnot]
      tauto

theorem isIn_eq_true {values : List FilterValue} :
    isIn le x values = some true ↔ ∃ v ∈ values, compareValues le .equal x v = some true := by
  rw [isIn, Truth.any_eq_true]
  simp only [List.mem_map, exists_exists_and_eq_and]

/-- A value of the list, in Python and in DuckDB. -/
theorem same_scalar_iff (hduck : DuckDBDocumented le toString) (hx : x.Of type) (hv : v.Of type)
    (hxnull : x.isNull = false) (hp : v.carried = some p) :
    (p.scalar.isSome && decide (p.scalar = x.scalar)) = true ↔
      compareValues le .equal x.stored v.sent = some true := by
  cases hvnull : v.isNull with
  | true =>
    have hnone : p.scalar = none := by
      have hisNone := (FilterValue.scalar_carried hp).1
      rw [hvnull] at hisNone
      cases p with
      | none => rfl
      | _ => cases hisNone
    rw [hnone, compareValues_null (by decide) (.inr (by rw [FilterValue.isNull_sent, hvnull]))]
    exact ⟨fun h => (by cases h), fun h => (by cases h)⟩
  | false =>
    obtain ⟨s, t, hs, hpt, hvt, -⟩ := exists_scalars hx hv hxnull hvnull hp
    rw [compareValues_sent hduck hx hv hxnull hvnull hs hvt, hpt, hs, ComparisonType.testScalars,
      Option.isSome_some, Bool.true_and, decide_eq_true_iff, Option.some.injEq, Option.some.injEq,
      decide_eq_true_iff]
    exact eq_comm

/-- **A list in Python.** -/
theorem isIn_eval_iff {pa : Pyarrow} (hpa : pa.Documented) (hduck : DuckDBDocumented le toString)
    (hx : x.Of type) {values : List FilterValue} (hvalues : ∀ v ∈ values, v.Of type)
    (hcarried : ∀ v ∈ values, v.carried ≠ none) (column : String) :
    pa.isIn x (values.map fun v => v.carried.getD .none) = some true ↔
      (isIn le x values = some true ↔ ¬ (Clause.isIn column values).Misread le x) := by
  rw [Clause.Misread]
  have hp : ∀ v ∈ values, v.carried = some (v.carried.getD .none) := by
    intro v hv
    obtain ⟨p, hp⟩ := Option.ne_none_iff_exists'.1 (hcarried v hv)
    rw [hp]
    rfl
  cases hxnull : x.isNull with
  | true =>
    have hnever : ∀ vs : List FilterValue, ∀ y : FilterValue, y.isNull = true →
        isIn le y vs ≠ some true := by
      intro vs y hy h
      obtain ⟨v, -, hv⟩ := isIn_eq_true.1 h
      rw [compareValues_null (by decide) (.inl hy)] at hv
      cases hv
    have hstored := hnever (values.map FilterValue.sent) x.stored
      (by rw [FilterValue.isNull_stored, hxnull])
    have hself := hnever values x hxnull
    rw [hpa.isIn_null x _ hxnull, Option.some.injEq, List.any_eq_true]
    have hnulls : (∃ q ∈ values.map fun v => v.carried.getD .none, q.isNone = true) ↔
        ∃ v ∈ values, v.isNull = true := by
      simp only [List.mem_map, exists_exists_and_eq_and]
      refine exists_congr fun v => and_congr_right fun hv => ?_
      rw [(FilterValue.scalar_carried (hp v hv)).1]
    rw [hnulls]
    simp only [hstored, hself, iff_self, not_true_eq_false, or_false, false_iff, not_not, true_and]
  | false =>
    have hfloats : ∀ q ∈ values.map fun v => v.carried.getD .none,
        q.isNone = true ∨ x.isFloat = q.isFloat := by
      simp only [List.mem_map]
      rintro _ ⟨v, hv, rfl⟩
      cases hvnull : v.isNull with
      | true => exact .inl ((FilterValue.scalar_carried (hp v hv)).1.trans hvnull)
      | false => exact .inr (isFloat_carried hx (hvalues v hv) hxnull hvnull (hp v hv))
    rw [hpa.isIn_value x _ hxnull hfloats, Option.some.injEq, List.any_eq_true]
    have hsame : (∃ q ∈ values.map fun v => v.carried.getD .none,
        (q.scalar.isSome && decide (q.scalar = x.scalar)) = true) ↔
        isIn le x.stored (values.map FilterValue.sent) = some true := by
      rw [isIn_eq_true]
      simp only [List.mem_map, exists_exists_and_eq_and]
      refine exists_congr fun v => and_congr_right fun hv => ?_
      exact same_scalar_iff hduck hx (hvalues v hv) hxnull (hp v hv)
    rw [hsame]
    simp only [Bool.false_eq_true, false_and, false_or]
    tauto

/-- **A clause in Python**: it says what it says in DuckDB unless it is misread. -/
theorem condition_eval_iff {pa : Pyarrow} (hpa : pa.Documented)
    (hduck : DuckDBDocumented le toString) (hx : x.Of type) {c : Clause} (hemitted : c.Emitted)
    (hconstants : ∀ v ∈ c.constants, v.Of type) (hcarried : ∀ v ∈ c.constants, v.carried ≠ none) :
    c.condition.eval pa x = some true ↔ (c.truth le x = some true ↔ ¬ c.Misread le x) := by
  cases c with
  | comparison column c v =>
    obtain ⟨p, hp⟩ := Option.ne_none_iff_exists'.1 (hcarried v List.mem_cons_self)
    have hiff := compare_eval_iff hpa hduck hx (hconstants v List.mem_cons_self) hemitted.1
      hemitted.2 hp column
    show pa.compare c x (v.carried.getD .none) = some true ↔ _
    rw [hp]
    exact hiff
  | isNull column =>
    show some (pa.isNull x) = some true ↔ (some x.isNull = some true ↔ ¬ False)
    rw [hpa.isNull, not_false_iff, iff_true]
  | isNotNull column =>
    show some (pa.isValid x) = some true ↔ (some (!x.isNull) = some true ↔ ¬ False)
    rw [hpa.isValid, not_false_iff, iff_true]
  | isIn column values => exact isIn_eval_iff hpa hduck hx hconstants hcarried column

end

/-! ### The clauses that are sent -/

theorem emitted_buildComparison (column : String) (type : ComparisonType) (l r : FilterExpr) :
    ∀ c ∈ (buildComparison column type l r).2, c.Emitted := by
  intro c hc
  unfold buildComparison at hc
  cases hfound : tryGetColumnConstantComparison type l r with
  | none =>
    rw [hfound] at hc
    cases hc
  | some p =>
    rw [hfound] at hc
    dsimp only at hc
    split_ifs at hc with hrefused
    · cases hc
    · rw [List.mem_singleton.1 hc]
      rw [Bool.or_eq_true, not_or, String.isEmpty_iff] at hrefused
      exact ⟨hrefused.1, by simpa using hrefused.2⟩

theorem emitted_buildOperator (column : String) (type : FilterOperator)
    (children : List FilterExpr) : ∀ c ∈ (buildOperator column type children).2, c.Emitted := by
  intro c hc
  cases children with
  | nil => cases type <;> cases hc
  | cons child rest =>
    rw [buildOperator.eq_def] at hc
    dsimp only at hc
    split_ifs at hc
    · cases hc
    · cases type with
      | isNull => rw [List.mem_singleton.1 hc]; trivial
      | isNotNull => rw [List.mem_singleton.1 hc]; trivial
      | compareIn =>
        cases hvalues : inConstants rest with
        | none =>
          simp only [hvalues] at hc
          cases hc
        | some values =>
          simp only [hvalues] at hc
          rw [List.mem_singleton.1 hc]
          exact (inConstants_eq_some.1 hvalues).2
      | other name => cases hc

theorem emitted_collectClauses {column : String} {es : List FilterExpr}
    (hes : ∀ e ∈ es, ∀ c ∈ (tryBuildClauses column e).2, c.Emitted) {clauses : List Clause}
    (h : collectClauses column es = some clauses) : ∀ c ∈ clauses, c.Emitted := by
  induction es generalizing clauses with
  | nil =>
    cases h
    exact fun c hc => absurd hc List.not_mem_nil
  | cons e es ih =>
    obtain ⟨he, hes⟩ := List.forall_mem_cons.1 hes
    rw [collectClauses] at h
    generalize tryBuildClauses column e = built at he h
    obtain ⟨fidelity, cs⟩ := built
    have hrest : (collectClauses column es).map (cs ++ ·) = some clauses := by
      cases fidelity with
      | unsupported => cases h
      | exact => exact h
      | optionalSkipped => exact h
    obtain ⟨ds, hds, rfl⟩ := Option.map_eq_some_iff.1 hrest
    exact List.forall_mem_append.2 ⟨he, ih hes hds⟩

theorem emitted_tryBuildClauses (column : String) (e : FilterExpr) :
    ∀ c ∈ (tryBuildClauses column e).2, c.Emitted := by
  have hnil : ∀ c ∈ ([] : List Clause), c.Emitted := fun c hc => absurd hc List.not_mem_nil
  induction e using FilterExpr.ind with
  | columnRef i => exact hnil
  | constant v => exact hnil
  | comparison type l r => exact emitted_buildComparison column type l r
  | optional child ih =>
    rw [tryBuildClauses]
    generalize tryBuildClauses column child = built at ih
    obtain ⟨fidelity, cs⟩ := built
    cases fidelity with
    | unsupported => exact hnil
    | exact => exact ih
    | optionalSkipped => exact ih
  | rootOptional id => exact hnil
  | function f args =>
    rw [tryBuildClauses]
    split_ifs <;> exact hnil
  | operator type children => exact emitted_buildOperator column type children
  | conjunction type children ih =>
    cases type with
    | or => exact hnil
    | and =>
      rw [tryBuildClauses]
      cases hcollected : collectClauses column children with
      | none => exact hnil
      | some clauses =>
        cases clauses with
        | nil => exact hnil
        | cons c cs => exact emitted_collectClauses ih hcollected
  | other id => exact hnil

theorem emitted_serializeFiltersInto (filterToCol : Nat → Option Nat) (columns : ScanColumns)
    (filterSet : TableFilterSet) :
    ∀ c ∈ (serializeFiltersInto filterToCol columns filterSet).1, c.Emitted := by
  intro c hc
  rw [serializeFiltersInto_fst, List.mem_flatMap] at hc
  obtain ⟨entry, -, hc⟩ := hc
  rw [entryClauses, serializeEntry] at hc
  cases hcolumn : columnOfFilter filterToCol columns entry.1 with
  | none =>
    rw [hcolumn] at hc
    cases hc
  | some column =>
    rw [hcolumn] at hc
    dsimp only at hc
    cases hfilter : entry.2 with
    | other id =>
      rw [hfilter] at hc
      cases hc
    | expression e =>
      rw [hfilter, TableFilter.build] at hc
      have hemitted := emitted_tryBuildClauses column e
      generalize tryBuildClauses column e = built at hc hemitted
      obtain ⟨fidelity, cs⟩ := built
      cases fidelity with
      | unsupported => cases hc
      | exact => exact hemitted c hc
      | optionalSkipped => exact hemitted c hc

end Provider

end VirtualCatalog
