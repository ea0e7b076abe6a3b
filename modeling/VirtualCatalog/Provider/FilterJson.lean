import VirtualCatalog.Provider.FilterValue
import Mathlib.Data.List.Nodup

/-!
# Rendering pushed filters

A scan sends the filters that DuckDB pushed into it as a list of clauses, which the provider joins
by `AND`.

* `FilterExpr` : the expression of a filter; `FilterExpr.eval` : its value.
* `tryBuildClauses` : `TryBuildClauses`; `buildOperator` and `buildComparison` are its cases.
* `serializeFiltersInto`, `serializeFlatFiltersOrThrow` : the filters of a scan.
-/

namespace VirtualCatalog

namespace Provider

/-! ### Filters -/

/-- A function that is not a comparison: the filters that DuckDB derives itself, and any other. -/
inductive FilterFunction where
  | dynamic
  | bloomFilter
  | prefixRange
  | named (name : String)
deriving DecidableEq

/-- The `ExpressionType` of an operator. -/
inductive FilterOperator where
  | isNull
  | isNotNull
  | compareIn
  | other (name : String)
deriving DecidableEq

/-- The `ExpressionType` of a conjunction. -/
inductive ConjunctionType where
  | and
  | or
deriving DecidableEq

/-- The expression of a filter. -/
inductive FilterExpr where
  /-- A reference to a column; in the filter of one column there is no other. -/
  | columnRef (index : Nat)
  | constant (value : FilterValue)
  | comparison (type : ComparisonType) (left right : FilterExpr)
  /-- An optional wrapper with the filter it wraps. -/
  | optional (child : FilterExpr)
  /-- An optional wrapper without one. -/
  | rootOptional (id : Nat)
  | function (f : FilterFunction) (args : List FilterExpr)
  | operator (type : FilterOperator) (children : List FilterExpr)
  | conjunction (type : ConjunctionType) (children : List FilterExpr)
  /-- An expression of another class. -/
  | other (id : Nat)

/-- Induction over an expression. -/
@[elab_as_elim]
theorem FilterExpr.ind {P : FilterExpr → Prop} (columnRef : ∀ i, P (columnRef i))
    (constant : ∀ v, P (constant v))
    (comparison : ∀ type l r, P l → P r → P (comparison type l r))
    (optional : ∀ child, P child → P (optional child)) (rootOptional : ∀ id, P (rootOptional id))
    (function : ∀ f args, (∀ e ∈ args, P e) → P (function f args))
    (operator : ∀ type children, (∀ e ∈ children, P e) → P (operator type children))
    (conjunction : ∀ type children, (∀ e ∈ children, P e) → P (conjunction type children))
    (other : ∀ id, P (other id)) : ∀ e, P e :=
  @FilterExpr.rec P (fun es => ∀ e ∈ es, P e) columnRef constant comparison optional rootOptional
    function operator conjunction other (fun _ h => absurd h List.not_mem_nil)
    fun _ _ h hs => List.forall_mem_cons.2 ⟨h, hs⟩

/-- `TableFilter`. -/
inductive TableFilter where
  | expression (e : FilterExpr)
  /-- A filter of another type than `EXPRESSION_FILTER`. -/
  | other (id : Nat)

/-- `TableFilterSet`: the filters of several columns, and the filter of each column, by its index in
the scan. -/
structure TableFilterSet where
  multiColumn : List TableFilter := []
  filters : List (Nat × TableFilter) := []

/-! ### What filters say -/

/-- What DuckDB evaluates itself: its order of values, its functions and operators, and the
expressions and filters that are none of those above. -/
structure FilterSemantics where
  le : FilterValue → FilterValue → Bool
  function : FilterFunction → List FilterValue → FilterValue
  operator : FilterOperator → List FilterValue → FilterValue
  rootOptional : Nat → (Nat → FilterValue) → FilterValue
  other : Nat → (Nat → FilterValue) → FilterValue
  tableFilter : Nat → (Nat → FilterValue) → Option Bool

/-- What a value says as a condition. -/
def FilterValue.truth : FilterValue → Option Bool
  | boolean b => some b
  | _ => none

/-- A truth value as a value. -/
def FilterValue.ofTruth : Option Bool → FilterValue
  | some b => boolean b
  | none => null .boolean

@[simp] theorem FilterValue.truth_ofTruth (t : Option Bool) : (ofTruth t).truth = t := by
  cases t <;> rfl

section

variable (sem : FilterSemantics)

/-- The value of an operator. -/
def evalOperator : FilterOperator → List FilterValue → FilterValue
  | .isNull, v :: _ => .boolean v.isNull
  | .isNotNull, v :: _ => .boolean !v.isNull
  | .compareIn, v :: values => .ofTruth (isIn sem.le v values)
  | type, values => sem.operator type values

/-- The value of a conjunction. -/
def evalConjunction (values : List FilterValue) : ConjunctionType → FilterValue
  | .and => .ofTruth (Truth.all (values.map FilterValue.truth))
  | .or => .ofTruth (Truth.any (values.map FilterValue.truth))

mutual

/-- The value of an expression where the columns have these values. -/
def FilterExpr.eval (columns : Nat → FilterValue) : FilterExpr → FilterValue
  | columnRef i => columns i
  | constant value => value
  | comparison type l r => .ofTruth (compareValues sem.le type (eval columns l) (eval columns r))
  | optional child => eval columns child
  | rootOptional id => sem.rootOptional id columns
  | function f args => sem.function f (evalList columns args)
  | operator type children => evalOperator sem type (evalList columns children)
  | conjunction type children => evalConjunction (evalList columns children) type
  | other id => sem.other id columns

/-- The values of the expressions of a list. -/
def FilterExpr.evalList (columns : Nat → FilterValue) : List FilterExpr → List FilterValue
  | [] => []
  | e :: es => eval columns e :: evalList columns es

end

/-- What an expression says as a condition. -/
def FilterExpr.truth (columns : Nat → FilterValue) (e : FilterExpr) : Option Bool :=
  (e.eval sem columns).truth

/-- What a filter says. -/
def TableFilter.truth (columns : Nat → FilterValue) : TableFilter → Option Bool
  | expression e => e.truth sem columns
  | other id => sem.tableFilter id columns

end

/-! ### The serializer -/

/-- `FilterFidelity`. -/
inductive FilterFidelity where
  | exact
  /-- Left out, but no query depends on it. -/
  | optionalSkipped
  | unsupported
deriving DecidableEq

/-- A clause, before `MakeClause` writes it. -/
inductive Clause where
  | comparison (column : String) (type : ComparisonType) (value : FilterValue)
  | isNull (column : String)
  | isNotNull (column : String)
  | isIn (column : String) (values : List FilterValue)

namespace Clause

/-- The column of a clause. -/
def column : Clause → String
  | comparison column _ _ => column
  | isNull column => column
  | isNotNull column => column
  | isIn column _ => column

/-- `MakeClause`. -/
def make (column op : String) (value : WireValue) (tag : Option String) : List WireValue :=
  [.text column, .text op, value] ++ tag.toList.map .text

/-- The clause on the wire; a list has the tag of the first of its values that has one. -/
def wire (toString : FilterValue → String) : Clause → List WireValue
  | comparison column type value =>
    make column (comparisonOp type) (valueNode toString value) (valueTypeTag value)
  | isNull column => make column "is_null" .null none
  | isNotNull column => make column "is_not_null" .null none
  | isIn column values =>
    make column "in" (.array (values.map (valueNode toString))) (values.findSome? valueTypeTag)

/-- What the clause says of a value of its column. -/
def truth (le : FilterValue → FilterValue → Bool) (x : FilterValue) : Clause → Option Bool
  | comparison _ type value => compareValues le type x value
  | isNull _ => some x.isNull
  | isNotNull _ => some !x.isNull
  | isIn _ values => Provider.isIn le x values

end Clause

/-- `IsInternalHintFunction`. -/
def FilterFunction.isInternalHint : FilterFunction → Bool
  | dynamic => true
  | bloomFilter => true
  | prefixRange => true
  | named _ => false

/-- `IsSimpleFilterColumnRef`. -/
def FilterExpr.isSimpleColumnRef : FilterExpr → Bool
  | columnRef _ => true
  | _ => false

/-- `TryGetColumnConstantComparison`: the column is on the left of the comparison it returns. -/
def tryGetColumnConstantComparison (type : ComparisonType) :
    FilterExpr → FilterExpr → Option (ComparisonType × FilterValue)
  | .columnRef _, .constant value => some (type, value)
  | .constant value, .columnRef _ => some (type.flip, value)
  | _, _ => none

/-- The constants of a list that has nothing else and no NaN. -/
def inConstants : List FilterExpr → Option (List FilterValue)
  | [] => some []
  | .constant value :: es => if value.isNaN then none else (inConstants es).map (value :: ·)
  | _ :: _ => none

/-- The case of `BOUND_OPERATOR`. -/
def buildOperator (column : String) : FilterOperator → List FilterExpr →
    FilterFidelity × List Clause
  | _, [] => (.unsupported, [])
  | type, child :: rest =>
    if !child.isSimpleColumnRef then (.unsupported, [])
    else match type with
    | .isNull => (.exact, [.isNull column])
    | .isNotNull => (.exact, [.isNotNull column])
    | .compareIn =>
      match inConstants rest with
      | some values => (.exact, [.isIn column values])
      | none => (.unsupported, [])
    | .other _ => (.unsupported, [])

/-- The case of a comparison. -/
def buildComparison (column : String) (type : ComparisonType) (l r : FilterExpr) :
    FilterFidelity × List Clause :=
  match tryGetColumnConstantComparison type l r with
  | none => (.unsupported, [])
  | some (type, value) =>
    if (comparisonOp type).isEmpty || value.isNaN then (.unsupported, [])
    else (.exact, [.comparison column type value])

mutual

/-- `TryBuildClauses`, with the clauses it appends. -/
def tryBuildClauses (column : String) : FilterExpr → FilterFidelity × List Clause
  | .optional child =>
    -- an optional filter is only a hint, so it may be left out
    match tryBuildClauses column child with
    | (.unsupported, _) => (.optionalSkipped, [])
    | built => built
  | .rootOptional _ => (.optionalSkipped, [])
  | .function f _ => if f.isInternalHint then (.optionalSkipped, []) else (.unsupported, [])
  | .comparison type l r => buildComparison column type l r
  | .operator type children => buildOperator column type children
  -- the clauses are all ANDed, so that none of them can say OR
  | .conjunction .or _ => (.unsupported, [])
  | .conjunction .and children =>
    -- one part that cannot be written makes the whole unsupported
    match collectClauses column children with
    | none => (.unsupported, [])
    | some [] => (.optionalSkipped, [])
    | some collected => (.exact, collected)
  | .columnRef _ => (.unsupported, [])
  | .constant _ => (.unsupported, [])
  | .other _ => (.unsupported, [])

/-- The clauses of the operands of a conjunction, unless one cannot be rendered. -/
def collectClauses (column : String) : List FilterExpr → Option (List Clause)
  | [] => some []
  | e :: es =>
    match tryBuildClauses column e with
    | (.unsupported, _) => none
    | (_, clauses) => (collectClauses column es).map (clauses ++ ·)

end

/-- `TryBuildClauses` of a filter. -/
def TableFilter.build (column : String) : TableFilter → FilterFidelity × List Clause
  | expression e => tryBuildClauses column e
  | other _ => (.unsupported, [])

/-- `IsOptionalFilter`. -/
def TableFilter.isOptional : TableFilter → Bool
  | expression (.optional _) => true
  | expression (.rootOptional _) => true
  | _ => false

/-- `FilterSerializeResult`. -/
structure FilterSerializeResult where
  allExact : Bool := true
  firstUnsupported : String := ""
deriving DecidableEq

/-- `mark_unsupported`. -/
def FilterSerializeResult.markUnsupported (result : FilterSerializeResult) (column : String) :
    FilterSerializeResult :=
  ⟨false, if result.allExact then column else result.firstUnsupported⟩

/-- The columns of the table, whose names differ. -/
structure ScanColumns where
  names : List String
  nodup : names.Nodup

section

variable (filterToCol : Nat → Option Nat) (columns : ScanColumns)

/-- The name of the column that a filter is about. -/
def columnOfFilter (index : Nat) : Option String :=
  (filterToCol index).bind fun i => columns.names[i]?

/-- The body of the first loop of `SerializeFiltersInto`. -/
def checkMultiColumn (result : FilterSerializeResult) (filter : TableFilter) :
    FilterSerializeResult :=
  if filter.isOptional then result else result.markUnsupported "?"

/-- The body of the second. -/
def serializeEntry (acc : List Clause × FilterSerializeResult) (entry : Nat × TableFilter) :
    List Clause × FilterSerializeResult :=
  match columnOfFilter filterToCol columns entry.1 with
  | none => (acc.1, acc.2.markUnsupported "?")
  | some column =>
    match entry.2.build column with
    | (.unsupported, _) => (acc.1, acc.2.markUnsupported column)
    | (_, clauses) => (acc.1 ++ clauses, acc.2)

/-- `SerializeFiltersInto`. -/
def serializeFiltersInto (filterSet : TableFilterSet) : List Clause × FilterSerializeResult :=
  filterSet.filters.foldl (serializeEntry filterToCol columns)
    ([], filterSet.multiColumn.foldl checkMultiColumn {})

/-- Why a scan with filters is refused. -/
inductive FilterError where
  | notWritten
  | unrenderable (context column : String)
deriving DecidableEq

/-- The message of an error. -/
def FilterError.message : FilterError → String
  | notWritten => "vcatprovider: pushed filters could not be written as JSON"
  | unrenderable context column => context ++ ": a filter pushed down on column '" ++ column ++
      "' has no wire representation. Sending the remaining filters would return extra rows, " ++
      "so the scan is refused rather than answered incorrectly."

variable (toString : FilterValue → String) (write : List (List WireValue) → Option String)

/-- `SerializeFilters`; `write` is `yyjson_mut_write`. -/
def serializeFilters (filterSet : TableFilterSet) :
    Except FilterError (String × FilterSerializeResult) :=
  match serializeFiltersInto filterToCol columns filterSet with
  | ([], result) => .ok ("", result)
  | (clauses, result) =>
    match write (clauses.map (Clause.wire toString)) with
    | some json => .ok (json, result)
    | none => .error .notWritten

/-- `SerializeFlatFiltersOrThrow`. -/
def serializeFlatFiltersOrThrow (filters : Option TableFilterSet) : Except FilterError String :=
  match filters with
  | none => .ok ""
  | some filterSet =>
    match serializeFilters filterToCol columns toString write filterSet with
    | .error e => .error e
    | .ok (json, result) =>
      if result.allExact then .ok json
      else .error (.unrenderable "vcatprovider scan" result.firstUnsupported)

end

end Provider

end VirtualCatalog
