import VirtualCatalog.Provider.FilterJson
import VirtualCatalog.Provider.LiteralText
import VirtualCatalog.Machine.Fallible

/-!
# Filters in Python

The reader of the wire form of filters (`filters.py`), and what a provider does with them when it
has the whole table.

* `PyValue` : a Python value; `WireValue.loads` : what `json.loads` makes of a value on the wire.
* `rebuildValue`, `filtersFromWire` : `_rebuild_value` and `filters_from_wire`.
* `Pyarrow` : pyarrow's compute functions; what they do is stated where it is used.
* `filterAndProject` : `filter_and_project`.
-/

namespace VirtualCatalog

namespace Provider

/-! ### Python values -/

/-- A Python value. -/
inductive PyValue where
  | none
  | bool (b : Bool)
  | int (z : Int)
  | float (x : FloatValue)
  | str (s : String)
  | date (d : CivilDate)
  | time (t : ClockTime)
  | datetime (d : CivilDate) (t : ClockTime)
  | decimal (x : Rat)
  | list (items : List PyValue)

/-- `value is None`. -/
def PyValue.isNone : PyValue → Bool
  | none => true
  | _ => false

mutual

/-- `json.loads`, of a value that was written. -/
def WireValue.loads : WireValue → PyValue
  | null => .none
  | bool b => .bool b
  | integer z => .int z
  | real x => .float x
  | text s => .str s
  | array items => .list (loadsList items)

/-- The items of an array. -/
def WireValue.loadsList : List WireValue → List PyValue
  | [] => []
  | v :: vs => loads v :: loadsList vs

end

theorem WireValue.loadsList_eq (vs : List WireValue) : loadsList vs = vs.map loads := by
  induction vs with
  | nil => rfl
  | cons v vs ih => rw [loadsList, ih, List.map_cons]

/-! ### `filters_from_wire` -/

/-- What is raised. -/
inductive FiltersError where
  | opaqueValue (column : String)
  | malformed (column value tag : String)
  /-- `IndexError` or `TypeError`: the clause has no column, operator and value. -/
  | notAClause
  | unsupportedOperator (op : String)
  /-- Whatever pyarrow raises. -/
  | pyarrow
deriving DecidableEq

/-- The text of an error that is raised here; `repr` is Python's. -/
def FiltersError.message (repr : String → String) : FiltersError → String
  | opaqueValue column => "n6k: a filter on column " ++ repr column ++
      " has a value whose type has no wire form that can be rebuilt; the scan is refused rather " ++
      "than answered against the wrong value"
  | malformed column value tag => "n6k: filter on column " ++ repr column ++ " received " ++
      repr value ++ ", which is not a valid " ++ tag ++ " literal"
  | unsupportedOperator op => "filter_and_project: unsupported operator " ++ repr op
  | notAClause => ""
  | pyarrow => ""

/-- `_REBUILD`; a text that is refused raises. -/
def rebuild (tag text : String) : Option (Option PyValue) :=
  if tag = "date" then some ((dateFromIsoformat text).map .date)
  else if tag = "time" then some ((timeFromIsoformat text).map .time)
  else if tag = "timestamp" then
    some ((datetimeFromIsoformat text).map fun t => .datetime t.1 t.2)
  else if tag = "decimal" then some ((decimalOf text).map .decimal)
  else if tag = "int" then some ((intOf text).map .int)
  else none

/-- `_rebuild_value`. -/
def rebuildValue (tag column : String) (value : PyValue) : Except FiltersError PyValue :=
  if value.isNone then .ok value
  else if tag = "opaque" then .error (.opaqueValue column)
  else match value with
  | .str text =>
    match rebuild tag text with
    | none => .ok value
    | some (some rebuilt) => .ok rebuilt
    | some none => .error (.malformed column text tag)
  | _ => .ok value

/-- `FilterClause`. -/
structure FilterClause where
  column : String
  op : String
  value : PyValue

/-- The rebuilt clause; the items of a list are rebuilt one by one. -/
def rebuildClause (column op tag : String) (value : PyValue) : Except FiltersError FilterClause :=
  match value with
  | .list items =>
    if op = "in" then
      (fun items => ⟨column, op, .list items⟩) <$> items.mapM (rebuildValue tag column)
    else (fun value => ⟨column, op, value⟩) <$> rebuildValue tag column value
  | _ => (fun value => ⟨column, op, value⟩) <$> rebuildValue tag column value

/-- The body of the loop of `filters_from_wire`. -/
def clauseFromWire : List PyValue → Except FiltersError FilterClause
  | [.str column, .str op, value] => .ok ⟨column, op, value⟩
  | .str column :: .str op :: value :: .none :: _ => .ok ⟨column, op, value⟩
  | .str column :: .str op :: value :: .str tag :: _ => rebuildClause column op tag value
  | _ => .error .notAClause

/-- `filters_from_wire`. -/
def filtersFromWire (clauses : List (List PyValue)) :
    Except FiltersError (Option (List FilterClause)) :=
  if clauses.isEmpty then .ok none else some <$> clauses.mapM clauseFromWire

/-! ### `filter_and_project` -/

/-- The type of a column; the labels are those of an `ENUM`. -/
structure ColumnType where
  id : LogicalTypeId
  labels : List String := []

/-- An Arrow table.  A cell is given as the value that DuckDB reads from it; a row as the cells by
the names of their columns. -/
structure ArrowTable where
  columns : List (String × ColumnType)
  rows : List (String → FilterValue)

/-- What an expression asks of a column. -/
inductive ColumnCondition where
  | compare (type : ComparisonType) (value : PyValue)
  | isIn (values : PyValue)
  | isNull
  | isValid

/-- `pc.Expression`. -/
inductive ComputeExpression where
  | column (name : String) (condition : ColumnCondition)
  | and (left right : ComputeExpression)

/-- The conditions that an expression joins. -/
def ComputeExpression.conditions : ComputeExpression → List (String × ColumnCondition)
  | column name condition => [(name, condition)]
  | and left right => conditions left ++ conditions right

/-- pyarrow's compute functions, by cell. -/
structure Pyarrow where
  /-- The expression is refused for a table with these columns. -/
  refuses : List (String × ColumnType) → ComputeExpression → Bool
  compare : ComparisonType → FilterValue → PyValue → Option Bool
  isIn : FilterValue → List PyValue → Option Bool
  isNull : FilterValue → Bool
  isValid : FilterValue → Bool

section

variable (pa : Pyarrow)

/-- The value of a condition on a cell. -/
def ColumnCondition.eval (x : FilterValue) : ColumnCondition → Option Bool
  | compare type value => pa.compare type x value
  | isIn (.list values) => pa.isIn x values
  | isIn _ => none
  | isNull => some (pa.isNull x)
  | isValid => some (pa.isValid x)

/-- The value of an expression on a row. -/
def ComputeExpression.eval (row : String → FilterValue) : ComputeExpression → Option Bool
  | column name condition => condition.eval pa (row name)
  | and left right => Truth.and (eval row left) (eval row right)

/-- `Table.filter`. -/
def ArrowTable.filter (table : ArrowTable) (expr : ComputeExpression) :
    Except FiltersError ArrowTable :=
  if pa.refuses table.columns expr then .error .pyarrow
  else .ok { table with rows := table.rows.filter fun row => expr.eval pa row = some true }

/-- `Table.select`; a name that is no column raises. -/
def ArrowTable.select (table : ArrowTable) (names : List String) :
    Except FiltersError ArrowTable :=
  if names.all fun name => (table.columns.map (·.1)).contains name then
    .ok { table with columns := names.filterMap fun name => table.columns.find? (·.1 = name) }
  else .error .pyarrow

/-- The second half of `filter_and_project`. -/
def ArrowTable.project (table : ArrowTable) : Option (List String) →
    Except FiltersError ArrowTable
  | none => .ok table
  | some names => if table.columns.map (·.1) = names then .ok table else table.select names

/-- What a clause asks of its column. -/
def FilterClause.condition (clause : FilterClause) : Except FiltersError ColumnCondition :=
  if clause.op = "=" then .ok (.compare .equal clause.value)
  else if clause.op = "!=" then .ok (.compare .notEqual clause.value)
  else if clause.op = "<" then .ok (.compare .lessThan clause.value)
  else if clause.op = "<=" then .ok (.compare .lessThanOrEqual clause.value)
  else if clause.op = ">" then .ok (.compare .greaterThan clause.value)
  else if clause.op = ">=" then .ok (.compare .greaterThanOrEqual clause.value)
  else if clause.op = "in" then .ok (.isIn clause.value)
  else if clause.op = "is_null" then .ok .isNull
  else if clause.op = "is_not_null" then .ok .isValid
  else .error (.unsupportedOperator clause.op)

/-- The body of the loop of `filter_and_project`. -/
def addClause (expr : Option ComputeExpression) (clause : FilterClause) :
    Except FiltersError (Option ComputeExpression) := do
  let condition ← clause.condition
  let joined := ComputeExpression.column clause.column condition
  return some (expr.elim joined (.and · joined))

/-- `table.filter`, if there is an expression. -/
def ArrowTable.filterBy (table : ArrowTable) : Option ComputeExpression →
    Except FiltersError ArrowTable
  | none => .ok table
  | some expr => table.filter pa expr

/-- The first half of `filter_and_project`. -/
def applyFilters (table : ArrowTable) (filters : Option (List FilterClause)) :
    Except FiltersError ArrowTable := do
  table.filterBy pa (← (filters.getD []).foldlM addClause none)

/-- `filter_and_project`. -/
def filterAndProject (table : ArrowTable) (columns : Option (List String))
    (filters : Option (List FilterClause)) : Except FiltersError ArrowTable := do
  (← applyFilters pa table filters).project columns

/-- The filters of a scan, as they arrive, applied to a table. -/
def applyWireFilters (table : ArrowTable) (columns : Option (List String))
    (clauses : List (List WireValue)) : Except FiltersError ArrowTable := do
  filterAndProject pa table columns (← filtersFromWire (clauses.map (·.map WireValue.loads)))

end

end Provider

end VirtualCatalog
