import VirtualCatalog.Provider.FilterJson
import VirtualCatalog.Provider.KeyBuffer
import VirtualCatalog.Provider.SchemaMessage
import Mathlib.Data.List.Nodup

/-!
# What a scan asks for and gets

The scan of a provider's table asks the scan UDF for columns by name: those that DuckDB wants, then
the key columns of a keyed write.  Python asks the provider for the distinct ones and lays out what
it returns; the scan then reads the columns by their positions.

* `PaTable` : a table of pyarrow; `doScan` : `_do_scan`, for any provider.
* `ArrowStream` : what the scan decodes; `ScanOps.Carries` : it has the rows that were encoded.
* `runScanUdf`, `initGlobal` : the call of the UDF, and the checks of what it returned.
* `Laid` : columns of the provider's table, one for each name that was asked for.
* `Answered` : the provider's answer, and what Python makes of it.
* `scanning_of_initGlobal` : what a scan has accepted, and its state.
-/

namespace VirtualCatalog

namespace Provider

/-! ### Columns -/

/-- A column that a scan is asked for. -/
inductive ColumnId where
  /-- `COLUMN_IDENTIFIER_ROW_ID`. -/
  | rowId
  | column (index : Nat)
deriving DecidableEq

/-- The index of a column of the table. -/
def ColumnId.index? : ColumnId → Option Nat
  | rowId => none
  | column index => some index

/-- The columns that DuckDB asks a scan for, none twice. -/
structure ScanIds where
  ids : List ColumnId
  nodup : ids.Nodup

/-- The columns of the table among them. -/
def ScanIds.columns (request : ScanIds) : List Nat := request.ids.filterMap ColumnId.index?

/-- The row id is among them. -/
def ScanIds.wantsRowId (request : ScanIds) : Bool := request.ids.contains .rowId

/-- The row id, if it is asked for, is asked for behind the columns. -/
def ScanIds.RowIdLast (request : ScanIds) : Prop := .rowId ∉ request.ids.dropLast

instance (request : ScanIds) : Decidable request.RowIdLast := inferInstanceAs (Decidable (_ ∉ _))

/-! ### Python -/

/-- A column of a table: its field, and its cell in each row. -/
structure PaColumn (C : Type) where
  field : SchemaNode
  cell : Nat → C

/-- `pa.Table`. -/
structure PaTable (C : Type) where
  metadata : Option (List (String × String)) := none
  columns : List (PaColumn C)
  rowCount : Nat

namespace PaTable

variable {C : Type} (table : PaTable C)

/-- `column_names`. -/
def columnNames : List String := table.columns.map fun c => c.field.name

/-- `schema`. -/
def schema : SchemaNode := .mk (some "+s") none table.metadata (table.columns.map (·.field)) none

/-- The rows. -/
def rows : List (List C) := (List.range table.rowCount).map fun r => table.columns.map (·.cell r)

/-- The column of a name; one that is missing or there twice raises. -/
def column (name : String) : Except String (PaColumn C) :=
  match table.columns.filter fun c => c.field.name = name with
  | [c] => .ok c
  | [] => .error ("Field \"" ++ name ++ "\" does not exist in schema")
  | _ => .error ("Field \"" ++ name ++ "\" exists several times in schema")

/-- `Table.select`. -/
def select (names : List String) : Except String (PaTable C) := do
  let columns ← names.mapM table.column
  return { table with columns }

end PaTable

/-- `Provider.scan` of a table and with the filters of one call, as a function of `columns`. -/
abbrev ScanMethod (C : Type) := Option (List String) → Except String (PaTable C)

/-- `wanted`: the distinct names, or `None`. -/
def wantedColumns (output : List String) : Option (List String) :=
  if output.eraseDups = [] then none else some output.eraseDups

/-- The columns as they were asked for. -/
def PaTable.layOut {C : Type} (table : PaTable C) (output : List String) :
    Except String (PaTable C) :=
  if output ≠ [] ∧ table.columnNames ≠ output then table.select output else .ok table

/-- `_do_scan`, up to the encoding. -/
def doScan {C : Type} (scan : ScanMethod C) (output : List String) : Except String (PaTable C) := do
  (← scan (wantedColumns output)).layOut output

/-! ### The stream -/

/-- A record batch with its number of rows. -/
structure ScanBatch (A : Type) extends RecordBatch A where
  length : Nat

/-- The stream that `MakeStreamFromIpc` makes. -/
structure ArrowStream (A : Type) where
  schema : SchemaNode
  batches : List (ScanBatch A)

/-- What DuckDB, Arrow and pyarrow do with types of `T`, cells of `C`, values of `V`, arrays of `A`
and payloads of `B`. -/
structure ScanOps (T C V A B : Type) extends ArrowTypes T where
  /-- `LogicalType::ToString`. -/
  typeName : T → String
  /-- The cell of an array at a position. -/
  cellAt : A → Nat → C
  /-- `ArrowToDuckDB`, of a cell of a column with this field. -/
  convert : SchemaNode → C → Except ProviderError V
  /-- `_encode_table`. -/
  encodeTable : PaTable C → B
  /-- `MakeStreamFromIpc`. -/
  makeStreamFromIpc : B → Except ProviderError (ArrowStream A)

section

variable {T C V A B : Type} (D : ScanOps T C V A B)

/-- The cells of a row of a batch. -/
def ScanBatch.cells (batch : ScanBatch A) (row : Nat) : List C :=
  batch.children.map (D.cellAt · row)

/-- The rows of the batches. -/
def ArrowStream.rows (stream : ArrowStream A) : List (List C) :=
  stream.batches.flatMap fun batch => (List.range batch.length).map (batch.cells D)

/-- A table that is encoded is decoded: with its schema and its rows, cut into batches somehow. -/
def ScanOps.Carries (table : PaTable C) : Prop := ∃ stream,
  D.makeStreamFromIpc (D.encodeTable table) = .ok stream ∧ stream.schema = table.schema ∧
    stream.rows D = table.rows

/-! ### The call of the UDF -/

/-- The exceptions of a scan. -/
inductive ScanError where
  | binder (message : String)
  | filters (error : FilterError)
  | provider (error : ProviderError)

/-- The same call, in a scan. -/
def inScan {α : Type} (x : Except ProviderError α) : Except ScanError α :=
  x.mapError .provider

/-- `ProviderStreamData`; a buffer is known by its address. -/
structure StreamData (T : Type) where
  providerTableName : String
  columnNames : List String
  includePkColumns : List String := []
  pkBuffer : Option Nat := none
  pkTypes : List T := []
  pkFormats : List String := []
  consumed : Bool := false

/-- What comes of preparing and running the statement that calls the scan UDF. -/
inductive UdfAnswer (B : Type) where
  | unusable (message : String)
  | failed (message : String)
  | noResult
  | null
  | payload (ipc : B)

/-- The payload, or what is thrown. -/
def UdfAnswer.payloadOf (providerTableName : String) : UdfAnswer B → Except ProviderError B
  | unusable e => .error (.udf ("vcatprovider: read UDF is unusable: " ++ e))
  | failed e => .error (.udf ("vcatprovider: read UDF failed: " ++ e))
  | noResult => .error (.io "vcatprovider: read UDF returned no result")
  | null => .error (.io ("vcatprovider: read UDF for '" ++ providerTableName ++
      "' returned no Arrow data"))
  | payload ipc => .ok ipc

/-- The scan UDF, as a function of its second and third argument. -/
abbrev ScanUdf (B : Type) := List String → String → UdfAnswer B

/-- `output_cols`. -/
def outputColumns (columnNames projected pkCols : List String) : List String :=
  if projected ++ pkCols = [] then columnNames.take 1 else projected ++ pkCols

/-- `RunScanUdfAndDecodeArrowResult`; `filters` is what `SerializeFlatFiltersOrThrow` returned. -/
def runScanUdf (data : StreamData T) (projected : List String)
    (filters : Except FilterError String) (udf : ScanUdf B) :
    Except ScanError (ArrowStream A × StreamData T) :=
  if data.consumed then
    .error (.provider (.invalidInput "vcatprovider: a provider table scan cannot be restarted"))
  else do
    let filtersJson ← filters.mapError .filters
    let ipc ← inScan ((udf (outputColumns data.columnNames projected data.includePkColumns)
      filtersJson).payloadOf data.providerTableName)
    let stream ← inScan (D.makeStreamFromIpc ipc)
    let trailing ← inScan (describeTrailingColumns D.toArrowTypes "vcatprovider: read UDF"
      stream.schema data.includePkColumns.length)
    return (stream, { data with
      pkTypes := trailing.types, pkFormats := trailing.formats, consumed := true })

/-! ### The checks -/

/-- `ProviderScanGlobalState`, with the columns of `arrow_table`. -/
structure ScanState (T A : Type) where
  stream : ArrowStream A
  columns : List (Nat × SchemaNode)
  /-- `pk_start_index`, unless it is `COLUMN_IDENTIFIER_ROW_ID`. -/
  pkStartIndex : Option Nat
  pkCount : Nat
  pkBuffer : Option Nat
  pkTypes : List T
  pkFormats : List String

variable [DecidableEq T]

/-- The check of a column that was returned, whose field is `node`. -/
def checkReturned (data : StreamData T) (allTypes : List T) (col : Nat) (node : SchemaNode) :
    Except ProviderError (Nat × SchemaNode) := do
  let returned ← D.duckType node
  let declared ← vectorAt allTypes col
  if returned = declared then return (col, node)
  else
    let name ← vectorAt data.columnNames col
    .error (.invalidInput ("vcatprovider: read UDF for '" ++ data.providerTableName ++
      "' returned column '" ++ name ++ "' as " ++ D.typeName returned ++
      ", but its schema declares " ++ D.typeName declared))

/-- The number of columns that are expected. -/
def expectedColumns (data : StreamData T) (projectedCount : Nat) : Nat :=
  if projectedCount + data.includePkColumns.length = 0 ∧ data.columnNames ≠ [] then 1
  else projectedCount + data.includePkColumns.length

/-- The checks of the schema of the stream, and the columns of `arrow_table`. -/
def checkStream (request : ScanIds) (data : StreamData T) (allTypes : List T)
    (schema : SchemaNode) : Except ProviderError (List (Nat × SchemaNode)) := do
  throwOnMismatchedExtensionStorage D.toArrowTypes "vcatprovider: read UDF" schema
  if schema.children.length ≠ expectedColumns data request.columns.length then
    .error (.invalidInput ("vcatprovider: read UDF for '" ++ data.providerTableName ++
      "' returned " ++ toString schema.children.length ++ " columns, expected " ++
      toString request.columns.length ++ " projected + " ++
      toString data.includePkColumns.length ++ " key"))
  else (request.columns.zip schema.children).mapM fun c => checkReturned D data allTypes c.1 c.2

/-- `ProviderScanInitGlobal`. -/
def initGlobal (request : ScanIds) (data : StreamData T) (allTypes : List T)
    (filters : Except FilterError String) (udf : ScanUdf B) :
    Except ScanError (ScanState T A × StreamData T) :=
  if request.wantsRowId ∧ request.columns ≠ [] ∧ data.pkBuffer = none then
    .error (.binder ("vcatprovider: rowid is not available on provider table '" ++
      data.providerTableName ++ "'"))
  else do
    let projected ← inScan (request.columns.mapM (vectorAt data.columnNames))
    let (stream, after) ← runScanUdf D data projected filters udf
    let columns ← inScan (checkStream D request data allTypes stream.schema)
    let keyed := data.includePkColumns ≠ []
    return (⟨stream, columns, if keyed then some request.columns.length else none,
      data.includePkColumns.length, if keyed then data.pkBuffer else none, after.pkTypes,
      after.pkFormats⟩, after)

/-- The scan UDF that Python registers, for a provider. -/
def pythonScanUdf (scan : String → ScanMethod C) : ScanUdf B := fun columns filtersJson =>
  match doScan (scan filtersJson) columns with
  | .error e => .failed e
  | .ok table => .payload (D.encodeTable table)

end

/-! ### What Python lays out -/

section

variable {C : Type} {table laid : PaTable C} {output : List String}

theorem PaTable.column_eq_ok {name : String} {c : PaColumn C} :
    table.column name = .ok c ↔ (table.columns.filter fun c => c.field.name = name) = [c] := by
  unfold PaTable.column
  split
  next c' hc =>
    rw [hc]
    simp [eq_comm]
  next hc => simp [hc]
  next hone hnil =>
    refine ⟨nofun, fun h => absurd h (hone c)⟩

theorem PaTable.mem_of_column {name : String} {c : PaColumn C} (h : table.column name = .ok c) :
    c ∈ table.columns ∧ c.field.name = name := by
  have hmem : c ∈ table.columns.filter fun c => c.field.name = name := by
    rw [PaTable.column_eq_ok.1 h]
    exact List.mem_singleton_self c
  rw [List.mem_filter, decide_eq_true_eq] at hmem
  exact hmem

theorem PaTable.names_of_columns {names : List String} {columns : List (PaColumn C)}
    (h : List.Forall₂ (fun name c => table.column name = .ok c) names columns) :
    (columns.map fun c => c.field.name) = names := by
  induction h with
  | nil => rfl
  | cons hname _ ih => rw [List.map_cons, ih, (PaTable.mem_of_column hname).2]

/-- Columns of a table that have the names that were asked for, in this order; all of them if no
name was. -/
structure Laid (table : PaTable C) (output : List String) (laid : PaTable C) : Prop where
  rowCount : laid.rowCount = table.rowCount
  metadata : laid.metadata = table.metadata
  columns : ∀ c ∈ laid.columns, c ∈ table.columns
  names : output ≠ [] → laid.columnNames = output

theorem laid_of_layOut (h : table.layOut output = .ok laid) : Laid table output laid := by
  unfold PaTable.layOut at h
  split_ifs at h with hselect
  · obtain ⟨columns, hcolumns, h⟩ := bind_eq_ok h
    cases h
    have hall := mapM_eq_ok.1 hcolumns
    refine ⟨rfl, rfl, fun c hc => ?_, fun _ => ?_⟩
    · obtain ⟨name, -, hname⟩ := exists_of_forall₂ hall hc
      exact (PaTable.mem_of_column hname).1
    · exact PaTable.names_of_columns hall
  · cases h
    refine ⟨rfl, rfl, fun _ hc => hc, fun hne => ?_⟩
    by_contra hnames
    exact hselect ⟨hne, hnames⟩

end

/-! ### Which tables a scan accepts -/

section

variable {T C V A B : Type} [DecidableEq T] {D : ScanOps T C V A B} {request : ScanIds}
  {data : StreamData T} {allTypes : List T} {filters : Except FilterError String}
  {scan : String → ScanMethod C}

theorem inScan_eq_ok {α : Type} {x : Except ProviderError α} {a : α} :
    inScan x = .ok a ↔ x = .ok a := by
  cases x <;> simp [inScan, Except.mapError]

theorem checkReturned_eq_ok {col : Nat} {node : SchemaNode} {c : Nat × SchemaNode} :
    checkReturned D data allTypes col node = .ok c ↔
      (∃ type, D.duckType node = .ok type ∧ allTypes[col]? = some type) ∧ c = (col, node) := by
  unfold checkReturned
  constructor
  · intro h
    obtain ⟨returned, hreturned, h⟩ := bind_eq_ok h
    obtain ⟨declared, hdeclared, h⟩ := bind_eq_ok h
    split_ifs at h with heq
    · cases h
      exact ⟨⟨returned, hreturned, heq ▸ vectorAt_eq_ok.1 hdeclared⟩, rfl⟩
    · obtain ⟨name, -, h⟩ := bind_eq_ok h
      cases h
  · rintro ⟨⟨type, htype, hdeclared⟩, rfl⟩
    rw [htype, vectorAt_eq_ok.2 hdeclared]
    exact if_pos rfl

/-- The fields that were returned have the types that were declared. -/
def Declares (D : ScanOps T C V A B) (allTypes : List T) (cols : List Nat)
    (nodes : List SchemaNode) : Prop :=
  List.Forall₂ (fun col node => ∃ type, D.duckType node = .ok type ∧ allTypes[col]? = some type)
    cols nodes

theorem checkReturned_zip_eq_ok {cols : List Nat} {nodes : List SchemaNode}
    {columns : List (Nat × SchemaNode)} (hlen : cols.length ≤ nodes.length) :
    ((cols.zip nodes).mapM fun c => checkReturned D data allTypes c.1 c.2) = .ok columns ↔
      Declares D allTypes cols (nodes.take cols.length) ∧ columns = cols.zip nodes := by
  rw [mapM_eq_ok]
  induction cols generalizing nodes columns with
  | nil =>
    rw [List.zip_nil_left, List.forall₂_nil_left_iff]
    exact ⟨fun h => ⟨.nil, h⟩, fun h => h.2⟩
  | cons col cols ih =>
    cases nodes with
    | nil => exact absurd hlen (by simp)
    | cons node nodes =>
      have hlen' : cols.length ≤ nodes.length := Nat.le_of_succ_le_succ hlen
      rw [List.zip_cons_cons, List.length_cons, List.take_succ_cons]
      constructor
      · rintro (_ | ⟨hc, hcs⟩)
        obtain ⟨htype, rfl⟩ := checkReturned_eq_ok.1 hc
        obtain ⟨htypes, rfl⟩ := (ih hlen').1 hcs
        exact ⟨.cons htype htypes, rfl⟩
      · rintro ⟨_ | ⟨htype, htypes⟩, rfl⟩
        exact .cons (checkReturned_eq_ok.2 ⟨htype, rfl⟩) ((ih hlen').2 ⟨htypes, rfl⟩)

theorem checkStream_eq_ok {schema : SchemaNode} {columns : List (Nat × SchemaNode)} :
    checkStream D request data allTypes schema = .ok columns ↔
      throwOnMismatchedExtensionStorage D.toArrowTypes "vcatprovider: read UDF" schema = .ok () ∧
        schema.children.length = expectedColumns data request.columns.length ∧
        Declares D allTypes request.columns (schema.children.take request.columns.length) ∧
        columns = request.columns.zip schema.children := by
  have hfew : request.columns.length ≤ expectedColumns data request.columns.length := by
    unfold expectedColumns
    split_ifs <;> omega
  unfold checkStream
  rw [bind_eq_ok_iff]
  constructor
  · rintro ⟨⟨⟩, hstorage, h⟩
    split_ifs at h with harity
    exact ⟨hstorage, not_not.1 harity,
      (checkReturned_zip_eq_ok (not_not.1 harity ▸ hfew)).1 h⟩
  · rintro ⟨hstorage, harity, h⟩
    refine ⟨(), hstorage, ?_⟩
    rw [if_neg (not_not.2 harity)]
    exact (checkReturned_zip_eq_ok (harity ▸ hfew)).2 h

/-- The table that the provider returns to a scan, and what Python makes of it. -/
structure Answered (request : ScanIds) (data : StreamData T) (filters : Except FilterError String)
    (scan : String → ScanMethod C) (names : List String) (table laid : PaTable C) : Prop where
  projected : request.columns.mapM (vectorAt data.columnNames) = .ok names
  /-- The filters were rendered, and the provider returned a table. -/
  answered : ∃ json, filters = .ok json ∧ scan json (wantedColumns
    (outputColumns data.columnNames names data.includePkColumns)) = .ok table
  layout : table.layOut (outputColumns data.columnNames names data.includePkColumns) = .ok laid

omit [DecidableEq T] in
/-- There is only one answer. -/
theorem Answered.unique {names names' : List String} {table table' laid laid' : PaTable C}
    (h : Answered request data filters scan names table laid)
    (h' : Answered request data filters scan names' table' laid') :
    names' = names ∧ table' = table ∧ laid' = laid := by
  obtain rfl : names' = names := Except.ok.inj (h'.projected.symm.trans h.projected)
  obtain ⟨json, hjson, htable⟩ := h.answered
  obtain ⟨json', hjson', htable'⟩ := h'.answered
  obtain rfl : json' = json := Except.ok.inj (hjson'.symm.trans hjson)
  obtain rfl : table' = table := Except.ok.inj (htable'.symm.trans htable)
  exact ⟨rfl, rfl, Except.ok.inj (h'.layout.symm.trans h.layout)⟩

/-- What a scan has checked of the answer. -/
structure Accepts (D : ScanOps T C V A B) (request : ScanIds) (data : StreamData T)
    (allTypes : List T) (filters : Except FilterError String) (scan : String → ScanMethod C)
    (names : List String) (table laid : PaTable C) : Prop
    extends Answered request data filters scan names table laid where
  unused : data.consumed = false
  rowId : request.wantsRowId = true → request.columns = [] ∨ data.pkBuffer ≠ none
  storage : throwOnMismatchedExtensionStorage D.toArrowTypes "vcatprovider: read UDF" laid.schema =
    .ok ()
  arity : laid.columns.length = expectedColumns data request.columns.length
  types : Declares D allTypes request.columns
    ((laid.columns.map PaColumn.field).take request.columns.length)
  /-- The key columns have types. -/
  keys : data.includePkColumns ≠ [] →
    ∀ c ∈ laid.columns.drop request.columns.length, ∃ type, D.duckType c.field = .ok type

/-- The state of a scan of a table that was laid out. -/
structure Scanning (D : ScanOps T C V A B) (request : ScanIds) (data : StreamData T)
    (laid : PaTable C) (state : ScanState T A) : Prop where
  schema : state.stream.schema = laid.schema
  rows : state.stream.rows D = laid.rows
  columns : state.columns = request.columns.zip (laid.columns.map PaColumn.field)
  pkStartIndex : state.pkStartIndex =
    if data.includePkColumns ≠ [] then some request.columns.length else none
  pkCount : state.pkCount = data.includePkColumns.length
  pkBuffer : state.pkBuffer = if data.includePkColumns ≠ [] then data.pkBuffer else none
  keys : data.includePkColumns ≠ [] →
    ((laid.columns.drop request.columns.length).map PaColumn.field).mapM D.duckType =
        .ok state.pkTypes ∧
      state.pkFormats =
        (laid.columns.drop request.columns.length).map fun c => c.field.format.getD ""

omit [DecidableEq T] in
theorem pythonScanUdf_eq_payload {json : String} {output : List String} {name : String} {ipc : B} :
    (pythonScanUdf D scan output json).payloadOf name = .ok ipc ↔
      ∃ table laid, scan json (wantedColumns output) = .ok table ∧ table.layOut output = .ok laid ∧
        ipc = D.encodeTable laid := by
  unfold pythonScanUdf doScan
  cases hscan : scan json (wantedColumns output) with
  | error e => simp [bind, Except.bind, UdfAnswer.payloadOf]
  | ok table =>
    show UdfAnswer.payloadOf name (match table.layOut output with
      | .error e => .failed e
      | .ok table => .payload (D.encodeTable table)) = .ok ipc ↔ _
    cases hlaid : table.layOut output with
    | error e => simp [UdfAnswer.payloadOf, hlaid]
    | ok laid => simp [UdfAnswer.payloadOf, hlaid, eq_comm]

omit [DecidableEq T] in
theorem runScanUdf_eq_ok {names : List String} {stream : ArrowStream A} {after : StreamData T} :
    runScanUdf D data names filters (pythonScanUdf D scan) = .ok (stream, after) ↔
      data.consumed = false ∧ ∃ json table laid trailing, filters = .ok json ∧
        scan json (wantedColumns (outputColumns data.columnNames names data.includePkColumns)) =
          .ok table ∧
        table.layOut (outputColumns data.columnNames names data.includePkColumns) = .ok laid ∧
        D.makeStreamFromIpc (D.encodeTable laid) = .ok stream ∧
        describeTrailingColumns D.toArrowTypes "vcatprovider: read UDF" stream.schema
          data.includePkColumns.length = .ok trailing ∧
        after = { data with
          pkTypes := trailing.types, pkFormats := trailing.formats, consumed := true } := by
  unfold runScanUdf
  split_ifs with hconsumed
  · simp [hconsumed]
  constructor
  · intro h
    obtain ⟨json, hjson, h₁⟩ := bind_eq_ok h
    obtain ⟨ipc, hipc, h₂⟩ := bind_eq_ok h₁
    obtain ⟨stream', hstream, h₃⟩ := bind_eq_ok h₂
    obtain ⟨trailing, htrailing, h₄⟩ := bind_eq_ok h₃
    rw [inScan_eq_ok] at hipc hstream htrailing
    obtain ⟨table, laid, hanswer, hlayout, rfl⟩ := pythonScanUdf_eq_payload.1 hipc
    cases h₄
    refine ⟨by simpa using hconsumed, json, table, laid, trailing, ?_, hanswer, hlayout, hstream,
      htrailing, rfl⟩
    cases filters with
    | error e => cases hjson
    | ok f =>
      cases hjson
      rfl
  · rintro ⟨-, json, table, laid, trailing, rfl, hanswer, hlayout, hstream, htrailing, rfl⟩
    refine bind_eq_ok_iff.2 ⟨json, rfl, bind_eq_ok_iff.2 ⟨D.encodeTable laid, inScan_eq_ok.2
      (pythonScanUdf_eq_payload.2 ⟨table, laid, hanswer, hlayout, rfl⟩), ?_⟩⟩
    exact bind_eq_ok_iff.2 ⟨stream, inScan_eq_ok.2 hstream,
      bind_eq_ok_iff.2 ⟨trailing, inScan_eq_ok.2 htrailing, rfl⟩⟩

omit [DecidableEq T] in
/-- The trailing columns of a stream with as many columns as were expected. -/
theorem trailing_eq_ok {laid : PaTable C} {trailing : TrailingColumns T}
    (hkeyed : data.includePkColumns ≠ [])
    (harity : laid.columns.length = expectedColumns data request.columns.length)
    (hstorage : throwOnMismatchedExtensionStorage D.toArrowTypes "vcatprovider: read UDF"
      laid.schema = .ok ()) :
    describeTrailingColumns D.toArrowTypes "vcatprovider: read UDF" laid.schema
        data.includePkColumns.length = .ok trailing ↔
      ((laid.columns.drop request.columns.length).map PaColumn.field).mapM D.duckType =
          .ok trailing.types ∧
        trailing.formats =
          (laid.columns.drop request.columns.length).map fun c => c.field.format.getD "" := by
  have hpos : data.includePkColumns.length ≠ 0 := by simpa using hkeyed
  have hexpected : laid.columns.length =
      request.columns.length + data.includePkColumns.length := by
    rw [harity, expectedColumns, if_neg (by omega)]
  have hchildren : laid.schema.children = laid.columns.map PaColumn.field := rfl
  have hdrop : laid.schema.children.drop
      (laid.schema.children.length - data.includePkColumns.length) =
      (laid.columns.drop request.columns.length).map PaColumn.field := by
    rw [hchildren, List.length_map, hexpected, Nat.add_sub_cancel, List.map_drop]
  rw [describeTrailingColumns_eq_ok hpos, hdrop]
  constructor
  · rintro ⟨-, -, htypes, hformats⟩
    exact ⟨htypes, by rw [hformats, List.map_map]; rfl⟩
  · rintro ⟨htypes, hformats⟩
    refine ⟨?_, fun child hchild => ?_, htypes, by rw [hformats, List.map_map]; rfl⟩
    · rw [hchildren, List.length_map]
      omega
    · refine storage_of_mem_children hstorage ?_
      rw [hchildren]
      exact (List.drop_sublist _ _).map _ |>.subset hchild

/-- **What a scan has accepted**: a table that was laid out as it was asked for, with the types that
the table declares. -/
theorem scanning_of_initGlobal {state : ScanState T A} {after : StreamData T}
    (hcarries : ∀ names table laid, Answered request data filters scan names table laid →
      D.Carries laid)
    (h : initGlobal D request data allTypes filters (pythonScanUdf D scan) = .ok (state, after)) :
    ∃ names table laid, Accepts D request data allTypes filters scan names table laid ∧
      Scanning D request data laid state := by
  unfold initGlobal at h
  split_ifs at h with hrowId
  obtain ⟨names, hnames, h₁⟩ := bind_eq_ok h
  obtain ⟨⟨stream, after'⟩, hrun, h₂⟩ := bind_eq_ok h₁
  obtain ⟨columns, hcolumns, h₃⟩ := bind_eq_ok h₂
  rw [inScan_eq_ok] at hnames hcolumns
  obtain ⟨hconsumed, json, table, laid, trailing, hjson, hanswer, hlayout, hstream, htrailing,
    rfl⟩ := runScanUdf_eq_ok.1 hrun
  have hanswered : Answered request data filters scan names table laid :=
    ⟨hnames, ⟨json, hjson, hanswer⟩, hlayout⟩
  obtain ⟨stream', hdecoded, hschema, hrows⟩ := hcarries names table laid hanswered
  obtain rfl : stream' = stream := Except.ok.inj (hdecoded.symm.trans hstream)
  cases h₃
  obtain ⟨hstorage, harity, htypes, rfl⟩ := checkStream_eq_ok.1 hcolumns
  rw [hschema] at hstorage harity htypes htrailing
  have harity' : laid.columns.length = expectedColumns data request.columns.length := by
    rw [← harity]
    exact (List.length_map _).symm
  have hkeys := fun hkeyed => (trailing_eq_ok hkeyed harity' hstorage).1 htrailing
  refine ⟨names, table, laid, ⟨hanswered, hconsumed, fun hwants => ?_, hstorage, harity', htypes,
    fun hkeyed c hc => ?_⟩, hschema, hrows, ?_, rfl, rfl, rfl, hkeys⟩
  · by_contra hno
    rw [not_or, not_not] at hno
    exact hrowId ⟨hwants, hno⟩
  · exact exists_mapM.1 ⟨_, (hkeys hkeyed).1⟩ c.field (List.mem_map_of_mem hc)
  · rw [hschema]
    rfl

end

end Provider

end VirtualCatalog
