import VirtualCatalog.Provider.ArrowLayout
import VirtualCatalog.Provider.TargetScans

/-!
# Which key a row id names

The scans of the target of a keyed write read the keys out of the Arrow arrays that were decoded,
with `ReadArrowValue`.  Arrow lays the cells of a column out as its format says.

* `ArrowOps` : the values of DuckDB, with those that are read of arrays among them.
* `ArrowStream.Stores` : the arrays of a stream hold its cells.
* `KeyedScan` : a scan with the table that the provider returned to it; `KeyedScan.IsKey` : the key
  of a row of this table.
* `KeyedScan.Names` : the row ids of a scan name the keys of its rows.
* `row_ids_name_keys` : they do, for all scans of the target.
-/

namespace VirtualCatalog

namespace Provider

/-! ### Keys that are read of arrays -/

/-- What DuckDB does with values of `V` and encoded record batches of `B`. -/
structure ArrowOps (V B : Type) where
  /-- The value that `ReadArrowValue` returns. -/
  ofRead : DuckValue → V
  /-- `Value::type`. -/
  type : V → LogicalType
  /-- The cast of a value to another type than its own. -/
  convert : V → LogicalType → Except ProviderError V
  /-- `Value::GetValue<int64_t>`. -/
  int64 : V → Int
  /-- `ArrowIpcStreamEncoder::EncodeChunk` for columns of these types. -/
  encodeChunk : List LogicalType → List (List V) → Except ProviderError B

/-- An exception of `ReadArrowValue`. -/
def ArrowError.toProvider : ArrowError → ProviderError
  | io message => .io message
  | internal message => .internal message
  | outOfRange message => .outOfRange message
  | invalidInput message => .invalidInput message

/-- The same operations, with keys that are read by `ReadArrowValue`. -/
def ArrowOps.values {V B : Type} (K : ArrowOps V B) : ValueOps V LogicalType ArrowArray B where
  type := K.type
  convert := K.convert
  int64 := K.int64
  readArrowValue array pos type format :=
    ((Provider.readArrowValue format.toList "vcatprovider" array pos type).mapError
      ArrowError.toProvider).map K.ofRead
  encodeChunk := K.encodeChunk

section

variable {C U V B E : Type} {D : ScanOps LogicalType C U ArrowArray B} {cell : C → Option Cell}

/-- The arrays hold the cells of their columns, in the layouts that the schema names; `cell` is what
Arrow calls a cell. -/
def ArrowStream.Stores (D : ScanOps LogicalType C U ArrowArray B) (cell : C → Option Cell)
    (stream : ArrowStream ArrowArray) : Prop :=
  ∀ batch ∈ stream.batches, ∀ (i : Nat) (node : SchemaNode) (array : ArrowArray),
    stream.schema.children[i]? = some node → batch.children[i]? = some array →
    ∀ layout : Layout, node.format = some (.ofList layout.format) →
      ∃ cells, Provider.Stores array layout cells ∧
        ∀ pos < batch.length, cells[array.offset + pos]? = some (cell (D.cellAt array pos))

/-! ### Scans with their tables -/

variable (D cell) in
/-- A scan of the target, with the table that the provider returned to it. -/
structure KeyedScan where
  scan : TargetScan LogicalType ArrowArray
  data : StreamData LogicalType
  after : StreamData LogicalType
  allTypes : List LogicalType
  filters : Except FilterError String
  provider : String → ScanMethod C
  names : List String
  table : PaTable C
  laid : PaTable C
  /-- The planner has given it a key. -/
  keyed : data.includePkColumns ≠ []
  rowIdLast : scan.request.RowIdLast
  started : initGlobal D scan.request data allTypes filters (pythonScanUdf D provider) =
    .ok (scan.state, after)
  answered : Answered scan.request data filters provider names table laid
  carried : D.Carries laid
  stores : scan.state.stream.Stores D cell

namespace KeyedScan

variable (t : KeyedScan D cell) (K : ArrowOps V E)

/-- The columns of the key. -/
def keyColumns : List (PaColumn C) := t.laid.columns.drop t.scan.request.columns.length

/-- The key of a row of the table: values that were read as the types of the key columns, and that
mean what the cells of the row mean, those at least that can be read exactly. -/
def IsKey (r : Nat) (key : List V) : Prop :=
  List.Forall₂ (fun c v => ∃ type w, D.duckType c.field = .ok type ∧ v = K.ofRead w ∧
    ∀ layout : Layout, c.field.format = some (.ofList layout.format) →
      layout.Exact type (cell (c.cell r)) →
        w.type = type ∧ w.meaning = layout.meaning (cell (c.cell r))) t.keyColumns key

/-- The scan has emitted each row of its table once, in this order, and the buffer holds the key of
each at its row id. -/
structure Names (keys : Scans V LogicalType ArrowArray) (order : List Nat) : Prop where
  all : order.Perm (List.range t.table.rowCount)
  rows : List.Forall₂ (fun o r =>
    o.1 = requestedRow D t.scan.request t.scan.projectionIds t.laid r ∧
      ∃ key, keys.buffer.rows[o.2]? = some key ∧ t.IsKey K r key) (t.scan.output D) order

variable {K}

/-- What the scan has accepted. -/
theorem scanning : Accepts D t.scan.request t.data t.allTypes t.filters t.provider t.names t.table
      t.laid ∧ Scanning D t.scan.request t.data t.laid t.scan.state := by
  obtain ⟨names, table, laid, haccepts, hstate⟩ := scanning_of_initGlobal
    (fun _ _ laid h => by
      obtain ⟨-, -, rfl⟩ := t.answered.unique h
      exact t.carried) t.started
  obtain ⟨rfl, rfl, rfl⟩ := t.answered.unique haccepts.toAnswered
  exact ⟨haccepts, hstate⟩

/-- The columns of the key have its names. -/
theorem laidOut : Laid t.table (t.names ++ t.data.includePkColumns) t.laid := by
  have hlaid := laid_of_layOut t.answered.layout
  rwa [outputColumns, if_neg (by simp [t.keyed])] at hlaid

theorem length_laid : t.laid.columns.length =
    t.scan.request.columns.length + t.data.includePkColumns.length := by
  have hpos : 0 < t.data.includePkColumns.length := List.length_pos_of_ne_nil t.keyed
  rw [t.scanning.1.arity, expectedColumns, if_neg (by omega)]

/-- One column of the key of a row. -/
theorem isKey_column {batch : ScanBatch ArrowArray} (hbatch : batch ∈ t.scan.state.stream.batches)
    {row r : Nat} (hrow : row < batch.length)
    (hcells : batch.cells D row = t.laid.columns.map (·.cell r)) {i : Nat} {c : PaColumn C}
    (hc : t.keyColumns[i]? = some c) {v : V}
    (hv : (do
      let array ← vectorAt batch.children (t.scan.state.keys.pkStartIndex + i)
      let format ← vectorAt t.scan.state.keys.pkFormats i
      let type ← vectorAt t.scan.state.keys.pkTypes i
      K.values.readArrowValue array row type format) = .ok v) :
    ∃ type w, D.duckType c.field = .ok type ∧ v = K.ofRead w ∧
      ∀ layout : Layout, c.field.format = some (.ofList layout.format) →
        layout.Exact type (cell (c.cell r)) →
          w.type = type ∧ w.meaning = layout.meaning (cell (c.cell r)) := by
  obtain ⟨-, hstate⟩ := t.scanning
  obtain ⟨htypes, hformats⟩ := hstate.keys t.keyed
  obtain ⟨array, harray, h₁⟩ := bind_eq_ok hv
  obtain ⟨format, hformat, h₂⟩ := bind_eq_ok h₁
  obtain ⟨type, htype, h₃⟩ := bind_eq_ok h₂
  rw [vectorAt_eq_ok] at harray hformat htype
  have hstart : t.scan.state.keys.pkStartIndex = t.scan.request.columns.length := by
    rw [ScanState.keys, hstate.pkStartIndex, if_pos t.keyed]
    rfl
  rw [hstart] at harray
  have hcolumn : t.laid.columns[t.scan.request.columns.length + i]? = some c := by
    rwa [keyColumns, List.getElem?_drop] at hc
  -- the cell, the type and the format are those of this column
  have hcell : D.cellAt array row = c.cell r := by
    have hget := congrArg (·[t.scan.request.columns.length + i]?) hcells
    simp only [ScanBatch.cells, List.getElem?_map, harray, hcolumn, Option.map_some] at hget
    exact Option.some.inj hget
  have hnode : D.duckType c.field = .ok type := by
    have hall := (mapM_eq_ok.1 htypes).get (i := i)
    obtain ⟨hlt, hget⟩ := List.getElem?_eq_some_iff.1 hc
    obtain ⟨hlt', hget'⟩ := List.getElem?_eq_some_iff.1 htype
    have hread := hall (by rwa [List.length_map]) hlt'
    simp only [List.get_eq_getElem, List.getElem_map] at hread
    rw [← hget, ← hget']
    exact hread
  have hname : format = c.field.format.getD "" := by
    have hget : t.scan.state.pkFormats[i]? = some format := hformat
    rw [hformats, List.getElem?_map] at hget
    change t.keyColumns[i]?.map _ = some format at hget
    rw [hc] at hget
    exact (Option.some.inj hget).symm
  cases hread : readArrowValue format.toList "vcatprovider" array row type with
  | error e =>
    simp only [ArrowOps.values, hread] at h₃
    cases h₃
  | ok w =>
    simp only [ArrowOps.values, hread] at h₃
    obtain rfl : K.ofRead w = v := Except.ok.inj h₃
    refine ⟨type, w, hnode, rfl, fun layout hlayout hexact => ?_⟩
    have hchild : t.scan.state.stream.schema.children[t.scan.request.columns.length + i]? =
        some c.field := by
      rw [hstate.schema]
      show (t.laid.columns.map PaColumn.field)[_]? = _
      rw [List.getElem?_map, hcolumn]
      rfl
    obtain ⟨cells, hstored, hcells'⟩ := t.stores batch hbatch _ _ array hchild harray layout hlayout
    have hpos := hcells' row hrow
    rw [hcell] at hpos
    rw [hname, hlayout, Option.getD_some, String.toList_ofList] at hread
    exact (returns_row_iff "vcatprovider" type hstored hpos).2 (fun _ => hexact) w hread

/-- What is read of the key columns of a row is its key. -/
theorem isKey_of_read {batch : ScanBatch ArrowArray} (hbatch : batch ∈ t.scan.state.stream.batches)
    {row r : Nat} (hrow : row < batch.length)
    (hcells : batch.cells D row = t.laid.columns.map (·.cell r)) {key : List V}
    (hkey : t.scan.state.keys.read K.values batch.toRecordBatch row = .ok key) :
    t.IsKey K r key := by
  have hall := mapM_eq_ok.1 hkey
  have hcount : t.scan.state.keys.pkCount = t.data.includePkColumns.length := t.scanning.2.pkCount
  have hlength : t.keyColumns.length = (List.range t.scan.state.keys.pkCount).length := by
    rw [keyColumns, List.length_drop, t.length_laid, List.length_range, hcount]
    omega
  refine List.forall₂_iff_get.2 ⟨hlength.trans hall.length_eq, fun i hi hi' => ?_⟩
  have hread := hall.get (hlength ▸ hi) hi'
  simp only [List.get_eq_getElem, List.getElem_range] at hread
  exact t.isKey_column hbatch hrow hcells (List.getElem?_eq_getElem hi) hread

/-- The rows of the batches are those of the table. -/
theorem rows_cells : List.Forall₂ (fun p r =>
      (p.1 ∈ t.scan.state.stream.batches ∧ p.2 < p.1.length) ∧
        p.1.cells D p.2 = t.laid.columns.map (·.cell r))
    (t.scan.state.stream.batches.flatMap (allRows ScanBatch.length))
    (List.range t.table.rowCount) := by
  refine (List.forall₂_and_left _ _).2 ⟨fun p hp => ?_, ?_⟩
  · obtain ⟨batch, hbatch, hp⟩ := List.mem_flatMap.1 hp
    obtain ⟨row, hrow, rfl⟩ := List.mem_map.1 hp
    exact ⟨hbatch, List.mem_range.1 hrow⟩
  · have hcells := (allRows_cells t.scan.state.stream).trans t.scanning.2.rows
    rw [PaTable.rows, t.laidOut.rowCount, ← List.forall₂_eq_eq_eq, List.forall₂_map_left_iff,
      List.forall₂_map_right_iff] at hcells
    exact hcells

end KeyedScan

theorem forall₂_comp {α β γ : Type} {R : α → β → Prop} {S : β → γ → Prop} {as : List α}
    {bs : List β} {cs : List γ} (h : List.Forall₂ R as bs) (h' : List.Forall₂ S bs cs) :
    List.Forall₂ (fun a c => ∃ b, R a b ∧ S b c) as cs := by
  induction h generalizing cs with
  | nil =>
    cases h'
    exact .nil
  | cons hR _ ih =>
    obtain _ | ⟨hS, hSs⟩ := h'
    exact .cons ⟨_, hR, hS⟩ (ih hSs)

variable {K : ArrowOps V E} {targets : List (KeyedScan D cell)}
  {keys : Scans V LogicalType ArrowArray}

/-- The row ids of one scan. -/
theorem KeyedScan.exists_names (t : KeyedScan D cell)
    (hrun : (Provider.scanning K.values).ReachableBy Machine.Free {} keys)
    (hcomplete : Complete (targets.map (·.scan)) keys) (ht : t ∈ targets) :
    ∃ order, t.Names K keys order := by
  have hkeys := Scans.Ok.reachable hrun
  have hsc : t.scan ∈ targets.map (·.scan) := List.mem_map_of_mem ht
  have hstate := t.scanning.2
  obtain ⟨threads, hhandout, hfinished⟩ := hcomplete.finished t.scan hsc
  have hok := Handout.Ok.reachable (by decide) hhandout
  obtain ⟨order, hgiven, horder⟩ :=
    List.perm_comp_forall₂ (hok.perm_of_finished hfinished) t.rows_cells
  have houtput := hcomplete.output_keys (D := D) hkeys hsc
  rw [← List.forall₂_eq_eq_eq, List.forall₂_map_left_iff, List.forall₂_map_right_iff] at houtput
  refine ⟨order, horder, ?_⟩
  have hbound : ∀ o ∈ t.scan.output D, o.2 < keys.buffer.rows.length := fun o ho =>
    (Scans.Distinct.reachable hrun).bound o.2 (.inl ((hcomplete.ids_perm (D := D) hkeys).subset
      (List.mem_flatMap.2 ⟨t.scan, hsc, List.mem_map_of_mem ho⟩)))
  refine ((List.forall₂_and_left _ _).2 ⟨hbound, forall₂_comp houtput hgiven⟩).imp ?_
  rintro o r ⟨hlt, p, hpair, ⟨hbatch, hrow⟩, hcells⟩
  obtain ⟨hemitted, hbuffer⟩ := Prod.ext_iff.1 hpair
  refine ⟨?_, keys.buffer.rows[o.2], List.getElem?_eq_getElem hlt, ?_⟩
  · rw [show o.1 = _ from hemitted, ScanState.emitRow, hcells]
    exact requestedRow_eq t.rowIdLast hstate.columns t.scanning.1.few t.scan.projectionIds r
  · refine t.isKey_of_read hbatch hrow hcells ?_
    dsimp only at hbuffer
    rw [List.getElem?_eq_getElem hlt] at hbuffer
    cases hread : t.scan.state.keys.read K.values p.1.toRecordBatch p.2 with
    | error e =>
      rw [hread] at hbuffer
      cases hbuffer
    | ok key =>
      rw [hread] at hbuffer
      rw [Option.some.inj hbuffer]

/-- **The row ids of a keyed write name the keys of the rows**: for any provider, any number of
scans of the target on any threads, and however their appends to the one buffer interleave, every
row id is written once; each scan emits every row of its provider's table once, and the buffer holds
at its row id the key of this very row, in the columns that the key names. -/
theorem row_ids_name_keys (hrun : (scanning K.values).ReachableBy Machine.Free {} keys)
    (hcomplete : Complete (targets.map (·.scan)) keys) :
    (targets.flatMap fun t => (t.scan.output D).map (·.2)).Nodup ∧
      ∀ t ∈ targets, Laid t.table (t.names ++ t.data.includePkColumns) t.laid ∧
        ∃ order, t.Names K keys order := by
  have hids := hcomplete.ids_perm (D := D) (Scans.Ok.reachable hrun)
  rw [List.flatMap_map] at hids
  exact ⟨hids.nodup_iff.2 (Scans.Distinct.reachable hrun).finished,
    fun t ht => ⟨t.laidOut, t.exists_names hrun hcomplete ht⟩⟩

end

/-! ### The keys of two users -/

namespace Sample

open LittleEndian

/-- The values that are read, and casts that change nothing. -/
def readValues : ArrowOps DuckValue Unit where
  ofRead := id
  type := DuckValue.type
  convert v _ := .ok v
  int64
    | .bigint n => n
    | _ => 0
  encodeChunk _ _ := .ok ()

/-- A cell of an integer. -/
def integerCell (n : Int) : Option Cell := some (.number n)

theorem layout_of_integer {layout : Layout} (h : some "i" = some (String.ofList layout.format)) :
    layout = .int .four := by
  have hformat : ['i'] = layout.format :=
    (congrArg String.toList (Option.some.inj h)).trans String.toList_ofList
  cases layout with
  | int w =>
    cases w with
    | four => rfl
    | one | two | eight => exact absurd hformat (by decide)
  | decimal128 precision scale explicit => simp [Layout.format] at hformat
  | utf8 | largeUtf8 | dateDays | dateMillis => exact absurd hformat (by decide)
  | time unit => simp [Layout.format] at hformat
  | timestamp unit zone => simp [Layout.format] at hformat

theorem element_bytesOf (n : Int) : element 4 (bytesOf 4 n) 0 = bytesOf 4 n := by
  rw [element, slice, Nat.zero_mul, List.drop_zero]
  exact List.take_of_length_le (Nat.le_of_eq (length_bytesOf 4 n))

theorem stores_integerArray {n : Int} (h : Fits 4 n) :
    Stores (integerArray n) (.int .four) [integerCell n] where
  validity i cell hcell := by
    match i with
    | 0 => cases hcell; rfl
    | i + 1 => cases hcell
  held i cell hcell := by
    match i with
    | 0 =>
      cases hcell
      exact ⟨rfl, h, element_bytesOf n⟩
    | i + 1 => cases hcell

theorem cellAt_integerArray {n : Int} (h : Fits 4 n) : userOps.cellAt (integerArray n) 0 = n := by
  have hbuffer : ((integerArray n).buffer 1).getD [] = bytesOf 4 n := rfl
  have hoffset : (integerArray n).offset + 0 = 0 := rfl
  dsimp only [userOps]
  rw [hbuffer, hoffset, element_bytesOf, signed_bytesOf h]

theorem stores_users : usersState.stream.Stores userOps integerCell := by
  have hone : ∀ byte, ∀ array ∈ (userBatch byte).children,
      ∃ n, Fits 4 n ∧ array = integerArray n := by
    intro byte array harray
    have hlt := byte.toNat_lt
    rcases List.mem_cons.1 harray with rfl | harray
    · exact ⟨_, by constructor <;> omega, rfl⟩
    · exact ⟨_, by constructor <;> omega, List.mem_singleton.1 harray⟩
  intro batch hbatch i node array hnode harray layout hlayout
  have hinteger : node.format = some "i" := by
    rcases List.mem_cons.1 (List.mem_of_getElem? hnode) with rfl | hmem
    · rfl
    · rw [List.mem_singleton.1 hmem]
      rfl
  obtain rfl := layout_of_integer (hinteger ▸ hlayout)
  obtain ⟨byte, rfl⟩ : ∃ byte, batch = userBatch byte := by
    rcases List.mem_cons.1 hbatch with rfl | hmem
    · exact ⟨0, rfl⟩
    · exact ⟨1, List.mem_singleton.1 hmem⟩
  obtain ⟨n, hfits, rfl⟩ := hone byte array (List.mem_of_getElem? harray)
  refine ⟨_, stores_integerArray hfits, fun pos hpos => ?_⟩
  obtain rfl : pos = 0 := Nat.lt_one_iff.1 hpos
  rw [cellAt_integerArray hfits]
  rfl

/-- The second thread puts its key first. -/
def usersTarget : TargetScan LogicalType ArrowArray :=
  ⟨usersRequest, [], usersState, usersHanded, [[1], [0]]⟩

/-- The scan with its table. -/
def usersKeyed : KeyedScan userOps integerCell where
  scan := usersTarget
  data := usersData
  after := _
  allTypes := [.integer, .integer]
  filters := .ok ""
  provider := usersScan
  names := ["age"]
  table := users
  laid := laidUsers
  keyed := by decide
  rowIdLast := by decide
  started := initGlobal_users
  answered := answered_users
  carried := carries_users
  stores := stores_users

/-- The calls of the two chunks. -/
def usersSteps : List (Scans.Label LogicalType ArrowArray) :=
  [.begin 1 usersState.keys (userBatch 0).toRecordBatch 0 1,
    .begin 0 usersState.keys (userBatch 1).toRecordBatch 0 1, .row 0, .row 1, .finish 1, .finish 0]

/-- The buffer after them. -/
def usersKeys : Scans DuckValue LogicalType ArrowArray :=
  ((scanning readValues.values).exec {} usersSteps).getD {}

theorem usersKeys_reachable :
    (scanning readValues.values).ReachableBy Machine.Free {} usersKeys :=
  ⟨usersSteps, Machine.run_of_exec rfl⟩

theorem users_complete : Complete ([usersKeyed].map (·.scan)) usersKeys where
  finished sc hsc := by
    obtain rfl := List.mem_singleton.1 hsc
    exact ⟨2, usersHanded_reachable, usersHanded_finished⟩
  chunks sc hsc := by
    obtain rfl := List.mem_singleton.1 hsc
    rfl
  calls := List.Perm.refl _

end Sample

theorem row_ids_name_keys_users :
    ([Sample.usersKeyed].flatMap fun t => (t.scan.output Sample.userOps).map (·.2)).Nodup ∧
      ∀ t ∈ [Sample.usersKeyed], Laid t.table (t.names ++ t.data.includePkColumns) t.laid ∧
        ∃ order, t.Names Sample.readValues Sample.usersKeys order :=
  row_ids_name_keys Sample.usersKeys_reachable Sample.users_complete

end Provider

end VirtualCatalog
