import VirtualCatalog.Machine.Handout
import VirtualCatalog.Provider.KeyedWrite
import VirtualCatalog.Provider.ScanPayload

/-!
# The chunks of a scan

Threads take the record batches of a scan from a queue and convert them in chunks of at most
`standardVectorSize` rows, column by column, by position.

* `ScanState.emitRow` : a row of a chunk.
* `requestedRow` : a row of the table that the provider returned, as it was asked for.
* `scan_emits` : the chunks of a scan are the rows of that table.
-/

namespace VirtualCatalog

namespace Provider

section

variable {T C V A B : Type} (D : ScanOps T C V A B)

/-! ### Rows -/

/-- The columns that are left when DuckDB can remove the filter columns; all of them if
`projection_ids` is empty. -/
def referenceColumns (projectionIds : List Nat) (cells : List (Option V)) :
    Except ProviderError (List (Option V)) :=
  if projectionIds = [] then .ok cells else projectionIds.mapM (vectorAt cells)

/-- The value of a column of a row with these cells; `ArrowToDuckDB` leaves the row id out. -/
def ScanState.emitCell (state : ScanState T A) (cells : List C) :
    ColumnId × Nat → Except ProviderError (Option V)
  | (.rowId, _) => .ok none
  | (.column col, idx) =>
    match state.columns.lookup col with
    | none => .error (.internal "unordered_map::at")
    | some node => do
      let cell ← vectorAt cells idx
      some <$> D.convert node cell

/-- A row of a batch, as `EmitProviderScanChunk` emits it. -/
def ScanState.emitRow (state : ScanState T A) (request : ScanIds) (projectionIds : List Nat)
    (batch : ScanBatch A) (row : Nat) : Except ProviderError (List (Option V)) := do
  referenceColumns projectionIds
    (← request.ids.zipIdx.mapM (state.emitCell D (batch.cells D row)))

/-- The rows of all chunks. -/
def ScanState.emitted (state : ScanState T A) (request : ScanIds) (projectionIds : List Nat)
    (s : Handout (ScanBatch A)) : List (Except ProviderError (List (Option V))) :=
  s.givenRows.map fun p => state.emitRow D request projectionIds p.1 p.2

/-- A row of a table whose first columns were asked for. -/
def requestedRow (request : ScanIds) (projectionIds : List Nat) (laid : PaTable C) (r : Nat) :
    Except ProviderError (List (Option V)) := do
  let values ← (laid.columns.take request.columns.length).mapM fun c =>
    some <$> D.convert c.field (c.cell r)
  referenceColumns projectionIds (values ++ if request.wantsRowId then [none] else [])

end

/-! ### Positions -/

theorem lookup_zip {α β : Type} [DecidableEq α] {as : List α} {bs : List β} (h : as.Nodup) {i : Nat}
    {a : α} {b : β} (ha : as[i]? = some a) (hb : bs[i]? = some b) :
    (as.zip bs).lookup a = some b := by
  induction as generalizing bs i with
  | nil => cases ha
  | cons a' as ih =>
    cases bs with
    | nil => cases hb
    | cons b' bs =>
      obtain ⟨hnew, has⟩ := List.nodup_cons.1 h
      rw [List.zip_cons_cons]
      cases i with
      | zero =>
        cases ha
        cases hb
        exact List.lookup_cons_self
      | succ i =>
        have hne : (a == a') = false := by
          rw [beq_eq_false_iff_ne]
          rintro rfl
          exact hnew (List.mem_of_getElem? ha)
        rw [List.lookup_cons, hne]
        exact ih has ha hb

theorem eq_columns_append {ids : List ColumnId} (h : ColumnId.rowId ∉ ids.dropLast) :
    ids = (ids.filterMap ColumnId.index?).map .column ++
      if ids.contains .rowId then [.rowId] else [] := by
  induction ids with
  | nil => rfl
  | cons id ids ih =>
    by_cases hnil : ids = []
    · subst hnil
      cases id <;> rfl
    · rw [List.dropLast_cons_of_ne_nil hnil, List.mem_cons, not_or] at h
      cases id with
      | rowId => exact absurd rfl h.1
      | column index =>
        conv_lhs => rw [ih h.2]
        rfl

theorem ScanIds.ids_eq {request : ScanIds} (hlast : request.RowIdLast) : request.ids =
    request.columns.map .column ++ if request.wantsRowId then [.rowId] else [] :=
  eq_columns_append hlast

theorem ScanIds.columns_nodup (request : ScanIds) : request.columns.Nodup := by
  refine request.nodup.filterMap fun id id' col hcol hcol' => ?_
  cases id <;> cases id' <;> cases hcol <;> cases hcol'
  rfl

section

variable {T C V A B : Type} {D : ScanOps T C V A B} {request : ScanIds} {data : StreamData T}
  {state : ScanState T A} {laid : PaTable C}

/-- A row of the stream is emitted as it was asked for: a column is read at its place in the
request, where only a row id in front of it would be in the way. -/
theorem emitCells_eq (hlast : request.RowIdLast)
    (hcolumns : state.columns = request.columns.zip (laid.columns.map PaColumn.field))
    (hfew : request.columns.length ≤ laid.columns.length) (r : Nat) :
    request.ids.zipIdx.mapM (state.emitCell D (laid.columns.map (·.cell r))) = (do
      let values ← (laid.columns.take request.columns.length).mapM fun c =>
        some <$> D.convert c.field (c.cell r)
      return values ++ if request.wantsRowId then [none] else []) := by
  have hvalues : ((request.columns.map ColumnId.column).zipIdx).mapM
      (state.emitCell D (laid.columns.map (·.cell r))) =
      (laid.columns.take request.columns.length).mapM fun c =>
        some <$> D.convert c.field (c.cell r) := by
    refine mapM_congr_forall₂ (List.forall₂_iff_get.2 ⟨?_, fun i hi hi' => ?_⟩)
    · rw [List.length_zipIdx, List.length_map, List.length_take, Nat.min_eq_left hfew]
    · have hcol : i < request.columns.length := by
        rwa [List.length_zipIdx, List.length_map] at hi
      have hlaid : i < laid.columns.length := by omega
      have hlookup : state.columns.lookup request.columns[i] = some laid.columns[i].field := by
        rw [hcolumns]
        refine lookup_zip request.columns_nodup (List.getElem?_eq_getElem hcol) ?_
        rw [List.getElem?_map, List.getElem?_eq_getElem hlaid]
        rfl
      have hcell : vectorAt (laid.columns.map (·.cell r)) i = .ok (laid.columns[i].cell r) := by
        rw [vectorAt_eq_ok, List.getElem?_map, List.getElem?_eq_getElem hlaid]
        rfl
      simp only [List.get_eq_getElem, List.getElem_zipIdx, List.getElem_map, Nat.zero_add,
        ScanState.emitCell, List.getElem_take, hlookup, hcell]
      rfl
  conv_lhs => rw [ScanIds.ids_eq hlast, List.zipIdx_append, List.mapM_append, hvalues]
  congr 1
  funext values
  split_ifs <;> rfl

/-- Every row of the table is a row of a batch. -/
theorem allRows_cells (stream : ArrowStream A) :
    (stream.batches.flatMap (allRows ScanBatch.length)).map (fun p => p.1.cells D p.2) =
      stream.rows D := by
  rw [ArrowStream.rows, List.map_flatMap]
  refine List.flatMap_congr fun batch _ => ?_
  rw [allRows, List.map_map]
  rfl

/-- What is made of the rows of the batches, one after the other, is made of the rows of the
table. -/
theorem allRows_map (hrows : state.stream.rows D = laid.rows) {β : Type} (f : List C → β)
    {g : Nat → β} (h : ∀ r, f (laid.columns.map (·.cell r)) = g r) :
    (state.stream.batches.flatMap (allRows ScanBatch.length)).map
        (fun p => f (p.1.cells D p.2)) = (List.range laid.rowCount).map g := by
  have hcells : (state.stream.batches.flatMap (allRows ScanBatch.length)).map
      (fun p => p.1.cells D p.2) =
      (List.range laid.rowCount).map fun r => laid.columns.map (·.cell r) := by
    rw [allRows_cells, hrows]
    rfl
  have hmap := congrArg (List.map f) hcells
  rw [List.map_map, List.map_map] at hmap
  exact hmap.trans (List.map_congr_left fun r _ => h r)

/-- A row of the table is emitted as it was asked for. -/
theorem requestedRow_eq (hlast : request.RowIdLast)
    (hcolumns : state.columns = request.columns.zip (laid.columns.map PaColumn.field))
    (hfew : request.columns.length ≤ laid.columns.length) (projectionIds : List Nat) (r : Nat) :
    (request.ids.zipIdx.mapM (state.emitCell D (laid.columns.map (·.cell r))) >>=
      referenceColumns projectionIds) = requestedRow D request projectionIds laid r := by
  rw [emitCells_eq hlast hcolumns hfew, requestedRow, bind_assoc]
  simp only [pure_bind]

/-- At least as many columns were laid out as were asked for. -/
theorem Accepts.few [DecidableEq T] {allTypes : List T} {filters : Except FilterError String}
    {scan : String → ScanMethod C} {names : List String} {table : PaTable C}
    (h : Accepts D request data allTypes filters scan names table laid) :
    request.columns.length ≤ laid.columns.length := by
  rw [h.arity]
  unfold expectedColumns
  split_ifs <;> omega

/-- **A scan emits the rows that the provider returned**: for any provider, any number of threads
that take the batches in any order, and however the rows were cut into batches, an accepted scan
that asks for no row id in front of a column, and that all threads are through with, has emitted
each row of the provider's table once, in chunks of 1 to `standardVectorSize` rows, with the columns
that were asked for in this order; a single thread emits the rows in their order. -/
theorem scan_emits [DecidableEq T] {allTypes : List T} {filters : Except FilterError String}
    {scan : String → ScanMethod C} {after : StreamData T} {projectionIds : List Nat}
    {threads : Nat} {s : Handout (ScanBatch A)} (hlast : request.RowIdLast)
    (hcarries : ∀ names table laid, Answered request data filters scan names table laid →
      D.Carries laid)
    (hinit : initGlobal D request data allTypes filters (pythonScanUdf D scan) = .ok (state, after))
    (hrun : (handing ScanBatch.length standardVectorSize).ReachableBy Machine.Free
      (Handout.start threads state.stream.batches) s) (hfinished : s.Finished) :
    ∃ names table laid, Accepts D request data allTypes filters scan names table laid ∧
      Laid table (outputColumns data.columnNames names data.includePkColumns) laid ∧
      (state.emitted D request projectionIds s).Perm
        ((List.range table.rowCount).map (requestedRow D request projectionIds laid)) ∧
      (∀ g ∈ s.given, 0 < g.2.count ∧ g.2.count ≤ standardVectorSize) ∧
      (threads = 1 → state.emitted D request projectionIds s =
        (List.range table.rowCount).map (requestedRow D request projectionIds laid)) := by
  obtain ⟨names, table, laid, haccepts, hstate⟩ := scanning_of_initGlobal hcarries hinit
  have hlaid := laid_of_layOut haccepts.layout
  have hok := Handout.Ok.reachable (by decide) hrun
  have hall := allRows_map hstate.rows (fun cells =>
    request.ids.zipIdx.mapM (state.emitCell D cells) >>= referenceColumns projectionIds)
    (requestedRow_eq hlast hstate.columns haccepts.few projectionIds)
  rw [hlaid.rowCount] at hall
  refine ⟨names, table, laid, haccepts, hlaid, ?_, fun g hg => ?_, fun hsingle => ?_⟩
  · rw [← hall]
    exact (hok.perm_of_finished hfinished).map _
  · obtain ⟨-, hpos, hle, -⟩ := hok.slices g hg
    exact ⟨hpos, hle⟩
  · rw [← hall]
    exact congrArg _ (hok.eq_of_finished hfinished
      ((Handout.length_workers hrun).trans hsingle))

end

/-! ### A scan by two threads -/

namespace Sample

theorem usersIds_nodup : [ColumnId.column 1, .rowId].Nodup := by decide

/-- The ages, and the row id. -/
def usersRequest : ScanIds := ⟨[.column 1, .rowId], usersIds_nodup⟩

/-- The scan after the planner has given it a key and a buffer. -/
def usersData : StreamData LogicalType where
  providerTableName := "users"
  columnNames := ["id", "age"]
  includePkColumns := ["id"]
  pkBuffer := some 7

/-- The provider. -/
def usersScan : String → ScanMethod Int := fun _ _ => .ok users

/-- The scan has accepted the table. -/
def usersState : ScanState LogicalType ArrowArray where
  stream := ⟨userSchema, [userBatch 0, userBatch 1]⟩
  columns := [(1, integerField "age")]
  pkStartIndex := some 1
  pkCount := 1
  pkBuffer := some 7
  pkTypes := [.integer]
  pkFormats := ["i"]

theorem answered_users :
    Answered usersRequest usersData (.ok "") usersScan ["age"] users laidUsers where
  projected := rfl
  answered := ⟨"", rfl, rfl⟩
  layout := rfl

theorem initGlobal_users : initGlobal userOps usersRequest usersData [.integer, .integer] (.ok "")
    (pythonScanUdf userOps usersScan) = .ok (usersState,
      { usersData with pkTypes := [.integer], pkFormats := ["i"], consumed := true }) := by
  rw [initGlobal, if_neg (by decide)]
  refine bind_eq_ok_iff.2 ⟨["age"], rfl, bind_eq_ok_iff.2 ⟨_, runScanUdf_eq_ok.2
    ⟨rfl, "", users, laidUsers, _, rfl, rfl, rfl, decoded_users, rfl, rfl⟩, ?_⟩⟩
  exact bind_eq_ok_iff.2 ⟨[(1, integerField "age")], rfl, rfl⟩

/-- The second thread hands on the first batch. -/
def usersHanded : Handout (ScanBatch ArrowArray) :=
  ⟨[], [.drained, .drained], [(1, ⟨userBatch 0, 0, 1⟩), (0, ⟨userBatch 1, 0, 1⟩)]⟩

theorem usersHanded_reachable :
    (handing ScanBatch.length standardVectorSize).ReachableBy Machine.Free
      (Handout.start 2 usersState.stream.batches) usersHanded :=
  ⟨[.init 1, .init 0, .emit 1, .emit 0, .emit 0, .emit 1], Machine.run_of_exec rfl⟩

theorem usersHanded_finished : usersHanded.Finished := by
  refine ⟨List.mem_cons_self, fun w hw => .inr ?_⟩
  rcases List.mem_cons.1 hw with rfl | hw
  · rfl
  · exact List.mem_singleton.1 hw

end Sample

theorem scan_emits_users : ∃ names table laid,
    Accepts Sample.userOps Sample.usersRequest Sample.usersData [.integer, .integer] (.ok "")
        Sample.usersScan names table laid ∧
      Laid table (outputColumns Sample.usersData.columnNames names ["id"]) laid ∧
      (Sample.usersState.emitted Sample.userOps Sample.usersRequest [] Sample.usersHanded).Perm
        ((List.range table.rowCount).map
          (requestedRow Sample.userOps Sample.usersRequest [] laid)) ∧
      (∀ g ∈ Sample.usersHanded.given, 0 < g.2.count ∧ g.2.count ≤ standardVectorSize) ∧
      (2 = 1 → Sample.usersState.emitted Sample.userOps Sample.usersRequest [] Sample.usersHanded =
        (List.range table.rowCount).map
          (requestedRow Sample.userOps Sample.usersRequest [] laid)) :=
  scan_emits (by decide)
    (fun _ _ _ h => by
      obtain ⟨-, -, rfl⟩ := Sample.answered_users.unique h
      exact Sample.carries_users)
    Sample.initGlobal_users Sample.usersHanded_reachable Sample.usersHanded_finished

end Provider

end VirtualCatalog
