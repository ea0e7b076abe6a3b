import VirtualCatalog.Provider.RowIds
import VirtualCatalog.Provider.ScanChunks

/-!
# The scans of the target of a keyed write

An `UPDATE` or `DELETE` of a provider's table may scan its target several times.  The planner gives
all these scans one key buffer, and the row ids that they emit are indices of it.

* `attachPKBufferToTargetScans` : the walk through the plan; `attach_eq` says what it does.
* `TargetScan` : a scan with the row ids of its chunks; `Complete` : all of them have ended.
* `Complete.output_keys` : what the buffer holds at the row ids of a scan.
* `Complete.ids_perm` : the row ids of all scans are those that the calls have written.
-/

namespace VirtualCatalog

namespace Provider

/-! ### The plan -/

/-- `ProviderScanFunctionData`; the table is known by the address of its entry. -/
structure ProviderScan (T : Type) where
  table : Nat
  streamData : Option (StreamData T)

/-- A physical operator, with its bind data if it is a table scan of a provider's table. -/
inductive PhysicalOperator (T : Type) where
  | mk (bindData : Option (ProviderScan T)) (children : List (PhysicalOperator T))

variable {T : Type}

/-- The scan is one of the target. -/
def ProviderScan.isOf (scan : ProviderScan T) (target : Nat) : Bool :=
  scan.table == target && scan.streamData.isSome

/-- The scan with a key and a buffer. -/
def ProviderScan.attach (scan : ProviderScan T) (pkColumns : List String) (buffer : Nat) :
    ProviderScan T :=
  { scan with streamData := scan.streamData.map fun data =>
      { data with includePkColumns := pkColumns, pkBuffer := some buffer } }

mutual

/-- `AttachPKBufferToTargetScans`; a new buffer is allocated at `fresh`. -/
def attachPKBufferToTargetScans (pkColumns : List String) (target fresh : Nat)
    (buffer : Option Nat) : PhysicalOperator T → Option Nat × PhysicalOperator T
  | .mk bindData children =>
    match bindData.filter (·.isOf target) with
    | none =>
      ((attachChildren pkColumns target fresh buffer children).1,
        .mk bindData (attachChildren pkColumns target fresh buffer children).2)
    | some scan =>
      let buffer := buffer.getD fresh
      ((attachChildren pkColumns target fresh (some buffer) children).1,
        .mk (some (scan.attach pkColumns buffer))
          (attachChildren pkColumns target fresh (some buffer) children).2)

/-- The loop over the children. -/
def attachChildren (pkColumns : List String) (target fresh : Nat) (buffer : Option Nat) :
    List (PhysicalOperator T) → Option Nat × List (PhysicalOperator T)
  | [] => (buffer, [])
  | child :: children =>
    let (buffer, child) := attachPKBufferToTargetScans pkColumns target fresh buffer child
    let (buffer, children) := attachChildren pkColumns target fresh buffer children
    (buffer, child :: children)

end

mutual

/-- The scans of provider tables of a plan, the outermost first. -/
def PhysicalOperator.scans : PhysicalOperator T → List (ProviderScan T)
  | .mk bindData children => bindData.toList ++ scansOf children

/-- The scans of several plans. -/
def scansOf : List (PhysicalOperator T) → List (ProviderScan T)
  | [] => []
  | child :: children => child.scans ++ scansOf children

end

mutual

/-- A plan without what its scans are. -/
def PhysicalOperator.shape : PhysicalOperator T → PhysicalOperator Unit
  | .mk _ children => .mk none (shapes children)

/-- The shapes of several plans. -/
def shapes : List (PhysicalOperator T) → List (PhysicalOperator Unit)
  | [] => []
  | child :: children => child.shape :: shapes children

end

/-- What becomes of a scan. -/
def attached (pkColumns : List String) (target buffer : Nat) (scan : ProviderScan T) :
    ProviderScan T :=
  if scan.isOf target then scan.attach pkColumns buffer else scan

/-- The buffer after some scans. -/
def bufferAfter (target fresh : Nat) (buffer : Option Nat) (scans : List (ProviderScan T)) :
    Option Nat :=
  if scans.any (·.isOf target) then some (buffer.getD fresh) else buffer

theorem bufferAfter_append (target fresh : Nat) (buffer : Option Nat)
    (scans scans' : List (ProviderScan T)) :
    bufferAfter target fresh buffer (scans ++ scans') =
      bufferAfter target fresh (bufferAfter target fresh buffer scans) scans' := by
  unfold bufferAfter
  rw [List.any_append]
  by_cases h : scans.any (·.isOf target)
  · by_cases h' : scans'.any (·.isOf target) <;> simp [h, h']
  · simp [h]

theorem getD_bufferAfter (target fresh : Nat) (buffer : Option Nat)
    (scans : List (ProviderScan T)) :
    (bufferAfter target fresh buffer scans).getD fresh = buffer.getD fresh := by
  unfold bufferAfter
  split_ifs <;> rfl

mutual

/-- **All scans of the target get one buffer, and only they**: however they lie in the plan. -/
theorem attach_eq (pkColumns : List String) (target fresh : Nat) (buffer : Option Nat)
    (op : PhysicalOperator T) :
    (attachPKBufferToTargetScans pkColumns target fresh buffer op).1 =
        bufferAfter target fresh buffer op.scans ∧
      (attachPKBufferToTargetScans pkColumns target fresh buffer op).2.scans =
        op.scans.map (attached pkColumns target (buffer.getD fresh)) ∧
      (attachPKBufferToTargetScans pkColumns target fresh buffer op).2.shape = op.shape := by
  match op with
  | .mk bindData children =>
    rw [attachPKBufferToTargetScans]
    cases hscan : bindData.filter (·.isOf target) with
    | none =>
      -- an operator that is no scan of the target keeps its data
      have hnot : ∀ scan ∈ bindData.toList, scan.isOf target = false := by
        intro scan hmem
        rw [Option.mem_toList] at hmem
        rw [Option.mem_def.1 hmem, Option.filter_some] at hscan
        cases hof : scan.isOf target with
        | false => rfl
        | true => simp [hof] at hscan
      have hbuffer : bufferAfter target fresh buffer bindData.toList = buffer :=
        if_neg (by simpa using hnot)
      have hkept : bindData.toList.map (attached pkColumns target (buffer.getD fresh)) =
          bindData.toList := by
        refine (List.map_congr_left (g := id) fun scan hmem => ?_).trans (List.map_id _)
        exact if_neg (by rw [hnot scan hmem]; decide)
      obtain ⟨hb, hs, hshape⟩ := attachChildren_eq pkColumns target fresh buffer children
      refine ⟨?_, ?_, ?_⟩
      · rw [PhysicalOperator.scans, bufferAfter_append, hbuffer]
        exact hb
      · show bindData.toList ++
          scansOf (attachChildren pkColumns target fresh buffer children).2 = _
        rw [hs, PhysicalOperator.scans, List.map_append, hkept]
      · show PhysicalOperator.mk none (shapes _) = .mk none (shapes _)
        rw [hshape]
    | some scan =>
      -- the first scan makes the buffer, the others share it
      obtain ⟨rfl, hof⟩ := Option.filter_eq_some_iff.1 hscan
      obtain ⟨hb, hs, hshape⟩ :=
        attachChildren_eq pkColumns target fresh (some (buffer.getD fresh)) children
      have hbuffer : bufferAfter target fresh buffer [scan] = some (buffer.getD fresh) :=
        if_pos (by simpa using hof)
      refine ⟨?_, ?_, ?_⟩
      · rw [PhysicalOperator.scans, bufferAfter_append]
        exact hb.trans (by rw [← hbuffer]; rfl)
      · show scan.attach pkColumns (buffer.getD fresh) :: scansOf (attachChildren pkColumns target
          fresh (some (buffer.getD fresh)) children).2 = _
        rw [hs, PhysicalOperator.scans, List.map_append]
        show _ = attached pkColumns target (buffer.getD fresh) scan :: _
        rw [attached, if_pos hof]
        rfl
      · show PhysicalOperator.mk none (shapes _) = .mk none (shapes _)
        rw [hshape]

theorem attachChildren_eq (pkColumns : List String) (target fresh : Nat) (buffer : Option Nat)
    (children : List (PhysicalOperator T)) :
    (attachChildren pkColumns target fresh buffer children).1 =
        bufferAfter target fresh buffer (scansOf children) ∧
      scansOf (attachChildren pkColumns target fresh buffer children).2 =
        (scansOf children).map (attached pkColumns target (buffer.getD fresh)) ∧
      shapes (attachChildren pkColumns target fresh buffer children).2 = shapes children := by
  match children with
  | [] => exact ⟨rfl, rfl, rfl⟩
  | child :: children =>
    obtain ⟨hbuffer, hscans, hshape⟩ := attach_eq pkColumns target fresh buffer child
    obtain ⟨hbuffer', hscans', hshape'⟩ := attachChildren_eq pkColumns target fresh
      (attachPKBufferToTargetScans pkColumns target fresh buffer child).1 children
    rw [hbuffer, getD_bufferAfter] at hscans'
    rw [attachChildren]
    refine ⟨?_, ?_, ?_⟩
    · rw [scansOf, bufferAfter_append, ← hbuffer, ← hbuffer']
    · rw [scansOf, scansOf, List.map_append, hscans, ← hscans', hbuffer]
    · rw [shapes, shapes, hshape, hshape']

end

/-- The buffer that `PlanUpdate` and `PlanDelete` give their operator, and the plan below it. -/
def planKeyed (pkColumns : List String) (target fresh : Nat) (plan : PhysicalOperator T) :
    Nat × PhysicalOperator T :=
  ((attachPKBufferToTargetScans pkColumns target fresh none plan).1.getD fresh,
    (attachPKBufferToTargetScans pkColumns target fresh none plan).2)

theorem ProviderScan.isOf_attach (scan : ProviderScan T) (pkColumns : List String)
    (buffer target : Nat) : (scan.attach pkColumns buffer).isOf target = scan.isOf target := by
  rw [isOf, isOf, attach, Option.isSome_map]

/-- **The operator reads the buffer that the scans of its target write, and no other scan writes
it**: in any plan. -/
theorem planKeyed_buffer {pkColumns : List String} {target fresh : Nat} {plan : PhysicalOperator T}
    (hfresh : ∀ scan ∈ plan.scans, ∀ data ∈ scan.streamData, data.pkBuffer ≠ some fresh) :
    (planKeyed pkColumns target fresh plan).2.shape = plan.shape ∧
      (planKeyed pkColumns target fresh plan).2.scans =
        plan.scans.map (attached pkColumns target (planKeyed pkColumns target fresh plan).1) ∧
      ∀ scan ∈ (planKeyed pkColumns target fresh plan).2.scans,
        (∃ data ∈ scan.streamData, data.pkBuffer = some (planKeyed pkColumns target fresh plan).1) ↔
          scan.isOf target = true := by
  obtain ⟨hbuffer, hscans, hshape⟩ := attach_eq pkColumns target fresh none plan
  have hfirst : (planKeyed pkColumns target fresh plan).1 = fresh := by
    rw [planKeyed, hbuffer, getD_bufferAfter]
    rfl
  have hall : (planKeyed pkColumns target fresh plan).2.scans =
      plan.scans.map (attached pkColumns target fresh) := hscans
  refine ⟨hshape, by rw [hfirst, hall], fun scan hscan => ?_⟩
  rw [hall] at hscan
  obtain ⟨before, hbefore, rfl⟩ := List.mem_map.1 hscan
  rw [hfirst]
  unfold attached
  split_ifs with hof
  · rw [ProviderScan.isOf_attach]
    refine ⟨fun _ => hof, fun _ => ?_⟩
    obtain ⟨data, hdata⟩ := Option.isSome_iff_exists.1 (Bool.and_eq_true_iff.1 hof).2
    exact ⟨_, Option.mem_map_of_mem _ hdata, rfl⟩
  · refine ⟨?_, fun h => absurd h hof⟩
    rintro ⟨data, hdata, hbuf⟩
    exact absurd hbuf (hfresh before hbefore data hdata)

namespace Sample

/-- A scan of the table at an address. -/
def scanOf (table : Nat) : ProviderScan Unit :=
  ⟨table, some { providerTableName := "", columnNames := [] }⟩

/-- A join of two scans of one table and one of another. -/
def selfJoin : PhysicalOperator Unit :=
  .mk none [.mk (some (scanOf 1)) [], .mk none [.mk (some (scanOf 2)) [], .mk (some (scanOf 1)) []]]

theorem selfJoin_fresh : ∀ scan ∈ selfJoin.scans, ∀ data ∈ scan.streamData,
    data.pkBuffer ≠ some 7 := by
  intro scan hscan data hdata
  have hall : scan = scanOf 1 ∨ scan = scanOf 2 ∨ scan = scanOf 1 := by
    simpa [selfJoin, PhysicalOperator.scans, scansOf] using hscan
  rcases hall with rfl | rfl | rfl <;> cases hdata <;> nofun

end Sample

theorem planKeyed_buffer_selfJoin :
    (planKeyed ["id"] 1 7 Sample.selfJoin).2.shape = Sample.selfJoin.shape ∧
      (planKeyed ["id"] 1 7 Sample.selfJoin).2.scans =
        Sample.selfJoin.scans.map (attached ["id"] 1 (planKeyed ["id"] 1 7 Sample.selfJoin).1) ∧
      ∀ scan ∈ (planKeyed ["id"] 1 7 Sample.selfJoin).2.scans,
        (∃ data ∈ scan.streamData,
            data.pkBuffer = some (planKeyed ["id"] 1 7 Sample.selfJoin).1) ↔
          scan.isOf 1 = true :=
  planKeyed_buffer Sample.selfJoin_fresh

/-! ### The scans -/

section

variable {C U V A B E : Type} (D : ScanOps T C U A B)

/-- Where the keys are in the batches of a scan. -/
def ScanState.keys (state : ScanState T A) : ScanKeys T :=
  ⟨state.pkStartIndex.getD 0, state.pkCount, state.pkTypes, state.pkFormats⟩

/-- A scan of the target, with the row ids that the call of each chunk has written. -/
structure TargetScan (T A : Type) where
  request : ScanIds
  projectionIds : List Nat
  state : ScanState T A
  handout : Handout (ScanBatch A)
  rowIds : List (List Nat)

namespace TargetScan

variable (sc : TargetScan T A)

/-- The chunks with their row ids. -/
def chunks : List (Slice (ScanBatch A) × List Nat) := (sc.handout.given.map (·.2)).zip sc.rowIds

/-- The calls of the chunks. -/
def calls : List (ScanCall T A) :=
  sc.chunks.map fun ch =>
    ⟨sc.state.keys, ch.1.piece.toRecordBatch, ch.1.offset, ch.1.count, ch.2⟩

/-- The rows that were emitted, each with its row id. -/
def output : List (Except ProviderError (List (Option U)) × Nat) :=
  sc.chunks.flatMap fun ch => (ch.1.rows.zip ch.2).map fun p =>
    (sc.state.emitRow D sc.request sc.projectionIds p.1.1 p.1.2, p.2)

end TargetScan

/-- All scans of the target are through, and each of their chunks made one call, which returned. -/
structure Complete (scans : List (TargetScan T A)) (keys : Scans V T A) : Prop where
  finished : ∀ sc ∈ scans, ∃ threads, (handing ScanBatch.length standardVectorSize).ReachableBy
    Machine.Free (Handout.start threads sc.state.stream.batches) sc.handout ∧ sc.handout.Finished
  chunks : ∀ sc ∈ scans, sc.rowIds.length = sc.handout.given.length
  calls : (scans.flatMap TargetScan.calls).Perm keys.finished

variable {D} {K : ValueOps V T A E} {scans : List (TargetScan T A)} {keys : Scans V T A}
  {sc : TargetScan T A}

theorem Slice.length_rows {P : Type} (slice : Slice P) : slice.rows.length = slice.count := by
  rw [Slice.rows, List.length_map, List.length_range']

theorem Slice.getElem?_rows {P : Type} {slice : Slice P} {i : Nat} (h : i < slice.count) :
    slice.rows[i]? = some (slice.piece, slice.offset + i) := by
  rw [Slice.rows, List.getElem?_map, List.getElem?_range' h]
  simp

/-- The call of a chunk returned, with a row id for each row. -/
theorem Complete.call (hcomplete : Complete scans keys) (hkeys : keys.Ok K) (hsc : sc ∈ scans)
    {ch : Slice (ScanBatch A) × List Nat} (hch : ch ∈ sc.chunks) :
    ch.2.length = ch.1.count ∧ (⟨sc.state.keys, ch.1.piece.toRecordBatch, ch.1.offset, ch.1.count,
      ch.2⟩ : ScanCall T A).Emits keys.emitted := by
  refine hkeys.finished ⟨sc.state.keys, ch.1.piece.toRecordBatch, ch.1.offset, ch.1.count, ch.2⟩
    (hcomplete.calls.subset ?_)
  exact List.mem_flatMap.2 ⟨sc, hsc, List.mem_map_of_mem hch⟩

/-- What the buffer holds at the row ids of a chunk. -/
theorem Complete.chunk_keys (hcomplete : Complete scans keys) (hkeys : keys.Ok K) (hsc : sc ∈ scans)
    {ch : Slice (ScanBatch A) × List Nat} (hch : ch ∈ sc.chunks) {β : Type}
    (f : ScanBatch A × Nat → β) :
    (ch.1.rows.zip ch.2).map (fun p => (f p.1, keys.buffer.rows[p.2]?)) =
      ch.1.rows.map fun p => (f p, (sc.state.keys.read K p.1.toRecordBatch p.2).toOption) := by
  obtain ⟨hlength, hemits⟩ := hcomplete.call hkeys hsc hch
  refine List.ext_getElem ?_ fun i hi hi' => ?_
  · rw [List.length_map, List.length_map, List.length_zip, Slice.length_rows, hlength,
      Nat.min_self]
  · have hcount : i < ch.1.count := by
      rwa [List.length_map, Slice.length_rows] at hi'
    have hid : i < ch.2.length := by omega
    have hlt : i < ch.1.rows.length := by rwa [Slice.length_rows]
    have hrow : ch.1.rows[i] = (ch.1.piece, ch.1.offset + i) := by
      have := Slice.getElem?_rows hcount
      rwa [List.getElem?_eq_getElem (by rwa [Slice.length_rows]), Option.some_inj] at this
    obtain ⟨key, hkey, hread⟩ :=
      hkeys.key_of_mem (hemits i ch.2[i] (List.getElem?_eq_getElem hid))
    replace hread : sc.state.keys.read K ch.1.piece.toRecordBatch (ch.1.offset + i) = .ok key :=
      hread
    rw [List.getElem_map, List.getElem_map, List.getElem_zip, hrow, hread, hkey]
    rfl

/-- The rows of the chunks, with what the buffer holds at their row ids. -/
theorem Complete.output_keys (hcomplete : Complete scans keys) (hkeys : keys.Ok K)
    (hsc : sc ∈ scans) : (sc.output D).map (fun o => (o.1, keys.buffer.rows[o.2]?)) =
      sc.handout.givenRows.map fun p => (sc.state.emitRow D sc.request sc.projectionIds p.1 p.2,
        (sc.state.keys.read K p.1.toRecordBatch p.2).toOption) := by
  have hfirst : sc.chunks.map (·.1) = sc.handout.given.map (·.2) := by
    refine List.map_fst_zip ?_
    rw [List.length_map, hcomplete.chunks sc hsc]
  have hgiven : sc.handout.givenRows = sc.chunks.flatMap fun ch => ch.1.rows :=
    calc sc.handout.givenRows = (sc.handout.given.map (·.2)).flatMap Slice.rows :=
          (List.flatMap_map _ _ _).symm
      _ = (sc.chunks.map (·.1)).flatMap Slice.rows := by rw [hfirst]
      _ = sc.chunks.flatMap fun ch => ch.1.rows := List.flatMap_map _ _ _
  rw [hgiven, TargetScan.output, List.map_flatMap, List.map_flatMap]
  refine List.flatMap_congr fun ch hch => ?_
  rw [List.map_map]
  exact hcomplete.chunk_keys hkeys hsc hch fun p =>
    sc.state.emitRow D sc.request sc.projectionIds p.1 p.2

/-- The row ids of all scans are those that the calls have written. -/
theorem Complete.ids_perm (hcomplete : Complete scans keys) (hkeys : keys.Ok K) :
    (scans.flatMap fun sc => (sc.output D).map (·.2)).Perm keys.finishedIds := by
  have hids : (scans.flatMap fun sc => (sc.output D).map (·.2)) =
      (scans.flatMap TargetScan.calls).flatMap ScanCall.rowIds := by
    rw [List.flatMap_assoc]
    refine List.flatMap_congr fun sc hsc => ?_
    rw [TargetScan.output, TargetScan.calls, List.map_flatMap, List.flatMap_map]
    refine List.flatMap_congr fun ch hch => ?_
    rw [List.map_map]
    refine List.map_snd_zip ?_
    rw [Slice.length_rows, (hcomplete.call hkeys hsc hch).1]
  rw [hids]
  exact hcomplete.calls.flatMap_right _

end

end Provider

end VirtualCatalog
