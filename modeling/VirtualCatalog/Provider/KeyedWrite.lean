import VirtualCatalog.Machine.Chunks
import VirtualCatalog.Names.CaseInsensitive
import VirtualCatalog.Provider.KeyBuffer

/-!
# Keyed writes

`UPDATE` and `DELETE` sink chunks of row ids, of an update with the new values of the rows.  At the
end they look every id up in the key buffer, cut the rows made of keys and new values into chunks
and hand them to the provider's UDF, whose count of affected rows they check.

* `RowChunkBuilder` : rows cut into chunks of `standardVectorSize`, with every value cast to its
  column's type; `RowCast` says what a row becomes.
* `ProviderTableUpdate`, `ProviderTableDelete` : the operators, each with what one chunk sinks
  (`sunkRows`).
* `SentFor` : the row sent for a sunk one.
* `keyed_write` : what a keyed write over any reachable state of the scans sends.
-/

namespace VirtualCatalog

namespace Provider

variable {V T A B : Type} [DecidableEq T] (D : ValueOps V T A B)

/-- `STANDARD_VECTOR_SIZE`. -/
def standardVectorSize : Nat := 2048

/-- `Value::DefaultCastAs`: a value of the type stays as it is. -/
def ValueOps.defaultCastAs (v : V) (t : T) : Except ProviderError V :=
  if D.type v = t then .ok v else D.convert v t

/-! ### Rows in chunks -/

/-- `RowChunkBuilder`: `row` are the values of the current row. -/
structure RowChunkBuilder (V T : Type) extends Chunked (List V) where
  types : List T
  row : List V := []

namespace RowChunkBuilder

/-- `RowChunkBuilder::BeginRow`. -/
def beginRow (b : RowChunkBuilder V T) : RowChunkBuilder V T :=
  { b with toChunked := b.toChunked.begin, row := [] }

/-- `RowChunkBuilder::Append`. -/
def append (b : RowChunkBuilder V T) (value : V) : Except ProviderError (RowChunkBuilder V T) :=
  match b.current with
  | none => .error (.internal "vcatprovider: RowChunkBuilder::Append before BeginRow")
  | some _ =>
    match b.types[b.row.length]? with
    | none => .error (.internal "vcatprovider: more values appended than the row has columns")
    | some t => do
      let w ← D.defaultCastAs value t
      pure { b with row := b.row ++ [w] }

/-- `RowChunkBuilder::EndRow`. -/
def endRow (b : RowChunkBuilder V T) (what : String) :
    Except ProviderError (RowChunkBuilder V T) :=
  if b.row.length ≠ b.types.length then
    .error (.io (what ++ ": row has " ++ toString b.row.length
      ++ " values but the table has " ++ toString b.types.length ++ " columns"))
  else .ok { b with toChunked := b.toChunked.push standardVectorSize b.row }

/-- `RowChunkBuilder::Finish`. -/
def finish (b : RowChunkBuilder V T) : List (List (List V)) := b.toChunked.flush.chunks

end RowChunkBuilder

/-- The row that values become in columns of these types. -/
def RowCast (types : List T) (values sent : List V) : Prop :=
  values.length = types.length ∧
    List.Forall₂ (fun p w => D.defaultCastAs p.1 p.2 = .ok w) (values.zip types) sent

variable {D}

/-- Values that have their column's type are sent as they are. -/
theorem RowCast.eq_of_typed {types : List T} {values sent : List V}
    (h : RowCast D types values sent) (htyped : values.map D.type = types) : sent = values := by
  obtain ⟨-, hcast⟩ := h
  subst htyped
  induction values generalizing sent with
  | nil =>
    cases hcast
    rfl
  | cons v values ih =>
    obtain ⟨⟩ | ⟨hv, hvs⟩ := hcast
    rw [ValueOps.defaultCastAs, if_pos rfl] at hv
    cases hv
    rw [ih hvs]

theorem RowChunkBuilder.append_eq_ok {b b' : RowChunkBuilder V T} {v : V}
    (h : b.append D v = .ok b') :
    ∃ t w, b.types[b.row.length]? = some t ∧ D.defaultCastAs v t = .ok w ∧
      b' = { b with row := b.row ++ [w] } := by
  unfold RowChunkBuilder.append at h
  split at h
  · cases h
  · split at h
    · cases h
    next t ht =>
      obtain ⟨w, hw, h⟩ := bind_eq_ok h
      cases h
      exact ⟨t, w, ht, hw, rfl⟩

/-- Appending values casts each to the type of the column it lands in. -/
theorem RowChunkBuilder.appends_eq_ok {values : List V} {b b' : RowChunkBuilder V T}
    (h : values.foldlM (RowChunkBuilder.append D) b = .ok b') :
    ∃ ws, List.Forall₂ (fun p w => D.defaultCastAs p.1 p.2 = .ok w)
        (values.zip (b.types.drop b.row.length)) ws ∧
      ws.length = values.length ∧ b' = { b with row := b.row ++ ws } := by
  induction values generalizing b with
  | nil =>
    cases h
    exact ⟨[], .nil, rfl, by rw [List.append_nil]⟩
  | cons v values ih =>
    rw [List.foldlM_cons] at h
    obtain ⟨b₁, hv, h⟩ := bind_eq_ok h
    obtain ⟨t, w, ht, hw, rfl⟩ := append_eq_ok hv
    obtain ⟨ws, hws, hlen, rfl⟩ := ih h
    obtain ⟨hlt, rfl⟩ := List.getElem?_eq_some_iff.1 ht
    refine ⟨w :: ws, ?_, ?_, ?_⟩
    · rw [List.drop_eq_getElem_cons hlt, List.zip_cons_cons]
      rw [List.length_append, List.length_singleton] at hws
      exact .cons hw hws
    · rw [List.length_cons, List.length_cons, hlen]
    · rw [List.append_assoc, List.singleton_append]

/-- A row that was begun, filled and ended is the row its values become, after all others. -/
theorem RowChunkBuilder.row_eq_ok {values : List V} {b b₁ b' : RowChunkBuilder V T} {what : String}
    (hfill : values.foldlM (RowChunkBuilder.append D) b.beginRow = .ok b₁)
    (hend : b₁.endRow what = .ok b') :
    ∃ sent, RowCast D b.types values sent ∧ b'.types = b.types ∧
      b'.toChunked = b.toChunked.begin.push standardVectorSize sent := by
  obtain ⟨sent, hcast, hlen, rfl⟩ := appends_eq_ok hfill
  unfold endRow at hend
  split at hend
  · cases hend
  next hne =>
    cases hend
    have hsent : sent.length = b.types.length := not_not.1 hne
    exact ⟨sent, ⟨hlen.symm.trans hsent, hcast⟩, rfl, rfl⟩

/-! ### The call of the UDF -/

/-- A provider's table: its columns and its `ProviderTableInfo`. -/
structure ProviderTable (T : Type) where
  tableName : String
  columns : List (String × T)
  primaryKeys : List String
  provider : ProviderInfo

/-- The key columns that the table has, in the order of the key. -/
def ProviderTable.keyColumns (table : ProviderTable T) : List (String × T) :=
  table.primaryKeys.filterMap fun pk =>
    (table.columns.find? fun col => ciEq col.1 pk).map fun col => (pk, col.2)

/-- A call of a write UDF: the record batches of the Arrow stream with its schema. -/
structure WriteCall (T B : Type) where
  udf : String
  table : String
  types : List T
  names : List String
  batches : List B
  extra : List (List String)

/-- A write UDF.  Preparing its call fails with a text or leads to a function that fails or returns
the first value of its result, if there is one. -/
abbrev WriteUdf (T B : Type) := Except String (WriteCall T B → Except String (Option Int))

/-- `CallWriteUdf` once the call is prepared. -/
def callWriteUdf (run : WriteCall T B → Except String (Option Int)) (call : WriteCall T B)
    (what : String) : Except ProviderError Nat :=
  match run call with
  | .error message => .error (.udf (what ++ " failed: " ++ message))
  | .ok none => .ok 0
  | .ok (some affected) =>
    if affected < 0 then
      .error (.io (what ++ " function \"" ++ call.udf ++ "\" returned a negative row count ("
        ++ toString affected ++ ")"))
    else .ok affected.toNat

/-- `EnsureKeyIsUnique`. -/
def ensureKeyIsUnique (affected keysSent : Nat) (table : String) (pkCols : List String)
    (verb : String) : Except ProviderError Unit :=
  if affected ≤ keysSent then .ok ()
  else .error (.constraint ("virtual_catalog: " ++ verb ++ " on '" ++ table ++ "' matched "
    ++ toString affected ++ " source rows for " ++ toString keysSent
    ++ " key value(s); the declared primary key (" ++ String.intercalate ", " pkCols
    ++ ") is not unique on the source. The write was already sent to the provider."))

/-- How a keyed write ends: what its UDF was called with, if it was, and the affected rows. -/
structure WriteOutcome (T B : Type) where
  sent : Option (WriteCall T B)
  result : Except ProviderError Nat

/-- What the operators differ in when they send their rows. -/
structure KeyedCall (T : Type) where
  op : Op
  what : String
  verb : String
  rowTypes : List T
  names : List String
  extra : List (List String)

variable (D)

/-- One row of `Finalize`: the key that the buffer holds for the id, then the new values. -/
def writeRow (buffer : Option (ProviderPKBuffer V)) (keyColumns : Nat) (what : String)
    (b : RowChunkBuilder V T) (row : V × List V) : Except ProviderError (RowChunkBuilder V T) := do
  let key ← pkBufferRow buffer (D.int64 row.1) keyColumns what
  let b ← (key ++ row.2).foldlM (RowChunkBuilder.append D) b.beginRow
  b.endRow what

/-- `EncodeChunksAsIpc`: the record batches. -/
def encodeChunksAsIpc (types : List T) (chunks : List (List (List V))) :
    Except ProviderError (List B) :=
  (chunks.filter fun chunk => !chunk.isEmpty).mapM (D.encodeChunk types)

/-- `Finalize` up to the call of the UDF. -/
def prepareCall (buffer : Option (ProviderPKBuffer V)) (table : ProviderTable T)
    (k : KeyedCall T) (udf : WriteUdf T B) (rows : List (V × List V)) :
    Except ProviderError (WriteCall T B × (WriteCall T B → Except String (Option Int))) := do
  let b ← rows.foldlM (writeRow D buffer table.primaryKeys.length k.what) ⟨{}, k.rowTypes, []⟩
  let batches ← encodeChunksAsIpc D k.rowTypes b.finish
  let run ← udf.mapError fun message => .udf (k.what ++ " UDF function \""
    ++ table.provider.udf k.op ++ "\" is unusable: " ++ message)
  pure (⟨table.provider.udf k.op, table.tableName, k.rowTypes, k.names, batches, k.extra⟩, run)

/-- `Finalize` of both operators, with the rows that were sunk. -/
def sendKeyed (buffer : Option (ProviderPKBuffer V)) (table : ProviderTable T)
    (k : KeyedCall T) (udf : WriteUdf T B) (rows : List (V × List V)) : WriteOutcome T B :=
  match prepareCall D buffer table k udf rows with
  | .error e => ⟨none, .error e⟩
  | .ok (call, run) => ⟨some call, do
      let affected ← callWriteUdf run call (k.what ++ " UDF")
      ensureKeyIsUnique affected rows.length table.tableName table.primaryKeys k.verb
      pure affected⟩

/-! ### The operators -/

/-- A data chunk: each of its columns has a value for each of its rows. -/
structure DataChunk (V : Type) where
  size : Nat
  data : List (Fin size → V)

/-- `DataChunk::GetValue`. -/
def DataChunk.getValue (chunk : DataChunk V) (col : Nat) (row : Fin chunk.size) :
    Except ProviderError V := do
  let column ← vectorAt chunk.data col
  pure (column row)

/-- A chunk that arrives at an operator, with what the bound default of each physical column
evaluates to on it. -/
structure SinkInput (V : Type) where
  chunk : DataChunk V
  executeDefault : Nat → Except ProviderError (Fin chunk.size → V)

/-- An expression of an update: `VALUE_DEFAULT` or a `BoundReferenceExpression`. -/
inductive UpdateExpression where
  | valueDefault
  | reference (index : Nat)

/-- `ProviderTableUpdate`: an expression for each changed column. -/
structure ProviderTableUpdate (T : Type) where
  table : ProviderTable T
  updateColumns : List (Fin table.columns.length)
  updateExpressions : List UpdateExpression
  parallel : updateExpressions.length = updateColumns.length

namespace ProviderTableUpdate

variable (op : ProviderTableUpdate T)

/-- The new values of a changed column. -/
def newValues (input : SinkInput V) (column : Fin op.table.columns.length) :
    UpdateExpression → Except ProviderError (Fin input.chunk.size → V)
  | .valueDefault => input.executeDefault column
  | .reference index => vectorAt input.chunk.data index

/-- The new values of all of them. -/
def allNewValues (input : SinkInput V) : Except ProviderError (List (Fin input.chunk.size → V)) :=
  (op.updateColumns.zip op.updateExpressions).mapM fun p => op.newValues input p.1 p.2

/-- The chunk that `Sink` keeps: the row ids, which are in the last column, and the new values. -/
def narrow (input : SinkInput V) : Except ProviderError (DataChunk V) := do
  let ids ← vectorAt input.chunk.data (input.chunk.data.length - 1)
  let values ← op.allNewValues input
  pure ⟨input.chunk.size, ids :: values⟩

/-- `ProviderTableUpdate::Sink`. -/
def sink (chunks : List (DataChunk V)) (input : SinkInput V) :
    Except ProviderError (List (DataChunk V)) := do
  let kept ← (op.narrow input).map fun chunk => [chunk]
  pure (chunks ++ kept)

/-- The rows of a kept chunk, as `Finalize` reads them. -/
def rowsOf (chunk : DataChunk V) : Except ProviderError (List (V × List V)) :=
  (List.finRange chunk.size).mapM fun row => do
    let id ← chunk.getValue 0 row
    let new ← (List.range op.updateColumns.length).mapM fun i => chunk.getValue (i + 1) row
    pure (id, new)

/-- The columns that are sent: the key and the changed ones. -/
def sentColumns : List (String × T) :=
  op.table.keyColumns ++ op.updateColumns.map op.table.columns.get

/-- What `Finalize` sends its rows with. -/
def keyedCall : KeyedCall T where
  op := .update
  what := "vcatprovider: update"
  verb := "UPDATE"
  rowTypes := op.sentColumns.map Prod.snd
  names := op.sentColumns.map Prod.fst
  extra := [op.updateColumns.map fun column => (op.table.columns.get column).1]

/-- `ProviderTableUpdate::Finalize`. -/
def finalize (buffer : Option (ProviderPKBuffer V)) (udf : WriteUdf T B)
    (chunks : List (DataChunk V)) : WriteOutcome T B :=
  if chunks.isEmpty then ⟨none, .ok 0⟩
  else
    match chunks.mapM op.rowsOf with
    | .error e => ⟨none, .error e⟩
    | .ok rows => sendKeyed D buffer op.table op.keyedCall udf rows.flatten

/-- What a chunk sinks: the id of each row, and its new values in the order of the changed
columns. -/
def sunkRows (input : SinkInput V) : Except ProviderError (List (V × List V)) := do
  let ids ← vectorAt input.chunk.data (input.chunk.data.length - 1)
  let values ← op.allNewValues input
  pure ((List.finRange input.chunk.size).map fun row => (ids row, values.map fun v => v row))

end ProviderTableUpdate

/-- `ProviderTableDelete`. -/
structure ProviderTableDelete (T : Type) where
  table : ProviderTable T
  rowIdIndex : Nat

namespace ProviderTableDelete

variable (op : ProviderTableDelete T)

/-- `ProviderTableDelete::Sink`. -/
def sink (idValues : List V) (input : SinkInput V) : Except ProviderError (List V) := do
  let ids ← (List.finRange input.chunk.size).mapM (input.chunk.getValue op.rowIdIndex)
  pure (idValues ++ ids)

/-- What `Finalize` sends its rows with. -/
def keyedCall : KeyedCall T where
  op := .delete
  what := "vcatprovider: delete"
  verb := "DELETE"
  rowTypes := op.table.keyColumns.map Prod.snd
  names := op.table.primaryKeys
  extra := []

/-- `ProviderTableDelete::Finalize`. -/
def finalize (buffer : Option (ProviderPKBuffer V)) (udf : WriteUdf T B) (idValues : List V) :
    WriteOutcome T B :=
  if idValues.isEmpty then ⟨none, .ok 0⟩
  else sendKeyed D buffer op.table op.keyedCall udf (idValues.map fun id => (id, []))

/-- What a chunk sinks: the id of each row. -/
def sunkRows (input : SinkInput V) : Except ProviderError (List (V × List V)) := do
  let ids ← (List.finRange input.chunk.size).mapM (input.chunk.getValue op.rowIdIndex)
  pure (ids.map fun id => (id, []))

end ProviderTableDelete

/-- A keyed write. -/
inductive KeyedWrite (T : Type) where
  | update (op : ProviderTableUpdate T)
  | delete (op : ProviderTableDelete T)

namespace KeyedWrite

/-- The types of the columns that are sent. -/
def rowTypes : KeyedWrite T → List T
  | .update op => op.keyedCall.rowTypes
  | .delete op => op.keyedCall.rowTypes

/-- What a chunk sinks. -/
def sunkRows (input : SinkInput V) : KeyedWrite T → Except ProviderError (List (V × List V))
  | .update op => op.sunkRows input
  | .delete op => op.sunkRows input

/-- Sink the chunks one after the other (`ParallelSink` is false), then finalize. -/
def run (buffer : Option (ProviderPKBuffer V)) (udf : WriteUdf T B) (inputs : List (SinkInput V)) :
    KeyedWrite T → WriteOutcome T B
  | .update op =>
    match inputs.foldlM op.sink [] with
    | .error e => ⟨none, .error e⟩
    | .ok chunks => op.finalize D buffer udf chunks
  | .delete op =>
    match inputs.foldlM op.sink [] with
    | .error e => ⟨none, .error e⟩
    | .ok ids => op.finalize D buffer udf ids

end KeyedWrite

/-! ### What is sent -/

variable {D} {s : Scans V T A}

variable (D s) in
/-- The row sent for a sunk one: the key of the row that its id was emitted for, then its new
values, each cast to the type of its column if it has another one. -/
def SentFor (types : List T) (sunk : V × List V) (row : List V) : Prop :=
  ∃ e ∈ s.emitted, (e.id : Int) = D.int64 sunk.1 ∧
    ∃ key, e.key D = .ok key ∧ RowCast D types (key ++ sunk.2) row ∧
      ((key ++ sunk.2).map D.type = types → row = key ++ sunk.2)

/-- One row of `Finalize`. -/
theorem writeRow_eq_ok (hs : s.Ok D) {keyColumns : Nat} {what : String}
    {b b' : RowChunkBuilder V T} {row : V × List V}
    (h : writeRow D (some s.buffer) keyColumns what b row = .ok b') :
    ∃ sent, SentFor D s b.types row sent ∧ b'.types = b.types ∧
      b'.toChunked = b.toChunked.begin.push standardVectorSize sent := by
  obtain ⟨key, hkey, h⟩ := bind_eq_ok h
  obtain ⟨b₁, hfill, hend⟩ := bind_eq_ok h
  obtain ⟨h0, hrow, _⟩ := pkBufferRow_eq_ok.1 hkey
  obtain ⟨e, he, hid, hekey⟩ := hs.exists_emission hrow
  obtain ⟨sent, hcast, htypes, hchunked⟩ := RowChunkBuilder.row_eq_ok hfill hend
  refine ⟨sent, ⟨e, he, ?_, key, hekey, hcast, hcast.eq_of_typed⟩, htypes, hchunked⟩
  rw [hid]
  exact Int.toNat_of_nonneg h0

/-- All rows of `Finalize`, in order, whatever chunks they end in. -/
theorem writeRows_eq_ok (hs : s.Ok D) {keyColumns : Nat} {what : String}
    {rows : List (V × List V)} {b b' : RowChunkBuilder V T}
    (h : rows.foldlM (writeRow D (some s.buffer) keyColumns what) b = .ok b')
    (hb : b.toChunked.Sized standardVectorSize) :
    ∃ sent, List.Forall₂ (SentFor D s b.types) rows sent ∧
      b'.toChunked.toList = b.toChunked.toList ++ sent ∧
      b'.toChunked.Sized standardVectorSize := by
  induction rows generalizing b with
  | nil =>
    cases h
    exact ⟨[], .nil, (List.append_nil _).symm, hb⟩
  | cons row rows ih =>
    rw [List.foldlM_cons] at h
    obtain ⟨b₁, hrow, h⟩ := bind_eq_ok h
    obtain ⟨r, hr, htypes, hchunked⟩ := writeRow_eq_ok hs hrow
    have hb₁ : b₁.toChunked.Sized standardVectorSize := by
      rw [hchunked]
      exact hb.begin.push r
    obtain ⟨sent, hsent, hlist, hsized⟩ := ih h hb₁
    rw [htypes] at hsent
    refine ⟨r :: sent, .cons hr hsent, ?_, hsized⟩
    rw [hlist, hchunked, Chunked.toList_push, Chunked.toList_begin, List.append_assoc,
      List.singleton_append]

/-- A count above the number of rows sent is an error. -/
theorem ensureKeyIsUnique_error {affected keysSent : Nat} {table : String} {pkCols : List String}
    {verb : String} (h : keysSent < affected) :
    ∃ e, ensureKeyIsUnique affected keysSent table pkCols verb = .error e := by
  unfold ensureKeyIsUnique
  rw [if_neg (by omega)]
  exact ⟨_, rfl⟩

omit [DecidableEq T] in
theorem callWriteUdf_of_nonneg {run : WriteCall T B → Except String (Option Int)}
    {call : WriteCall T B} {what : String} {n : Int} (h : run call = .ok (some n)) (h0 : 0 ≤ n) :
    callWriteUdf run call what = .ok n.toNat := by
  unfold callWriteUdf
  rw [h]
  exact if_neg (by omega)

variable (D s) in
/-- The rows that were sunk are sent with `call`. -/
structure Sends (udf : WriteUdf T B) (types : List T) (sunk : List (V × List V))
    (chunks : List (List (List V))) (call : WriteCall T B) (result : Except ProviderError Nat) :
    Prop where
  /-- Every row is sent, once, in the order in which they were sunk. -/
  rows : List.Forall₂ (SentFor D s types) sunk chunks.flatten
  sizes : ∀ chunk ∈ chunks, 1 ≤ chunk.length ∧ chunk.length ≤ standardVectorSize
  columns : call.types = types
  batches : chunks.mapM (D.encodeChunk types) = .ok call.batches
  /-- The statement fails when the UDF reports more rows. -/
  counted : ∀ run n, udf = .ok run → run call = .ok (some n) → (sunk.length : Int) < n →
    ∃ e, result = .error e

/-- Sending the rows. -/
theorem sendKeyed_sends (hs : s.Ok D) {table : ProviderTable T} {k : KeyedCall T}
    {udf : WriteUdf T B} {rows : List (V × List V)} {call : WriteCall T B}
    (h : (sendKeyed D (some s.buffer) table k udf rows).sent = some call) :
    ∃ chunks, Sends D s udf k.rowTypes rows chunks call
      (sendKeyed D (some s.buffer) table k udf rows).result := by
  unfold sendKeyed at h ⊢
  cases hp : prepareCall D (some s.buffer) table k udf rows with
  | error e =>
    rw [hp] at h
    cases h
  | ok p =>
    rw [hp] at h
    cases h
    obtain ⟨b, hb, hp⟩ := bind_eq_ok hp
    obtain ⟨batches, hbatches, hp⟩ := bind_eq_ok hp
    obtain ⟨run, hrun, hp⟩ := bind_eq_ok hp
    cases hp
    obtain ⟨sent, hsent, hlist, hsized⟩ := writeRows_eq_ok hs hb (Chunked.Sized.start (by decide))
    have hsizes := Chunked.chunks_flush hsized.chunks (Nat.le_of_lt hsized.current)
    have hfilter : b.finish.filter (fun chunk => !chunk.isEmpty) = b.finish := by
      refine List.filter_eq_self.2 fun chunk hchunk => ?_
      obtain ⟨hpos, _⟩ := hsizes chunk hchunk
      cases chunk with
      | nil => cases hpos
      | cons a as => rfl
    have hflat : b.finish.flatten = sent := by
      show b.toChunked.flush.chunks.flatten = sent
      rw [Chunked.flatten_chunks_flush, hlist]
      rfl
    unfold encodeChunksAsIpc at hbatches
    rw [hfilter] at hbatches
    refine ⟨b.finish, ?_, hsizes, rfl, hbatches, ?_⟩
    · rw [hflat]
      exact hsent
    · rintro run' n rfl hn hlt
      cases hrun
      obtain ⟨e, he⟩ := @ensureKeyIsUnique_error n.toNat rows.length table.tableName
        table.primaryKeys k.verb (by omega)
      refine ⟨e, ?_⟩
      dsimp only
      rw [callWriteUdf_of_nonneg hn (by omega)]
      show (ensureKeyIsUnique n.toNat rows.length table.tableName table.primaryKeys k.verb >>=
        fun _ => pure n.toNat) = .error e
      rw [he]
      rfl

/-- Without a call of the UDF there is no success. -/
theorem sendKeyed_not_sent {table : ProviderTable T} {k : KeyedCall T} {udf : WriteUdf T B}
    {buffer : Option (ProviderPKBuffer V)} {rows : List (V × List V)}
    (h : (sendKeyed D buffer table k udf rows).sent = none) :
    ∃ e, (sendKeyed D buffer table k udf rows).result = .error e := by
  unfold sendKeyed at h ⊢
  cases hp : prepareCall D buffer table k udf rows with
  | error e => exact ⟨e, rfl⟩
  | ok p =>
    rw [hp] at h
    cases h

omit [DecidableEq T] in
/-- `Finalize` reads from the chunk that was kept what the chunk sank. -/
theorem ProviderTableUpdate.rowsOf_narrow {op : ProviderTableUpdate T} {input : SinkInput V}
    {chunk : DataChunk V} (h : op.narrow input = .ok chunk) :
    ∃ rows, op.sunkRows input = .ok rows ∧ op.rowsOf chunk = .ok rows := by
  obtain ⟨ids, hids, h⟩ := bind_eq_ok h
  obtain ⟨values, hvalues, h⟩ := bind_eq_ok h
  cases h
  refine ⟨(List.finRange input.chunk.size).map fun row => (ids row, values.map fun v => v row),
    ?_, ?_⟩
  · unfold sunkRows
    rw [hids]
    show (op.allNewValues input >>= _) = _
    rw [hvalues]
    rfl
  have hlen : values.length = op.updateColumns.length := by
    have := (mapM_eq_ok.1 hvalues).length_eq
    rw [← this, List.length_zip, op.parallel, Nat.min_self]
  refine mapM_eq_ok_map fun row _ => ?_
  have hnew : ((List.range op.updateColumns.length).mapM fun i =>
      DataChunk.getValue ⟨input.chunk.size, ids :: values⟩ (i + 1) row)
      = .ok (values.map fun v => v row) := by
    rw [mapM_eq_ok, List.forall₂_iff_get]
    refine ⟨by rw [List.length_range, List.length_map, hlen], fun i hi hi' => ?_⟩
    have hi'' : i < values.length := by rwa [List.length_map] at hi'
    have hat : vectorAt (ids :: values) (i + 1) = .ok values[i] := by
      rw [vectorAt_eq_ok, List.getElem?_cons_succ, List.getElem?_eq_getElem hi'']
    rw [List.get_eq_getElem, List.getElem_range, List.get_eq_getElem, List.getElem_map]
    show (vectorAt (ids :: values) (i + 1) >>= _) = _
    rw [hat]
    rfl
  show (_ >>= fun new => (pure (ids row, new) : Except ProviderError (V × List V))) = _
  rw [hnew]
  rfl

omit [DecidableEq T] in
/-- The chunks that an update kept hold what was sunk. -/
theorem ProviderTableUpdate.sunk_of_kept {op : ProviderTableUpdate T} {inputs : List (SinkInput V)}
    {kept : List (List (DataChunk V))}
    (h : List.Forall₂ (fun input chunks => (op.narrow input).map (fun chunk => [chunk])
      = .ok chunks) inputs kept) :
    ∃ sunk, inputs.mapM op.sunkRows = .ok sunk ∧ kept.flatten.mapM op.rowsOf = .ok sunk := by
  simp only [mapM_eq_ok]
  induction h with
  | nil => exact ⟨[], .nil, .nil⟩
  | @cons input chunks _ _ hinput _ ih =>
    obtain ⟨sunk, hsunk, hrows⟩ := ih
    cases hn : op.narrow input with
    | error e =>
      rw [hn] at hinput
      cases hinput
    | ok chunk =>
      rw [hn] at hinput
      cases hinput
      obtain ⟨rows, hsank, hread⟩ := rowsOf_narrow hn
      exact ⟨rows :: sunk, .cons hsank hsunk, .cons hread hrows⟩

omit [DecidableEq T] in
/-- What a delete kept is what was sunk. -/
theorem ProviderTableDelete.sunk_of_kept {op : ProviderTableDelete T} {inputs : List (SinkInput V)}
    {kept : List (List V)}
    (h : inputs.mapM (fun input => (List.finRange input.chunk.size).mapM
      (input.chunk.getValue op.rowIdIndex)) = .ok kept) :
    inputs.mapM op.sunkRows = .ok (kept.map (List.map fun id => (id, []))) := by
  rw [mapM_eq_ok] at h ⊢
  rw [List.forall₂_map_right_iff]
  refine h.imp fun input ids hids => ?_
  unfold sunkRows
  rw [hids]
  rfl

namespace KeyedWrite

variable {w : KeyedWrite T} {udf : WriteUdf T B} {inputs : List (SinkInput V)}
  {buffer : Option (ProviderPKBuffer V)}

/-- A keyed write fails while it sinks, has no row, or sends the rows it sank. -/
theorem run_cases (w : KeyedWrite T) (udf : WriteUdf T B) (inputs : List (SinkInput V))
    (buffer : Option (ProviderPKBuffer V)) :
    (∃ e, w.run D buffer udf inputs = ⟨none, .error e⟩) ∨
    ∃ sunk, inputs.mapM (fun input => w.sunkRows input) = .ok sunk ∧
      (sunk.flatten = [] ∧ w.run D buffer udf inputs = ⟨none, .ok 0⟩ ∨
        ∃ table k, k.rowTypes = w.rowTypes ∧
          w.run D buffer udf inputs = sendKeyed D buffer table k udf sunk.flatten) := by
  cases w with
  | update op =>
    unfold run
    dsimp only
    cases hsink : inputs.foldlM op.sink [] with
    | error e => exact Or.inl ⟨e, rfl⟩
    | ok chunks =>
      obtain ⟨kept, hkept, rfl⟩ := foldlM_collect hsink
      obtain ⟨sunk, hsunk, hrows⟩ := ProviderTableUpdate.sunk_of_kept (mapM_eq_ok.1 hkept)
      refine Or.inr ⟨sunk, hsunk, ?_⟩
      dsimp only
      unfold ProviderTableUpdate.finalize
      rw [List.nil_append]
      split
      next hnil =>
        -- no chunk was kept, so none came
        rw [List.isEmpty_iff.1 hnil] at hrows
        cases hrows
        exact Or.inl ⟨rfl, rfl⟩
      next =>
        rw [hrows]
        exact Or.inr ⟨op.table, op.keyedCall, rfl, rfl⟩
  | delete op =>
    unfold run
    dsimp only
    cases hsink : inputs.foldlM op.sink [] with
    | error e => exact Or.inl ⟨e, rfl⟩
    | ok ids =>
      obtain ⟨kept, hkept, rfl⟩ := foldlM_collect hsink
      refine Or.inr ⟨_, ProviderTableDelete.sunk_of_kept hkept, ?_⟩
      rw [← List.map_flatten]
      dsimp only
      unfold ProviderTableDelete.finalize
      rw [List.nil_append]
      split
      next hnil =>
        rw [List.isEmpty_iff.1 hnil]
        exact Or.inl ⟨rfl, rfl⟩
      next => exact Or.inr ⟨op.table, op.keyedCall, rfl, rfl⟩

/-- What a call of the UDF is made of. -/
theorem run_sent (hs : s.Ok D) {call : WriteCall T B}
    (h : (w.run D (some s.buffer) udf inputs).sent = some call) :
    ∃ sunk chunks, inputs.mapM (fun input => w.sunkRows input) = .ok sunk ∧
      Sends D s udf w.rowTypes sunk.flatten chunks call
        (w.run D (some s.buffer) udf inputs).result := by
  obtain ⟨e, he⟩ | ⟨sunk, hsunk, ⟨_, he⟩ | ⟨table, k, hk, he⟩⟩ :=
    run_cases w udf inputs (D := D) (some s.buffer)
  · rw [he] at h
    cases h
  · rw [he] at h
    cases h
  · rw [he] at h ⊢
    rw [← hk]
    obtain ⟨chunks, hsends⟩ := sendKeyed_sends hs h
    exact ⟨sunk, chunks, hsunk, hsends⟩

/-- Only a write without rows succeeds without a call of the UDF. -/
theorem run_not_sent (h : (w.run D buffer udf inputs).sent = none) {n : Nat}
    (hok : (w.run D buffer udf inputs).result = .ok n) :
    ∃ sunk, inputs.mapM (fun input => w.sunkRows input) = .ok sunk ∧ sunk.flatten = [] ∧
      n = 0 := by
  obtain ⟨e, he⟩ | ⟨sunk, hsunk, ⟨hnil, he⟩ | ⟨table, k, _, he⟩⟩ :=
    run_cases w udf inputs (D := D) buffer
  · rw [he] at hok
    cases hok
  · rw [he] at hok
    cases hok
    exact ⟨sunk, hsunk, hnil, rfl⟩
  · rw [he] at h hok
    obtain ⟨e, he⟩ := sendKeyed_not_sent h
    rw [he] at hok
    cases hok

end KeyedWrite

/-- **The rows sent are the keys of the rows that the sunk ids were emitted for, in their columns'
types, with their own new values**: in order, in chunks of 1 to `standardVectorSize` rows, and the
statement fails when the UDF reports more rows. -/
theorem keyed_write (h : (scanning D).ReachableBy Machine.Free {} s) (w : KeyedWrite T)
    (udf : WriteUdf T B) (inputs : List (SinkInput V)) :
    (s.emitted.map Emission.id).Nodup ∧
    (∀ c ∈ s.finished, c.rowIds.length = c.count ∧ c.Emits s.emitted) ∧
    (∀ call, (w.run D (some s.buffer) udf inputs).sent = some call →
      ∃ sunk chunks, inputs.mapM (fun input => w.sunkRows input) = .ok sunk ∧
        Sends D s udf w.rowTypes sunk.flatten chunks call
          (w.run D (some s.buffer) udf inputs).result) ∧
    (∀ n, (w.run D (some s.buffer) udf inputs).sent = none →
      (w.run D (some s.buffer) udf inputs).result = .ok n →
      ∃ sunk, inputs.mapM (fun input => w.sunkRows input) = .ok sunk ∧ sunk.flatten = [] ∧
        n = 0) := by
  have hs := Scans.Ok.reachable h
  exact ⟨hs.ids_nodup, hs.finished, fun call hcall => KeyedWrite.run_sent hs hcall,
    fun n hsent hok => KeyedWrite.run_not_sent hsent hok⟩

namespace Sample

/-- Some values of DuckDB; times are in days and in microseconds since the epoch. -/
inductive KeyValue where
  | bigint (n : Int)
  | date (days : Int)
  | timestamp (micros : Int)
deriving DecidableEq

/-- Their types. -/
inductive KeyType where
  | bigint
  | date
  | timestamp
deriving DecidableEq

/-- `Value::type` of the samples. -/
def KeyValue.type : KeyValue → KeyType
  | .bigint _ => .bigint
  | .date _ => .date
  | .timestamp _ => .timestamp

/-- The casts of the samples: a timestamp becomes the day it is on. -/
def KeyValue.convert : KeyValue → KeyType → Except ProviderError KeyValue
  | .timestamp micros, .date => .ok (.date (micros / 86400000000))
  | .date days, .timestamp => .ok (.timestamp (days * 86400000000))
  | _, _ => .error (.invalidInput "Unimplemented type for cast")

/-- The Arrow formats of the samples. -/
def KeyType.format : KeyType → String
  | .bigint => "l"
  | .date => "tdD"
  | .timestamp => "tsu:"

/-- An array is the list of its values, and a record batch is the list of its rows. -/
def keyOps : ValueOps KeyValue KeyType (List KeyValue) (List (List KeyValue)) where
  type := KeyValue.type
  convert := KeyValue.convert
  int64
    | .bigint n => n
    | .date days => days
    | .timestamp micros => micros
  readArrowValue array pos type format :=
    if format = type.format then vectorAt array pos
    else .error (.io ("vcatprovider: primary key column has Arrow layout '" ++ format ++ "'"))
  encodeChunk _ rows := .ok rows

/-- A table with the key `id`, which is at the end of its batches. -/
def numbered : ProviderTable KeyType :=
  ⟨"numbered", [("id", .bigint), ("n", .bigint)], ["id"], ⟨fun _ => "udf"⟩⟩

/-- Two threads scan `numbered`. -/
def numbers : List (Scans.Label KeyType (List KeyValue)) :=
  [.begin 0 ⟨0, 1, [.bigint], ["l"]⟩ ⟨[[.bigint 10, .bigint 11]]⟩ 0 2, .row 0,
    .begin 1 ⟨0, 1, [.bigint], ["l"]⟩ ⟨[[.bigint 20]]⟩ 0 1, .row 1, .finish 1, .row 0, .finish 0]

/-- The scans of `numbered` at their end. -/
def numberedScans : Scans KeyValue KeyType (List KeyValue) :=
  ((scanning keyOps).exec {} numbers).getD {}

/-- `UPDATE numbered SET n = …`. -/
def updating : KeyedWrite KeyType :=
  .update ⟨numbered, [⟨1, by decide⟩], [.reference 0], rfl⟩

/-- The rows with the ids 2 and 1, and their new values. -/
def updatedRows : SinkInput KeyValue :=
  ⟨⟨2, [fun row => .bigint row, fun row => .bigint (2 - row.val)]⟩,
    fun _ => .error (.internal "no default")⟩

/-- A UDF that reports two rows. -/
def twoRows : WriteUdf KeyType (List (List KeyValue)) := .ok fun _ => .ok (some 2)

/-- The call of `updating`. -/
def updateCall : WriteCall KeyType (List (List KeyValue)) :=
  ⟨"udf", "numbered", [.bigint, .bigint], ["id", "n"],
    [[[.bigint 11, .bigint 0], [.bigint 20, .bigint 1]]], [["n"]]⟩

end Sample

theorem keyed_write_updating :
    ∃ sunk chunks, [Sample.updatedRows].mapM (fun input => Sample.updating.sunkRows input)
        = .ok sunk ∧
      Sends Sample.keyOps Sample.numberedScans Sample.twoRows Sample.updating.rowTypes
        sunk.flatten chunks Sample.updateCall (.ok 2) :=
  have h : (scanning Sample.keyOps).ReachableBy Machine.Free {} Sample.numberedScans :=
    ⟨Sample.numbers, Machine.run_of_exec rfl⟩
  (keyed_write h Sample.updating Sample.twoRows [Sample.updatedRows]).2.2.1 Sample.updateCall rfl

/-! ### Keys of another type than their column -/

variable (D s) in
/-- The row sent for a sunk one is the key of the row that its id was emitted for, as it is, and
its new values. -/
def SentExactlyFor (sunk : V × List V) (row : List V) : Prop :=
  ∃ e ∈ s.emitted, (e.id : Int) = D.int64 sunk.1 ∧
    ∃ key, e.key D = .ok key ∧ row = key ++ sunk.2

namespace Sample

/-- A table that is declared to have the key `seen`, a date. -/
def sightings : ProviderTable KeyType :=
  ⟨"sightings", [("seen", .date)], ["seen"], ⟨fun _ => "udf"⟩⟩

/-- Its scan returns timestamps: ten o'clock and midnight of one day. -/
def sightingsScan : List (Scans.Label KeyType (List KeyValue)) :=
  [.begin 0 ⟨0, 1, [.timestamp], ["tsu:"]⟩ ⟨[[.timestamp 36000000000, .timestamp 0]]⟩ 0 2,
    .row 0, .row 0, .finish 0]

/-- The scan of `sightings` at its end. -/
def sightingsScans : Scans KeyValue KeyType (List KeyValue) :=
  ((scanning keyOps).exec {} sightingsScan).getD {}

/-- `DELETE FROM sightings`. -/
def deleting : KeyedWrite KeyType := .delete ⟨sightings, 0⟩

/-- Both rows. -/
def deletedRows : SinkInput KeyValue :=
  ⟨⟨2, [fun row => .bigint row]⟩, fun _ => .error (.internal "no default")⟩

/-- The call of `deleting`. -/
def deleteCall : WriteCall KeyType (List (List KeyValue)) :=
  ⟨"udf", "sightings", [.date], ["seen"], [[[.date 0], [.date 0]]], []⟩

end Sample

/-- A key whose column has another type is sent as what it becomes in that type: here two rows
with two keys are sent with the same one. -/
theorem not_sent_exactly :
    (scanning Sample.keyOps).ReachableBy Machine.Free {} Sample.sightingsScans ∧
    (Sample.deleting.run Sample.keyOps (some Sample.sightingsScans.buffer) Sample.twoRows
      [Sample.deletedRows]) = ⟨some Sample.deleteCall, .ok 2⟩ ∧
    ¬ ∃ (sunk : List (List (Sample.KeyValue × List Sample.KeyValue)))
        (chunks : List (List (List Sample.KeyValue))),
      [Sample.deletedRows].mapM (fun input => Sample.deleting.sunkRows input) = .ok sunk ∧
      chunks.mapM (Sample.keyOps.encodeChunk Sample.deleting.rowTypes)
        = .ok Sample.deleteCall.batches ∧
      List.Forall₂ (SentExactlyFor Sample.keyOps Sample.sightingsScans) sunk.flatten
        chunks.flatten := by
  refine ⟨⟨Sample.sightingsScan, Machine.run_of_exec rfl⟩, rfl, ?_⟩
  rintro ⟨sunk, chunks, hsunk, hchunks, hrows⟩
  have hsunk' : [[(Sample.KeyValue.bigint 0, []), (Sample.KeyValue.bigint 1, [])]] = sunk :=
    Except.ok.inj hsunk
  have hchunks' : chunks = Sample.deleteCall.batches := by
    rw [mapM_eq_ok] at hchunks
    have heq := hchunks.imp fun _ _ h => Except.ok.inj h
    exact List.forall₂_eq_eq_eq ▸ heq
  subst hsunk' hchunks'
  obtain ⟨⟩ | ⟨hrow, _⟩ := hrows
  obtain ⟨e, he, _, key, hkey, hsent⟩ := hrow
  rw [List.append_nil] at hsent
  subst hsent
  have hkeys : ∀ e ∈ Sample.sightingsScans.emitted,
      e.key Sample.keyOps ≠ .ok [Sample.KeyValue.date 0] := by decide
  exact hkeys e he hkey

end Provider

end VirtualCatalog
