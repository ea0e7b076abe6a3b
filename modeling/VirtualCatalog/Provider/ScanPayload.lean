import VirtualCatalog.Provider.ArrowLayout
import VirtualCatalog.Provider.ScanRequest
import VirtualCatalog.Provider.TableStream

/-!
# The payload of a scan

Python writes the table that it has laid out as one stream of pyarrow, and the scan decodes it with
`MakeStreamFromIpc`.

* `DecodesWith` : the scan sees what that function hands out as its schema and record batches.
* `carries_of_stream` : a table whose batches hold its rows is carried.
-/

namespace VirtualCatalog

namespace Provider

section

variable {T C V A G E U H S B W : Type} {D : ScanOps T C V A IpcFrame} {N : Nanoarrow G E U H}
  {P : StreamWriter S B W} {conforms : S → B → Bool} {arrayOf : B → H}
  {Knows : S → W → G → Option U → Prop} {describe : ArrowSchema → SchemaNode}
  {view : H → ScanBatch A}

/-- The scan decodes a payload with `MakeStreamFromIpc`; `describe` and `view` say what it sees of a
schema and of an array. -/
def DecodesWith (D : ScanOps T C V A IpcFrame) (N : Nanoarrow G E U H)
    (describe : ArrowSchema → SchemaNode) (view : H → ScanBatch A) : Prop :=
  ∀ frame stream, makeStreamFromIpc N "vcatprovider: read UDF" frame = some (.ok stream) →
    D.makeStreamFromIpc frame = .ok ⟨describe stream.schema, stream.batches.map view⟩

/-- What is decoded of a table that was written in some batches. -/
theorem DecodesWith.decoded (hdecodes : DecodesWith D N describe view)
    (h : Understands N P conforms arrayOf Knows) (hN : PeeksPrefix N) {schema : S}
    {batches : List B} (hconforms : ∀ batch ∈ batches, conforms schema batch = true)
    {frame : IpcFrame} (hframe : frame.bytes = P.stream schema batches) :
    ∃ stream, makeStreamFromIpc N "vcatprovider: read UDF" frame = some (.ok stream) ∧
      D.makeStreamFromIpc frame =
        .ok ⟨describe stream.schema, batches.map fun batch => view (arrayOf batch)⟩ := by
  obtain ⟨stream, hstream, hbatches⟩ := makeStreamFromIpc_stream h hN hconforms _ hframe
  refine ⟨stream, hstream, ?_⟩
  rw [hdecodes frame stream hstream, hbatches, List.map_map]
  rfl

/-- **A table is carried by the batches that hold its rows**: for any writer that nanoarrow
understands, if the schema that is decoded is the table's. -/
theorem carries_of_stream (hdecodes : DecodesWith D N describe view)
    (h : Understands N P conforms arrayOf Knows) (hN : PeeksPrefix N) {schema : S}
    {batches : List B} (hconforms : ∀ batch ∈ batches, conforms schema batch = true)
    {table : PaTable C} (hframe : (D.encodeTable table).bytes = P.stream schema batches)
    (hschema : ∀ stream, makeStreamFromIpc N "vcatprovider: read UDF" (D.encodeTable table) =
      some (.ok stream) → describe stream.schema = table.schema)
    (hrows : (batches.flatMap fun batch => (List.range (view (arrayOf batch)).length).map
      ((view (arrayOf batch)).cells D)) = table.rows) : D.Carries table := by
  obtain ⟨stream, hstream, hdecoded⟩ := hdecodes.decoded h hN hconforms hframe
  refine ⟨_, hdecoded, hschema stream hstream, ?_⟩
  rw [ArrowStream.rows, List.flatMap_map]
  exact hrows

end

/-! ### Two users -/

namespace Sample

open LittleEndian

/-- An array of one integer. -/
def integerArray (n : Int) : ArrowArray := ⟨0, false, [none, some (bytesOf 4 n)]⟩

/-- A byte is a user of this id, who is older than thirty by it. -/
def userBatch (byte : UInt8) : ScanBatch ArrowArray :=
  ⟨⟨[integerArray (30 + byte.toNat), integerArray byte.toNat]⟩, 1⟩

/-- A column of integers. -/
def integerField (name : String) : SchemaNode := .mk (some "i") (some name) none [] none

/-- The ages, then the ids. -/
def userSchema : SchemaNode :=
  .mk (some "+s") none none [integerField "age", integerField "id"] none

/-- Users, one in each batch. -/
def userOps : ScanOps LogicalType Int Int ArrowArray IpcFrame where
  registeredFormat _ _ := none
  duckType node :=
    if node.format = some "i" then .ok .integer else .error (.invalidInput "unknown format")
  typeName := LogicalType.toString
  cellAt array pos := signed 4 (element 4 ((array.buffer 1).getD []) (array.offset + pos))
  convert _ cell := .ok cell
  encodeTable table :=
    let bytes := byteWriter.stream () (table.rows.map fun row => UInt8.ofNat (row.getLastD 0).toNat)
    if h : bytes.length < 2 ^ 63 then ⟨bytes, h⟩ else ⟨[], by decide⟩
  makeStreamFromIpc frame :=
    ((makeStreamFromIpc byteReader "vcatprovider: read UDF" frame).getD
      (.error (.internal "no fuel"))).map fun stream =>
        ⟨userSchema, stream.batches.map userBatch⟩

theorem userOps_decodes : DecodesWith userOps byteReader (fun _ => userSchema) userBatch := by
  intro frame stream h
  show Except.map _ (Option.getD (makeStreamFromIpc byteReader _ frame) _) = _
  rw [h]
  rfl

/-- The provider's table. -/
def users : PaTable Int where
  columns := [⟨integerField "id", fun r => r⟩, ⟨integerField "age", fun r => 30 + r⟩]
  rowCount := 2

/-- The table as the scan has asked for it. -/
def laidUsers : PaTable Int where
  columns := [⟨integerField "age", fun r => 30 + r⟩, ⟨integerField "id", fun r => r⟩]
  rowCount := 2

theorem encodeTable_users :
    (userOps.encodeTable laidUsers).bytes = byteWriter.stream () [0, 1] := by decide +kernel

theorem carries_users : userOps.Carries laidUsers :=
  carries_of_stream userOps_decodes understands_bytes peeksPrefix_byteReader (fun _ _ => rfl)
    encodeTable_users (fun _ _ => rfl) (by decide +kernel)

theorem decoded_users : userOps.makeStreamFromIpc (userOps.encodeTable laidUsers) =
    .ok ⟨userSchema, [userBatch 0, userBatch 1]⟩ := by
  obtain ⟨-, -, hdecoded⟩ := userOps_decodes.decoded understands_bytes peeksPrefix_byteReader
    (fun _ _ => rfl) encodeTable_users
  exact hdecoded

end Sample

end Provider

end VirtualCatalog
