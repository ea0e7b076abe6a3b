import VirtualCatalog.Bytes.LittleEndian

/-!
# Encoding a stream piece by piece

`ArrowFrameEncoder` hands back what an IPC stream writer has written to its sink, the schema message
first, then the messages of one batch after the other.  pyarrow's writer writes the schema message
when it is constructed or only with what it writes first.

* `EncodedMessage`, `SchemaMessage` : encapsulated messages.
* `StreamWriter` : pyarrow's writer, and when it writes the schema message.
* `FrameEncoder` : the encoder, with a cursor into the sink.
* `Reassembles` : the pieces are the messages that they should be, and together the whole stream.
* `reassembles_iff` : they are exactly if the writer does not write the schema message when it is
  constructed.  The cursor is then already behind it, so the encoder takes the schema message for
  one that is still to come, and drops the message that comes instead.
-/

namespace VirtualCatalog

namespace Provider

open LittleEndian

/-! ### Messages -/

/-- The marker that begins a message. -/
def continuationMarker : List UInt8 := [0xFF, 0xFF, 0xFF, 0xFF]

/-- A message: the marker, the size of its metadata in four bytes, its metadata and its body. -/
structure EncodedMessage where
  bytes : List UInt8
  long : 8 ≤ bytes.length
  marked : bytes.take 4 = continuationMarker

/-- The size of the metadata. -/
def metadataLength (bytes : List UInt8) : Nat := value ((bytes.drop 4).take 4)

/-- A schema message, which has no body. -/
structure SchemaMessage extends EncodedMessage where
  bodyless : 8 + metadataLength bytes = bytes.length

/-- The end of a stream. -/
def endOfStream : EncodedMessage where
  bytes := continuationMarker ++ [0, 0, 0, 0]
  long := by decide
  marked := by decide

/-- `_drop_leading_message`. -/
def dropLeadingMessage (data : List UInt8) : Except String (List UInt8) :=
  if data.length < 8 ∨ data.take 4 ≠ continuationMarker then
    .error "expected an encapsulated Arrow IPC schema message at the start of the stream"
  else .ok (data.drop (8 + metadataLength data))

/-! ### The writer -/

/-- pyarrow: the schemas are in `S`, the batches of a schema in `B`, and a writer has a state in `W`,
such as the dictionaries it has written. -/
structure StreamWriter (S B W : Type) where
  /-- `Schema.serialize`, which is also what a writer writes of the schema. -/
  serialize : S → SchemaMessage
  /-- A writer of the schema. -/
  start : S → W
  /-- The dictionaries and the message of a batch. -/
  encode : W → B → List EncodedMessage × EncodedMessage × W
  /-- The schema message is written when the writer is constructed. -/
  eager : Bool

section Writing

variable {S B W : Type} (P : StreamWriter S B W)

namespace StreamWriter

/-- The bytes of all messages of a batch. -/
def messages (w : W) (batch : B) : List UInt8 :=
  ((P.encode w batch).1.map (·.bytes)).flatten ++ (P.encode w batch).2.1.bytes

/-- The state after a batch. -/
def next (w : W) (batch : B) : W := (P.encode w batch).2.2

/-- The messages of some batches, for each batch. -/
def messagesOf (w : W) : List B → List (List UInt8)
  | [] => []
  | batch :: batches => P.messages w batch :: messagesOf (P.next w batch) batches

/-- What a new writer writes. -/
def atStart (schema : S) : List UInt8 := if P.eager then (P.serialize schema).bytes else []

/-- What it has not written yet. -/
def held (schema : S) : List UInt8 := if P.eager then [] else (P.serialize schema).bytes

/-- What a writer with some bytes held back writes of some batches until it is closed. -/
def written (w : W) (held : List UInt8) : List B → List UInt8
  | [] => held ++ endOfStream.bytes
  | batch :: batches => held ++ P.messages w batch ++ written (P.next w batch) [] batches

/-- The complete stream of a writer. -/
def stream (schema : S) (batches : List B) : List UInt8 :=
  P.atStart schema ++ P.written (P.start schema) (P.held schema) batches

end StreamWriter

/-! ### The encoder -/

/-- `ArrowFrameEncoder`, with its sink, which is only appended to, and its writer. -/
structure FrameEncoder (S W : Type) where
  schema : S
  sink : List UInt8
  writer : W
  /-- What the writer has not written yet. -/
  held : List UInt8
  cursor : Nat
  closed : Bool := false
  dropSchema : Bool := false

namespace FrameEncoder

/-- `__init__`. -/
def init (schema : S) : FrameEncoder S W where
  schema
  sink := P.atStart schema
  writer := P.start schema
  held := P.held schema
  cursor := (P.atStart schema).length

variable (self : FrameEncoder S W)

/-- `_take_new_bytes`. -/
def takeNewBytes : Except String (List UInt8) × FrameEncoder S W :=
  let data := self.sink.drop self.cursor
  let self := { self with cursor := self.sink.length }
  if self.dropSchema ∧ data ≠ [] then (dropLeadingMessage data, { self with dropSchema := false })
  else (.ok data, self)

/-- `take_schema_message`. -/
def takeSchemaMessage : Except String (List UInt8) × FrameEncoder S W :=
  match self.takeNewBytes with
  | (.error e, self) => (.error e, self)
  | (.ok data, self) =>
    if data ≠ [] then (.ok data, self)
    else (.ok (P.serialize self.schema).bytes, { self with dropSchema := true })

/-- `encode_batch`. -/
def encodeBatch (batch : B) : Except String (List UInt8) × FrameEncoder S W :=
  { self with
    sink := self.sink ++ self.held ++ P.messages self.writer batch
    writer := P.next self.writer batch
    held := [] }.takeNewBytes

/-- `close_and_take_trailing_bytes`. -/
def closeAndTakeTrailingBytes : Except String (List UInt8) × FrameEncoder S W :=
  if self.closed then self.takeNewBytes
  else { self with
    closed := true
    sink := self.sink ++ self.held ++ endOfStream.bytes
    held := [] }.takeNewBytes

/-- Encode some batches and close: the pieces, the trailing bytes last. -/
def encodeAll (self : FrameEncoder S W) : List B → Except String (List (List UInt8))
  | [] => self.closeAndTakeTrailingBytes.1.map fun trailing => [trailing]
  | batch :: batches => do
    let piece ← (self.encodeBatch P batch).1
    let pieces ← encodeAll (self.encodeBatch P batch).2 batches
    pure (piece :: pieces)

end FrameEncoder

/-- All pieces of a stream: the schema message, one for each batch, and the trailing bytes. -/
def pieces (schema : S) (batches : List B) : Except String (List (List UInt8)) := do
  let first ← ((FrameEncoder.init P schema).takeSchemaMessage P).1
  let rest ← ((FrameEncoder.init P schema).takeSchemaMessage P).2.encodeAll P batches
  pure (first :: rest)

/-- The pieces are the schema message, all messages of each batch and something more, and together
the complete stream. -/
def Reassembles (schema : S) (batches : List B) : Prop :=
  ∃ trailing, pieces P schema batches = .ok ((P.serialize schema).bytes ::
      (P.messagesOf (P.start schema) batches ++ [trailing])) ∧
    ((P.serialize schema).bytes ::
      (P.messagesOf (P.start schema) batches ++ [trailing])).flatten = P.stream schema batches

/-! ### Messages at the front -/

theorem dropLeadingMessage_schema (m : SchemaMessage) (rest : List UInt8) :
    dropLeadingMessage (m.bytes ++ rest) = .ok rest := by
  have hlong := m.long
  have hlength : metadataLength (m.bytes ++ rest) = metadataLength m.bytes := by
    unfold metadataLength
    rw [List.drop_append_of_le_length (by omega),
      List.take_append_of_le_length (by rw [List.length_drop]; omega)]
  unfold dropLeadingMessage
  rw [if_neg, hlength, m.bodyless, List.drop_left]
  rw [not_or, List.length_append, List.take_append_of_le_length (by omega)]
  exact ⟨by omega, not_not.2 m.marked⟩

/-- What is left of a message is shorter. -/
theorem length_lt_of_dropLeadingMessage {data rest : List UInt8}
    (h : dropLeadingMessage data = .ok rest) : rest.length < data.length := by
  unfold dropLeadingMessage at h
  split_ifs at h with hbad
  obtain rfl := Except.ok.inj h
  rw [List.length_drop]
  omega

theorem StreamWriter.messages_ne_nil (w : W) (batch : B) : P.messages w batch ≠ [] := by
  have hlong := (P.encode w batch).2.1.long
  intro h
  have hlength := congrArg List.length h
  rw [messages, List.length_append, List.length_nil] at hlength
  omega

theorem StreamWriter.written_eq (w : W) (held : List UInt8) (batches : List B) :
    P.written w held batches =
      held ++ (P.messagesOf w batches).flatten ++ endOfStream.bytes := by
  induction batches generalizing w held with
  | nil => simp [written, messagesOf]
  | cons batch batches ih => simp [written, messagesOf, ih]

/-- The complete stream, whenever the schema message is written. -/
theorem StreamWriter.stream_eq (schema : S) (batches : List B) :
    P.stream schema batches = (P.serialize schema).bytes ++
      (P.messagesOf (P.start schema) batches).flatten ++ endOfStream.bytes := by
  rw [stream, written_eq, atStart, held]
  split_ifs <;> simp

/-! ### Taking what was written -/

namespace FrameEncoder

variable {self : FrameEncoder S W}

/-- The encoder once the writer has written what it held and some bytes more. -/
def wrote (self : FrameEncoder S W) (added : List UInt8) (writer : W) (closed : Bool) :
    FrameEncoder S W :=
  { self with sink := self.sink ++ self.held ++ added, writer, held := [], closed }

theorem takeNewBytes_wrote (h : self.cursor = self.sink.length) (added : List UInt8) (w : W)
    (closed : Bool) :
    (self.wrote added w closed).takeNewBytes =
      if self.dropSchema ∧ self.held ++ added ≠ [] then
        (dropLeadingMessage (self.held ++ added), { self.wrote added w closed with
          cursor := (self.sink ++ self.held ++ added).length, dropSchema := false })
      else (.ok (self.held ++ added), { self.wrote added w closed with
          cursor := (self.sink ++ self.held ++ added).length }) := by
  have hnew : (self.sink ++ self.held ++ added).drop self.cursor = self.held ++ added := by
    rw [List.append_assoc, h, List.drop_left]
  simp only [FrameEncoder.takeNewBytes, wrote, hnew]

/-- The cursor is at the end of the sink, and the encoder knows whether the schema message is still
to come. -/
structure InStep (encoder : FrameEncoder S W) : Prop where
  cursor : encoder.cursor = encoder.sink.length
  schema : (encoder.dropSchema = true ∧ encoder.held = (P.serialize encoder.schema).bytes) ∨
    (encoder.dropSchema = false ∧ encoder.held = [])

theorem InStep.takeNewBytes (h : self.InStep P) (added : List UInt8) (w : W) (closed : Bool) :
    ∃ self' : FrameEncoder S W, (self.wrote added w closed).takeNewBytes = (.ok added, self') ∧
      self'.InStep P ∧ self'.writer = w ∧ self'.closed = closed := by
  rw [takeNewBytes_wrote h.cursor]
  rcases h.schema with ⟨hdrop, hheld⟩ | ⟨hdrop, hheld⟩
  · have hne : (P.serialize self.schema).bytes ++ added ≠ [] := by
      intro hnil
      have hlong := (P.serialize self.schema).long
      rw [(List.append_eq_nil_iff.1 hnil).1] at hlong
      exact absurd hlong (by decide)
    rw [if_pos ⟨hdrop, hheld ▸ hne⟩, hheld, dropLeadingMessage_schema]
    refine ⟨_, rfl, ⟨?_, .inr ⟨rfl, rfl⟩⟩, rfl, rfl⟩
    show _ = (self.sink ++ self.held ++ added).length
    rw [hheld]
  · rw [if_neg (by rw [hdrop]; simp), hheld]
    refine ⟨_, rfl, ⟨?_, .inr ⟨hdrop, rfl⟩⟩, rfl, rfl⟩
    show _ = (self.sink ++ self.held ++ added).length
    rw [hheld]

/-- An encoder in step hands back the messages of each batch, and the end of the stream. -/
theorem InStep.encodeAll (h : self.InStep P) (hopen : self.closed = false) (batches : List B) :
    self.encodeAll P batches =
      .ok (P.messagesOf self.writer batches ++ [endOfStream.bytes]) := by
  induction batches generalizing self with
  | nil =>
    obtain ⟨self', htaken, -⟩ := h.takeNewBytes P endOfStream.bytes self.writer true
    rw [FrameEncoder.encodeAll, closeAndTakeTrailingBytes, hopen]
    show Except.map _ (self.wrote endOfStream.bytes self.writer true).takeNewBytes.1 = _
    rw [htaken]
    rfl
  | cons batch batches ih =>
    obtain ⟨self', htaken, hstep, hwriter, hclosed⟩ :=
      h.takeNewBytes P (P.messages self.writer batch) (P.next self.writer batch) self.closed
    have hencode : self.encodeBatch P batch = (.ok (P.messages self.writer batch), self') := htaken
    rw [FrameEncoder.encodeAll, hencode]
    show (self'.encodeAll P batches >>= _) = _
    rw [ih hstep (hclosed.trans hopen), hwriter]
    rfl

/-- The encoder waits for a schema message that was written before. -/
structure Behind (encoder : FrameEncoder S W) : Prop where
  cursor : encoder.cursor = encoder.sink.length
  waits : encoder.dropSchema = true
  held : encoder.held = []

/-- What it takes next loses a message. -/
theorem Behind.takeNewBytes (h : self.Behind) {added : List UInt8} (hadded : added ≠ []) (w : W)
    (closed : Bool) : (self.wrote added w closed).takeNewBytes.1 = dropLeadingMessage added := by
  rw [takeNewBytes_wrote h.cursor, h.held, List.nil_append, if_pos ⟨h.waits, hadded⟩]

theorem Behind.encodeAll (h : self.Behind) (hopen : self.closed = false) (batches : List B) :
    ¬self.encodeAll P batches = .ok (P.messagesOf self.writer batches ++ [endOfStream.bytes]) := by
  intro hall
  cases batches with
  | nil =>
    have htaken := h.takeNewBytes (show endOfStream.bytes ≠ [] by decide) self.writer true
    rw [FrameEncoder.encodeAll, closeAndTakeTrailingBytes, hopen] at hall
    replace hall : Except.map (fun trailing => [trailing])
        (self.wrote endOfStream.bytes self.writer true).takeNewBytes.1 = .ok [endOfStream.bytes] :=
      hall
    rw [htaken] at hall
    cases hdropped : dropLeadingMessage endOfStream.bytes with
    | error e =>
      rw [hdropped] at hall
      cases hall
    | ok rest =>
      rw [hdropped] at hall
      have hshort := length_lt_of_dropLeadingMessage hdropped
      rw [List.singleton_inj.1 (Except.ok.inj hall)] at hshort
      exact absurd hshort (lt_irrefl _)
  | cons batch batches =>
    have htaken : (self.encodeBatch P batch).1 =
        dropLeadingMessage (P.messages self.writer batch) :=
      h.takeNewBytes (P.messages_ne_nil self.writer batch) (P.next self.writer batch) self.closed
    rw [FrameEncoder.encodeAll, htaken] at hall
    cases hdropped : dropLeadingMessage (P.messages self.writer batch) with
    | error e =>
      rw [hdropped] at hall
      cases hall
    | ok rest =>
      have hshort := length_lt_of_dropLeadingMessage hdropped
      rw [hdropped] at hall
      cases hmore : (self.encodeBatch P batch).2.encodeAll P batches with
      | error e =>
        replace hall : ((self.encodeBatch P batch).2.encodeAll P batches >>= fun pieces =>
          pure (rest :: pieces)) = _ := hall
        rw [hmore] at hall
        cases hall
      | ok pieces =>
        replace hall : ((self.encodeBatch P batch).2.encodeAll P batches >>= fun pieces =>
          pure (rest :: pieces)) = _ := hall
        rw [hmore] at hall
        have hfirst := (List.cons.inj (Except.ok.inj hall)).1
        rw [hfirst] at hshort
        exact absurd hshort (lt_irrefl _)

/-- What is taken first is the schema message, whether the writer has written it or not. -/
theorem takeSchemaMessage_init (schema : S) :
    (init P schema).takeSchemaMessage P =
      (.ok (P.serialize schema).bytes, { init P schema with dropSchema := true }) := by
  have hnone : (P.atStart schema).drop (P.atStart schema).length = [] := List.drop_length
  unfold takeSchemaMessage FrameEncoder.takeNewBytes init
  simp [hnone]

end FrameEncoder

/-! ### The pieces -/

theorem pieces_eq (schema : S) (batches : List B) :
    pieces P schema batches = ({ FrameEncoder.init P schema with
        dropSchema := true }.encodeAll P batches).map ((P.serialize schema).bytes :: ·) := by
  unfold pieces
  rw [FrameEncoder.takeSchemaMessage_init]
  rfl

/-- The pieces are right exactly if those after the first are. -/
theorem reassembles_iff_encodeAll (schema : S) (batches : List B) :
    Reassembles P schema batches ↔
      { FrameEncoder.init P schema with dropSchema := true }.encodeAll P batches =
        .ok (P.messagesOf (P.start schema) batches ++ [endOfStream.bytes]) := by
  unfold Reassembles
  rw [pieces_eq, P.stream_eq]
  generalize { FrameEncoder.init P schema with dropSchema := true }.encodeAll P batches = all
  constructor
  · rintro ⟨trailing, hpieces, hwhole⟩
    have htrailing : trailing = endOfStream.bytes := by
      simpa [List.append_assoc] using hwhole
    cases all with
    | error e => cases hpieces
    | ok all =>
      rw [(List.cons.inj (Except.ok.inj hpieces)).2, htrailing]
  · rintro rfl
    refine ⟨endOfStream.bytes, rfl, ?_⟩
    simp

/-- **The pieces are the stream exactly if the writer is not ahead of the encoder**: whatever the
schema and the batches, the encoder hands back the schema message, the messages of each batch and
the rest of the stream if the writer writes the schema message with what it writes first, and does
not if the writer writes it when it is constructed. -/
theorem reassembles_iff (schema : S) (batches : List B) :
    Reassembles P schema batches ↔ P.eager = false := by
  rw [reassembles_iff_encodeAll]
  constructor
  · intro hall
    by_contra heager
    rw [Bool.not_eq_false] at heager
    refine FrameEncoder.Behind.encodeAll P ⟨rfl, rfl, ?_⟩ rfl batches hall
    show P.held schema = []
    rw [StreamWriter.held, heager]
    rfl
  · intro hlazy
    refine FrameEncoder.InStep.encodeAll P ⟨rfl, .inl ⟨rfl, ?_⟩⟩ rfl batches
    show P.held schema = _
    rw [StreamWriter.held, hlazy]
    rfl

end Writing

/-! ### A writer that is ahead -/

namespace Sample

/-- A schema message of eight bytes of metadata. -/
def schemaMessage : SchemaMessage where
  bytes := continuationMarker ++ [8, 0, 0, 0] ++ [1, 1, 1, 1, 1, 1, 1, 1]
  long := by decide
  marked := by decide
  bodyless := by decide

/-- The message of a batch, with a body of eight bytes. -/
def batchMessage : EncodedMessage where
  bytes := continuationMarker ++ [8, 0, 0, 0] ++ [2, 2, 2, 2, 2, 2, 2, 2] ++ [3, 0, 0, 0, 0, 0, 0, 0]
  long := by decide
  marked := by decide

/-- A writer that writes the schema message when it is constructed. -/
def eagerWriter : StreamWriter Unit Unit Unit where
  serialize _ := schemaMessage
  start _ := ()
  encode _ _ := ([], batchMessage, ())
  eager := true

end Sample

/-- The first batch loses its header. -/
theorem not_reassembles : ¬Reassembles Sample.eagerWriter () [()] := by
  rintro ⟨trailing, hpieces, -⟩
  have hlost : pieces Sample.eagerWriter () [()] = .ok [Sample.schemaMessage.bytes,
      [3, 0, 0, 0, 0, 0, 0, 0], endOfStream.bytes] := rfl
  rw [hlost] at hpieces
  have hbatch : [3, 0, 0, 0, 0, 0, 0, 0] = Sample.batchMessage.bytes :=
    (List.cons.inj (List.cons.inj (Except.ok.inj hpieces)).2).1
  exact absurd hbatch (by decide)

end Provider

end VirtualCatalog
