import Mathlib.Data.List.AList
import VirtualCatalog.Provider.FrameEncoder

/-!
# The functions that a host serves its streams with

`HostStreamUdfs` answers three UDFs.  It keeps the calls that are in flight by their handles, each
with the iterator that its batches come from and the encoder that frames them.

* `Anext` : what an asynchronous iterator answers; `LiveStream.nextBatch` : the next batch, which
  pulls the iterator again as long as what it yields holds no batch.
* `HostStreamUdfs.openStream`, `nextFrame`, `closeStream` : the three UDFs.
* `nextBatch_spec` : the batches that are still to come, and those that the iterator has yielded in
  between, are the batch that is returned and those that are to come then.
-/

namespace VirtualCatalog

namespace Provider

/-! ### What a call yields -/

/-- What a streaming RPC yields. -/
inductive Yielded (B : Type) where
  | recordBatch (batch : B)
  /-- With its `to_batches`. -/
  | table (batches : List B)
  /-- A value of another type, with the type's name. -/
  | other (type : String)

/-- What a host's function raises. -/
inductive HostError where
  /-- There is no host RPC of this name. -/
  | notRegistered (function : String)
  /-- The stream is not open. -/
  | notOpen (handle : String)
  /-- A finite RPC has returned something else than a table. -/
  | notTable (function type : String)
  /-- A streaming RPC has yielded something else than batches. -/
  | notBatches (type : String)
  /-- What the RPC, its iterator or pyarrow raises. -/
  | raised (message : String)
deriving DecidableEq

/-- `_as_batches`. -/
def asBatches {B : Type} : Yielded B → Except HostError (List B)
  | .recordBatch batch => .ok [batch]
  | .table batches => .ok batches
  | .other type => .error (.notBatches type)

/-- What `__anext__` of an iterator does. -/
inductive Anext (B : Type) where
  | value (value : Yielded B)
  /-- `StopAsyncIteration`. -/
  | stop
  | raised (message : String)

/-- The batches of an answer. -/
def Anext.batches {B : Type} : Anext B → List B
  | .value (.recordBatch batch) => [batch]
  | .value (.table batches) => batches
  | .value (.other _) | .stop | .raised _ => []

/-- What an RPC does when it is called, its arguments read before. -/
inductive CallOutcome (B : Type) where
  | raised (message : String)
  | returned (value : Yielded B)

/-- An entry of the registry. -/
structure RpcEntry (S : Type) where
  /-- It is wrapped in `StreamingRpc`. -/
  streaming : Bool
  schema : S

section Host

variable {S B W : Type}

/-! ### A call in flight -/

/-- Where the batches of a call come from. -/
inductive BatchSource (B : Type) where
  | aiterator
  /-- What is left of the batches of a table. -/
  | batches (left : List B)

/-- `_LiveStream`. -/
structure LiveStream (S B W : Type) where
  encoder : FrameEncoder S W
  source : BatchSource B
  pending : List B := []

namespace LiveStream

/-- `next_batch`, given the answers of the iterator: what it returns or raises, the stream, and the
answers that it has not asked for; `none` if it waits for another answer. -/
def nextBatch (self : LiveStream S B W) (answers : List (Anext B)) :
    Option (Except HostError (Option B) × LiveStream S B W × List (Anext B)) :=
  match self.pending with
  -- what an earlier answer left over goes first
  | batch :: pending => some (.ok (some batch), { self with pending }, answers)
  | [] =>
    match self.source with
    | .batches left => some (.ok left.head?, { self with source := .batches left.tail }, answers)
    | .aiterator =>
      match answers with
      | [] => none
      | .stop :: answers => some (.ok none, self, answers)
      | .raised message :: answers => some (.error (.raised message), self, answers)
      | .value value :: answers =>
        match asBatches value with
        | .error e => some (.error e, self, answers)
        -- an empty table yields no batch: the iterator is asked again
        | .ok pending => nextBatch { self with pending } answers

/-- `close`, if it waits for the source: what the iterator's own `aclose` does. -/
def close (self : LiveStream S B W) (aclose : Except String Unit) : Except HostError Unit :=
  match self.source with
  | .batches _ => .ok ()
  | .aiterator => aclose.mapError .raised

/-- The batches that are still to come, as far as they were yielded. -/
def toCome (self : LiveStream S B W) : List B :=
  self.pending ++ match self.source with
    | .aiterator => []
    | .batches left => left

end LiveStream

/-! ### The functions -/

/-- The handles and the calls in flight, `_live`. -/
abbrev LiveStreams (S B W : Type) := AList fun _ : String => LiveStream S B W

/-- `HostStreamUdfs`. -/
structure HostStreamUdfs (S B W : Type) where
  openUdf : String
  nextUdf : String
  closeUdf : String
  registry : AList fun _ : String => RpcEntry S
  live : LiveStreams S B W := ∅

variable (P : StreamWriter S B W)

/-- pyarrow's writer accepts only batches of its schema. -/
def encodeChecked (conforms : S → B → Bool) (encoder : FrameEncoder S W) (batch : B) :
    Except HostError (List UInt8) × FrameEncoder S W :=
  if conforms encoder.schema batch then
    ((encoder.encodeBatch P batch).1.mapError .raised, (encoder.encodeBatch P batch).2)
  else (.error (.raised "Tried to write record batch with different schema"), encoder)

namespace HostStreamUdfs

variable (self : HostStreamUdfs S B W) (handle : String)

/-- The stream of a call is in flight, and its schema message is sent. -/
def start (schema : S) (source : BatchSource B) :
    Except HostError (List UInt8) × HostStreamUdfs S B W :=
  let taken := (FrameEncoder.init P schema).takeSchemaMessage P
  (taken.1.mapError .raised,
    { self with live := self.live.insert handle { encoder := taken.2, source } })

/-- Where the batches of a call come from and their schema, given what the RPC does. -/
def sourceOf (function : String) (call : CallOutcome B) : Except HostError (S × BatchSource B) :=
  match self.registry.lookup function with
  | none => .error (.notRegistered function)
  | some entry =>
    match call with
    | .raised message => .error (.raised message)
    | .returned value =>
      if entry.streaming then .ok (entry.schema, .aiterator)
      else
        match value with
        | .table batches => .ok (entry.schema, .batches batches)
        | .recordBatch _ => .error (.notTable function "RecordBatch")
        | .other type => .error (.notTable function type)

/-- `_open`, given what the RPC does. -/
def openStream (function : String) (call : CallOutcome B) :
    Except HostError (List UInt8) × HostStreamUdfs S B W :=
  match self.sourceOf function call with
  | .error e => (.error e, self)
  | .ok (schema, source) => self.start P handle schema source

/-- `_next`, given the answers of the iterator, and the answers that it has not asked for; `none` if
it waits for another answer. -/
def nextFrame (conforms : S → B → Bool) (answers : List (Anext B)) :
    Option (Except HostError (Option (List UInt8)) × HostStreamUdfs S B W × List (Anext B)) :=
  match self.live.lookup handle with
  | none => some (.error (.notOpen handle), self, answers)
  | some stream =>
    match stream.nextBatch answers with
    | none => none
    | some (.error e, stream, answers) =>
      some (.error e, { self with live := self.live.insert handle stream }, answers)
    | some (.ok none, stream, answers) =>
      some (.ok none, { self with live := self.live.insert handle stream }, answers)
    | some (.ok (some batch), stream, answers) =>
      let encoded := encodeChecked P conforms stream.encoder batch
      some (encoded.1.map some, { self with
        live := self.live.insert handle { stream with encoder := encoded.2 } }, answers)

/-- `_close`, given what the iterator's `aclose` does. -/
def closeStream (aclose : Except String Unit) :
    Except HostError (List UInt8) × HostStreamUdfs S B W :=
  match self.live.lookup handle with
  | none => (.error (.notOpen handle), self)
  | some stream =>
    let trailing := stream.encoder.closeAndTakeTrailingBytes.1
    ((stream.close aclose).bind fun _ => trailing.mapError .raised,
      { self with live := self.live.erase handle })

end HostStreamUdfs

/-! ### The next batch -/

variable {P} {stream stream' : LiveStream S B W} {answers rest : List (Anext B)}
  {result : Except HostError (Option B)}

/-- The answers that a call of `next_batch` asks for, and what becomes of the batches. -/
structure NextSpec (stream stream' : LiveStream S B W) (result : Except HostError (Option B))
    (asked : List (Anext B)) : Prop where
  encoder : stream'.encoder = stream.encoder
  /-- No batch is lost or comes twice. -/
  batches : ∀ batch, result = .ok batch →
    stream.toCome ++ asked.flatMap Anext.batches = batch.toList ++ stream'.toCome
  /-- The end is returned only if there is none left and the source has ended. -/
  ended : result = .ok none → stream'.toCome = [] ∧
    (stream.source = .aiterator → .stop ∈ asked)
  source : stream'.source = .aiterator ↔ stream.source = .aiterator
  known : ∀ e, result = .error e → ∀ handle, e ≠ .notOpen handle

/-- A batch that is there is returned. -/
theorem NextSpec.of_pending {batch : B} {pending : List B} (h : stream.pending = batch :: pending) :
    NextSpec stream { stream with pending } (.ok (some batch)) [] where
  encoder := rfl
  batches := by
    rintro _ ⟨⟩
    simp [LiveStream.toCome, h]
  ended := nofun
  source := .rfl
  known := nofun

/-- The batches of a table are returned one after the other. -/
theorem NextSpec.of_batches {left : List B} (hpending : stream.pending = [])
    (hsource : stream.source = .batches left) :
    NextSpec stream { stream with source := .batches left.tail } (.ok left.head?) [] where
  encoder := rfl
  batches := by
    rintro _ ⟨⟩
    cases left <;> simp [LiveStream.toCome, hpending, hsource]
  ended h := by
    cases left with
    | nil => exact ⟨by simp [LiveStream.toCome, hpending], by simp [hsource]⟩
    | cons batch left => cases h
  source := by simp [hsource]
  known := nofun

/-- The iterator is pulled once more. -/
theorem NextSpec.pull {value : Yielded B} {pending : List B} {asked : List (Anext B)}
    (hpending : stream.pending = []) (hsource : stream.source = .aiterator)
    (hvalue : asBatches value = .ok pending)
    (h : NextSpec { stream with pending } stream' result asked) :
    NextSpec stream stream' result (.value value :: asked) where
  encoder := h.encoder
  batches batch hresult := by
    have hyielded : (Anext.value value).batches = pending := by
      cases value with
      | recordBatch batch => exact Except.ok.inj hvalue
      | table batches => exact Except.ok.inj hvalue
      | other type => cases hvalue
    have hbatches := h.batches batch hresult
    simpa [LiveStream.toCome, hpending, hsource, hyielded] using hbatches
  ended hresult := ⟨(h.ended hresult).1, fun _ =>
    List.mem_cons_of_mem _ ((h.ended hresult).2 hsource)⟩
  source := h.source
  known := h.known

/-- An iterator that has ended, or an answer without a batch. -/
theorem NextSpec.of_answer {answer : Anext B} (hpending : stream.pending = [])
    (hsource : stream.source = .aiterator) (hnone : answer.batches = [])
    (hresult : (result = .ok none ∧ answer = .stop) ∨
      ∃ e, result = .error e ∧ ∀ handle, e ≠ .notOpen handle) :
    NextSpec stream stream result [answer] where
  encoder := rfl
  batches batch hok := by
    rcases hresult with ⟨rfl, rfl⟩ | ⟨e, rfl, -⟩
    · cases hok
      simp [hnone]
    · cases hok
  ended hok := by
    rcases hresult with ⟨-, rfl⟩ | ⟨e, rfl, -⟩
    · exact ⟨by simp [LiveStream.toCome, hpending, hsource], fun _ => List.mem_cons_self⟩
    · cases hok
  source := .rfl
  known e he := by
    rcases hresult with ⟨rfl, -⟩ | ⟨e', rfl, hknown⟩
    · cases he
    · cases he
      exact hknown

/-- **`next_batch` returns the batches in order**: it asks for some of the answers, and what was to
come, with what these have yielded, is the batch that it returns and what is to come then. -/
theorem nextBatch_spec (h : stream.nextBatch answers = some (result, stream', rest)) :
    ∃ asked, answers = asked ++ rest ∧ NextSpec stream stream' result asked := by
  induction answers generalizing stream with
  | nil =>
    unfold LiveStream.nextBatch at h
    split at h
    next batch pending hpending =>
      cases h
      exact ⟨[], rfl, .of_pending hpending⟩
    next hpending =>
      split at h
      next left hsource =>
        cases h
        exact ⟨[], rfl, .of_batches hpending hsource⟩
      next => cases h
  | cons answer answers ih =>
    unfold LiveStream.nextBatch at h
    split at h
    next batch pending hpending =>
      cases h
      exact ⟨[], rfl, .of_pending hpending⟩
    next hpending =>
      split at h
      next left hsource =>
        cases h
        exact ⟨[], rfl, .of_batches hpending hsource⟩
      next hsource =>
        cases answer with
        | stop =>
          cases h
          exact ⟨[.stop], rfl, .of_answer hpending hsource rfl (.inl ⟨rfl, rfl⟩)⟩
        | raised message =>
          cases h
          exact ⟨[.raised message], rfl, .of_answer hpending hsource rfl (.inr ⟨_, rfl, nofun⟩)⟩
        -- the iterator yields: a batch, several, or what is none
        | value value =>
          cases hvalue : asBatches value with
          | error e =>
            simp only [hvalue] at h
            cases h
            cases value with
            | recordBatch batch => cases hvalue
            | table batches => cases hvalue
            | other type =>
              cases hvalue
              exact ⟨[.value (.other type)], rfl,
                .of_answer hpending hsource rfl (.inr ⟨_, rfl, nofun⟩)⟩
          | ok pending =>
            simp only [hvalue] at h
            -- the batches of a table come one by one
            obtain ⟨asked, rfl, hspec⟩ := ih h
            exact ⟨.value value :: asked, rfl, hspec.pull hpending hsource hvalue⟩

end Host

end Provider

end VirtualCatalog
