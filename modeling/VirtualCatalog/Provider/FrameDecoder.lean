import Mathlib.Algebra.Group.Nat.Defs
import Mathlib.Data.List.Chain
import Mathlib.Data.Nat.Basic

/-!
# Decoding frames of Arrow messages

`ArrowFrameDecoder` is pushed the bytes of a stream frame by frame, and queues the record batches of
the messages in them.  What nanoarrow says about a message comes from the stream, so its sizes are
any integers of their widths.

* `Nanoarrow` : the functions of nanoarrow.
* `IpcFrame` : a buffer, whose size is below `2 ^ 63`.
* `iterate`, `pushFrame` : the loop of `PushFrame`, with a record of what each iteration hands on
  and computes.
* `Iteration.Safe` : what is handed on lies in the buffer, no computation overflows, and the offset
  grows.
* `pushFrame_safe` : every iteration is safe, the loop ends, and a decoder that failed stays as it
  is.
-/

namespace VirtualCatalog

namespace Provider

/-! ### nanoarrow -/

/-- `ArrowSchema`, as far as the decoder looks at it. -/
inductive ArrowSchema where
  | mk (format name : String) (nullable : Bool) (children : List ArrowSchema)
    (dictionary : Option ArrowSchema)

mutual

/-- `SameLayout`: names and nullability may differ. -/
def sameLayout : ArrowSchema → ArrowSchema → Bool
  | .mk format _ _ children dictionary, .mk format' _ _ children' dictionary' =>
    format == format' && sameChildren children children' && sameDictionary dictionary dictionary'

/-- The children of two schemas, of which there must be the same number. -/
def sameChildren : List ArrowSchema → List ArrowSchema → Bool
  | [], [] => true
  | a :: as, b :: bs => sameLayout a b && sameChildren as bs
  | _, _ => false

/-- The dictionaries of two schemas. -/
def sameDictionary : Option ArrowSchema → Option ArrowSchema → Bool
  | none, none => true
  | some a, some b => sameLayout a b
  | _, _ => false

end

/-- What `ArrowIpcDecoderPeekHeader` finds at the beginning of a view. -/
inductive Peek where
  /-- `ENODATA`: the end of the stream. -/
  | noData
  | failed (message : String)
  /-- The size of the header with its prefix, and that of the prefix. -/
  | header (headerSize : Int32) (prefixSize : Fin 9)

/-- `ArrowIpcMessageType`. -/
inductive MessageType where
  | schema
  | dictionaryBatch
  | recordBatch
  | other
deriving DecidableEq

/-- What is decoded of a header. -/
structure MessageHeader where
  type : MessageType
  bodySize : Int64

/-- nanoarrow.  Its decoder has a state in `D`, `E` are dictionary encodings, `V` are dictionaries
and `A` arrays. -/
structure Nanoarrow (D E V A : Type) where
  /-- `ArrowIpcDecoderInit`: the decoder, and whether it could be initialized. -/
  init : D × Bool
  /-- `ArrowIpcDecoderPeekHeader`. -/
  peekHeader : D → List UInt8 → Peek × D
  /-- `ArrowIpcDecoderVerifyHeader`. -/
  verifyHeader : D → List UInt8 → Except String D
  /-- `ArrowIpcDecoderDecodeHeader`. -/
  decodeHeader : D → List UInt8 → Except String (MessageHeader × D)
  /-- `ArrowIpcDecoderDecodeSchema`. -/
  decodeSchema : D → Except String (ArrowSchema × D)
  /-- `ArrowIpcDictionaryEncodingsAppendSchema`. -/
  encodings : ArrowSchema → Option E
  /-- `ArrowIpcDecoderSetEndianness`, to what the header says. -/
  setEndianness : D → Except String D
  /-- `ArrowIpcDecoderSetSchemaWithDictionaries`. -/
  setSchema : D → ArrowSchema → E → Except String D
  /-- `ArrowIpcDictionariesInit`. -/
  dictionaries : E → Except String V
  /-- `ArrowIpcDecoderDecodeDictionary`. -/
  decodeDictionary : D → List UInt8 → Option V → Except String (D × V)
  /-- `ArrowIpcDecoderDecodeArrayWithDictionaries`. -/
  decodeArray : D → List UInt8 → Option V → Except String (D × A)

/-! ### The decoder -/

/-- `ArrowFrameDecoder::State`. -/
structure DecoderState (D E V A : Type) where
  decoder : D
  schema : Option ArrowSchema := none
  encodings : Option E := none
  dictionaries : Option V := none
  done : Bool := false
  failed : Bool := false
  errorMessage : String := ""
  /-- The oldest first. -/
  batches : List A := []

/-- A buffer. -/
structure IpcFrame where
  bytes : List UInt8
  fits : bytes.length < 2 ^ 63

section Decoder

variable {D E V A : Type} (N : Nanoarrow D E V A)

namespace DecoderState

variable (st : DecoderState D E V A)

/-- Poison the decoder. -/
def fail (message : String) : DecoderState D E V A :=
  { st with failed := true, errorMessage := message }

/-- The branch of a schema message once the schema is decoded. -/
def acceptSchema (incoming : ArrowSchema) :
    Except (DecoderState D E V A) (DecoderState D E V A) :=
  -- a second schema message is fine as long as its layout is the same
  if (st.schema.map fun schema => sameLayout schema incoming) = some false then
    .error ({ st with schema := none }.fail "Arrow IPC stream changed its schema mid-stream")
  else
    -- dictionaries belong to the schema message before them
    let st := { st with schema := some incoming, dictionaries := none, encodings := none }
    match N.encodings incoming with
    | none => .error (st.fail "could not collect the schema's dictionary encodings")
    | some encodings =>
      let st := { st with encodings := some encodings }
      match N.setEndianness st.decoder >>= fun d => N.setSchema d incoming encodings with
      | .error message => .error (st.fail message)
      | .ok d =>
        let st := { st with decoder := d }
        match N.dictionaries encodings with
        | .error message => .error (st.fail message)
        | .ok dictionaries => .ok { st with dictionaries := some dictionaries }

/-- What is done with a message whose header is decoded; an error is a state that failed. -/
def receive (type : MessageType) (body : List UInt8) :
    Except (DecoderState D E V A) (DecoderState D E V A) :=
  match type with
  | .schema =>
    match N.decodeSchema st.decoder with
    | .error message => .error (st.fail message)
    | .ok (incoming, d) => { st with decoder := d }.acceptSchema N incoming
  | .dictionaryBatch =>
    -- the IPC format puts the schema first
    if st.schema.isNone then .error (st.fail "dictionary batch arrived before schema")
    else
      match N.decodeDictionary st.decoder body st.dictionaries with
      | .error message => .error (st.fail message)
      | .ok (d, dictionaries) => .ok { st with decoder := d, dictionaries := some dictionaries }
  | .recordBatch =>
    if st.schema.isNone then .error (st.fail "record batch arrived before schema")
    else
      match N.decodeArray st.decoder body st.dictionaries with
      | .error message => .error (st.fail message)
      | .ok (d, array) => .ok { st with decoder := d, batches := st.batches ++ [array] }
  | .other => .ok st

end DecoderState

/-- The constructor. -/
def newDecoder : DecoderState D E V A :=
  if N.init.2 then { decoder := N.init.1 }
  else { decoder := N.init.1, failed := true, errorMessage := "ArrowIpcDecoderInit failed" }

/-! ### The loop -/

/-- The bytes of a buffer that a view begins at `start` and has `size` bytes of. -/
def viewOf (bytes : List UInt8) (start : UInt64) (size : Int64) : List UInt8 :=
  (bytes.drop start.toNat).take size.toNatClampNeg

/-- What an iteration hands on and computes. -/
structure Iteration where
  off : UInt64
  /-- `len - off`. -/
  remaining : UInt64
  /-- The size of the view, which begins at `off`. -/
  viewSize : Int64
  /-- The size of the header, which begins at `off`. -/
  headerSize : Option Int32 := none
  /-- The size of the body, and `msg_total`. -/
  total : Option (Int64 × UInt64) := none
  /-- Where the body begins, and its size. -/
  body : Option (UInt64 × Int64) := none
  /-- The offset of the next iteration. -/
  next : Option UInt64 := none

/-- How an iteration ends. -/
inductive Continuation (D E V A : Type) where
  /-- `PushFrame` returns. -/
  | finished (result : Bool) (st : DecoderState D E V A)
  | again (off : UInt64) (st : DecoderState D E V A)

/-- The view of the body that is handed on, of a batch after a schema. -/
def handedBody (type : MessageType) (schemaSet : Bool) (start : UInt64) (size : Int64) :
    Option (UInt64 × Int64) :=
  if (type = .dictionaryBatch ∨ type = .recordBatch) ∧ schemaSet then some (start, size) else none

/-- An iteration after the header was decoded. -/
def iterateBody (bytes : List UInt8) (it : Iteration) (headerSize : Int32)
    (header : MessageHeader) (st : DecoderState D E V A) : Iteration × Continuation D E V A :=
  if header.bodySize < 0 then
    (it, .finished false (st.fail "Arrow IPC message declares a negative body length"))
  else
    -- both sizes are checked, so that the sum does not wrap
    let msgTotal := headerSize.toInt64.toUInt64 + header.bodySize.toUInt64
    let it := { it with total := some (header.bodySize, msgTotal) }
    if it.remaining < msgTotal then
      (it, .finished false (st.fail ("truncated Arrow IPC message: the header declares " ++
        toString msgTotal.toNat ++ " bytes but only " ++ toString it.remaining.toNat ++ " remain")))
    else
      let bodyStart := it.off + headerSize.toInt64.toUInt64
      let it := { it with
        body := handedBody header.type st.schema.isSome bodyStart header.bodySize }
      match st.receive N header.type (viewOf bytes bodyStart header.bodySize) with
      | .error st => (it, .finished false st)
      | .ok st => ({ it with next := some (it.off + msgTotal) }, .again (it.off + msgTotal) st)

/-- An iteration after the header was found. -/
def iterateHeader (bytes : List UInt8) (it : Iteration) (headerSize : Int32)
    (prefixSize : Fin 9) (st : DecoderState D E V A) : Iteration × Continuation D E V A :=
  if headerSize.toInt ≤ prefixSize ∨ it.viewSize < headerSize.toInt64 then
    (it, .finished false (st.fail ("truncated Arrow IPC message: the header length prefix exceeds " ++
      "the " ++ toString it.remaining.toNat ++ " bytes that remain")))
  else
    let header := viewOf bytes it.off headerSize.toInt64
    let it := { it with headerSize := some headerSize }
    match N.verifyHeader st.decoder header >>= fun d => N.decodeHeader d header with
    | .error message => (it, .finished false (st.fail message))
    | .ok (header, d) => iterateBody N bytes it headerSize header { st with decoder := d }

/-- An iteration of `PushFrame` at an offset of a buffer of `len` bytes. -/
def iterate (bytes : List UInt8) (len off : UInt64) (st : DecoderState D E V A) :
    Iteration × Continuation D E V A :=
  let it : Iteration := { off, remaining := len - off, viewSize := (len - off).toInt64 }
  match N.peekHeader st.decoder (viewOf bytes off it.viewSize) with
  | (.noData, d) => (it, .finished true { st with decoder := d, done := true })
  | (.failed message, d) => (it, .finished false ({ st with decoder := d }.fail message))
  | (.header headerSize prefixSize, d) =>
    iterateHeader N bytes it headerSize prefixSize { st with decoder := d }

/-- What `PushFrame` returned, the state that it left, and its iterations. -/
structure Pushed (D E V A : Type) where
  result : Bool
  state : DecoderState D E V A
  iterations : List Iteration := []

/-- What follows an iteration, if `loop` goes on with the next one. -/
def continueWith (loop : UInt64 → DecoderState D E V A → Option (Pushed D E V A)) :
    Iteration × Continuation D E V A → Option (Pushed D E V A)
  | (it, .finished result st) => some ⟨result, st, [it]⟩
  | (it, .again off st) => (loop off st).map fun p => { p with iterations := it :: p.iterations }

/-- The loop of `PushFrame`; `none` if the fuel has run out. -/
def pushLoop (bytes : List UInt8) (len : UInt64) :
    Nat → UInt64 → DecoderState D E V A → Option (Pushed D E V A)
  | 0, _, _ => none
  | fuel + 1, off, st =>
    if off < len then continueWith (pushLoop bytes len fuel) (iterate N bytes len off st)
    else some ⟨true, st, []⟩

/-- `PushFrame`, with enough fuel for the bytes of the buffer. -/
def pushFrame (frame : IpcFrame) (st : DecoderState D E V A) : Option (Pushed D E V A) :=
  if st.failed then some ⟨false, st, []⟩
  else pushLoop N frame.bytes (UInt64.ofNat frame.bytes.length) (frame.bytes.length + 1) 0 st

/-- `TryPopBatch`. -/
def tryPopBatch (st : DecoderState D E V A) : Option (A × DecoderState D E V A) :=
  match st.batches with
  | [] => none
  | batch :: batches => some (batch, { st with batches := batches })

end Decoder

/-! ### Safety -/

/-- What an iteration hands on lies in a buffer of `len` bytes, what it computes is what the numbers
say, and its next offset is larger. -/
structure Iteration.Safe (len : Nat) (it : Iteration) : Prop where
  inside : it.off.toNat < len
  /-- The view is the rest of the buffer. -/
  remaining : it.off.toNat + it.remaining.toNat = len
  view : it.viewSize.toInt = it.remaining.toNat
  header : ∀ size ∈ it.headerSize, 0 < size.toInt ∧ it.off.toNat + size.toInt ≤ len
  total : ∀ t ∈ it.total, ∃ size ∈ it.headerSize, 0 ≤ t.1.toInt ∧
    (t.2.toNat : Int) = size.toInt + t.1.toInt
  body : ∀ b ∈ it.body, ∃ size ∈ it.headerSize, (b.1.toNat : Int) = it.off.toNat + size.toInt ∧
    0 ≤ b.2.toInt ∧ b.1.toNat + b.2.toInt ≤ len
  next : ∀ off ∈ it.next, ∃ t ∈ it.total, off.toNat = it.off.toNat + t.2.toNat ∧
    it.off.toNat < off.toNat ∧ off.toNat ≤ len

/-! ### Machine arithmetic -/

theorem toInt_toInt64 {x : UInt64} (h : x.toNat < 2 ^ 63) : x.toInt64.toInt = x.toNat := by
  show x.toBitVec.toInt = _
  refine BitVec.toInt_eq_toNat_of_lt ?_
  have : x.toBitVec.toNat = x.toNat := rfl
  omega

theorem toNat_toUInt64 {x : Int64} (h : 0 ≤ x.toInt) : (x.toUInt64.toNat : Int) = x.toInt := by
  rw [Int64.toNat_toUInt64_of_le (Int64.le_iff_toInt_le.2 h), ← Int64.toNat_toInt]
  omega

theorem toNat_add {x y : UInt64} (h : x.toNat + y.toNat < 2 ^ 64) :
    (x + y).toNat = x.toNat + y.toNat := by
  rw [UInt64.toNat_add, Nat.mod_eq_of_lt h]

/-! ### One iteration -/

section Steps

variable {D E V A : Type} {N : Nanoarrow D E V A} {st st' : DecoderState D E V A}
  {bytes : List UInt8} {len : Nat} {it : Iteration} {headerSize : Int32} {off : UInt64}

@[simp] theorem DecoderState.failed_fail (message : String) : (st.fail message).failed = true := rfl

theorem failed_of_acceptSchema {incoming : ArrowSchema}
    (h : st.acceptSchema N incoming = .error st') : st'.failed = true := by
  unfold DecoderState.acceptSchema at h
  split at h
  · obtain rfl := Except.error.inj h
    rfl
  dsimp only at h
  split at h
  · obtain rfl := Except.error.inj h
    rfl
  split at h
  · obtain rfl := Except.error.inj h
    rfl
  split at h
  · obtain rfl := Except.error.inj h
    rfl
  · cases h

/-- A message that is refused poisons the decoder. -/
theorem failed_of_receive {type : MessageType} {body : List UInt8}
    (h : st.receive N type body = .error st') : st'.failed = true := by
  unfold DecoderState.receive at h
  cases type with
  | schema =>
    dsimp only at h
    split at h
    · obtain rfl := Except.error.inj h
      rfl
    · exact failed_of_acceptSchema h
  | dictionaryBatch | recordBatch =>
    dsimp only at h
    split_ifs at h
    · obtain rfl := Except.error.inj h
      rfl
    split at h
    · obtain rfl := Except.error.inj h
      rfl
    · cases h
  | other => cases h

/-- An iteration is safe, says where the next one begins, and fails only into a poisoned state. -/
structure Goes (len : Nat) (off : UInt64) (r : Iteration × Continuation D E V A) : Prop where
  begins : r.1.off = off
  safe : r.1.Safe len
  again : ∀ off st, r.2 = .again off st → r.1.next = some off
  failed : ∀ st, r.2 = .finished false st → st.failed = true

theorem Goes.of_finished {result : Bool} (h : it.Safe len) (hf : result = false → st.failed = true) :
    Goes len it.off (it, .finished result st) where
  begins := rfl
  safe := h
  again off st hr := by cases hr
  failed st hr := by
    cases hr
    exact hf rfl

theorem goes_iterateBody {header : MessageHeader} (h : it.Safe len) (hlen : len < 2 ^ 63)
    (hsize : it.headerSize = some headerSize) (hbody : it.body = none) (hnext : it.next = none) :
    Goes len it.off (iterateBody N bytes it headerSize header st) := by
  have hinside := h.inside
  have hremaining := h.remaining
  obtain ⟨hpos, hheader⟩ := h.header headerSize hsize
  have hwide : headerSize.toInt64.toInt = headerSize.toInt := Int32.toInt_toInt64 headerSize
  have hcast : (headerSize.toInt64.toUInt64.toNat : Int) = headerSize.toInt := by
    rw [toNat_toUInt64 (by omega), hwide]
  unfold iterateBody
  split_ifs with hneg
  · exact .of_finished h fun _ => rfl
  · have hbodySize : 0 ≤ header.bodySize.toInt := by
      rw [Int64.lt_iff_toInt_lt] at hneg
      simpa using hneg
    have hbodyCast := toNat_toUInt64 hbodySize
    have hlt32 := headerSize.toInt_lt
    have hlt64 := header.bodySize.toInt_lt
    -- neither size is negative, and the sum of the two fits
    have hsum := toNat_add (x := headerSize.toInt64.toUInt64) (y := header.bodySize.toUInt64)
      (by omega)
    dsimp only
    generalize hmsg : headerSize.toInt64.toUInt64 + header.bodySize.toUInt64 = msgTotal at hsum ⊢
    have htotal : (msgTotal.toNat : Int) = headerSize.toInt + header.bodySize.toInt := by omega
    have hsafe : Iteration.Safe len { it with total := some (header.bodySize, msgTotal) } := by
      refine ⟨h.inside, h.remaining, h.view, h.header, ?_, ?_, ?_⟩
      · rintro t ⟨⟩
        exact ⟨headerSize, hsize, hbodySize, htotal⟩
      · rintro b hb
        rw [show it.body = none from hbody] at hb
        cases hb
      · rintro off hoff
        rw [show it.next = none from hnext] at hoff
        cases hoff
    by_cases hshort : it.remaining < msgTotal
    · rw [if_pos hshort]
      exact .of_finished hsafe fun _ => rfl
    · rw [if_neg hshort]
      rw [UInt64.lt_iff_toNat_lt] at hshort
      have hstart := toNat_add (x := it.off) (y := headerSize.toInt64.toUInt64) (by omega)
      have hoff := toNat_add (x := it.off) (y := msgTotal) (by omega)
      generalize it.off + headerSize.toInt64.toUInt64 = bodyStart at hstart ⊢
      generalize it.off + msgTotal = next at hoff ⊢
      have hhanded : ∀ b ∈ handedBody header.type st.schema.isSome bodyStart header.bodySize,
          ∃ size ∈ it.headerSize, (b.1.toNat : Int) = it.off.toNat + size.toInt ∧
            0 ≤ b.2.toInt ∧ b.1.toNat + b.2.toInt ≤ len := by
        intro b hb
        unfold handedBody at hb
        split_ifs at hb
        · obtain rfl := Option.some.inj hb
          refine ⟨headerSize, hsize, ?_, hbodySize, ?_⟩ <;> dsimp only <;> omega
        · cases hb
      cases hr : st.receive N header.type (viewOf bytes bodyStart header.bodySize) with
      | error st' =>
        refine ⟨rfl, ⟨h.inside, h.remaining, h.view, h.header, hsafe.total, hhanded, ?_⟩, nofun, ?_⟩
        · intro off hnone
          rw [show it.next = none from hnext] at hnone
          cases hnone
        · rintro st'' ⟨⟩
          exact failed_of_receive hr
      | ok st' =>
        refine ⟨rfl, ⟨h.inside, h.remaining, h.view, h.header, hsafe.total, hhanded, ?_⟩, ?_, nofun⟩
        · rintro off ⟨⟩
          refine ⟨_, rfl, ?_⟩
          dsimp only
          omega
        · rintro off st'' ⟨⟩
          rfl

theorem goes_iterateHeader {prefixSize : Fin 9} (h : it.Safe len) (hlen : len < 2 ^ 63)
    (htotal : it.total = none) (hbody : it.body = none)
    (hnext : it.next = none) :
    Goes len it.off (iterateHeader N bytes it headerSize prefixSize st) := by
  unfold iterateHeader
  split_ifs with hbad
  · exact .of_finished h fun _ => rfl
  · obtain ⟨hwords, hview⟩ := not_or.1 hbad
    rw [Int64.lt_iff_toInt_lt, Int32.toInt_toInt64, h.view] at hview
    have hremaining := h.remaining
    have hsafe : Iteration.Safe len { it with headerSize := some headerSize } := by
      refine ⟨h.inside, h.remaining, h.view, ?_, ?_, ?_, ?_⟩
      · rintro size ⟨⟩
        dsimp only
        omega
      · intro t ht
        rw [show it.total = none from htotal] at ht
        cases ht
      · intro b hb
        rw [show it.body = none from hbody] at hb
        cases hb
      · intro off hoff
        rw [show it.next = none from hnext] at hoff
        cases hoff
    dsimp only
    split
    · exact .of_finished hsafe fun _ => rfl
    · exact goes_iterateBody hsafe hlen rfl hbody hnext

/-- **Every iteration of a buffer is safe.** -/
theorem goes_iterate {size : UInt64} (hsize : size.toNat = len) (hlen : len < 2 ^ 63)
    (hoff : off < size) : Goes len off (iterate N bytes size off st) := by
  rw [UInt64.lt_iff_toNat_lt] at hoff
  have hsub : (size - off).toNat = size.toNat - off.toNat :=
    UInt64.toNat_sub_of_le _ _ (UInt64.le_iff_toNat_le.2 (by omega))
  have hsafe : Iteration.Safe len
      { off := off, remaining := size - off, viewSize := (size - off).toInt64 } := by
    refine ⟨by dsimp only; omega, by dsimp only; omega, toInt_toInt64 (by omega), nofun, nofun,
      nofun, nofun⟩
  unfold iterate
  dsimp only
  split
  · exact .of_finished hsafe nofun
  · exact .of_finished hsafe fun _ => rfl
  · exact goes_iterateHeader hsafe hlen rfl rfl rfl

/-! ### The loop -/

/-- What the loop leaves, from an offset on. -/
structure Ends (len : Nat) (off : UInt64) (p : Pushed D E V A) : Prop where
  safe : ∀ it ∈ p.iterations, it.Safe len
  first : ∀ it ∈ p.iterations.head?, it.off = off
  /-- Each iteration begins where the one before it says. -/
  linked : p.iterations.IsChain fun it it' => it.next = some it'.off
  failed : p.result = false → p.state.failed = true

/-- The loop ends before the fuel runs out, and more fuel changes nothing. -/
theorem ends_pushLoop {size : UInt64} (hsize : size.toNat = len) (hlen : len < 2 ^ 63)
    {fuel : Nat} (hfuel : len < off.toNat + fuel) (hoff : off.toNat ≤ len) :
    ∃ p, (∀ extra, pushLoop N bytes size (fuel + extra) off st = some p) ∧ Ends len off p := by
  induction fuel generalizing off st with
  | zero => omega
  | succ fuel ih =>
    by_cases hlt : off < size
    · have hgoes : Goes len off (iterate N bytes size off st) := goes_iterate hsize hlen hlt
      generalize hr : iterate N bytes size off st = r at hgoes
      have hloop : ∀ extra, pushLoop N bytes size (fuel + 1 + extra) off st =
          continueWith (pushLoop N bytes size (fuel + extra)) r := by
        intro extra
        rw [show fuel + 1 + extra = (fuel + extra) + 1 by omega, pushLoop, if_pos hlt, hr]
      simp only [hloop]
      obtain ⟨it, continuation⟩ := r
      have hbegins : it.off = off := hgoes.begins
      cases continuation with
      | finished result st' =>
        refine ⟨⟨result, st', [it]⟩, fun extra => rfl, ?_, ?_, .singleton it, ?_⟩
        · intro it' hit
          rw [List.mem_singleton.1 hit]
          exact hgoes.safe
        · rintro it' ⟨⟩
          exact hbegins
        · rintro rfl
          exact hgoes.failed st' rfl
      | again off' st' =>
        have hnext : it.next = some off' := hgoes.again off' st' rfl
        obtain ⟨t, -, -, hgrow, hle⟩ := hgoes.safe.next off' hnext
        rw [hbegins] at hgrow
        obtain ⟨p, hp, hends⟩ := @ih st' off' (by omega) hle
        refine ⟨{ p with iterations := it :: p.iterations }, fun extra => ?_, ?_, ?_, ?_, hends.failed⟩
        · rw [continueWith, hp extra]
          rfl
        · intro it' hit
          rcases List.mem_cons.1 hit with rfl | hit
          · exact hgoes.safe
          · exact hends.safe it' hit
        · rintro it' ⟨⟩
          exact hbegins
        · refine List.isChain_cons.2 ⟨fun it' hit => ?_, hends.linked⟩
          rw [hnext, hends.first it' hit]
    · refine ⟨⟨true, st, []⟩, fun extra => ?_, nofun, nofun, .nil, nofun⟩
      rw [show fuel + 1 + extra = (fuel + extra) + 1 by omega, pushLoop, if_neg hlt]

variable (N) in
/-- **The decoder is bounds-safe, ends, and stays failed**: whatever nanoarrow says about the
headers, every iteration is safe and begins where the one before it ended, any fuel above the size
of the buffer gives the same result, and after a push that failed every later push fails and leaves
the decoder as it is, whatever was popped in between. -/
theorem pushFrame_safe (frame : IpcFrame) (st : DecoderState D E V A) :
    ∃ p, pushFrame N frame st = some p ∧
      (∀ fuel, frame.bytes.length < fuel → st.failed = false →
        pushLoop N frame.bytes (UInt64.ofNat frame.bytes.length) fuel 0 st = some p) ∧
      (∀ it ∈ p.iterations, it.Safe frame.bytes.length) ∧
      p.iterations.IsChain (fun it it' => it.next = some it'.off) ∧
      (p.result = false → ∀ later queue, pushFrame N later { p.state with batches := queue } =
        some ⟨false, { p.state with batches := queue }, []⟩) := by
  have hfits := frame.fits
  have hlater : ∀ (st : DecoderState D E V A) later, st.failed = true →
      pushFrame N later st = some ⟨false, st, []⟩ := by
    intro st later hfailed
    rw [pushFrame, if_pos hfailed]
  by_cases hfailed : st.failed = true
  · refine ⟨⟨false, st, []⟩, hlater st frame hfailed, fun fuel _ hnot => ?_, nofun, .nil, ?_⟩
    · rw [hfailed] at hnot
      cases hnot
    · exact fun _ later queue => hlater { st with batches := queue } later hfailed
  · have hsize : (UInt64.ofNat frame.bytes.length).toNat = frame.bytes.length := by
      rw [UInt64.toNat_ofNat', Nat.mod_eq_of_lt (by omega)]
    obtain ⟨p, hp, hends⟩ : ∃ p, (∀ extra, pushLoop N frame.bytes
        (UInt64.ofNat frame.bytes.length) (frame.bytes.length + 1 + extra) 0 st = some p) ∧
        Ends frame.bytes.length 0 p := ends_pushLoop hsize hfits (by simp) (by simp)
    refine ⟨p, ?_, fun fuel hfuel _ => ?_, hends.safe, hends.linked, fun hresult later queue =>
      hlater { p.state with batches := queue } later (hends.failed hresult)⟩
    · rw [pushFrame, if_neg hfailed]
      exact hp 0
    · have := hp (fuel - (frame.bytes.length + 1))
      rwa [Nat.add_sub_cancel' hfuel] at this

end Steps

end Provider

end VirtualCatalog
