import VirtualCatalog.Provider.FrameEncoder
import VirtualCatalog.Provider.Framing

/-!
# What the encoder writes is what the decoder reads

`ArrowFrameEncoder` and `ArrowFrameDecoder` are written against two libraries, pyarrow and
nanoarrow. What both rely on is that nanoarrow understands single messages of pyarrow.

* `Understands` : nanoarrow decodes the schema message, each dictionary message and each record
  batch that the writer writes.
* `read_schema`, `read_messages` : what is read of a frame of the encoder.
* `pieces_decoded` : a stream goes through the encoder and the decoder unchanged, its pieces pushed
  as frames with batches popped in between.
-/

namespace VirtualCatalog

namespace Provider

section Wire

variable {D E V A S B W : Type}

/-! ### Understanding -/

/-- The dictionary messages of a batch are decoded one after the other. -/
inductive TakesDictionaries (N : Nanoarrow D E V A) :
    D → Option V → List EncodedMessage → D → Option V → Prop
  | nil (d : D) (v : Option V) : TakesDictionaries N d v [] d v
  | cons {d d' d'' d₁ : D} {v v₁ : Option V} {v' : V} {m : EncodedMessage}
      {messages : List EncodedMessage} {body : List UInt8} (hmessage : StandsAlone N m.bytes)
      (hfound : found N d m.bytes = .message .dictionaryBatch body [] d')
      (hdecode : N.decodeDictionary d' body v = .ok (d'', v'))
      (hrest : TakesDictionaries N d'' (some v') messages d₁ v₁) :
      TakesDictionaries N d v (m :: messages) d₁ v₁

/-- nanoarrow understands what pyarrow writes of batches that conform to their schema: `arrayOf` is
a batch as an array, and `Knows schema w d v` says that a decoder and its dictionaries have followed
the writer.  pyarrow writes the schema with what it writes first, and no message has `2 ^ 63`
bytes. -/
structure Understands (N : Nanoarrow D E V A) (P : StreamWriter S B W) (conforms : S → B → Bool)
    (arrayOf : B → A) (Knows : S → W → D → Option V → Prop) : Prop where
  initialized : N.init.2 = true
  lazy : P.eager = false
  schema : ∀ schema, ∃ body d d' d'' incoming encodings dictionaries,
    found N N.init.1 (P.serialize schema).bytes = .message .schema body [] d ∧
    N.decodeSchema d = .ok (incoming, d') ∧ N.encodings incoming = some encodings ∧
    (N.setEndianness d' >>= fun d => N.setSchema d incoming encodings) = .ok d'' ∧
    N.dictionaries encodings = .ok dictionaries ∧
    Knows schema (P.start schema) d'' (some dictionaries)
  batch : ∀ {schema w d v batch}, Knows schema w d v → conforms schema batch = true →
    ∃ d₁ v₁ body d₂ d₃, TakesDictionaries N d v (P.encode w batch).1 d₁ v₁ ∧
      found N d₁ (P.encode w batch).2.1.bytes = .message .recordBatch body [] d₂ ∧
      N.decodeArray d₂ body v₁ = .ok (d₃, arrayOf batch) ∧ Knows schema (P.next w batch) d₃ v₁
  marker : ∀ {schema w d v}, Knows schema w d v → ∃ d', found N d endOfStream.bytes = .marker d'
  schemaFits : ∀ schema, (P.serialize schema).bytes.length < 2 ^ 63
  batchFits : ∀ w batch, (P.messages w batch).length < 2 ^ 63

variable {N : Nanoarrow D E V A} {P : StreamWriter S B W} {conforms : S → B → Bool}
  {arrayOf : B → A} {Knows : S → W → D → Option V → Prop}

/-- A decoder that has followed a writer: it has a schema and has neither ended nor failed. -/
structure DecoderState.Follows (Knows : S → W → D → Option V → Prop) (schema : S) (w : W)
    (st : DecoderState D E V A) : Prop where
  knows : Knows schema w st.decoder st.dictionaries
  schema : st.schema.isSome
  notDone : st.done = false
  notFailed : st.failed = false

/-! ### Reading -/

theorem EncodedMessage.append_ne_nil (m : EncodedMessage) (rest : List UInt8) :
    m.bytes ++ rest ≠ [] := by
  intro h
  have hlong := m.long
  rw [(List.append_eq_nil_iff.1 h).1] at hlong
  exact absurd hlong (by decide)

/-- The dictionary messages leave the dictionaries, and what follows them is read. -/
theorem TakesDictionaries.read {d d₁ : D} {v v₁ : Option V} {messages : List EncodedMessage}
    (h : TakesDictionaries N d v messages d₁ v₁) {st : DecoderState D E V A}
    (hdecoder : st.decoder = d) (hdictionaries : st.dictionaries = v)
    (hschema : st.schema.isSome) (rest : List UInt8) :
    read N st ((messages.map (·.bytes)).flatten ++ rest) =
      read N { st with decoder := d₁, dictionaries := v₁ } rest := by
  induction h generalizing st with
  | nil d v =>
    subst hdecoder hdictionaries
    rfl
  | @cons d d' d'' d₁ v v₁ v' m messages body hmessage hfound hdecode _ ih =>
    subst hdecoder hdictionaries
    have hextends := found_append hmessage st.decoder
      ((messages.map (·.bytes)).flatten ++ rest)
    rw [hfound] at hextends
    have htaken : step N st (m.bytes ++ ((messages.map (·.bytes)).flatten ++ rest)) =
        ({ st with decoder := d'', dictionaries := some v' },
          (messages.map (·.bytes)).flatten ++ rest) := by
      rw [step, hextends.2]
      have hsome : st.schema.isNone = false := by
        rw [← Option.not_isSome, hschema]
        rfl
      simp only [DecoderState.take, DecoderState.receive, hsome, Bool.false_eq_true, if_false,
        hdecode]
    rw [List.map_cons, List.flatten_cons, List.append_assoc, read_of_ne (m.append_ne_nil _), htaken]
    exact ih rfl rfl hschema

/-- **A batch is read as its array**, and the decoder has followed the writer. -/
theorem Understands.read_messages (h : Understands N P conforms arrayOf Knows) {schema : S} {w : W}
    {batch : B} {st : DecoderState D E V A} (hfollows : st.Follows Knows schema w)
    (hconforms : conforms schema batch = true) :
    (read N st (P.messages w batch)).batches = st.batches ++ [arrayOf batch] ∧
      (read N st (P.messages w batch)).schema = st.schema ∧
      (read N st (P.messages w batch)).Follows Knows schema (P.next w batch) := by
  obtain ⟨d₁, v₁, body, d₂, d₃, hdictionaries, hfound, hdecode, hknows⟩ :=
    h.batch hfollows.knows hconforms
  have hsome : st.schema.isNone = false := by
    rw [← Option.not_isSome, hfollows.schema]
    rfl
  have htaken : step N { st with decoder := d₁, dictionaries := v₁ } (P.encode w batch).2.1.bytes =
      ({ st with decoder := d₃, dictionaries := v₁, batches := st.batches ++ [arrayOf batch] },
        []) := by
    rw [step, hfound]
    simp only [DecoderState.take, DecoderState.receive, hsome, Bool.false_eq_true, if_false,
      hdecode]
  have hread : read N st (P.messages w batch) =
      { st with decoder := d₃, dictionaries := v₁, batches := st.batches ++ [arrayOf batch] } := by
    have hne := (P.encode w batch).2.1.append_ne_nil []
    rw [List.append_nil] at hne
    rw [StreamWriter.messages, hdictionaries.read rfl rfl hfollows.schema, read_of_ne hne, htaken,
      read_nil]
  rw [hread]
  exact ⟨rfl, rfl, hknows, hfollows.schema, hfollows.notDone, hfollows.notFailed⟩

/-- **The schema message is read**, by a new decoder. -/
theorem Understands.read_schema (h : Understands N P conforms arrayOf Knows) (schema : S) :
    (read N (newDecoder N) (P.serialize schema).bytes).batches = [] ∧
      (read N (newDecoder N) (P.serialize schema).bytes).Follows Knows schema (P.start schema) := by
  obtain ⟨body, d, d', d'', incoming, encodings, dictionaries, hfound, hdecode, hencodings, hset,
    hdictionaries, hknows⟩ := h.schema schema
  have hnew : newDecoder N = { decoder := N.init.1 } := by
    rw [newDecoder, if_pos h.initialized]
  have hne := (P.serialize schema).append_ne_nil []
  rw [List.append_nil] at hne
  have htaken : step N { decoder := N.init.1 } (P.serialize schema).bytes =
      ({ decoder := d'', schema := some incoming, encodings := some encodings,
         dictionaries := some dictionaries }, []) := by
    rw [step, hfound]
    simp [DecoderState.take, DecoderState.receive, hdecode, DecoderState.acceptSchema, hencodings,
      hset, hdictionaries]
  rw [hnew, read_of_ne hne, htaken, read_nil]
  exact ⟨rfl, hknows, rfl, rfl, rfl⟩

/-! ### A stream -/

/-- The writer after some batches. -/
def StreamWriter.after (P : StreamWriter S B W) (w : W) (batches : List B) : W :=
  batches.foldl P.next w

@[simp] theorem length_messagesOf (w : W) (batches : List B) :
    (P.messagesOf w batches).length = batches.length := by
  induction batches generalizing w with
  | nil => rfl
  | cons batch batches ih => rw [StreamWriter.messagesOf, List.length_cons, ih, List.length_cons]

theorem take_messagesOf (w : W) (batches : List B) (n : Nat) :
    (P.messagesOf w batches).take n = P.messagesOf w (batches.take n) := by
  induction batches generalizing w n with
  | nil => simp [StreamWriter.messagesOf]
  | cons batch batches ih =>
    cases n with
    | zero => rfl
    | succ n => rw [StreamWriter.messagesOf, List.take_succ_cons, List.take_succ_cons,
        StreamWriter.messagesOf, ih]

/-- The frames of some batches are read as their arrays. -/
theorem Understands.pushes_messagesOf (h : Understands N P conforms arrayOf Knows) {schema : S}
    {w : W} {batches : List B} {st : DecoderState D E V A} (hfollows : st.Follows Knows schema w)
    (hconforms : ∀ batch ∈ batches, conforms schema batch = true) :
    (pushes N st (P.messagesOf w batches)).batches = st.batches ++ batches.map arrayOf ∧
      (pushes N st (P.messagesOf w batches)).Follows Knows schema (P.after w batches) := by
  induction batches generalizing w st with
  | nil => exact ⟨(List.append_nil _).symm, hfollows⟩
  | cons batch batches ih =>
    obtain ⟨hbatches, -, hnext⟩ := h.read_messages hfollows (hconforms batch List.mem_cons_self)
    obtain ⟨hmore, hlast⟩ := ih hnext fun b hb => hconforms b (List.mem_cons_of_mem _ hb)
    have hpushes : pushes N st (P.messagesOf w (batch :: batches)) =
        pushes N (read N st (P.messages w batch)) (P.messagesOf (P.next w batch) batches) := by
      rw [StreamWriter.messagesOf, pushes, List.foldl_cons, push_of_not hfollows.notFailed, pushes]
    rw [hpushes]
    refine ⟨?_, hlast⟩
    rw [hmore, hbatches, List.append_assoc]
    rfl

/-- The pieces of a stream are its schema message, the messages of each batch and the end. -/
theorem Understands.pieces_eq_ok (h : Understands N P conforms arrayOf Knows) (schema : S)
    (batches : List B) :
    pieces P schema batches = .ok ((P.serialize schema).bytes ::
      (P.messagesOf (P.start schema) batches ++ [endOfStream.bytes])) := by
  have hinStep : ({ FrameEncoder.init P schema with dropSchema := true } :
      FrameEncoder S W).InStep P := by
    refine ⟨rfl, .inl ⟨rfl, ?_⟩⟩
    show P.held schema = _
    rw [StreamWriter.held, h.lazy]
    rfl
  rw [pieces_eq, hinStep.encodeAll P rfl batches]
  rfl

/-- The frames of a stream, up to a number of its batches. -/
theorem Understands.seen_pushes (h : Understands N P conforms arrayOf Knows) {schema : S}
    {batches : List B} (hconforms : ∀ batch ∈ batches, conforms schema batch = true) :
    (pushes N (newDecoder N) ((P.serialize schema).bytes ::
        P.messagesOf (P.start schema) batches)).batches = batches.map arrayOf ∧
      (pushes N (newDecoder N) ((P.serialize schema).bytes ::
        P.messagesOf (P.start schema) batches)).Follows Knows schema
          (P.after (P.start schema) batches) := by
  obtain ⟨hnone, hfollows⟩ := h.read_schema schema
  have hnew : (newDecoder N).failed = false := by
    rw [newDecoder, if_pos h.initialized]
  obtain ⟨hbatches, hlast⟩ := h.pushes_messagesOf hfollows hconforms
  have hpushes : pushes N (newDecoder N) ((P.serialize schema).bytes ::
      P.messagesOf (P.start schema) batches) =
      pushes N (read N (newDecoder N) (P.serialize schema).bytes)
        (P.messagesOf (P.start schema) batches) := by
    rw [pushes, List.foldl_cons, push_of_not hnew, pushes]
  rw [hpushes]
  refine ⟨?_, hlast⟩
  rw [hbatches, hnone, List.nil_append]

/-- **A stream goes through the encoder and the decoder unchanged**: the encoder cuts the batches of
a schema into pieces, and however many of these are pushed as frames, with batches popped in
between, the arrays that are seen are those of as many batches in order; the decoder has a schema
once one was pushed, it has not failed, and it has seen the end exactly if all were pushed. -/
theorem pieces_decoded (h : Understands N P conforms arrayOf Knows) {schema : S} {batches : List B}
    (hconforms : ∀ batch ∈ batches, conforms schema batch = true) :
    ∃ sent, pieces P schema batches = .ok sent ∧ sent.length = batches.length + 2 ∧
      ∀ calls, calls.filterMap DecoderCall.frame <+: sent →
        let seen := (DecoderUse.after N calls).seen
        let pushed := (calls.filterMap DecoderCall.frame).length
        seen.batches = (batches.take (pushed - 1)).map arrayOf ∧ seen.failed = false ∧
          (seen.schema.isSome ↔ 1 ≤ pushed) ∧ (seen.done = true ↔ pushed = sent.length) := by
  refine ⟨_, h.pieces_eq_ok schema batches, by simp, fun calls hcalls => ?_⟩
  dsimp only
  rw [seen_after]
  generalize calls.filterMap DecoderCall.frame = frames at hcalls
  have htake := List.prefix_iff_eq_take.1 hcalls
  have hlength := hcalls.length_le
  rw [List.length_cons, List.length_append, length_messagesOf, List.length_singleton] at hlength
  rw [List.length_cons, List.length_append, length_messagesOf, List.length_singleton]
  generalize frames.length = pushed at htake hlength
  subst htake
  cases pushed with
  | zero =>
    -- nothing is pushed
    have hnew : newDecoder N = { decoder := N.init.1 } := by
      rw [newDecoder, if_pos h.initialized]
    rw [List.take_zero, hnew]
    simp [DecoderState.seen, pushes]
  | succ k =>
    have hsome : ∀ b ∈ batches.take k, conforms schema b = true := fun b hb =>
      hconforms b (List.mem_of_mem_take hb)
    rw [List.take_succ_cons]
    by_cases hall : k ≤ batches.length
    · -- the schema and some batches
      obtain ⟨hbatches, hfollows⟩ := h.seen_pushes hsome
      rw [List.take_append_of_le_length (by rw [length_messagesOf]; exact hall), take_messagesOf]
      refine ⟨hbatches, hfollows.notFailed, iff_of_true hfollows.schema (by omega), ?_⟩
      refine iff_of_false ?_ (by omega)
      rw [Bool.not_eq_true]
      exact hfollows.notDone
    · -- the end as well
      obtain ⟨hbatches, hfollows⟩ := h.seen_pushes hconforms
      have hk : k = batches.length + 1 := by omega
      obtain ⟨d, hmarker⟩ := h.marker hfollows.knows
      have hne : endOfStream.bytes ≠ [] := by decide
      have hlast : ∀ st frames, pushes N st (frames ++ [endOfStream.bytes]) =
          push N (pushes N st frames) endOfStream.bytes := fun st frames => List.foldl_append ..
      rw [List.take_of_length_le (by simp [hk]), ← List.cons_append, hlast,
        push_of_not hfollows.notFailed, read_of_ne hne, step, hmarker, DecoderState.take, read_nil]
      refine ⟨?_, hfollows.notFailed, iff_of_true hfollows.schema (by omega),
        iff_of_true rfl (by omega)⟩
      rw [List.take_of_length_le (by omega)]
      exact hbatches

end Wire

/-! ### A column of one byte, with a dictionary -/

namespace Sample

/-- A message with the type of the message as its metadata. -/
def tagged (type : UInt8) (body : List UInt8) : EncodedMessage where
  bytes := [0xFF, 0xFF, 0xFF, 0xFF, 1, 0, 0, 0, type] ++ body
  long := by simp
  marked := rfl

/-- The schema message. -/
def byteSchema : SchemaMessage where
  toEncodedMessage := tagged 1 []
  bodyless := rfl

/-- A writer of bytes, which writes a dictionary once. -/
def byteWriter : StreamWriter Unit UInt8 Bool where
  serialize _ := byteSchema
  start _ := false
  encode written byte := (if written then [] else [tagged 2 [7]], tagged 3 [byte], true)
  eager := false

/-- A nanoarrow that knows these messages; it decodes no batch without the dictionary. -/
def byteReader : Nanoarrow Unit Unit UInt8 UInt8 where
  init := ((), true)
  peekHeader := ipc.peekHeader
  verifyHeader d _ := .ok d
  decodeHeader d header :=
    if header.drop 8 = [1] then .ok (⟨.schema, 0⟩, d)
    else if header.drop 8 = [2] then .ok (⟨.dictionaryBatch, 1⟩, d)
    else if header.drop 8 = [3] then .ok (⟨.recordBatch, 1⟩, d)
    else .error "unknown message type"
  decodeSchema d := .ok (.mk "+s" "" true [] none, d)
  encodings _ := some ()
  setEndianness d := .ok d
  setSchema d _ _ := .ok d
  dictionaries _ := .ok 0
  decodeDictionary d body _ := .ok (d, body.headD 0)
  decodeArray d body dictionary :=
    if dictionary = some 7 then .ok (d, body.headD 0) else .error "unknown dictionary"

/-- The reader has the dictionary if it was written. -/
def Knows (_ : Unit) (written : Bool) (_ : Unit) (dictionary : Option UInt8) : Prop :=
  written = true → dictionary = some 7

theorem peekHeader_tagged (d : Unit) (type : UInt8) (body rest : List UInt8) :
    byteReader.peekHeader d ((tagged type body).bytes ++ rest) = (.header 9 8, d) := by
  have hlong : ¬((tagged type body).bytes ++ rest).length < 8 := by simp [tagged]
  dsimp only [byteReader, ipc, readHeaderPrefix]
  rw [if_neg hlong]
  rfl

theorem standsAlone_dictionary : StandsAlone byteReader (tagged 2 [7]).bytes := by
  have hpeek := peekHeader_tagged () 2 [7]
  have hsingle : byteReader.peekHeader () (tagged 2 [7]).bytes = (.header 9 8, ()) := by
    simpa using hpeek []
  refine ⟨by decide, fun d rest => ?_, fun d d' headerSize prefixSize h => ?_,
    fun d d' d'' headerSize prefixSize header h hlt hdecoded => ?_⟩
  · rw [hpeek, hsingle]
  · rw [hsingle] at h
    cases h
    exact .inr (by decide)
  · rw [hsingle] at h
    cases h
    replace hdecoded : Except.ok ((⟨.dictionaryBatch, 1⟩ : MessageHeader), ()) =
        .ok (header, d'') := hdecoded
    cases hdecoded
    exact .inr (by decide)

theorem found_tagged (type : UInt8) (body : List UInt8) :
    found byteReader () (tagged type body).bytes =
      foundHeader byteReader (tagged type body).bytes 9 8 () := by
  have hpeek := peekHeader_tagged () type body []
  rw [List.append_nil] at hpeek
  rw [found, hpeek]

theorem found_schema : found byteReader () byteSchema.bytes = .message .schema [] [] () :=
  (found_tagged 1 []).trans rfl

theorem found_batch (byte : UInt8) :
    found byteReader () (tagged 3 [byte]).bytes = .message .recordBatch [byte] [] () :=
  (found_tagged 3 [byte]).trans rfl

theorem found_dictionary :
    found byteReader () (tagged 2 [7]).bytes = .message .dictionaryBatch [7] [] () :=
  (found_tagged 2 [7]).trans rfl

theorem understands_bytes : Understands byteReader byteWriter (fun _ _ => true) id Knows where
  initialized := rfl
  lazy := rfl
  schema _ := ⟨[], (), (), (), .mk "+s" "" true [] none, (), 0, found_schema, rfl, rfl, rfl,
    rfl, nofun⟩
  batch {schema w d v batch} hknows _ := by
    cases w with
    | false =>
      refine ⟨(), some 7, [batch], (), (), ?_, found_batch batch, rfl, fun _ => rfl⟩
      exact .cons standsAlone_dictionary found_dictionary rfl (.nil _ _)
    | true =>
      obtain rfl := hknows rfl
      exact ⟨(), some 7, [batch], (), (), .nil _ _, found_batch batch, rfl, fun _ => rfl⟩
  marker _ := ⟨(), rfl⟩
  schemaFits _ := by
    have hshort : byteSchema.bytes.length ≤ 9 := Nat.le_refl 9
    show byteSchema.bytes.length < 2 ^ 63
    omega
  batchFits w batch := by
    have hshort : (byteWriter.messages w batch).length ≤ 20 := by
      cases w with
      | false => exact Nat.le_refl 20
      | true => exact Nat.le_of_ble_eq_true rfl
    omega

end Sample

theorem pieces_decoded_bytes :
    ∃ sent, pieces Sample.byteWriter () [4, 5] = .ok sent ∧ sent.length = 4 ∧
      ∀ calls, calls.filterMap DecoderCall.frame <+: sent →
        let seen := (DecoderUse.after Sample.byteReader calls).seen
        let pushed := (calls.filterMap DecoderCall.frame).length
        seen.batches = (([4, 5] : List UInt8).take (pushed - 1)).map id ∧ seen.failed = false ∧
          (seen.schema.isSome ↔ 1 ≤ pushed) ∧ (seen.done = true ↔ pushed = sent.length) :=
  pieces_decoded Sample.understands_bytes fun _ _ => rfl

end Provider

end VirtualCatalog
