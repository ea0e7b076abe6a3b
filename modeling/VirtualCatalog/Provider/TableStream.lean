import VirtualCatalog.Provider.Listing
import VirtualCatalog.Provider.WireFormat

/-!
# A table as one payload

The scan UDF returns its table as a complete stream of pyarrow in one blob, which the scan decodes
at once.  A blob that was cut is not always noticed: nothing in a stream says how many batches there
are, and the scan does not look for the marker at its end.

* `makeStreamFromIpc` : the code.
* `PeeksPrefix` : what nanoarrow looks at to find a header.
* `StreamWriter.messageList` : the messages of a stream; `Boundary` : a number of whole messages.
* `cut_message`, `cut_dictionaries`, `cut_batches` : what is read of cut messages.
* `makeStreamFromIpc_cut` : what is decoded of a payload that was cut anywhere.
-/

namespace VirtualCatalog

namespace Provider

section Decoding

variable {D E V A : Type} (N : Nanoarrow D E V A)

/-! ### The code -/

/-- `PushOrThrow`. -/
def pushOrThrow (what : String) (frame : IpcFrame) (st : DecoderState D E V A) :
    Option (Except ProviderError (DecoderState D E V A)) :=
  (pushFrame N frame st).map fun p =>
    if p.result then .ok p.state
    else .error (.io (what ++ ": could not decode the Arrow IPC the provider returned: " ++
      p.state.errorMessage))

/-- `PreloadedStream`. -/
structure PreloadedStream (A : Type) where
  schema : ArrowSchema
  /-- What is handed out, one by one. -/
  batches : List A

/-- Pop all batches. -/
def popBatches (st : DecoderState D E V A) : List A :=
  match _h : tryPopBatch st with
  | none => []
  | some (batch, st') => batch :: popBatches st'
termination_by st.batches.length
decreasing_by
  unfold tryPopBatch at _h
  split at _h
  · cases _h
  next hbatches =>
    cases _h
    rw [hbatches]
    exact Nat.lt_succ_self _

/-- `MakeStreamFromIpc`; `none` if the fuel has run out. -/
def makeStreamFromIpc (what : String) (frame : IpcFrame) :
    Option (Except ProviderError (PreloadedStream A)) :=
  (pushOrThrow N what frame (newDecoder N)).map fun pushed => do
    let st ← pushed
    match st.schema with
    | none => .error (.io (what ++ ": the provider's Arrow payload carried no schema message"))
    | some schema => .ok ⟨schema, popBatches st⟩

/-- nanoarrow looks at the first eight bytes to find a header, and needs all of them. -/
structure PeeksPrefix : Prop where
  short : ∀ d bytes, bytes.length < 8 → ∃ message d', N.peekHeader d bytes = (.failed message, d')
  long : ∀ d bytes rest, 8 ≤ bytes.length → N.peekHeader d (bytes ++ rest) = N.peekHeader d bytes

variable {N} {st st' : DecoderState D E V A}

theorem popBatches_eq (st : DecoderState D E V A) : popBatches st = st.batches := by
  obtain ⟨batches, hbatches⟩ : ∃ batches, st.batches = batches := ⟨_, rfl⟩
  induction batches generalizing st with
  | nil =>
    have hnone : tryPopBatch st = none := by rw [tryPopBatch, hbatches]
    rw [popBatches, hbatches]
    split
    · rfl
    next h => rw [hnone] at h; cases h
  | cons batch batches ih =>
    have hsome : tryPopBatch st = some (batch, { st with batches := batches }) := by
      rw [tryPopBatch, hbatches]
    rw [popBatches, hbatches]
    split
    next h => rw [hsome] at h; cases h
    next h =>
      rw [hsome] at h
      cases h
      rw [ih _ rfl]

/-! ### What a push returns -/

/-- A continuation returns whether nothing failed, and goes on only then. -/
def Continuation.Tells : Continuation D E V A → Prop
  | .finished result st => result = !st.failed
  | .again _ st => st.failed = false

theorem tells_iterate (h : st.failed = false) (bytes : List UInt8) (len off : UInt64) :
    (iterate N bytes len off st).2.Tells := by
  unfold iterate
  dsimp only
  split
  · exact (congrArg not h).symm
  · rfl
  unfold iterateHeader
  split_ifs
  · rfl
  dsimp only
  split
  · rfl
  unfold iterateBody
  split_ifs
  · rfl
  dsimp only
  split_ifs
  · rfl
  split
  next hreceive =>
    obtain ⟨-, hfailed, -⟩ := receive_error hreceive
    exact (congrArg not hfailed).symm
  next hreceive =>
    obtain ⟨-, hfailed, -⟩ := receive_ok hreceive
    exact hfailed.trans h

theorem result_pushLoop {bytes : List UInt8} {len off : UInt64} {fuel : Nat}
    {p : Pushed D E V A} (hst : st.failed = false)
    (h : pushLoop N bytes len fuel off st = some p) : p.result = !p.state.failed := by
  induction fuel generalizing off st p with
  | zero => cases h
  | succ fuel ih =>
    rw [pushLoop] at h
    split_ifs at h with hlt
    · have htells := tells_iterate (N := N) hst bytes len off
      generalize iterate N bytes len off st = r at h htells
      obtain ⟨it, continuation⟩ := r
      cases continuation with
      | finished result st' =>
        obtain rfl := Option.some.inj h
        exact htells
      | again off' st' =>
        obtain ⟨p', hp', rfl⟩ := Option.map_eq_some_iff.1 h
        exact ih (p := p') htells hp'
    · obtain rfl := Option.some.inj h
      exact (congrArg not hst).symm

/-- `PushFrame` returns whether nothing failed, and leaves what is read of its bytes. -/
theorem pushOrThrow_eq (what : String) (frame : IpcFrame) (hst : st.failed = false) :
    pushOrThrow N what frame st = some (if (read N st frame.bytes).failed = false then
      .ok (read N st frame.bytes)
    else .error (.io (what ++ ": could not decode the Arrow IPC the provider returned: " ++
      (read N st frame.bytes).errorMessage))) := by
  obtain ⟨p, hp, -⟩ := exists_pushFrame (N := N) frame st
  have hstate := state_of_pushFrame hp
  rw [hst, if_neg Bool.false_ne_true] at hstate
  have hresult : p.result = !p.state.failed := by
    rw [pushFrame, hst, if_neg Bool.false_ne_true] at hp
    exact result_pushLoop hst hp
  rw [pushOrThrow, hp, Option.map_some, hresult, hstate]
  cases (read N st frame.bytes).failed <;> rfl

/-! ### A message that was cut -/

/-- A message is found with more bytes after it. -/
theorem PeeksPrefix.found_append (hN : PeeksPrefix N) {m body : List UInt8} {type : MessageType}
    {d d' : D} (hlong : 8 ≤ m.length) (h : found N d m = .message type body [] d')
    (rest : List UInt8) : found N d (m ++ rest) = .message type body rest d' := by
  unfold found at h ⊢
  rw [hN.long d m rest hlong]
  generalize N.peekHeader d m = peeked at h
  obtain ⟨peek, d₁⟩ := peeked
  cases peek with
  | noData => cases h
  | failed message => cases h
  | header headerSize prefixSize =>
    dsimp only at h ⊢
    unfold foundHeader at h ⊢
    by_cases hbad : headerSize.toInt ≤ prefixSize ∨ (m.length : Int) < headerSize.toInt
    · rw [if_pos hbad] at h
      cases h
    · rw [if_neg hbad] at h
      rw [if_neg (by rw [List.length_append]; omega), List.take_append_of_le_length (by omega)]
      split at h
      · cases h
      next header d₂ _ =>
        unfold foundBody at h ⊢
        split_ifs at h with hneg hshort
        injection h with htype hbody hrest hd
        rw [List.drop_eq_nil_iff] at hrest
        have hwhole : headerSize.toInt.toNat + header.bodySize.toInt.toNat = m.length := by omega
        rw [if_neg hneg, if_neg (by rw [List.length_append]; omega), htype, hd, hwhole,
          List.drop_left, List.drop_append_of_le_length (by omega),
          List.take_append_of_le_length (by rw [List.length_drop]; omega), hbody]

/-- Of a message that was cut, none is found. -/
theorem PeeksPrefix.found_cut (hN : PeeksPrefix N) {cut rest body : List UInt8}
    {type : MessageType} {d d' : D} (hrest : rest ≠ [])
    (h : found N d (cut ++ rest) = .message type body [] d') :
    ∃ message d'', found N d cut = .refused message d'' := by
  have hpos : 0 < rest.length := List.length_pos_of_ne_nil hrest
  by_cases hlong : 8 ≤ cut.length
  · unfold found at h ⊢
    rw [hN.long d cut rest hlong] at h
    generalize N.peekHeader d cut = peeked at h ⊢
    obtain ⟨peek, d₁⟩ := peeked
    cases peek with
    | noData => cases h
    | failed message => exact ⟨message, d₁, rfl⟩
    | header headerSize prefixSize =>
      dsimp only at h ⊢
      unfold foundHeader at h ⊢
      by_cases hbad : headerSize.toInt ≤ prefixSize ∨ (cut.length : Int) < headerSize.toInt
      · rw [if_pos hbad]
        exact ⟨_, _, rfl⟩
      · rw [if_neg (by rw [List.length_append]; omega),
          List.take_append_of_le_length (by omega)] at h
        rw [if_neg hbad]
        split at h
        · cases h
        next header d₂ _ =>
          unfold foundBody at h ⊢
          split_ifs at h with hneg hshort
          injection h with htype hbody hnil hd
          -- the body reaches the end of the message, which was cut off
          rw [List.drop_eq_nil_iff, List.length_append] at hnil
          rw [if_neg hneg, if_pos (by omega)]
          exact ⟨_, _, rfl⟩
  · obtain ⟨message, d'', hpeek⟩ := hN.short d cut (by omega)
    refine ⟨message, d'', ?_⟩
    rw [found, hpeek]

/-- What is refused is read as a failure. -/
theorem failed_read_of_refused {bytes : List UInt8} {message : String} {d : D} (hne : bytes ≠ [])
    (h : found N st.decoder bytes = .refused message d) : (read N st bytes).failed = true := by
  rw [read_of_ne hne, step, h, DecoderState.take, read_nil]
  rfl

/-! ### Boundaries -/

/-- The bytes of some messages. -/
def joined (messages : List EncodedMessage) : List UInt8 := (messages.map (·.bytes)).flatten

/-- Some bytes are a number of whole messages. -/
def Boundary (messages : List EncodedMessage) (bytes : List UInt8) : Prop :=
  ∃ n, bytes = joined (messages.take n)

@[simp] theorem joined_nil : joined [] = [] := rfl

@[simp] theorem joined_cons (m : EncodedMessage) (messages : List EncodedMessage) :
    joined (m :: messages) = m.bytes ++ joined messages := rfl

@[simp] theorem joined_append (messages messages' : List EncodedMessage) :
    joined (messages ++ messages') = joined messages ++ joined messages' := by
  simp [joined]

theorem boundary_nil_iff {bytes : List UInt8} : Boundary [] bytes ↔ bytes = [] := by
  simp [Boundary]

theorem boundary_cons_iff {m : EncodedMessage} {messages : List EncodedMessage}
    {bytes : List UInt8} : Boundary (m :: messages) bytes ↔
      bytes = [] ∨ ∃ bytes', bytes = m.bytes ++ bytes' ∧ Boundary messages bytes' := by
  constructor
  · rintro ⟨n, rfl⟩
    cases n with
    | zero => exact .inl rfl
    | succ n => exact .inr ⟨_, rfl, n, rfl⟩
  · rintro (rfl | ⟨bytes', rfl, n, rfl⟩)
    · exact ⟨0, rfl⟩
    · exact ⟨n + 1, rfl⟩

/-- Whole messages after a message. -/
theorem boundary_append_iff {m : EncodedMessage} {messages : List EncodedMessage}
    {bytes : List UInt8} :
    Boundary (m :: messages) (m.bytes ++ bytes) ↔ Boundary messages bytes := by
  rw [boundary_cons_iff]
  constructor
  · rintro (hnil | ⟨bytes', happend, h⟩)
    · exact absurd hnil (m.append_ne_nil bytes)
    · rwa [List.append_cancel_left happend]
  · exact fun h => .inr ⟨bytes, rfl, h⟩

/-- Fewer bytes than a message has. -/
theorem boundary_cut_iff {m : EncodedMessage} {messages : List EncodedMessage}
    {bytes : List UInt8} (h : bytes.length < m.bytes.length) :
    Boundary (m :: messages) bytes ↔ bytes = [] := by
  rw [boundary_cons_iff]
  refine or_iff_left ?_
  rintro ⟨bytes', rfl, -⟩
  rw [List.length_append] at h
  omega

/-- **A message is whole or cut**: it is read, and then what follows; or nothing of it is read, and
the reading fails. -/
theorem cut_message (hN : PeeksPrefix N) {m : EncodedMessage} {type : MessageType}
    {body bytes rest : List UInt8} {d : D} (messages : List EncodedMessage)
    (hst : st.failed = false) (hfound : found N st.decoder m.bytes = .message type body [] d)
    (hreceive : { st with decoder := d }.receive N type body = .ok st')
    (hbytes : bytes <+: m.bytes ++ rest) :
    (¬ m.bytes <+: bytes ∧
        ((read N st bytes).failed = false ↔ Boundary (m :: messages) bytes) ∧
        ((read N st bytes).failed = false → bytes = [])) ∨
      ∃ bytes', bytes = m.bytes ++ bytes' ∧ bytes' <+: rest ∧
        read N st bytes = read N st' bytes' ∧
        (Boundary (m :: messages) bytes ↔ Boundary messages bytes') := by
  by_cases hwhole : m.bytes <+: bytes
  · right
    obtain ⟨bytes', rfl⟩ := hwhole
    refine ⟨bytes', rfl, (List.prefix_append_right_inj _).1 hbytes, ?_, boundary_append_iff⟩
    rw [read_of_ne (m.append_ne_nil bytes'), step, hN.found_append m.long hfound,
      DecoderState.take, hreceive]
  · left
    have hprefix : bytes <+: m.bytes :=
      (List.prefix_or_prefix_of_prefix hbytes (List.prefix_append _ _)).resolve_right hwhole
    obtain ⟨tail, htail⟩ := hprefix
    have hne : tail ≠ [] := by
      rintro rfl
      rw [List.append_nil] at htail
      exact hwhole (htail ▸ List.prefix_refl _)
    have hlt : bytes.length < m.bytes.length := by
      have := List.length_pos_of_ne_nil hne
      rw [← htail, List.length_append]
      omega
    rw [boundary_cut_iff hlt]
    by_cases hnil : bytes = []
    · subst hnil
      rw [read_nil]
      exact ⟨hwhole, iff_of_true hst rfl, fun _ => rfl⟩
    · rw [← htail] at hfound
      obtain ⟨message, d', hrefused⟩ := hN.found_cut hne hfound
      have hfailed := failed_read_of_refused hnil hrefused
      rw [hfailed]
      exact ⟨hwhole, iff_of_false (by decide) hnil, fun h => absurd h (by decide)⟩

end Decoding

section Wire

variable {D E V A S B W : Type} {N : Nanoarrow D E V A} {P : StreamWriter S B W}
  {conforms : S → B → Bool} {arrayOf : B → A} {Knows : S → W → D → Option V → Prop}

/-! ### The messages of a stream -/

/-- The messages of a batch. -/
def StreamWriter.batchMessages (P : StreamWriter S B W) (w : W) (batch : B) :
    List EncodedMessage := (P.encode w batch).1 ++ [(P.encode w batch).2.1]

/-- What a writer writes of some batches until it is closed. -/
def StreamWriter.messageList (P : StreamWriter S B W) (w : W) : List B → List EncodedMessage
  | [] => [endOfStream]
  | batch :: batches => P.batchMessages w batch ++ messageList P (P.next w batch) batches

theorem joined_batchMessages (w : W) (batch : B) :
    joined (P.batchMessages w batch) = P.messages w batch := by
  simp [StreamWriter.batchMessages, StreamWriter.messages, joined]

theorem joined_messageList (w : W) (batches : List B) :
    joined (P.messageList w batches) =
      (P.messagesOf w batches).flatten ++ endOfStream.bytes := by
  induction batches generalizing w with
  | nil => simp [StreamWriter.messageList, StreamWriter.messagesOf]
  | cons batch batches ih =>
    rw [StreamWriter.messageList, joined_append, joined_batchMessages, ih,
      StreamWriter.messagesOf, List.flatten_cons, List.append_assoc]

/-! ### A stream that was cut -/

/-- **Dictionary messages are whole or cut**; one that is read leaves the batches and the schema. -/
theorem cut_dictionaries (hN : PeeksPrefix N) {d d₁ : D} {v v₁ : Option V}
    {dictionaries : List EncodedMessage} (h : TakesDictionaries N d v dictionaries d₁ v₁)
    {st : DecoderState D E V A} (hdecoder : st.decoder = d) (hdictionaries : st.dictionaries = v)
    (hschema : st.schema.isSome) (hst : st.failed = false) (messages : List EncodedMessage)
    {bytes rest : List UInt8} (hbytes : bytes <+: joined dictionaries ++ rest) :
    (¬ joined dictionaries <+: bytes ∧
        ((read N st bytes).failed = false ↔ Boundary (dictionaries ++ messages) bytes) ∧
        ((read N st bytes).failed = false →
          (read N st bytes).batches = st.batches ∧ (read N st bytes).schema = st.schema)) ∨
      ∃ bytes', bytes = joined dictionaries ++ bytes' ∧ bytes' <+: rest ∧
        read N st bytes = read N { st with decoder := d₁, dictionaries := v₁ } bytes' ∧
        (Boundary (dictionaries ++ messages) bytes ↔ Boundary messages bytes') := by
  induction h generalizing st bytes with
  | nil d v =>
    subst hdecoder hdictionaries
    exact .inr ⟨bytes, rfl, hbytes, rfl, .rfl⟩
  | @cons d d' d'' d₁ v v₁ v' m dictionaries body _ hfound hdecode _ ih =>
    subst hdecoder hdictionaries
    have hreceive : ({ st with decoder := d' } : DecoderState D E V A).receive N
        .dictionaryBatch body = .ok { st with decoder := d'', dictionaries := some v' } := by
      have hsome : st.schema.isNone = false := by
        rw [← Option.not_isSome, hschema]
        rfl
      simp only [DecoderState.receive, hsome, Bool.false_eq_true, if_false, hdecode]
    rw [joined_cons, List.append_assoc] at hbytes
    rcases cut_message hN (dictionaries ++ messages) hst hfound hreceive hbytes with
      ⟨hcut, hiff, hnil⟩ | ⟨bytes', rfl, hbytes', hread, hboundary⟩
    · -- the first is cut
      refine .inl ⟨fun hwhole => hcut ((List.prefix_append _ _).trans hwhole), hiff,
        fun hfailed => ?_⟩
      obtain rfl := hnil hfailed
      rw [read_nil]
      exact ⟨rfl, rfl⟩
    · rw [hread, List.cons_append, hboundary, joined_cons]
      have hnext : (({ st with decoder := d'', dictionaries := some v' } :
          DecoderState D E V A)).decoder = d'' := rfl
      rcases ih hnext rfl hschema hst hbytes' with
        ⟨hcut, hiff, hleft⟩ | ⟨bytes'', rfl, hbytes'', hread', hboundary'⟩
      · exact .inl ⟨fun hwhole => hcut ((List.prefix_append_right_inj _).1 hwhole), hiff, hleft⟩
      · exact .inr ⟨bytes'', (List.append_assoc ..).symm, hbytes'', hread', hboundary'⟩

/-- How many batches are wholly in some bytes. -/
def Whole (P : StreamWriter S B W) (w : W) (batches : List B) (bytes : List UInt8) (n : Nat) :
    Prop :=
  n ≤ batches.length ∧ (P.messagesOf w (batches.take n)).flatten <+: bytes ∧
    (n < batches.length → ¬ (P.messagesOf w (batches.take (n + 1))).flatten <+: bytes)

/-- No batch is in fewer bytes than the first one has. -/
theorem whole_zero {w : W} {batch : B} {batches : List B} {bytes : List UInt8}
    (h : ¬ P.messages w batch <+: bytes) : Whole P w (batch :: batches) bytes 0 := by
  refine ⟨Nat.zero_le _, List.nil_prefix, fun _ => ?_⟩
  simpa [StreamWriter.messagesOf] using h

/-- A batch that is wholly there, and those after it. -/
theorem Whole.succ {w : W} {batch : B} {batches : List B} {bytes : List UInt8} {n : Nat}
    (h : Whole P (P.next w batch) batches bytes n) :
    Whole P w (batch :: batches) (P.messages w batch ++ bytes) (n + 1) := by
  obtain ⟨hle, hin, hout⟩ := h
  refine ⟨Nat.succ_le_succ hle, ?_, fun hlt hin' => hout (Nat.lt_of_succ_lt_succ hlt) ?_⟩
  · rw [List.take_succ_cons, StreamWriter.messagesOf, List.flatten_cons]
    exact (List.prefix_append_right_inj _).2 hin
  · rw [List.take_succ_cons, StreamWriter.messagesOf, List.flatten_cons] at hin'
    exact (List.prefix_append_right_inj _).1 hin'

/-- **Batches that were cut**: they are read without a failure up to the end of a message, and the
batches that are read are those that are wholly there. -/
theorem cut_batches (h : Understands N P conforms arrayOf Knows) (hN : PeeksPrefix N) {schema : S}
    {w : W} {batches : List B} {st : DecoderState D E V A} (hfollows : st.Follows Knows schema w)
    (hconforms : ∀ batch ∈ batches, conforms schema batch = true) {bytes : List UInt8}
    (hbytes : bytes <+: joined (P.messageList w batches)) :
    ((read N st bytes).failed = false ↔ Boundary (P.messageList w batches) bytes) ∧
      ((read N st bytes).failed = false → (read N st bytes).schema.isSome ∧
        ∃ n, Whole P w batches bytes n ∧
          (read N st bytes).batches = st.batches ++ (batches.take n).map arrayOf) := by
  induction batches generalizing w st bytes with
  | nil =>
    -- only the marker is left
    have hnone : Whole P w [] bytes 0 :=
      ⟨Nat.le_refl 0, List.nil_prefix, fun hlt => absurd hlt (Nat.not_lt_zero 0)⟩
    obtain ⟨d, hmarker⟩ := h.marker hfollows.knows
    rw [StreamWriter.messageList, boundary_cons_iff]
    by_cases hnil : bytes = []
    · subst hnil
      rw [read_nil]
      exact ⟨iff_of_true hfollows.notFailed (.inl rfl),
        fun _ => ⟨hfollows.schema, 0, hnone, (List.append_nil _).symm⟩⟩
    rw [StreamWriter.messageList, joined_cons, joined_nil, List.append_nil] at hbytes
    by_cases hlt : bytes.length < 8
    · obtain ⟨message, d', hpeek⟩ := hN.short st.decoder bytes hlt
      have hfailed := failed_read_of_refused hnil
        (show found N st.decoder bytes = .refused message d' by rw [found, hpeek])
      rw [hfailed]
      refine ⟨iff_of_false (by decide) ?_, fun hnot => absurd hnot (by decide)⟩
      rintro (hempty | ⟨bytes', rfl, -⟩)
      · exact hnil hempty
      · rw [List.length_append] at hlt
        have hlong := endOfStream.long
        omega
    · obtain rfl : bytes = endOfStream.bytes :=
        hbytes.eq_of_length_le (by
          have : endOfStream.bytes.length = 8 := rfl
          omega)
      rw [read_of_ne hnil, step, hmarker, DecoderState.take, read_nil]
      exact ⟨iff_of_true hfollows.notFailed
          (.inr ⟨[], (List.append_nil _).symm, boundary_nil_iff.2 rfl⟩),
        fun _ => ⟨hfollows.schema, 0, hnone, (List.append_nil _).symm⟩⟩
  | cons batch batches ih =>
    obtain ⟨d₁, v₁, body, d₂, d₃, hdictionaries, hfound, hdecode, hknows⟩ :=
      h.batch hfollows.knows (hconforms batch List.mem_cons_self)
    rw [StreamWriter.messageList, StreamWriter.batchMessages, List.append_assoc,
      List.singleton_append]
    rw [StreamWriter.messageList, StreamWriter.batchMessages, List.append_assoc, joined_append,
      List.singleton_append, joined_cons] at hbytes
    rcases cut_dictionaries hN hdictionaries rfl rfl hfollows.schema hfollows.notFailed _ hbytes
      with ⟨hcut, hiff, hleft⟩ | ⟨bytes', rfl, hbytes', hread, hboundary⟩
    · -- a dictionary message is cut
      refine ⟨hiff, fun hfailed => ?_⟩
      obtain ⟨hsame, hschema⟩ := hleft hfailed
      rw [hsame, hschema]
      refine ⟨hfollows.schema, 0, whole_zero fun hwhole => hcut ?_, (List.append_nil _).symm⟩
      exact (List.prefix_append _ _).trans hwhole
    · rw [hread, hboundary]
      have hsome : st.schema.isNone = false := by
        rw [← Option.not_isSome, hfollows.schema]
        rfl
      have hreceive : ({ st with decoder := d₂, dictionaries := v₁ } :
          DecoderState D E V A).receive N .recordBatch body = .ok { st with
            decoder := d₃, dictionaries := v₁, batches := st.batches ++ [arrayOf batch] } := by
        simp only [DecoderState.receive, hsome, Bool.false_eq_true, if_false, hdecode]
      have hopen : ({ st with decoder := d₁, dictionaries := v₁ } :
          DecoderState D E V A).failed = false := hfollows.notFailed
      rcases cut_message hN (P.messageList (P.next w batch) batches) hopen hfound hreceive hbytes'
        with
        ⟨hcut, hiff, hnil⟩ | ⟨bytes'', rfl, hbytes'', hread', hboundary'⟩
      · -- the record batch is cut
        refine ⟨hiff, fun hfailed => ?_⟩
        obtain rfl := hnil hfailed
        rw [read_nil]
        refine ⟨hfollows.schema, 0, whole_zero fun hwhole => hcut ?_, (List.append_nil _).symm⟩
        exact (List.prefix_append_right_inj _).1 hwhole
      · -- the batch is there
        rw [hread', hboundary']
        have hnext : ({ st with decoder := d₃, dictionaries := v₁, batches := st.batches ++
            [arrayOf batch] } : DecoderState D E V A).Follows Knows schema (P.next w batch) :=
          ⟨hknows, hfollows.schema, hfollows.notDone, hfollows.notFailed⟩
        obtain ⟨hiff, hmore⟩ := ih hnext (fun b hb => hconforms b (List.mem_cons_of_mem _ hb))
          hbytes''
        refine ⟨hiff, fun hfailed => ?_⟩
        obtain ⟨hschema, n, hwhole, hbatches⟩ := hmore hfailed
        refine ⟨hschema, n + 1, ?_, ?_⟩
        · have hsucc := hwhole.succ
          rw [StreamWriter.messages, List.append_assoc] at hsucc
          exact hsucc
        · rw [hbatches, List.append_assoc]
          rfl

/-- A new decoder accepts the schema message. -/
theorem Understands.accepts_schema (h : Understands N P conforms arrayOf Knows) (schema : S) :
    ∃ body d st, found N (newDecoder N).decoder (P.serialize schema).bytes =
        .message .schema body [] d ∧
      { newDecoder N with decoder := d }.receive N .schema body = .ok st ∧
      st.batches = [] ∧ st.Follows Knows schema (P.start schema) := by
  obtain ⟨body, d, d', d'', incoming, encodings, dictionaries, hfound, hdecode, hencodings, hset,
    hdictionaries, hknows⟩ := h.schema schema
  have hnew : newDecoder N = { decoder := N.init.1 } := by
    rw [newDecoder, if_pos h.initialized]
  let st : DecoderState D E V A :=
    { decoder := d'', schema := some incoming, encodings := some encodings,
      dictionaries := some dictionaries }
  refine ⟨body, d, st, ?_, ?_, rfl, hknows, rfl, rfl, rfl⟩
  · rw [hnew]
    exact hfound
  · rw [hnew]
    simp [DecoderState.receive, hdecode, DecoderState.acceptSchema, hencodings, hset,
      hdictionaries, st]

/-- **What is decoded of a payload that was cut.** However many bytes of the stream of a table
arrive, `MakeStreamFromIpc` returns; it accepts them exactly if they end where a message of the
stream ends, and what it then hands out is the arrays of the batches that are wholly there, in
order.  So a payload that was cut inside a message is noticed, and one that was cut between two
batches, or only lost its marker, is a shorter or the whole table. -/
theorem makeStreamFromIpc_cut (h : Understands N P conforms arrayOf Knows) (hN : PeeksPrefix N)
    {schema : S} {batches : List B} (hconforms : ∀ batch ∈ batches, conforms schema batch = true)
    (what : String) {frame : IpcFrame} (hcut : frame.bytes <+: P.stream schema batches) :
    ∃ r, makeStreamFromIpc N what frame = some r ∧
      ((∃ stream, r = .ok stream) ↔ frame.bytes ≠ [] ∧
        Boundary ((P.serialize schema).toEncodedMessage ::
          P.messageList (P.start schema) batches) frame.bytes) ∧
      ∀ stream, r = .ok stream → ∃ bytes n, frame.bytes = (P.serialize schema).bytes ++ bytes ∧
        Whole P (P.start schema) batches bytes n ∧
        stream.batches = (batches.take n).map arrayOf := by
  have hnew : (newDecoder N).failed = false := by
    rw [newDecoder, if_pos h.initialized]
  rw [StreamWriter.stream_eq, List.append_assoc, ← joined_messageList] at hcut
  obtain ⟨body, d, st, hfound, hreceive, hnone, hfollows⟩ := h.accepts_schema schema
  refine ⟨_, by rw [makeStreamFromIpc, pushOrThrow_eq what frame hnew, Option.map_some], ?_⟩
  rcases cut_message hN (P.messageList (P.start schema) batches) hnew hfound hreceive hcut with
    ⟨-, hiff, hnil⟩ | ⟨bytes, heq, hbytes, hread, hboundary⟩
  · -- there is no schema message
    by_cases hempty : frame.bytes = []
    · have hschema : (newDecoder N).schema = none := by
        rw [newDecoder, if_pos h.initialized]
      rw [hempty, read_nil, if_pos hnew]
      simp only [bind, Except.bind, hschema]
      exact ⟨iff_of_false (fun hok => by simp at hok) fun hne => hne.1 rfl,
        fun stream hok => by cases hok⟩
    · have hfailed : ¬ (read N (newDecoder N) frame.bytes).failed = false :=
        fun hok => hempty (hnil hok)
      rw [if_neg hfailed]
      exact ⟨iff_of_false (fun hok => by simp [bind, Except.bind] at hok)
        fun hne => hfailed (hiff.2 hne.2), fun stream hok => by cases hok⟩
  · obtain ⟨hok, hmore⟩ := cut_batches h hN hfollows hconforms hbytes
    rw [hread, hboundary, ← hok]
    have hne : frame.bytes ≠ [] := heq ▸ (P.serialize schema).append_ne_nil bytes
    by_cases hfailed : (read N st bytes).failed = false
    · obtain ⟨hschema, n, hwhole, hbatches⟩ := hmore hfailed
      obtain ⟨incoming, hincoming⟩ := Option.isSome_iff_exists.1 hschema
      rw [if_pos hfailed]
      simp only [bind, Except.bind, hincoming]
      refine ⟨iff_of_true ⟨_, rfl⟩ ⟨hne, hfailed⟩,
        fun stream hstream => ⟨bytes, n, heq, hwhole, ?_⟩⟩
      cases hstream
      rw [popBatches_eq, hbatches, hnone, List.nil_append]
    · rw [if_neg hfailed]
      exact ⟨iff_of_false (fun hok => by simp [bind, Except.bind] at hok) fun hne => hfailed hne.2,
        fun stream hstream => by cases hstream⟩

/-- The payload of a whole table is decoded to all its batches. -/
theorem makeStreamFromIpc_stream (h : Understands N P conforms arrayOf Knows)
    (hN : PeeksPrefix N) {schema : S} {batches : List B}
    (hconforms : ∀ batch ∈ batches, conforms schema batch = true) (what : String)
    {frame : IpcFrame} (hframe : frame.bytes = P.stream schema batches) :
    ∃ stream, makeStreamFromIpc N what frame = some (.ok stream) ∧
      stream.batches = batches.map arrayOf := by
  have hcut : frame.bytes <+: P.stream schema batches := ⟨[], by rw [hframe, List.append_nil]⟩
  obtain ⟨r, hr, hiff, hall⟩ := makeStreamFromIpc_cut h hN hconforms what hcut
  have hjoined : frame.bytes = (P.serialize schema).bytes ++
      joined (P.messageList (P.start schema) batches) := by
    rw [hframe, StreamWriter.stream_eq, List.append_assoc, joined_messageList]
  obtain ⟨stream, rfl⟩ := hiff.2 ⟨hjoined ▸ (P.serialize schema).append_ne_nil _,
    (P.messageList (P.start schema) batches).length + 1, by
      rw [List.take_succ_cons, List.take_length, joined_cons, hjoined]⟩
  obtain ⟨bytes, n, heq, ⟨hle, -, hout⟩, hbatches⟩ := hall stream rfl
  have hall : n = batches.length := by
    by_contra hne
    refine hout (by omega) ?_
    rw [List.append_cancel_left (heq.symm.trans hjoined), joined_messageList,
      ← List.take_append_drop (n + 1) (P.messagesOf (P.start schema) batches), List.flatten_append,
      List.append_assoc, take_messagesOf]
    exact List.prefix_append _ _
  refine ⟨stream, hr, ?_⟩
  rw [hbatches, hall, List.take_length]

end Wire

namespace Sample

theorem readInt32LE_append {bytes : List UInt8} (h : 4 ≤ bytes.length) (rest : List UInt8) :
    readInt32LE (bytes ++ rest) = readInt32LE bytes := by
  rw [readInt32LE, List.take_append_of_le_length h, readInt32LE]

theorem peeksPrefix_byteReader : PeeksPrefix byteReader where
  short d bytes h := by
    obtain ⟨message, hmessage⟩ := readHeaderPrefix_of_short h
    exact ⟨message, d, by dsimp only [byteReader, ipc]; rw [hmessage]⟩
  long d bytes rest h := by
    have hlength : readInt32LE ((bytes ++ rest).drop 4) = readInt32LE (bytes.drop 4) := by
      rw [List.drop_append_of_le_length (by omega),
        readInt32LE_append (by rw [List.length_drop]; omega)]
    have hlong : ¬ bytes.length < 8 := by omega
    have hlong' : ¬ (bytes ++ rest).length < 8 := by rw [List.length_append]; omega
    dsimp only [byteReader, ipc, readHeaderPrefix]
    rw [readInt32LE_append (by omega), hlength, if_neg hlong, if_neg hlong']

/-- Two batches, of which only the first arrives. -/
def cutFrame : IpcFrame where
  bytes := byteSchema.bytes ++ byteWriter.messages false 4
  fits := Nat.lt_of_le_of_lt (show _ ≤ 29 from Nat.le_refl 29) (by decide)

end Sample

theorem makeStreamFromIpc_cut_bytes :
    ∃ stream, makeStreamFromIpc Sample.byteReader "scan" Sample.cutFrame = some (.ok stream) ∧
      stream.batches = [4] := by
  have hcut : Sample.cutFrame.bytes <+: Sample.byteWriter.stream () [4, 5] := by decide +kernel
  obtain ⟨r, hr, hiff, hall⟩ := makeStreamFromIpc_cut Sample.understands_bytes
    Sample.peeksPrefix_byteReader (fun _ _ => rfl) "scan" hcut
  obtain ⟨stream, rfl⟩ := hiff.2 ⟨by decide, 3, by decide +kernel⟩
  obtain ⟨bytes, n, heq, ⟨hle, hin, hout⟩, hbatches⟩ := hall stream rfl
  have hbytes : bytes = Sample.byteWriter.messages false 4 := (List.append_cancel_left heq).symm
  subst hbytes
  refine ⟨stream, hr, ?_⟩
  match n, hle with
  | 0, _ => exact absurd (by decide +kernel) (hout (by decide))
  | 1, _ => exact hbatches
  | 2, _ => exact absurd hin (by decide +kernel)

end Provider

end VirtualCatalog
