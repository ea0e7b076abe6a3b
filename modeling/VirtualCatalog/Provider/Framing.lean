import VirtualCatalog.Bytes.LittleEndian
import VirtualCatalog.Provider.FrameReading

/-!
# Cutting a stream into frames

A stream of Arrow messages may be pushed as one frame, or cut between two messages and pushed frame
by frame, with batches popped in between.  `PushFrame` returns at the end-of-stream marker and drops
the rest of its frame, but it decodes the frame that is pushed next.

* `readHeaderPrefix` : what nanoarrow reads of the first bytes of a message; it asks for eight of them,
  also for the marker of four bytes of the format before 0.15.
* `IsMessage` : a message is as long as its header declares.
* `DecoderUse` : a decoder, and what was popped of it; `Seen` : what a use of it shows.
* `Silent` : bytes that show nothing but the schema that they leave.
* `CutAtLegacyMarker` : a frame ends in a marker of four bytes, and four more bytes follow it.
* `EndUnseen` : no frame is cut there, and what is pushed after the frame of the first marker is silent
  and leaves the schema.
* `framing_iff` : the frames show what the stream pushed as one frame shows exactly under this
  condition.
-/

namespace VirtualCatalog

namespace Provider

section Framing

variable {D E V A : Type} {N : Nanoarrow D E V A} {st st' : DecoderState D E V A}

/-! ### What a message leaves -/

theorem acceptSchema_error {incoming : ArrowSchema} (h : st.acceptSchema N incoming = .error st') :
    st'.done = st.done ∧ st'.failed = true ∧ st'.batches = st.batches := by
  unfold DecoderState.acceptSchema at h
  split at h
  · obtain rfl := Except.error.inj h
    exact ⟨rfl, rfl, rfl⟩
  dsimp only at h
  split at h
  · obtain rfl := Except.error.inj h
    exact ⟨rfl, rfl, rfl⟩
  split at h
  · obtain rfl := Except.error.inj h
    exact ⟨rfl, rfl, rfl⟩
  split at h
  · obtain rfl := Except.error.inj h
    exact ⟨rfl, rfl, rfl⟩
  · cases h

theorem acceptSchema_ok {incoming : ArrowSchema} (h : st.acceptSchema N incoming = .ok st') :
    st'.done = st.done ∧ st'.failed = st.failed ∧ st'.batches = st.batches := by
  unfold DecoderState.acceptSchema at h
  split at h
  · cases h
  dsimp only at h
  split at h
  · cases h
  split at h
  · cases h
  split at h
  · cases h
  · obtain rfl := Except.ok.inj h
    exact ⟨rfl, rfl, rfl⟩

/-- A message that is refused leaves the batches. -/
theorem receive_error {type : MessageType} {body : List UInt8}
    (h : st.receive N type body = .error st') :
    st'.done = st.done ∧ st'.failed = true ∧ st'.batches = st.batches := by
  unfold DecoderState.receive at h
  cases type with
  | schema =>
    dsimp only at h
    split at h
    · obtain rfl := Except.error.inj h
      exact ⟨rfl, rfl, rfl⟩
    · obtain ⟨hdone, hfailed, hbatches⟩ := acceptSchema_error h
      exact ⟨hdone, hfailed, hbatches⟩
  | dictionaryBatch | recordBatch =>
    dsimp only at h
    split_ifs at h
    · obtain rfl := Except.error.inj h
      exact ⟨rfl, rfl, rfl⟩
    split at h
    · obtain rfl := Except.error.inj h
      exact ⟨rfl, rfl, rfl⟩
    · cases h
  | other => cases h

/-- A message that is accepted adds a batch if it is one of records. -/
theorem receive_ok {type : MessageType} {body : List UInt8}
    (h : st.receive N type body = .ok st') :
    st'.done = st.done ∧ st'.failed = st.failed ∧
      ∃ added, st'.batches = st.batches ++ added ∧ (added = [] ↔ type ≠ .recordBatch) := by
  unfold DecoderState.receive at h
  cases type with
  | schema =>
    dsimp only at h
    split at h
    · cases h
    · obtain ⟨hdone, hfailed, hbatches⟩ := acceptSchema_ok h
      exact ⟨hdone, hfailed, [], by simp [hbatches], by simp⟩
  | dictionaryBatch =>
    dsimp only at h
    split_ifs at h
    split at h
    · cases h
    · obtain rfl := Except.ok.inj h
      exact ⟨rfl, rfl, [], by simp, by simp⟩
  | recordBatch =>
    dsimp only at h
    split_ifs at h
    split at h
    · cases h
    · obtain rfl := Except.ok.inj h
      exact ⟨rfl, rfl, [_], rfl, by simp⟩
  | other =>
    obtain rfl := Except.ok.inj h
    exact ⟨rfl, rfl, [], by simp, by simp⟩

/-! ### Popping -/

/-- The state with some more batches before those it has. -/
def DecoderState.requeue (popped : List A) (st : DecoderState D E V A) : DecoderState D E V A :=
  { st with batches := popped ++ st.batches }

/-- The same of both outcomes. -/
def requeueBoth (popped : List A) :
    Except (DecoderState D E V A) (DecoderState D E V A) →
      Except (DecoderState D E V A) (DecoderState D E V A)
  | .error st => .error (st.requeue popped)
  | .ok st => .ok (st.requeue popped)

variable (popped : List A)

theorem acceptSchema_requeue (st : DecoderState D E V A) (incoming : ArrowSchema) :
    (st.requeue popped).acceptSchema N incoming =
      requeueBoth popped (st.acceptSchema N incoming) := by
  unfold DecoderState.acceptSchema
  rw [show (st.requeue popped).schema = st.schema from rfl]
  by_cases hchanged : (st.schema.map fun schema => sameLayout schema incoming) = some false
  · rw [if_pos hchanged, if_pos hchanged]
    rfl
  rw [if_neg hchanged, if_neg hchanged]
  dsimp only [DecoderState.requeue]
  cases N.encodings incoming with
  | none => rfl
  | some encodings =>
    dsimp only
    generalize (N.setEndianness st.decoder >>= _) = set
    cases set with
    | error message => rfl
    | ok d =>
      dsimp only
      cases N.dictionaries encodings with
      | error message => rfl
      | ok dictionaries => rfl

theorem receive_requeue (st : DecoderState D E V A) (type : MessageType) (body : List UInt8) :
    (st.requeue popped).receive N type body = requeueBoth popped (st.receive N type body) := by
  have hschema : (st.requeue popped).schema = st.schema := rfl
  unfold DecoderState.receive
  rw [hschema]
  cases type with
  | schema =>
    dsimp only
    rw [show (st.requeue popped).decoder = st.decoder from rfl]
    cases N.decodeSchema st.decoder with
    | error message => rfl
    | ok decoded => exact acceptSchema_requeue popped { st with decoder := decoded.2 } decoded.1
  | dictionaryBatch =>
    dsimp only
    split_ifs
    · rfl
    · rw [show (st.requeue popped).decoder = st.decoder from rfl,
        show (st.requeue popped).dictionaries = st.dictionaries from rfl]
      cases N.decodeDictionary st.decoder body st.dictionaries with
      | error message => rfl
      | ok decoded => rfl
  | recordBatch =>
    dsimp only
    split_ifs
    · rfl
    · rw [show (st.requeue popped).decoder = st.decoder from rfl,
        show (st.requeue popped).dictionaries = st.dictionaries from rfl]
      cases N.decodeArray st.decoder body st.dictionaries with
      | error message => rfl
      | ok decoded =>
        dsimp only [requeueBoth, DecoderState.requeue]
        rw [List.append_assoc]
  | other => rfl

theorem step_requeue (bytes : List UInt8) :
    step N (st.requeue popped) bytes =
      ((step N st bytes).1.requeue popped, (step N st bytes).2) := by
  unfold step
  show (st.requeue popped).take N (found N st.decoder bytes) = _
  cases found N st.decoder bytes with
  | marker d => rfl
  | refused message d => rfl
  | message type body rest d =>
    have hreceive : ({ st.requeue popped with decoder := d } : DecoderState D E V A).receive N type
        body = requeueBoth popped (({ st with decoder := d } : DecoderState D E V A).receive N type
        body) := receive_requeue popped { st with decoder := d } type body
    unfold DecoderState.take
    dsimp only
    rw [hreceive]
    generalize ({ st with decoder := d } : DecoderState D E V A).receive N type body = r
    cases r with
    | error st' => rfl
    | ok st' => rfl

/-- What is queued already makes no difference to what is read. -/
theorem read_requeue (st : DecoderState D E V A) (bytes : List UInt8) :
    read N (st.requeue popped) bytes = (read N st bytes).requeue popped := by
  induction hn : bytes.length using Nat.strong_induction_on generalizing st bytes with
  | _ n ih =>
    by_cases h : bytes = []
    · rw [h, read_nil, read_nil]
    · have hlt : (step N st bytes).2.length < bytes.length := length_step_lt h
      rw [read_of_ne h, read_of_ne h, step_requeue]
      exact ih _ (hn ▸ hlt) _ _ rfl

/-! ### Cutting after a message -/

/-- What is seen of a decoder. -/
structure Seen (A : Type) where
  /-- The batches, the oldest first. -/
  batches : List A
  schema : Option ArrowSchema
  done : Bool
  failed : Bool

/-- What is seen of a decoder that nothing was popped of. -/
def DecoderState.seen (st : DecoderState D E V A) : Seen A :=
  ⟨st.batches, st.schema, st.done, st.failed⟩

/-- The end of the stream was not seen, and nothing failed. -/
def Seen.Open (seen : Seen A) : Prop := seen.done = false ∧ seen.failed = false

/-- The end of the stream was seen or something failed, and not both. -/
def Seen.Over (seen : Seen A) : Prop := seen.done = !seen.failed

/-- `ArrowIpcReadInt32LE`. -/
def readInt32LE (bytes : List UInt8) : Int32 := Int32.ofNat (LittleEndian.value (bytes.take 4))

/-- The size of a header of which the size without its prefix is known. -/
def readHeaderLength (length : Int32) (prefixSize : Fin 9) : Peek :=
  if length < 0 then
    .failed ("Expected message size > 0 but found message size of " ++ toString length.toInt ++
      " bytes")
  else if length = 0 then .noData
  else .header (Int32.ofNat prefixSize + length) prefixSize

/-- `ArrowIpcDecoderReadHeaderPrefix`; before 0.15 a message had no continuation before its length. -/
def readHeaderPrefix (bytes : List UInt8) : Peek :=
  if bytes.length < 8 then
    .failed ("Expected data of at least 8 bytes but only " ++ toString bytes.length ++
      " bytes remain")
  else if readInt32LE bytes = -1 then readHeaderLength (readInt32LE (bytes.drop 4)) 8
  else if readInt32LE bytes < 0 then
    .failed ("Expected 0xFFFFFFFF at start of message but found 0x" ++
      String.ofList ((Nat.toDigits 16 (readInt32LE bytes).toUInt32.toNat).map Char.toUpper))
  else readHeaderLength (readInt32LE bytes) 4

/-- The end-of-stream marker of the format before 0.15. -/
def legacyMarker : List UInt8 := [0, 0, 0, 0]

variable (N) in
/-- `ArrowIpcDecoderPeekHeader` reads the prefix of a message. -/
def ReadsPrefix : Prop := ∀ d bytes, (N.peekHeader d bytes).1 = readHeaderPrefix bytes

variable (N) in
/-- nanoarrow peeks at nothing after the message, and it is as long as its header declares. -/
structure StandsAlone (m : List UInt8) : Prop where
  nonempty : m ≠ []
  peek : ∀ d rest, N.peekHeader d (m ++ rest) = N.peekHeader d m
  header : ∀ d d' headerSize prefixSize, N.peekHeader d m = (.header headerSize prefixSize, d') →
    headerSize.toInt ≤ prefixSize ∨ headerSize.toInt ≤ m.length
  /-- The rest is the body, unless its size is negative. -/
  body : ∀ d d' d'' headerSize (prefixSize : Fin 9) header,
    N.peekHeader d m = (.header headerSize prefixSize, d') → prefixSize < headerSize.toInt →
    (N.verifyHeader d' (m.take headerSize.toInt.toNat) >>= fun d =>
      N.decodeHeader d (m.take headerSize.toInt.toNat)) = .ok (header, d'') →
    header.bodySize.toInt < 0 ∨ headerSize.toInt + header.bodySize.toInt = m.length

variable (N) in
/-- A message, well formed or not. -/
inductive IsMessage (m : List UInt8) : Prop
  /-- It has the eight bytes that nanoarrow asks for. -/
  | whole (hlong : 8 ≤ m.length) (halone : StandsAlone N m)
  /-- It has a length, and is refused whatever follows it. -/
  | refused (hlong : 4 ≤ m.length)
    (hrefused : ∀ d rest, ∃ message d', found N d (m ++ rest) = .refused message d')
  /-- It is the marker of four bytes. -/
  | legacy (hmarker : m = legacyMarker)

theorem IsMessage.long {m : List UInt8} (h : IsMessage N m) : 4 ≤ m.length := by
  cases h with
  | whole hlong => omega
  | refused hlong => exact hlong
  | legacy hmarker => rw [hmarker]; exact le_rfl

theorem IsMessage.nonempty {m : List UInt8} (h : IsMessage N m) : m ≠ [] :=
  List.ne_nil_of_length_pos (Nat.lt_of_lt_of_le (by decide) h.long)

/-- What is found of a message is found of it with more bytes after it, which are left. -/
def Found.Extends (rest : List UInt8) : Found D → Found D → Prop
  | .marker d, whole => whole = .marker d
  | .refused _ d, whole => ∃ message, whole = .refused message d
  | .message type body left d, whole => left = [] ∧ whole = .message type body rest d

theorem found_append {m : List UInt8} (h : StandsAlone N m) (d : D) (rest : List UInt8) :
    (found N d m).Extends rest (found N d (m ++ rest)) := by
  unfold found
  rw [h.peek d rest]
  cases hpeek : N.peekHeader d m with
  | mk peek d' =>
    cases peek with
    | noData => exact rfl
    | failed message => exact ⟨message, rfl⟩
    | header headerSize prefixSize =>
      dsimp only
      unfold foundHeader
      have hheader := h.header d d' headerSize prefixSize hpeek
      by_cases hsmall : headerSize.toInt ≤ prefixSize
      · rw [if_pos (.inl hsmall), if_pos (.inl hsmall)]
        exact ⟨_, rfl⟩
      · have hin : headerSize.toInt.toNat ≤ m.length := by omega
        rw [if_neg (by omega), if_neg (by rw [List.length_append]; omega),
          List.take_append_of_le_length hin]
        cases hdecoded : N.verifyHeader d' (m.take headerSize.toInt.toNat) >>= fun d =>
          N.decodeHeader d (m.take headerSize.toInt.toNat) with
        | error message => exact ⟨message, rfl⟩
        | ok decoded =>
          obtain ⟨header, d''⟩ := decoded
          have hbody := h.body d d' d'' headerSize prefixSize header hpeek (by omega) hdecoded
          dsimp only
          unfold foundBody
          by_cases hneg : header.bodySize.toInt < 0
          · rw [if_pos hneg, if_pos hneg]
            exact ⟨_, rfl⟩
          · have hwhole : headerSize.toInt.toNat + header.bodySize.toInt.toNat = m.length := by
              omega
            have htail : header.bodySize.toInt.toNat ≤ (m.drop headerSize.toInt.toNat).length := by
              rw [List.length_drop]
              omega
            rw [if_neg hneg, if_neg (by omega), if_neg hneg,
              if_neg (by rw [List.length_append]; omega), hwhole, List.drop_length,
              List.drop_left, List.drop_append_of_le_length hin,
              List.take_append_of_le_length htail]
            exact ⟨rfl, rfl⟩

theorem readHeaderPrefix_of_short {bytes : List UInt8} (h : bytes.length < 8) :
    ∃ message, readHeaderPrefix bytes = .failed message := by
  rw [readHeaderPrefix, if_pos h]
  exact ⟨_, rfl⟩

theorem readHeaderPrefix_legacyMarker {rest : List UInt8} (h : 4 ≤ rest.length) :
    readHeaderPrefix (legacyMarker ++ rest) = .noData := by
  have hlong : ¬(legacyMarker ++ rest).length < 8 := by
    rw [List.length_append, legacyMarker]
    simp only [List.length_cons, List.length_nil]
    omega
  rw [readHeaderPrefix, if_neg hlong]
  rfl

/-- A marker of four bytes is refused unless four more bytes are there. -/
theorem step_legacyMarker (hN : ReadsPrefix N) (st : DecoderState D E V A) (rest : List UInt8) :
    (step N st (legacyMarker ++ rest)).2 = [] ∧ (step N st (legacyMarker ++ rest)).1.seen =
      if 4 ≤ rest.length then ⟨st.batches, st.schema, true, st.failed⟩
      else ⟨st.batches, st.schema, st.done, true⟩ := by
  have hpeek := hN st.decoder (legacyMarker ++ rest)
  unfold step found
  generalize N.peekHeader st.decoder (legacyMarker ++ rest) = peeked at hpeek
  obtain ⟨peek, d⟩ := peeked
  by_cases hrest : 4 ≤ rest.length
  · rw [if_pos hrest]
    obtain rfl : peek = .noData := hpeek.trans (readHeaderPrefix_legacyMarker hrest)
    exact ⟨rfl, rfl⟩
  · have hshort : (legacyMarker ++ rest).length < 8 := by
      rw [List.length_append, legacyMarker]
      simp only [List.length_cons, List.length_nil]
      omega
    obtain ⟨message, hmessage⟩ := readHeaderPrefix_of_short hshort
    rw [if_neg hrest]
    obtain rfl : peek = .failed message := hpeek.trans hmessage
    exact ⟨rfl, rfl⟩

/-- A message lets the reading go on after it, or ends it whatever follows, or is the marker of four
bytes. -/
theorem step_append {m : List UInt8} (h : IsMessage N m) (hst : st.seen.Open) :
    (∃ st', st'.seen.Open ∧ ∀ rest, step N st (m ++ rest) = (st', rest)) ∨
      (∃ seen : Seen A, seen.Over ∧
        ∀ rest, (step N st (m ++ rest)).2 = [] ∧ (step N st (m ++ rest)).1.seen = seen) ∨
      m = legacyMarker := by
  obtain ⟨hdone, hfailed⟩ : st.done = false ∧ st.failed = false := hst
  have hrefuses : (∀ rest, ∃ message d, found N st.decoder (m ++ rest) = .refused message d) →
      ∃ seen : Seen A, seen.Over ∧
        ∀ rest, (step N st (m ++ rest)).2 = [] ∧ (step N st (m ++ rest)).1.seen = seen := by
    intro hrefused
    refine ⟨⟨st.batches, st.schema, st.done, true⟩, by simp [Seen.Over, hdone], fun rest => ?_⟩
    obtain ⟨message, d, hwhole⟩ := hrefused rest
    rw [step, hwhole]
    exact ⟨rfl, rfl⟩
  cases h with
  | refused _ hrefused => exact .inr (.inl (hrefuses (hrefused st.decoder)))
  | legacy hmarker => exact .inr (.inr hmarker)
  | whole _ halone =>
    have hextends := found_append halone st.decoder
    generalize found N st.decoder m = alone at hextends
    cases alone with
    | marker d =>
      right; left
      refine ⟨⟨st.batches, st.schema, true, st.failed⟩, by simp [Seen.Over, hfailed],
        fun rest => ?_⟩
      rw [step, show found N st.decoder (m ++ rest) = _ from hextends rest]
      exact ⟨rfl, rfl⟩
    | refused message d =>
      right; left
      refine hrefuses fun rest => ?_
      obtain ⟨message', hwhole⟩ := hextends rest
      exact ⟨message', d, hwhole⟩
    | message type body left d =>
      have hwhole : ∀ rest, found N st.decoder (m ++ rest) = .message type body rest d :=
        fun rest => (hextends rest).2
      unfold step
      cases hreceive : ({ st with decoder := d } : DecoderState D E V A).receive N type body with
      | error st' =>
        right; left
        obtain ⟨hdone', hfailed', -⟩ := receive_error hreceive
        refine ⟨st'.seen, ?_, fun rest => ?_⟩
        · show st'.done = !st'.failed
          rw [hdone', hfailed']
          exact hdone
        · rw [hwhole, DecoderState.take, hreceive]
          exact ⟨rfl, rfl⟩
      | ok st' =>
        left
        obtain ⟨hdone', hfailed', -⟩ := receive_ok hreceive
        refine ⟨st', ⟨hdone'.trans hdone, hfailed'.trans hfailed⟩, fun rest => ?_⟩
        rw [hwhole, DecoderState.take, hreceive]

/-- Nothing is seen both open and over. -/
theorem Seen.Over.not_open {seen : Seen A} (h : seen.Over) : ¬seen.Open := by
  rintro ⟨hdone, hfailed⟩
  rw [Seen.Over, hdone, hfailed] at h
  cases h

theorem over_legacyMarker (hN : ReadsPrefix N) (hst : st.seen.Open) (rest : List UInt8) :
    (read N st (legacyMarker ++ rest)).seen.Over := by
  obtain ⟨hdone, hfailed⟩ : st.done = false ∧ st.failed = false := hst
  obtain ⟨hleft, hseen⟩ := step_legacyMarker hN st rest
  rw [read_of_ne (by simp [legacyMarker]), hleft, read_nil, hseen]
  split_ifs <;> simp [Seen.Over, hdone, hfailed]

/-- What follows some messages is read by the state that they leave, if they leave it open. -/
theorem read_append_of_open (hN : ReadsPrefix N) {messages : List (List UInt8)}
    (h : ∀ m ∈ messages, IsMessage N m) (hst : st.seen.Open)
    (hopen : (read N st messages.flatten).seen.Open) (rest : List UInt8) :
    read N st (messages.flatten ++ rest) = read N (read N st messages.flatten) rest := by
  induction messages generalizing st with
  | nil => simp
  | cons m messages ih =>
    have hm := h m List.mem_cons_self
    have hne : ∀ tail, m ++ tail ≠ [] := fun tail => by simp [hm.nonempty]
    rw [List.flatten_cons] at hopen ⊢
    rw [List.append_assoc]
    rcases step_append hm hst with ⟨st', hopen', hstep⟩ | ⟨seen, hover, hstep⟩ | rfl
    · rw [read_of_ne (hne _), hstep] at hopen
      rw [read_of_ne (hne _), hstep, read_of_ne (hne messages.flatten), hstep]
      exact ih (fun m' hm' => h m' (List.mem_cons_of_mem _ hm')) hopen' hopen
    · rw [read_of_ne (hne _), (hstep messages.flatten).1, read_nil, (hstep messages.flatten).2]
        at hopen
      exact absurd hopen hover.not_open
    · exact absurd hopen (over_legacyMarker hN hst messages.flatten).not_open

variable (N) in
/-- A frame ends in a marker of four bytes to which its messages lead, and four more bytes follow. -/
def CutAtLegacyMarker (st : DecoderState D E V A) (messages : List (List UInt8))
    (rest : List UInt8) : Prop :=
  ∃ before, messages = before ++ [legacyMarker] ∧
    (st.failed = false ∧ (read N st before.flatten).seen.Open) ∧ 4 ≤ rest.length

/-- There the frame fails, and the whole of the stream does not. -/
theorem CutAtLegacyMarker.failed (hN : ReadsPrefix N) {messages : List (List UInt8)}
    {rest : List UInt8} (h : CutAtLegacyMarker N st messages rest)
    (hmessages : ∀ m ∈ messages, IsMessage N m) (hst : st.seen.Open) :
    (read N st messages.flatten).failed = true ∧ (read N st messages.flatten).done = false ∧
      (read N st (messages.flatten ++ rest)).failed = false := by
  obtain ⟨before, rfl, ⟨-, hopen⟩, hrest⟩ := h
  have hread := read_append_of_open hN
    (fun m hm => hmessages m (List.mem_append_left _ hm)) hst hopen
  have hflatten : (before ++ [legacyMarker]).flatten = before.flatten ++ legacyMarker := by simp
  rw [hflatten, List.append_assoc, hread, hread]
  obtain ⟨hdone, hfailed⟩ : (read N st before.flatten).done = false ∧
    (read N st before.flatten).failed = false := hopen
  generalize read N st before.flatten = st' at hdone hfailed
  obtain ⟨hleft, hseen⟩ := step_legacyMarker hN st' rest
  obtain ⟨hleft', hseen'⟩ := step_legacyMarker hN st' []
  rw [List.append_nil] at hleft' hseen'
  rw [if_pos hrest] at hseen
  rw [if_neg (by simp)] at hseen'
  rw [read_of_ne (by simp [legacyMarker]), hleft', read_nil,
    read_of_ne (show legacyMarker ++ rest ≠ [] by simp [legacyMarker]), hleft, read_nil]
  exact ⟨congrArg Seen.failed hseen', (congrArg Seen.done hseen').trans hdone,
    (congrArg Seen.failed hseen).trans hfailed⟩

/-- **Cutting after some messages**: what follows them is read by the state that they leave, or not
at all, unless they end in a marker of four bytes. -/
theorem read_append (hN : ReadsPrefix N) {messages : List (List UInt8)}
    (h : ∀ m ∈ messages, IsMessage N m) (hst : st.seen.Open) (rest : List UInt8) :
    ((read N st messages.flatten).seen.Open ∧
        read N st (messages.flatten ++ rest) = read N (read N st messages.flatten) rest) ∨
      ((read N st messages.flatten).seen.Over ∧
        (read N st (messages.flatten ++ rest)).seen = (read N st messages.flatten).seen) ∨
      CutAtLegacyMarker N st messages rest := by
  induction messages generalizing st with
  | nil =>
    left
    exact ⟨by simpa using hst, by simp⟩
  | cons m messages ih =>
    have hm := h m List.mem_cons_self
    have hne : ∀ tail, m ++ tail ≠ [] := fun tail => by simp [hm.nonempty]
    have hms : ∀ m' ∈ messages, IsMessage N m' := fun m' hm' => h m' (List.mem_cons_of_mem _ hm')
    rw [List.flatten_cons, List.append_assoc, read_of_ne (hne _), read_of_ne (hne _)]
    rcases step_append hm hst with ⟨st', hopen, hstep⟩ | ⟨seen, hover, hstep⟩ | rfl
    · rw [hstep, hstep]
      rcases ih hms hopen with hgo | hend | ⟨before, rfl, ⟨hfailed, hbefore⟩, hrest⟩
      · exact .inl hgo
      · exact .inr (.inl hend)
      · refine .inr (.inr ⟨m :: before, rfl, ⟨hst.2, ?_⟩, hrest⟩)
        rwa [List.flatten_cons, read_of_ne (hne _), hstep]
    · right; left
      obtain ⟨hleft, hseen⟩ := hstep messages.flatten
      obtain ⟨hleft', hseen'⟩ := hstep (messages.flatten ++ rest)
      rw [hleft, hleft', read_nil, read_nil, hseen, hseen']
      exact ⟨hover, rfl⟩
    · right
      obtain ⟨hleft, hseen⟩ := step_legacyMarker hN st messages.flatten
      obtain ⟨hleft', hseen'⟩ := step_legacyMarker hN st (messages.flatten ++ rest)
      obtain ⟨hdone, hfailed⟩ : st.done = false ∧ st.failed = false := hst
      rw [hleft, hleft', read_nil, read_nil, hseen, hseen']
      cases messages with
      | nil =>
        by_cases hrest : 4 ≤ rest.length
        · exact .inr ⟨[], rfl, ⟨hfailed, by simpa using ⟨hdone, hfailed⟩⟩, hrest⟩
        · left
          rw [if_neg (by simp), if_neg (by simpa using hrest)]
          exact ⟨by simp [Seen.Over, hdone], rfl⟩
      | cons m' messages =>
        -- a message follows in the frame, and has four bytes
        left
        have hlong := (hms m' List.mem_cons_self).long
        rw [List.flatten_cons, if_pos (by rw [List.length_append]; omega),
          if_pos (by rw [List.length_append, List.length_append]; omega)]
        exact ⟨by simp [Seen.Over, hfailed], rfl⟩

/-! ### What is read after the end -/

variable (N) in
/-- Bytes of which nothing is seen but the schema that they leave: markers, and messages that are
accepted and hold no records. -/
inductive Silent : DecoderState D E V A → List UInt8 → DecoderState D E V A → Prop
  | nil (st : DecoderState D E V A) : Silent st [] st
  | marker {st : DecoderState D E V A} {bytes : List UInt8} {d : D} (hne : bytes ≠ [])
      (hfound : found N st.decoder bytes = .marker d) :
      Silent st bytes { st with decoder := d, done := true }
  | message {st st' st'' : DecoderState D E V A} {bytes body rest : List UInt8}
      {type : MessageType} {d : D} (hne : bytes ≠ [])
      (hfound : found N st.decoder bytes = .message type body rest d) (htype : type ≠ .recordBatch)
      (haccepted : DecoderState.receive N { st with decoder := d } type body = .ok st')
      (hrest : Silent st' rest st'') : Silent st bytes st''

/-- Silent bytes are read into the state that they leave. -/
theorem Silent.read {bytes : List UInt8} (h : Silent N st bytes st') (hdone : st.done = true) :
    read N st bytes = st' ∧ st'.done = true ∧ st'.failed = st.failed ∧
      st'.batches = st.batches := by
  induction h with
  | nil st => exact ⟨read_nil, hdone, rfl, rfl⟩
  | marker hne hfound =>
    refine ⟨?_, rfl, rfl, rfl⟩
    rw [read_of_ne hne, step, hfound]
    exact read_nil
  | message hne hfound htype haccepted _ ih =>
    obtain ⟨hdone', hfailed, added, hbatches, hadded⟩ := receive_ok haccepted
    obtain ⟨hread, hdone'', hfailed', hbatches'⟩ := ih (hdone'.trans hdone)
    refine ⟨?_, hdone'', hfailed'.trans hfailed, ?_⟩
    · rw [read_of_ne hne, step, hfound, DecoderState.take, haccepted]
      exact hread
    · rw [hbatches', hbatches, hadded.2 htype, List.append_nil]

/-- Batches are only added. -/
theorem length_batches_le (st : DecoderState D E V A) (bytes : List UInt8) :
    st.batches.length ≤ (Provider.read N st bytes).batches.length := by
  induction hn : bytes.length using Nat.strong_induction_on generalizing st bytes with
  | _ n ih =>
    by_cases h : bytes = []
    · rw [h, read_nil]
    · have hlt : (step N st bytes).2.length < bytes.length := length_step_lt h
      rw [read_of_ne h]
      refine le_trans ?_ (ih _ (hn ▸ hlt) _ _ rfl)
      unfold step
      cases found N st.decoder bytes with
      | marker d => exact le_rfl
      | refused message d => exact le_rfl
      | message type body rest d =>
        unfold DecoderState.take
        dsimp only
        cases hreceive : ({ st with decoder := d } : DecoderState D E V A).receive N type body with
        | error st' =>
          obtain ⟨-, -, hbatches⟩ := receive_error hreceive
          exact le_of_eq (congrArg List.length hbatches.symm)
        | ok st' =>
          obtain ⟨-, -, added, hbatches, -⟩ := receive_ok hreceive
          show st.batches.length ≤ st'.batches.length
          rw [hbatches, List.length_append]
          exact Nat.le_add_right _ _

/-- Bytes that are not silent add a batch or fail. -/
theorem silent_or (st : DecoderState D E V A) (bytes : List UInt8) :
    Silent N st bytes (Provider.read N st bytes) ∨ (Provider.read N st bytes).failed = true ∨
      st.batches.length < (Provider.read N st bytes).batches.length := by
  induction hn : bytes.length using Nat.strong_induction_on generalizing st bytes with
  | _ n ih =>
    by_cases h : bytes = []
    · left
      rw [h, read_nil]
      exact .nil st
    · have hlt : (step N st bytes).2.length < bytes.length := length_step_lt h
      rw [read_of_ne h]
      have hrest := ih _ (hn ▸ hlt) (step N st bytes).1 (step N st bytes).2 rfl
      have hmore : (step N st bytes).1.batches.length ≤ _ :=
        length_batches_le (N := N) (step N st bytes).1 (step N st bytes).2
      unfold step at hrest hmore ⊢
      cases hfound : found N st.decoder bytes with
      | marker d =>
        left
        rw [DecoderState.take, read_nil]
        exact .marker h hfound
      | refused message d =>
        right; left
        rw [DecoderState.take, read_nil]
        rfl
      | message type body rest d =>
        rw [hfound] at hrest hmore
        unfold DecoderState.take at hrest hmore ⊢
        dsimp only at hrest hmore ⊢
        cases hreceive : ({ st with decoder := d } : DecoderState D E V A).receive N type body with
        | error st' =>
          right; left
          obtain ⟨-, hfailed, -⟩ := receive_error hreceive
          dsimp only
          rw [read_nil, hfailed]
        | ok st' =>
          rw [hreceive] at hrest hmore
          dsimp only at hrest hmore ⊢
          obtain ⟨-, -, added, hbatches, hadded⟩ := receive_ok hreceive
          have hgrown : st'.batches.length = st.batches.length + added.length := by
            rw [hbatches, List.length_append]
          by_cases htype : type = .recordBatch
          · right; right
            have : 0 < added.length := by
              rw [List.length_pos_iff]
              exact fun hnil => hadded.1 hnil htype
            omega
          · rcases hrest with hsilent | hfailed | hlonger
            · exact .inl (.message h hfound htype hreceive hsilent)
            · exact .inr (.inl hfailed)
            · right; right
              omega

/-! ### Frames -/

variable (N) in
/-- What a frame leaves. -/
def push (st : DecoderState D E V A) (bytes : List UInt8) : DecoderState D E V A :=
  if st.failed then st else Provider.read N st bytes

variable (N) in
/-- What some frames leave. -/
def pushes (st : DecoderState D E V A) (frames : List (List UInt8)) : DecoderState D E V A :=
  frames.foldl (push N) st

variable (N) in
/-- Frames each of which is silent. -/
inductive SilentFrames : DecoderState D E V A → List (List UInt8) → DecoderState D E V A → Prop
  | nil (st : DecoderState D E V A) : SilentFrames st [] st
  | cons {st st' st'' : DecoderState D E V A} {frame : List UInt8} {frames : List (List UInt8)}
      (h : Silent N st frame st') (hrest : SilentFrames st' frames st'') : SilentFrames st (frame :: frames) st''

variable (N) in
/-- No frame is cut at a marker of four bytes, and once a frame's marker was decoded, the frames after
it are silent and leave the schema as it is. -/
def EndUnseen : DecoderState D E V A → List (List (List UInt8)) → Prop
  | _, [] => True
  | st, frame :: frames =>
    if (push N st frame.flatten).done then
      ∃ st', SilentFrames N (push N st frame.flatten) (frames.map List.flatten) st' ∧
        st'.schema = (push N st frame.flatten).schema
    else
      ¬CutAtLegacyMarker N st frame frames.flatten.flatten ∧
        EndUnseen (push N st frame.flatten) frames

@[simp] theorem push_nil (st : DecoderState D E V A) : push N st [] = st := by simp [push]

theorem push_of_failed {bytes : List UInt8} (h : st.failed = true) : push N st bytes = st := by
  rw [push, if_pos h]

theorem push_of_not {bytes : List UInt8} (h : st.failed = false) :
    push N st bytes = Provider.read N st bytes := by
  rw [push, h]
  rfl

theorem pushes_of_failed (h : st.failed = true) (frames : List (List UInt8)) :
    pushes N st frames = st := by
  induction frames with
  | nil => rfl
  | cons frame frames ih => rw [pushes, List.foldl_cons, push_of_failed h, ← pushes, ih]

theorem endUnseen_of_failed (h : st.failed = true) (hdone : st.done = false)
    (frames : List (List (List UInt8))) : EndUnseen N st frames := by
  induction frames with
  | nil => exact trivial
  | cons frame frames ih =>
    rw [EndUnseen, push_of_failed h, hdone]
    refine ⟨?_, ih⟩
    rintro ⟨before, -, ⟨hfailed, -⟩, -⟩
    rw [h] at hfailed
    cases hfailed

/-- Frames without bytes. -/
theorem pushes_nils {frames : List (List UInt8)} (h : ∀ frame ∈ frames, frame = []) :
    pushes N st frames = st ∧ SilentFrames N st frames st := by
  induction frames with
  | nil => exact ⟨rfl, .nil st⟩
  | cons frame frames ih =>
    obtain ⟨hpushes, hsilent⟩ := ih fun frame hframe => h frame (List.mem_cons_of_mem _ hframe)
    obtain rfl := h frame List.mem_cons_self
    refine ⟨?_, .cons (.nil st) hsilent⟩
    rw [pushes, List.foldl_cons, push_nil, ← pushes, hpushes]

theorem endUnseen_nils {frames : List (List (List UInt8))} (h : ∀ frame ∈ frames, frame = []) :
    EndUnseen N st frames := by
  induction frames with
  | nil => exact trivial
  | cons frame frames ih =>
    have hrest : ∀ frame ∈ frames, frame = [] :=
      fun frame hframe => h frame (List.mem_cons_of_mem _ hframe)
    obtain rfl := h frame List.mem_cons_self
    rw [EndUnseen, List.flatten_nil, push_nil]
    split_ifs
    · refine ⟨st, (pushes_nils fun bytes hbytes => ?_).2, rfl⟩
      obtain ⟨frame, hframe, rfl⟩ := List.mem_map.1 hbytes
      rw [hrest frame hframe, List.flatten_nil]
    · refine ⟨?_, ih hrest⟩
      rintro ⟨before, hbefore, -⟩
      simp at hbefore

/-- Silent frames are pushed into the state that they leave. -/
theorem SilentFrames.pushes {frames : List (List UInt8)} (h : SilentFrames N st frames st')
    (hdone : st.done = true) (hfailed : st.failed = false) :
    pushes N st frames = st' ∧ st'.done = true ∧ st'.failed = false ∧
      st'.batches = st.batches := by
  induction h with
  | nil st => exact ⟨rfl, hdone, hfailed, rfl⟩
  | cons h _ ih =>
    obtain ⟨hread, hdone', hfailed', hbatches⟩ := h.read hdone
    obtain ⟨hpushes, hdone'', hfailed'', hbatches'⟩ := ih hdone' (hfailed'.trans hfailed)
    refine ⟨?_, hdone'', hfailed'', hbatches'.trans hbatches⟩
    rw [Provider.pushes, List.foldl_cons, push_of_not hfailed, hread]
    exact hpushes

theorem length_batches_pushes (st : DecoderState D E V A) (frames : List (List UInt8)) :
    st.batches.length ≤ (Provider.pushes N st frames).batches.length := by
  induction frames generalizing st with
  | nil => exact le_rfl
  | cons frame frames ih =>
    refine le_trans ?_ (ih (push N st frame))
    unfold push
    split_ifs
    · exact le_rfl
    · exact length_batches_le st frame

/-- Frames that are not silent add a batch or fail. -/
theorem silentFrames_or (st : DecoderState D E V A) (frames : List (List UInt8)) :
    SilentFrames N st frames (Provider.pushes N st frames) ∨
      (Provider.pushes N st frames).failed = true ∨
      st.batches.length < (Provider.pushes N st frames).batches.length := by
  induction frames generalizing st with
  | nil => exact .inl (.nil st)
  | cons frame frames ih =>
    rw [Provider.pushes, List.foldl_cons, ← Provider.pushes]
    have hmore := length_batches_pushes (N := N) (push N st frame) frames
    have hless : st.batches.length ≤ (push N st frame).batches.length :=
      length_batches_pushes st [frame]
    by_cases hst : st.failed = true
    · right; left
      rw [push_of_failed hst, pushes_of_failed hst, hst]
    rw [Bool.not_eq_true] at hst
    by_cases hfailed : (push N st frame).failed = true
    · right; left
      rw [pushes_of_failed hfailed, hfailed]
    rcases ih (push N st frame) with hrest | hrest | hrest
    · have hframe := silent_or (N := N) st frame
      rw [← push_of_not hst] at hframe
      rcases hframe with hsilent | hfail | hlonger
      · exact .inl (.cons hsilent hrest)
      · exact absurd hfail hfailed
      · right; right
        omega
    · exact .inr (.inl hrest)
    · right; right
      omega

/-- After the end of the stream, frames change nothing that is seen exactly if they are silent and
leave the schema. -/
theorem seen_pushes_iff (hdone : st.done = true) (hfailed : st.failed = false)
    (frames : List (List UInt8)) :
    (Provider.pushes N st frames).seen = st.seen ↔
      ∃ st', SilentFrames N st frames st' ∧ st'.schema = st.schema := by
  constructor
  · intro hseen
    simp only [DecoderState.seen, Seen.mk.injEq] at hseen
    obtain ⟨hbatches, hschema, -, hfailed'⟩ := hseen
    rcases silentFrames_or (N := N) st frames with hsilent | hfail | hlonger
    · exact ⟨_, hsilent, hschema⟩
    · rw [hfailed', hfailed] at hfail
      cases hfail
    · rw [hbatches] at hlonger
      omega
  · rintro ⟨st', hsilent, hschema⟩
    obtain ⟨rfl, hdone', hfailed', hbatches⟩ := hsilent.pushes hdone hfailed
    simp only [DecoderState.seen, Seen.mk.injEq]
    exact ⟨hbatches, hschema, hdone'.trans hdone.symm, hfailed'.trans hfailed.symm⟩

/-- A stream that is read frame by frame, against the whole of it. -/
theorem seen_pushes_read_iff (hN : ReadsPrefix N) {messages : List (List (List UInt8))}
    (hmessages : ∀ m ∈ messages.flatten.dropLast, IsMessage N m) (hst : st.seen.Open) :
    (Provider.pushes N st (messages.map List.flatten)).seen =
        (Provider.read N st messages.flatten.flatten).seen ↔ EndUnseen N st messages := by
  induction messages generalizing st with
  | nil => simp [Provider.pushes, EndUnseen]
  | cons frame frames ih =>
    -- before the frame nothing has failed, so it is read as a part of the whole
    have hpush : push N st frame.flatten = Provider.read N st frame.flatten := push_of_not hst.2
    rw [List.map_cons, List.flatten_cons, List.flatten_append, Provider.pushes, List.foldl_cons,
      ← Provider.pushes, EndUnseen]
    by_cases hlast : frames.flatten = []
    · -- no message follows the frame
      have hempty : ∀ frame' ∈ frames, frame' = [] := List.flatten_eq_nil_iff.1 hlast
      have hnils : ∀ bytes ∈ frames.map List.flatten, bytes = [] := by
        intro bytes hbytes
        obtain ⟨frame', hframe', rfl⟩ := List.mem_map.1 hbytes
        rw [hempty frame' hframe', List.flatten_nil]
      rw [(pushes_nils hnils).1, hlast, List.flatten_nil, List.append_nil, hpush]
      refine iff_of_true rfl ?_
      split_ifs
      · exact ⟨_, (pushes_nils hnils).2, rfl⟩
      · refine ⟨?_, endUnseen_nils hempty⟩
        rintro ⟨-, -, -, hrest⟩
        simp at hrest
    · have hcut : (frame ++ frames.flatten).dropLast = frame ++ frames.flatten.dropLast :=
        List.dropLast_append_of_ne_nil hlast
      rw [List.flatten_cons, hcut] at hmessages
      have hframe : ∀ m ∈ frame, IsMessage N m := fun m hm =>
        hmessages m (List.mem_append_left _ hm)
      have hframes : ∀ m ∈ frames.flatten.dropLast, IsMessage N m := fun m hm =>
        hmessages m (List.mem_append_right _ hm)
      rw [hpush]
      by_cases hlegacy : CutAtLegacyMarker N st frame frames.flatten.flatten
      · -- the frame fails at the marker, which ends the whole stream
        obtain ⟨hfailed, hdone, hwhole⟩ := hlegacy.failed hN hframe hst
        rw [if_neg (by rw [hdone]; exact Bool.false_ne_true), pushes_of_failed hfailed]
        refine iff_of_false (fun hseen => ?_) fun hunseen => hunseen.1 hlegacy
        have hsame := congrArg Seen.failed hseen
        rw [show (DecoderState.seen _).failed = true from hfailed,
          show (DecoderState.seen _).failed = false from hwhole] at hsame
        cases hsame
      rcases read_append hN hframe hst frames.flatten.flatten with
        ⟨hopen, hread⟩ | ⟨hover, hseen⟩ | hlegacy'
      -- the frame leaves the reading open: the induction goes on from there
      · rw [hread, show (Provider.read N st frame.flatten).done = false from hopen.1]
        exact (ih hframes hopen).trans (and_iff_right hlegacy).symm
      · rw [hseen]
        generalize Provider.read N st frame.flatten = after at hover
        -- the frame ended the reading: at its marker, or with an error
        have hover' : after.done = !after.failed := hover
        cases hfailed : after.failed with
        | false =>
          have hdone : after.done = true := by rw [hover', hfailed]; rfl
          rw [if_pos hdone]
          exact seen_pushes_iff hdone hfailed _
        | true =>
          have hdone : after.done = false := by rw [hover', hfailed]; rfl
          rw [hdone, pushes_of_failed hfailed]
          exact iff_of_true rfl ⟨hlegacy, endUnseen_of_failed hfailed hdone _⟩
      · exact absurd hlegacy' hlegacy

/-! ### Using a decoder -/

/-- A call on a decoder. -/
inductive DecoderCall where
  | pushFrame (frame : IpcFrame)
  | tryPopBatch

/-- A decoder, and the batches that were popped of it in order. -/
structure DecoderUse (D E V A : Type) where
  decoder : DecoderState D E V A
  popped : List A := []

namespace DecoderUse

variable (N) in
/-- Make a call. -/
def call (use : DecoderUse D E V A) : DecoderCall → DecoderUse D E V A
  | .pushFrame frame =>
    { use with decoder := ((pushFrame N frame use.decoder).map (·.state)).getD use.decoder }
  | .tryPopBatch =>
    match tryPopBatch use.decoder with
    | none => use
    | some (batch, decoder) => { decoder, popped := use.popped ++ [batch] }

variable (N) in
/-- Make some calls on a new decoder. -/
def after (calls : List DecoderCall) : DecoderUse D E V A :=
  calls.foldl (call N) { decoder := newDecoder N }

/-- The batches that were popped and those that can be, and the rest that is seen of the decoder. -/
def seen (use : DecoderUse D E V A) : Seen A :=
  ⟨use.popped ++ use.decoder.batches, use.decoder.schema, use.decoder.done, use.decoder.failed⟩

end DecoderUse

/-- The bytes that a call pushes. -/
def DecoderCall.frame : DecoderCall → Option (List UInt8)
  | .pushFrame frame => some frame.bytes
  | .tryPopBatch => none

/-- Popping makes no difference to what is seen. -/
theorem foldl_call (use : DecoderUse D E V A) (calls : List DecoderCall) :
    (calls.foldl (DecoderUse.call N) use).decoder.requeue
        (calls.foldl (DecoderUse.call N) use).popped =
      Provider.pushes N (use.decoder.requeue use.popped) (calls.filterMap DecoderCall.frame) := by
  induction calls generalizing use with
  | nil => rfl
  | cons call calls ih =>
    rw [List.foldl_cons, ih]
    cases call with
    | pushFrame frame =>
      rw [List.filterMap_cons_some (show DecoderCall.frame (.pushFrame frame) = _ from rfl),
        Provider.pushes, Provider.pushes, List.foldl_cons]
      congr 1
      obtain ⟨p, hp, -⟩ := exists_pushFrame (N := N) frame use.decoder
      rw [DecoderUse.call, hp]
      show p.state.requeue use.popped = _
      rw [state_of_pushFrame hp, push]
      show _ = if use.decoder.failed = true then _ else _
      split_ifs
      · rfl
      · exact (read_requeue use.popped use.decoder frame.bytes).symm
    | tryPopBatch =>
      rw [List.filterMap_cons_none rfl]
      congr 1
      unfold DecoderUse.call tryPopBatch
      dsimp only
      cases hbatches : use.decoder.batches with
      | nil => rfl
      | cons batch batches =>
        dsimp only [DecoderState.requeue]
        rw [hbatches, List.append_assoc]
        rfl

theorem seen_after (calls : List DecoderCall) :
    (DecoderUse.after N calls).seen =
      (Provider.pushes N (newDecoder N) (calls.filterMap DecoderCall.frame)).seen := by
  have hstart : (newDecoder N).requeue [] = newDecoder N := rfl
  have hcalls := foldl_call (N := N) { decoder := newDecoder N } calls
  rw [hstart] at hcalls
  rw [← hcalls]
  rfl

variable (N) in
/-- **Framing matters only at and after the end**: a stream of messages, of which the last may be
anything, that is cut into frames between two messages and pushed with pops anywhere, shows the
batches, the schema, the end and the failure that it shows when it is pushed as one frame exactly if no
frame is cut at a marker of four bytes, and what is pushed after the frame of the first marker is silent
and leaves the schema. -/
theorem framing_iff (hN : ReadsPrefix N) {messages : List (List (List UInt8))}
    (hmessages : ∀ m ∈ messages.flatten.dropLast, IsMessage N m)
    {calls : List DecoderCall}
    (hcalls : calls.filterMap DecoderCall.frame = messages.map List.flatten)
    {stream : IpcFrame} (hstream : stream.bytes = messages.flatten.flatten) :
    (DecoderUse.after N calls).seen = (DecoderUse.after N [.pushFrame stream]).seen ↔
      EndUnseen N (newDecoder N) messages := by
  have hdone : (newDecoder N).done = false := by
    unfold newDecoder
    split <;> rfl
  have hwhole : (DecoderUse.after N [.pushFrame stream]).seen =
      (push N (newDecoder N) stream.bytes).seen := seen_after [.pushFrame stream]
  rw [seen_after, hcalls, hwhole, hstream]
  cases hfailed : (newDecoder N).failed with
  | true =>
    rw [push_of_failed hfailed, pushes_of_failed hfailed]
    exact iff_of_true rfl (endUnseen_of_failed hfailed hdone _)
  | false =>
    rw [push_of_not hfailed]
    exact seen_pushes_read_iff hN hmessages ⟨hdone, hfailed⟩

variable (N) in
/-- However a stream is cut, the same is seen. -/
def FramingFree : Prop :=
  ∀ (messages : List (List (List UInt8))) (calls : List DecoderCall) (stream : IpcFrame),
    (∀ m ∈ messages.flatten.dropLast, IsMessage N m) →
    calls.filterMap DecoderCall.frame = messages.map List.flatten →
    stream.bytes = messages.flatten.flatten →
    (DecoderUse.after N calls).seen = (DecoderUse.after N [.pushFrame stream]).seen

end Framing

/-! ### A marker before a message -/

namespace Sample

/-- A nanoarrow that knows the prefixes of messages, and no message. -/
def ipc : Nanoarrow Unit Unit Unit Unit where
  init := ((), true)
  peekHeader d bytes := (readHeaderPrefix bytes, d)
  verifyHeader _ _ := .error "Message flatbuffer verification failed"
  decodeHeader _ _ := .error "Message flatbuffer verification failed"
  decodeSchema _ := .error "decoder did not just decode a Schema message"
  encodings _ := none
  setEndianness d := .ok d
  setSchema _ _ _ := .error "unsupported schema"
  dictionaries _ := .ok ()
  decodeDictionary _ _ _ := .error "decoder did not just decode a DictionaryBatch message"
  decodeArray _ _ _ := .error "decoder did not just decode a RecordBatch message"

/-- The end-of-stream marker. -/
def marker : List UInt8 := [0xFF, 0xFF, 0xFF, 0xFF, 0, 0, 0, 0]

/-- A message that ends after its length. -/
def truncated : List UInt8 := [0xFF, 0xFF, 0xFF, 0xFF, 16, 0, 0, 0]

theorem isMessage_marker : IsMessage ipc marker := by
  have hpeek : ∀ d rest, ipc.peekHeader d (marker ++ rest) = (.noData, d) := by
    intro d rest
    have hlong : ¬(marker ++ rest).length < 8 := by simp [marker]
    dsimp only [ipc, readHeaderPrefix]
    rw [if_neg hlong]
    rfl
  have hmarker : ∀ d, ipc.peekHeader d marker = (.noData, d) := fun d => by
    simpa using hpeek d []
  refine .whole (by decide) ⟨by decide, fun d rest => ?_, ?_, ?_⟩
  · rw [hpeek, hmarker]
  · intro d d' headerSize prefixSize h
    rw [hmarker] at h
    cases h
  · intro d d' d'' headerSize prefixSize header h
    rw [hmarker] at h
    cases h

/-- The marker is pushed as one frame, and the truncated message as the next. -/
def twoFrames : List DecoderCall :=
  [.pushFrame ⟨marker, by decide⟩, .tryPopBatch, .pushFrame ⟨truncated, by decide⟩]

/-- Both are pushed as one frame. -/
def oneFrame : IpcFrame := ⟨marker ++ truncated, by decide⟩

end Sample

theorem framing_iff_marker : IsMessage Sample.ipc Sample.marker ∧
    ((DecoderUse.after Sample.ipc Sample.twoFrames).seen =
        (DecoderUse.after Sample.ipc [.pushFrame Sample.oneFrame]).seen ↔
      EndUnseen Sample.ipc (newDecoder Sample.ipc) [[Sample.marker], [Sample.truncated]]) := by
  refine ⟨Sample.isMessage_marker, ?_⟩
  refine @framing_iff _ _ _ _ Sample.ipc (fun _ _ => rfl) [[Sample.marker], [Sample.truncated]] ?_ _
    rfl _ rfl
  intro m hm
  rw [show m = Sample.marker by simpa using hm]
  exact Sample.isMessage_marker

/-- The message after the marker fails only if it is pushed in a frame of its own. -/
theorem not_framingFree : ¬FramingFree Sample.ipc := by
  intro h
  have hseen := h [[Sample.marker], [Sample.truncated]] Sample.twoFrames Sample.oneFrame (by
    intro m hm
    rw [show m = Sample.marker by simpa using hm]
    exact Sample.isMessage_marker) rfl rfl
  have htwo : (DecoderUse.after Sample.ipc Sample.twoFrames).seen.failed = true := by decide
  have hone : (DecoderUse.after Sample.ipc [.pushFrame Sample.oneFrame]).seen.failed = false := by
    decide
  rw [hseen, hone] at htwo
  cases htwo

end Provider

end VirtualCatalog
