import VirtualCatalog.Machine.Basic
import VirtualCatalog.Provider.Framing

/-!
# The life of a host stream

A table function over a host stream opens it when it is bound, hands it to the scan, and closes it
when it ends or is released.  The stream belongs to the bind data until a scan takes it; each owner
has a copy of its release callback.

* `HostStream`, `openHostStream` : the stream, and how it is opened.
* `Life` : a stream with its owners, and what the host has seen of it.
* `hostStreams` : streams are bound, scanned, answered by the host and dropped in any order.
* `HostStream.Told` : the flags of a stream say what the host was told; closing, asking, pushing and
  opening keep to it.
-/

namespace VirtualCatalog

namespace Provider

/-! ### The stream -/

/-- `StreamFunctionInfo`. -/
structure StreamFunctionInfo where
  functionName : String
  openUdf : String
  nextUdf : String
  closeUdf : String

/-- What concerns the host. -/
inductive HostEvent where
  /-- Its open UDF returned a schema that is not NULL. -/
  | opened
  /-- Its next UDF is called. -/
  | next (udf handle : String)
  /-- It has said that the stream ends, by NULL or by a marker. -/
  | saidEnd
  /-- Its close UDF is called. -/
  | close (udf handle : String)
deriving DecidableEq

/-- `HostStream`. -/
structure HostStream (D E V A : Type) where
  /-- The UDF that `next_stmt` calls, once it is prepared. -/
  nextUdf : String := ""
  closeUdf : String
  handle : String
  decoder : DecoderState D E V A
  /-- If `schema_owned`. -/
  schema : Option ArrowSchema := none
  opened : Bool := false
  exhausted : Bool := false
  closed : Bool := false
  lastError : String := ""

section Stream

variable {D E V A : Type} (N : Nanoarrow D E V A)

/-- `CloseOnce`, whether the close UDF fails or not; `conn` is there from the beginning. -/
def HostStream.closeOnce (stream : HostStream D E V A) : HostStream D E V A × List HostEvent :=
  if !stream.opened || stream.closed then (stream, [])
  else ({ stream with closed := true }, [.close stream.closeUdf stream.handle])

/-- `PushFrame`: what it returns, and the decoder. -/
def pushInto (frame : IpcFrame) (st : DecoderState D E V A) : Bool × DecoderState D E V A :=
  match pushFrame N frame st with
  | some p => (p.result, p.state)
  | none => (false, st)

/-- The end that is seen of a decoder. -/
def endSeen (st : DecoderState D E V A) : List HostEvent := if st.done then [.saidEnd] else []

/-- What the host and DuckDB answer while a stream is opened. -/
structure OpenAnswers where
  prepareOpen : Except String Unit := .ok ()
  /-- The error, no row or NULL, or the schema message. -/
  executeOpen : Except String (Option IpcFrame)
  schemaCopied : Bool := true
  prepareNext : Except String Unit := .ok ()

/-- What `OpenHostStream` has done: what it throws, the stream, and what concerned the host. -/
structure OpenResult (D E V A : Type) where
  error : Option String := none
  stream : HostStream D E V A
  events : List HostEvent

/-- It throws, and the stream is destroyed. -/
def HostStream.thrown (stream : HostStream D E V A) (events : List HostEvent) (message : String) :
    OpenResult D E V A where
  error := some message
  stream := stream.closeOnce.1
  events := events ++ stream.closeOnce.2

/-- `OpenHostStream` once the message is pushed. -/
def HostStream.readSchema (stream : HostStream D E V A) (info : StreamFunctionInfo)
    (answers : OpenAnswers) (read : Bool) : OpenResult D E V A :=
  let events := .opened :: endSeen stream.decoder
  if !read || stream.decoder.schema.isNone then
    stream.thrown events ("vcatprovider: stream \"" ++ info.functionName ++
      "\" returned an unreadable Arrow schema: " ++ stream.decoder.errorMessage)
  else if !answers.schemaCopied then
    stream.thrown events ("vcatprovider: stream \"" ++ info.functionName ++
      "\": ArrowSchemaDeepCopy failed")
  else
    let stream := { stream with schema := stream.decoder.schema }
    match answers.prepareNext with
    | .error e =>
      stream.thrown events ("vcatprovider: stream next function \"" ++ info.nextUdf ++
        "\" is unusable: " ++ e)
    | .ok _ => { stream := { stream with nextUdf := info.nextUdf }, events }

/-- The stream with this number, which is not open. -/
def newStream (info : StreamFunctionInfo) (number : Nat) : HostStream D E V A where
  handle := "b" ++ toString number
  closeUdf := info.closeUdf
  decoder := newDecoder N

/-- `OpenHostStream`, of the stream with this number. -/
def openHostStream (info : StreamFunctionInfo) (number : Nat) (answers : OpenAnswers) :
    OpenResult D E V A :=
  let stream := newStream N info number
  match answers.prepareOpen with
  | .error e =>
    stream.thrown [] ("vcatprovider: stream open function \"" ++ info.openUdf ++
      "\" is unusable: " ++ e)
  | .ok _ =>
    match answers.executeOpen with
    | .error e => stream.thrown [] e
    | .ok none =>
      stream.thrown [] ("vcatprovider: stream \"" ++ info.functionName ++
        "\" returned no Arrow schema when opened")
    | .ok (some message) =>
      -- from here on the host has the stream, whatever happens
      let stream := { stream with opened := true }
      if message.bytes.isEmpty then
        stream.thrown [.opened] ("vcatprovider: stream \"" ++ info.functionName ++
          "\" returned an empty Arrow schema when opened")
      else
        { stream with decoder := (pushInto N message stream.decoder).2 }.readSchema info answers
          (pushInto N message stream.decoder).1

/-! ### Its owners -/

/-- `HostStreamData`. -/
structure HostStreamData where
  /-- Its stream has its release callback. -/
  release : Bool
  consumed : Bool := false

/-- What `get_next` returned. -/
inductive Returned (A : Type) where
  | batch (array : A)
  /-- A released array. -/
  | ended
  /-- `EIO`. -/
  | failed

/-- A stream that was bound. -/
structure Life (D E V A : Type) where
  stream : HostStream D E V A
  /-- The stream is not destroyed. -/
  live : Bool
  /-- The bind data, while there is one. -/
  data : Option HostStreamData
  /-- The scan's wrapper has a stream with its release callback. -/
  wrapper : Bool := false
  /-- `get_next` waits for the host. -/
  waiting : Bool := false
  returned : List (Returned A) := []
  events : List HostEvent

namespace Life

/-- The destructor of the stream. -/
def destroy (l : Life D E V A) : Life D E V A :=
  { l with
    live := false
    stream := l.stream.closeOnce.1
    events := l.events ++ l.stream.closeOnce.2 }

/-- The destructor of the bind data. -/
def dropData (l : Life D E V A) (data : HostStreamData) : Life D E V A :=
  if data.release then { l with data := none }.destroy else { l with data := none }

/-- `OpenStreamAndBindSchema`.  What is done with the schema once the stream is opened may throw,
and then the bind data is dropped. -/
def openStreamAndBindSchema (info : StreamFunctionInfo) (number : Nat) (answers : OpenAnswers)
    (bindSchema : Except String Unit) : Life D E V A :=
  let opened := openHostStream N info number answers
  match opened.error with
  | some _ => { stream := opened.stream, live := false, data := none, events := opened.events }
  | none =>
    let data : HostStreamData := { release := true }
    let l : Life D E V A :=
      { stream := opened.stream, live := true, data := some data, events := opened.events }
    match bindSchema with
    | .error _ => l.dropData data
    | .ok _ => l

/-- `TakeHostStreamOnce`; `none` if it throws. -/
def takeHostStreamOnce (l : Life D E V A) (data : HostStreamData) : Option (Life D E V A) :=
  if data.consumed then none
  else some { l with wrapper := data.release, data := some { release := false, consumed := true } }

/-- `get_next` returns. -/
def give (l : Life D E V A) (r : Returned A) : Life D E V A :=
  { l with waiting := false, returned := l.returned ++ [r] }

/-- `get_next` reports an error. -/
def fail (l : Life D E V A) (message : String) : Life D E V A :=
  { l with stream := { l.stream with lastError := message } }.give .failed

/-- `get_next` ends the stream. -/
def exhaust (l : Life D E V A) : Life D E V A :=
  { l with
    stream := { l.stream with exhausted := true }.closeOnce.1
    events := l.events ++ { l.stream with exhausted := true }.closeOnce.2 }.give .ended

/-- An iteration of `get_next`, until it asks the host. -/
def fetch (l : Life D E V A) : Life D E V A :=
  match tryPopBatch l.stream.decoder with
  | some (array, decoder) => { l with stream := { l.stream with decoder } }.give (.batch array)
  | none => { l with
      waiting := true
      events := l.events ++ [.next l.stream.nextUdf l.stream.handle] }

/-- `HostStreamGetNext` is called. -/
def getNext (l : Life D E V A) : Life D E V A :=
  if l.stream.exhausted then l.give .ended else l.fetch

/-- The host's answer to its next UDF. -/
inductive NextAnswer where
  | failed (message : String)
  /-- No row, or NULL. -/
  | null
  | frame (frame : IpcFrame)

/-- The stream has its next frame. -/
def push (l : Life D E V A) (frame : IpcFrame) : Life D E V A :=
  { l with
    stream := { l.stream with decoder := (pushInto N frame l.stream.decoder).2 }
    events := l.events ++ endSeen (pushInto N frame l.stream.decoder).2 }

/-- What `get_next` does with a frame that was pushed. -/
def afterPush (l : Life D E V A) (read : Bool) : Life D E V A :=
  if !read then l.fail l.stream.decoder.errorMessage
  else if l.stream.decoder.batches.isEmpty && l.stream.decoder.done then l.exhaust
  else l.fetch

/-- The rest of an iteration of `get_next`, and the beginning of the next one. -/
def answer (l : Life D E V A) : NextAnswer → Life D E V A
  | .failed message => l.fail message
  | .null => { l with events := l.events ++ [HostEvent.saidEnd] }.exhaust
  | .frame frame => (l.push N frame).afterPush (pushInto N frame l.stream.decoder).1

/-- What can happen to a stream that was bound. -/
inductive Step where
  | produceStream
  | getNext
  | answer (a : NextAnswer)
  /-- The scan's wrapper is destroyed. -/
  | releaseWrapper
  /-- The bind data is destroyed. -/
  | dropData

/-- What a step makes of a stream. -/
def step (l : Life D E V A) : Step → Option (Life D E V A)
  | .produceStream => l.data.bind l.takeHostStreamOnce
  | .getNext => if l.wrapper && !l.waiting then some l.getNext else none
  | .answer a => if l.waiting then some (l.answer N a) else none
  | .releaseWrapper =>
    if l.wrapper && !l.waiting then some { l with wrapper := false }.destroy else none
  | .dropData => l.data.map l.dropData

end Life

/-- What can happen: a function is bound, or something happens to a stream. -/
inductive StreamLabel where
  | bind (info : StreamFunctionInfo) (answers : OpenAnswers) (bindSchema : Except String Unit)
  | onStream (i : Nat) (step : Life.Step)

/-- The streams that were ever bound. -/
def hostStreams : Machine (List (Life D E V A)) StreamLabel where
  next
    | w, .bind info answers bindSchema =>
      some (w ++ [Life.openStreamAndBindSchema N info (w.length + 1) answers bindSchema])
    | w, .onStream i step => w[i]?.bind fun l => (l.step N step).map fun l' => w.set i l'

/-! ### What the host is told -/

/-- A call of a close UDF. -/
def HostEvent.isClose : HostEvent → Bool
  | .close _ _ => true
  | _ => false

/-- A call of a next UDF. -/
def HostEvent.isNext : HostEvent → Bool
  | .next _ _ => true
  | _ => false

/-- The end is said. -/
def HostEvent.isSaidEnd : HostEvent → Bool
  | .saidEnd => true
  | _ => false

/-- The calls of close UDFs. -/
def closes (events : List HostEvent) : List HostEvent := events.filter HostEvent.isClose

/-- The next UDF is not called after such an event. -/
def NoNextAfter (p : HostEvent → Bool) (events : List HostEvent) : Prop :=
  events.Pairwise fun a b => p a = true → b.isNext = false

variable {N} {stream : HostStream D E V A} {events : List HostEvent}

theorem closes_append (events events' : List HostEvent) :
    closes (events ++ events') = closes events ++ closes events' := List.filter_append ..

theorem NoNextAfter.append {p : HostEvent → Bool} {new : List HostEvent} (h : NoNextAfter p events)
    (hnew : NoNextAfter p new)
    (hbefore : ∀ b ∈ new, b.isNext = true → ∀ a ∈ events, p a = false) :
    NoNextAfter p (events ++ new) := by
  refine List.pairwise_append.2 ⟨h, hnew, fun a ha b hb hpa => ?_⟩
  by_contra hnext
  rw [Bool.not_eq_false] at hnext
  rw [hbefore b hb hnext a ha] at hpa
  cases hpa

/-- The flags of a stream say what the host was told. -/
structure HostStream.Told (stream : HostStream D E V A) (events : List HostEvent) : Prop where
  opened : stream.opened = true ↔ .opened ∈ events
  closes : closes events = if stream.closed then [.close stream.closeUdf stream.handle] else []
  closedOpened : stream.closed = true → stream.opened = true
  saidEnd : .saidEnd ∈ events ↔ stream.exhausted = true ∨ stream.decoder.done = true
  quiet : NoNextAfter HostEvent.isClose events

theorem HostStream.Told.not_mem_close (h : stream.Told events) (hopen : stream.closed = false) :
    ∀ a ∈ events, a.isClose = false := by
  intro a ha
  by_contra hclose
  rw [Bool.not_eq_false] at hclose
  have hmem : a ∈ Provider.closes events := List.mem_filter.2 ⟨ha, hclose⟩
  rw [h.closes, hopen] at hmem
  cases hmem

/-- Closing keeps to what was told, and whatever was opened is closed. -/
theorem HostStream.Told.closeOnce (h : stream.Told events) :
    stream.closeOnce.1.Told (events ++ stream.closeOnce.2) ∧
      (stream.closeOnce.1.opened = true → stream.closeOnce.1.closed = true) := by
  unfold HostStream.closeOnce
  cases hopened : stream.opened with
  | false =>
    refine ⟨?_, fun h => ?_⟩
    · show stream.Told (events ++ [])
      rwa [List.append_nil]
    · rw [show stream.opened = true from h] at hopened
      cases hopened
  | true =>
    cases hclosed : stream.closed with
    | true =>
      refine ⟨?_, fun _ => hclosed⟩
      show stream.Told (events ++ [])
      rwa [List.append_nil]
    | false =>
      refine ⟨⟨?_, ?_, fun _ => rfl, ?_, ?_⟩, fun _ => rfl⟩
      · simpa [hopened] using h.opened
      · have hcloses := h.closes
        rw [hclosed] at hcloses
        show Provider.closes (events ++ [_]) = _
        rw [closes_append, hcloses]
        rfl
      · simpa using h.saidEnd
      · refine h.quiet.append (List.pairwise_singleton _ _) fun b hb hnext => ?_
        rw [List.mem_singleton.1 hb] at hnext
        cases hnext

/-- A call of the next UDF before the close. -/
theorem HostStream.Told.next (h : stream.Told events) (hopen : stream.closed = false)
    (udf handle : String) : stream.Told (events ++ [.next udf handle]) where
  opened := by simpa using h.opened
  closes := by
    rw [closes_append, h.closes, hopen]
    rfl
  closedOpened := h.closedOpened
  saidEnd := by simpa using h.saidEnd
  quiet := h.quiet.append (List.pairwise_singleton _ _) fun _ _ _ => h.not_mem_close hopen

/-- The end is said. -/
theorem HostStream.Told.exhaust (h : stream.Told events) (hsaid : .saidEnd ∈ events) :
    { stream with exhausted := true }.Told events where
  opened := h.opened
  closes := h.closes
  closedOpened := h.closedOpened
  saidEnd := by simpa using hsaid
  quiet := h.quiet

/-! ### The decoder's end -/

/-- A marker that was decoded is not taken back. -/
theorem done_read {st : DecoderState D E V A} (h : st.done = true) (bytes : List UInt8) :
    (read N st bytes).done = true := by
  induction hn : bytes.length using Nat.strong_induction_on generalizing st bytes with
  | _ n ih =>
    by_cases hbytes : bytes = []
    · rw [hbytes, read_nil, h]
    · have hlt : (Provider.step N st bytes).2.length < bytes.length := length_step_lt hbytes
      rw [read_of_ne hbytes]
      refine ih _ (hn ▸ hlt) ?_ _ rfl
      unfold Provider.step
      cases found N st.decoder bytes with
      | marker d => rfl
      | refused message d => exact h
      | message type body rest d =>
        unfold DecoderState.take
        dsimp only
        cases hreceive : ({ st with decoder := d } : DecoderState D E V A).receive N type body with
        | error st' => exact (receive_error hreceive).1.trans h
        | ok st' => exact (receive_ok hreceive).1.trans h

theorem done_pushInto {st : DecoderState D E V A} (h : st.done = true) (frame : IpcFrame) :
    (pushInto N frame st).2.done = true := by
  unfold pushInto
  cases hp : pushFrame N frame st with
  | none => exact h
  | some p =>
    show p.state.done = true
    rw [state_of_pushFrame hp]
    split_ifs
    · exact h
    · exact done_read h frame.bytes

theorem mem_endSeen {st : DecoderState D E V A} : .saidEnd ∈ endSeen st ↔ st.done = true := by
  unfold endSeen
  split_ifs with h <;> simp [h]

theorem mem_endSeen_eq {st : DecoderState D E V A} {event : HostEvent} (h : event ∈ endSeen st) :
    event = .saidEnd := by
  unfold endSeen at h
  split_ifs at h
  · exact List.mem_singleton.1 h
  · cases h

theorem closes_endSeen (st : DecoderState D E V A) : closes (endSeen st) = [] := by
  unfold endSeen
  split_ifs <;> rfl

theorem noNextAfter_endSeen (p : HostEvent → Bool) (st : DecoderState D E V A) :
    NoNextAfter p (endSeen st) := by
  unfold endSeen
  split_ifs
  · exact List.pairwise_singleton _ _
  · exact .nil

/-- A frame is pushed, and its end is told. -/
theorem HostStream.Told.push (h : stream.Told events) {decoder : DecoderState D E V A}
    (hdone : stream.decoder.done = true → decoder.done = true) :
    { stream with decoder }.Told (events ++ endSeen decoder) where
  opened := by
    have hnot : HostEvent.opened ∉ endSeen decoder := fun hmem => by
      cases mem_endSeen_eq hmem
    simpa [hnot] using h.opened
  closes := by
    rw [closes_append, h.closes, closes_endSeen, List.append_nil]
  closedOpened := h.closedOpened
  saidEnd := by
    rw [List.mem_append, h.saidEnd, mem_endSeen]
    constructor
    · rintro ((hex | hd) | hd)
      · exact .inl hex
      · exact .inr (hdone hd)
      · exact .inr hd
    · rintro (hex | hd)
      · exact .inl (.inl hex)
      · exact .inr hd
  quiet := by
    refine h.quiet.append (noNextAfter_endSeen _ _) fun b hb hnext => ?_
    rw [mem_endSeen_eq hb] at hnext
    cases hnext

/-! ### Opening -/

/-- What opening leaves: the stream is closed if it throws, and open otherwise. -/
structure OpenResult.Ok (r : OpenResult D E V A) : Prop where
  told : r.stream.Told r.events
  threw : r.error.isSome → r.stream.opened = true → r.stream.closed = true
  went : r.error = none → r.stream.closed = false
  silent : ∀ b ∈ r.events, b.isNext = false

theorem isNext_closeOnce {b : HostEvent} (h : b ∈ stream.closeOnce.2) : b.isNext = false := by
  unfold HostStream.closeOnce at h
  split_ifs at h
  · cases h
  · rw [List.mem_singleton.1 h]
    rfl

theorem OpenResult.Ok.thrown (h : stream.Told events) (hsilent : ∀ b ∈ events, b.isNext = false)
    (message : String) : (stream.thrown events message).Ok where
  told := h.closeOnce.1
  threw _ := h.closeOnce.2
  went := nofun
  silent b hb := by
    rcases List.mem_append.1 hb with hb | hb
    · exact hsilent b hb
    · exact isNext_closeOnce hb

theorem ok_openHostStream (info : StreamFunctionInfo) (number : Nat) (answers : OpenAnswers) :
    (openHostStream N info number answers).Ok := by
  have hdone : (newDecoder N).done = false := by
    unfold newDecoder
    split <;> rfl
  unfold openHostStream
  generalize hnew : newStream N info number = stream
  have htold : stream.Told [] := by
    subst hnew
    exact ⟨by simp [newStream], rfl, nofun, by simp [newStream, hdone], .nil⟩
  have hopened : { stream with opened := true }.Told [.opened] := by
    subst hnew
    exact ⟨by simp, rfl, nofun, by simp [newStream, hdone], List.pairwise_singleton _ _⟩
  have hclosed : stream.closed = false := by
    subst hnew
    rfl
  dsimp only
  cases answers.prepareOpen with
  | error e => exact .thrown htold nofun _
  | ok _ =>
    cases answers.executeOpen with
    | error e => exact .thrown htold nofun _
    | ok message =>
      cases message with
      | none => exact .thrown htold nofun _
      | some message =>
        dsimp only
        split_ifs
        · refine .thrown hopened (fun b hb => ?_) _
          rw [List.mem_singleton.1 hb]
          rfl
        · have hdone : stream.decoder.done = true →
              (pushInto N message stream.decoder).2.done = true := fun h => done_pushInto h message
          have hpushed := hopened.push hdone
          generalize pushInto N message stream.decoder = pushed at hpushed
          have hsilent : ∀ b ∈ [.opened] ++ endSeen pushed.2, b.isNext = false := by
            intro b hb
            rcases List.mem_append.1 hb with hb | hb
            · rw [List.mem_singleton.1 hb]
              rfl
            · rw [mem_endSeen_eq hb]
              rfl
          unfold HostStream.readSchema
          dsimp only
          split_ifs
          · exact .thrown hpushed hsilent _
          · exact .thrown hpushed hsilent _
          · have hschema : ({ stream with
                opened := true, decoder := pushed.2, schema := pushed.2.schema } :
                HostStream D E V A).Told ([.opened] ++ endSeen pushed.2) :=
              ⟨hpushed.opened, hpushed.closes, hpushed.closedOpened, hpushed.saidEnd, hpushed.quiet⟩
            cases answers.prepareNext with
            | error e => exact .thrown hschema hsilent _
            | ok _ =>
              exact ⟨⟨hschema.opened, hschema.closes, hschema.closedOpened, hschema.saidEnd,
                hschema.quiet⟩, nofun, fun _ => hclosed, hsilent⟩

end Stream

end Provider

end VirtualCatalog
