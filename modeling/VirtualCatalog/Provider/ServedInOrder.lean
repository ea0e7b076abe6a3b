import VirtualCatalog.Provider.Serving

/-!
# What a generator yields is what the scan receives

The invariant of all streams of a host, kept by every step, whoever makes it.

* `LiveStream.InStep` : the host's encoder is in step with the decoder that its frames go to.
* `HostCall.Ok`, `Serving.Ok` : what holds of one stream and of all.
* `Serving.Ok.turn`, `Serving.Ok.append` : a stream changes, or a stream is bound; the others keep
  what they have.
* `served_in_order` : what a scan has received is what the generator has yielded, in order, up to
  what is still on its way.
* `closed_at_the_host` : the host has the streams that are open, and each of the others was closed
  once.
-/

namespace VirtualCatalog

namespace Provider

section Served

variable {D E V A S B W : Type} {N : Nanoarrow D E V A} {P : StreamWriter S B W}
  {conforms : S → B → Bool} {describe : HostError → String} {arrayOf : B → A}
  {Knows : S → W → D → Option V → Prop}

/-! ### The encoder -/

theorem FrameEncoder.schema_takeNewBytes (self : FrameEncoder S W) :
    self.takeNewBytes.2.schema = self.schema := by
  unfold takeNewBytes
  dsimp only
  split_ifs <;> rfl

/-- An encoder in step frames a batch as its messages. -/
theorem FrameEncoder.InStep.encodeBatch {self : FrameEncoder S W} (h : self.InStep P) (batch : B) :
    ∃ self' : FrameEncoder S W,
      self.encodeBatch P batch = (.ok (P.messages self.writer batch), self') ∧ self'.InStep P ∧
        self'.writer = P.next self.writer batch ∧ self'.closed = self.closed ∧
        self'.schema = self.schema := by
  obtain ⟨self', htaken, hstep, hwriter, hclosed⟩ :=
    h.takeNewBytes P (P.messages self.writer batch) (P.next self.writer batch) self.closed
  refine ⟨self', htaken, hstep, hwriter, hclosed, ?_⟩
  have hschema := schema_takeNewBytes
    (self.wrote (P.messages self.writer batch) (P.next self.writer batch) self.closed)
  rw [htaken] at hschema
  exact hschema

/-- A stream of the host, and the decoder that its frames are pushed into. -/
structure LiveStream.InStep (P : StreamWriter S B W) (Knows : S → W → D → Option V → Prop)
    (stream : LiveStream S B W) (st : DecoderState D E V A) : Prop where
  encoder : stream.encoder.InStep P
  notClosed : stream.encoder.closed = false
  follows : st.Follows Knows stream.encoder.schema stream.encoder.writer
  drained : st.batches = []

/-- `PushFrame` succeeds if it does not leave a decoder that failed. -/
theorem pushInto_eq {frame : IpcFrame} {st : DecoderState D E V A} (h : st.failed = false)
    (hread : (read N st frame.bytes).failed = false) :
    pushInto N frame st = (true, read N st frame.bytes) := by
  obtain ⟨p, hp, hfailed⟩ := exists_pushFrame (N := N) frame st
  have hstate : p.state = read N st frame.bytes := by
    rw [state_of_pushFrame hp, if_neg (by rw [h]; simp)]
  rw [pushInto, hp]
  cases hresult : p.result with
  | false =>
    have := hfailed hresult
    rw [hstate, hread] at this
    cases this
  | true => exact Prod.ext hresult hstate

/-! ### One stream -/

/-- What holds of a stream that the host has as `held`. -/
structure HostCall.Ok (P : StreamWriter S B W) (arrayOf : B → A)
    (Knows : S → W → D → Option V → Prop) (c : HostCall D E V A B)
    (held : Option (LiveStream S B W)) : Prop where
  life : c.life.Ok
  opened : c.life.live = true → c.life.stream.opened = true
  there : held.isSome ↔ c.life.IsOpen
  /-- The host knows the handles that it is asked for. -/
  known : ∀ e ∈ c.raised, ∀ handle, e ≠ .notOpen handle
  ordered : c.raised = [] → NoNextAfter HostEvent.isSaidEnd c.life.events
  inOrder : c.raised = [] → ∃ toCome, c.InOrder arrayOf toCome ∧ ∀ stream ∈ held,
    stream.toCome = toCome ∧ stream.InStep P Knows c.life.stream.decoder ∧
      (stream.source = .aiterator ↔ c.source = some .aiterator)

variable {c c' : HostCall D E V A B} {held : Option (LiveStream S B W)}

/-- A stream that waits for the host is open. -/
theorem HostCall.Ok.isOpen (h : c.Ok P arrayOf Knows held) (hwaiting : c.life.waiting = true) :
    c.life.IsOpen := by
  obtain ⟨hwrapper, hopen⟩ := h.life.waiting hwaiting
  have hlive := h.life.wrapper hwrapper
  refine ⟨h.opened hlive, ?_⟩
  by_contra hclosed
  rw [Bool.not_eq_false] at hclosed
  rw [h.life.spent hlive hclosed] at hopen
  cases hopen

/-- Nothing is asked of a stream after its end. -/
theorem HostCall.Ok.not_late (h : c.Ok P arrayOf Knows held) (hraised : c.raised = [])
    (hwrapper : c.life.wrapper = true) : ¬c.life.Late := by
  intro hlate
  have hlive := h.life.wrapper hwrapper
  cases hclosed : c.life.stream.closed with
  | true =>
    have hspent := h.life.spent hlive hclosed
    rw [hlate.unnoted] at hspent
    cases hspent
  | false =>
    obtain ⟨stream, hstream⟩ := Option.isSome_iff_exists.1 (h.there.2 ⟨h.opened hlive, hclosed⟩)
    obtain ⟨toCome, -, hheld⟩ := h.inOrder hraised
    have hdone := (hheld stream hstream).2.1.follows.notDone
    rw [hlate.done] at hdone
    cases hdone

/-- What a step adds keeps the order of what the host is told. -/
theorem HostCall.Ok.ordered_step (h : c.Ok P arrayOf Knows held) (hraised : c.raised = [])
    {e : Life.Step} {l' : Life D E V A} (hstep : c.life.step N e = some l') :
    NoNextAfter HostEvent.isSaidEnd l'.events := by
  obtain ⟨new, hevents, hadds⟩ := h.life.adds_step hstep
  rw [hevents]
  refine (h.ordered hraised).append hadds.ordered fun b hb hnext a ha => ?_
  by_contra hsaid
  have hsaid' : a = .saidEnd := by
    cases a with
    | saidEnd => rfl
    | opened | next | close => exact absurd rfl hsaid
  obtain ⟨rfl, hlate⟩ := hadds.inTime ⟨b, hb, hnext⟩ (hsaid' ▸ ha)
  rw [Life.step] at hstep
  split_ifs at hstep with hcan
  rw [Bool.and_eq_true] at hcan
  exact h.not_late hraised hcan.1 hlate

/-- What the host still has of a stream. -/
def Life.leaves (l : Life D E V A) (held : Option (LiveStream S B W)) : Option (LiveStream S B W) :=
  if l.stream.closed then none else held

theorem Life.leaves_of_closed {l : Life D E V A} (h : l.stream.closed = true) :
    l.leaves held = none := by rw [leaves, if_pos h]

theorem Life.leaves_of_not {l : Life D E V A} (h : l.stream.closed = false) :
    l.leaves held = held := by rw [leaves, h, if_neg Bool.false_ne_true]

theorem Life.mem_of_leaves {l : Life D E V A} {stream : LiveStream S B W}
    (h : stream ∈ l.leaves held) : stream ∈ held := by
  unfold leaves at h
  split_ifs at h
  · cases h
  · exact h

/-- What is left is what is open. -/
theorem Life.Keeps.isSome_leaves {l l' : Life D E V A} (hkeeps : l.Keeps l')
    (hthere : held.isSome ↔ l.IsOpen) : (l'.leaves held).isSome ↔ l'.IsOpen := by
  cases hclosed' : l'.stream.closed with
  | true =>
    rw [leaves_of_closed hclosed']
    refine iff_of_false (by simp) fun hopen => ?_
    rw [hopen.notClosed] at hclosed'
    cases hclosed'
  | false =>
    have hclosed : l.stream.closed = false := by
      by_contra hclosed
      rw [Bool.not_eq_false] at hclosed
      rw [hkeeps.closed hclosed] at hclosed'
      cases hclosed'
    rw [leaves_of_not hclosed', hthere]
    exact ⟨fun h => ⟨hkeeps.opened.trans h.opened, hclosed'⟩,
      fun h => ⟨hkeeps.opened.symm.trans h.opened, hclosed⟩⟩

/-! ### Steps on DuckDB's side -/

/-- A step that receives nothing of the host. -/
structure Life.Quiet (l l' : Life D E V A) : Prop where
  decoder : l'.stream.decoder = l.stream.decoder
  exhausted : l'.stream.exhausted = l.stream.exhausted
  returned : l'.returned = l.returned ∨
    (l.stream.exhausted = true ∧ l'.returned = l.returned ++ [.ended])

theorem Life.quiet_destroy (l : Life D E V A) : l.Quiet l.destroy := by
  unfold destroy HostStream.closeOnce
  split_ifs
  · exact ⟨rfl, rfl, .inl rfl⟩
  · exact ⟨rfl, rfl, .inl rfl⟩

/-- Every step is quiet but an answer, unless a batch is left to be popped. -/
theorem Life.quiet_step {l l' : Life D E V A} {e : Step} (h : l.step N e = some l')
    (hanswer : ∀ a, e ≠ .answer a) (hdrained : l.wrapper = true → l.stream.exhausted = false →
      l.stream.decoder.batches = []) : l.Quiet l' := by
  cases e with
  | produceStream =>
    obtain ⟨data, -, htaken⟩ := Option.bind_eq_some_iff.1 h
    unfold takeHostStreamOnce at htaken
    split_ifs at htaken
    obtain rfl := Option.some.inj htaken
    exact ⟨rfl, rfl, .inl rfl⟩
  | getNext =>
    rw [Life.step] at h
    split_ifs at h with hcan
    rw [Bool.and_eq_true] at hcan
    obtain rfl := Option.some.inj h
    unfold getNext
    split_ifs with hexhausted
    · exact ⟨rfl, rfl, .inr ⟨hexhausted, rfl⟩⟩
    · rw [Bool.not_eq_true] at hexhausted
      unfold fetch tryPopBatch
      rw [hdrained hcan.1 hexhausted]
      exact ⟨rfl, rfl, .inl rfl⟩
  | answer a => exact absurd rfl (hanswer a)
  | releaseWrapper =>
    rw [Life.step] at h
    split_ifs at h
    obtain rfl := Option.some.inj h
    have hquiet := quiet_destroy { l with wrapper := false }
    exact ⟨hquiet.decoder, hquiet.exhausted, hquiet.returned⟩
  | dropData =>
    obtain ⟨data, -, rfl⟩ := Option.map_eq_some_iff.1 h
    unfold dropData
    split_ifs
    · have hquiet := quiet_destroy { l with data := none }
      exact ⟨hquiet.decoder, hquiet.exhausted, hquiet.returned⟩
    · exact ⟨rfl, rfl, .inl rfl⟩

/-- A quiet step keeps the order. -/
theorem HostCall.InOrder.quiet {toCome : List B} (h : c.InOrder arrayOf toCome) {l' : Life D E V A}
    (hquiet : c.life.Quiet l') : { c with life := l' }.InOrder arrayOf toCome := by
  rcases hquiet.returned with hreturned | ⟨hexhausted, hreturned⟩
  · refine ⟨?_, ?_, ?_, ?_⟩
    · have harrays := h.arrays
      unfold HostCall.received at harrays ⊢
      rw [hreturned]
      exact harrays
    · rw [hreturned]
      exact h.unfailed
    · rw [hreturned, hquiet.exhausted]
      exact h.ended
    · rw [hquiet.exhausted]
      exact h.exhausted
  · refine ⟨?_, ?_, fun _ => hquiet.exhausted.trans hexhausted, fun _ => h.exhausted hexhausted⟩
    · have harrays := h.arrays
      unfold HostCall.received at harrays ⊢
      rw [hreturned, List.filterMap_append, show List.filterMap Returned.array? [.ended] =
        ([] : List A) from rfl, List.append_nil]
      exact harrays
    · rw [hreturned, List.mem_append, List.mem_singleton]
      rintro (hmem | hmem)
      · exact h.unfailed hmem
      · cases hmem

/-- **A step on DuckDB's side** keeps what holds of its stream. -/
theorem HostCall.Ok.onStream (h : c.Ok P arrayOf Knows held) {e : Life.Step} {l' : Life D E V A}
    (hstep : c.life.step N e = some l') (hanswer : ∀ a, e ≠ .answer a) :
    { c with life := l' }.Ok P arrayOf Knows (l'.leaves held) where
  life := h.life.step hstep
  opened hlive :=
    (Life.keeps_step hstep).opened.trans (h.opened ((Life.keeps_step hstep).live hlive))
  there := (Life.keeps_step hstep).isSome_leaves h.there
  known := h.known
  ordered hraised := h.ordered_step hraised hstep
  inOrder hraised := by
    obtain ⟨toCome, hinOrder, hheld⟩ := h.inOrder hraised
    have hquiet : c.life.Quiet l' := by
      refine Life.quiet_step hstep hanswer fun hwrapper hexhausted => ?_
      have hlive := h.life.wrapper hwrapper
      have hclosed : c.life.stream.closed = false := by
        by_contra hclosed
        rw [Bool.not_eq_false] at hclosed
        rw [h.life.spent hlive hclosed] at hexhausted
        cases hexhausted
      obtain ⟨stream, hstream⟩ := Option.isSome_iff_exists.1 (h.there.2 ⟨h.opened hlive, hclosed⟩)
      exact (hheld stream hstream).2.1.drained
    refine ⟨toCome, hinOrder.quiet hquiet, fun stream hstream => ?_⟩
    rw [hquiet.decoder]
    exact hheld stream (Life.mem_of_leaves hstream)

/-! ### Answers of the host -/

theorem Life.step_answer {l : Life D E V A} (hwaiting : l.waiting = true) (a : NextAnswer) :
    l.step N (.answer a) = some (l.answer N a) := by
  rw [Life.step, if_pos hwaiting]

/-- What has been yielded once the iterator has answered some more. -/
theorem HostCall.yielded_append (c : HostCall D E V A B) (life : Life D E V A)
    (answers : List (Anext B))
    (raised : List HostError) :
    HostCall.yielded { c with life, answered := c.answered ++ answers, raised } =
      c.yielded ++ answers.flatMap Anext.batches := by
  rw [HostCall.yielded, HostCall.yielded, List.flatMap_append, List.append_assoc]

variable {stream stream' : LiveStream S B W} {answers : List (Anext B)}

/-- What is not received does not matter for what holds of a stream. -/
theorem HostCall.Ok.after (h : c.Ok P arrayOf Knows (some stream))
    (hwaiting : c.life.waiting = true)
    {life : Life D E V A} {a : Life.NextAnswer} (hlife : c.life.answer N a = life)
    {raised : List HostError} (hknown : ∀ e ∈ raised, ∀ handle, e ≠ .notOpen handle)
    (hinOrder : c.raised = [] → raised = [] →
      ∃ toCome, (c.after life answers raised).InOrder arrayOf toCome ∧
        ∀ held ∈ life.leaves (some stream'), held.toCome = toCome ∧
          held.InStep P Knows life.stream.decoder ∧
            (held.source = .aiterator ↔ c.source = some .aiterator)) :
    (c.after life answers raised).Ok P arrayOf Knows (life.leaves (some stream')) := by
  subst hlife
  have hstep := Life.step_answer (N := N) hwaiting a
  have hkeeps := Life.keeps_step hstep
  have hthere : (some stream').isSome ↔ c.life.IsOpen := iff_of_true rfl (h.isOpen hwaiting)
  refine ⟨h.life.answer hwaiting a, fun _ => hkeeps.opened.trans (h.isOpen hwaiting).opened,
    hkeeps.isSome_leaves hthere, fun e he => ?_, fun hraised => ?_, fun hraised => ?_⟩
  · rcases List.mem_append.1 he with he | he
    · exact h.known e he
    · exact hknown e he
  · exact h.ordered_step (List.append_eq_nil_iff.1 hraised).1 hstep
  · obtain ⟨hbefore, hnow⟩ := List.append_eq_nil_iff.1 hraised
    exact hinOrder hbefore hnow

/-- The host raises. -/
theorem HostCall.Ok.raise (h : c.Ok P arrayOf Knows (some stream))
    (hwaiting : c.life.waiting = true)
    {life : Life D E V A} {message : String} (hlife : c.life.answer N (.failed message) = life)
    {e : HostError} (he : ∀ handle, e ≠ .notOpen handle) :
    (c.after life answers [e]).Ok P arrayOf Knows (life.leaves (some stream')) := by
  refine h.after hwaiting hlife (fun e' he' => ?_) ?_
  · rw [List.mem_singleton.1 he']
    exact he
  · rintro - ⟨⟩

/-- An open stream that is told its end is closed. -/
theorem Life.stream_answer_null {l : Life D E V A} (hopen : l.IsOpen) :
    (l.answer N .null).stream = { l.stream with exhausted := true, closed := true } := by
  show ({ l.stream with exhausted := true } : HostStream D E V A).closeOnce.1 = _
  rw [HostStream.closeOnce, if_neg]
  simp [hopen.opened, hopen.notClosed]

/-- The host says that there is nothing more. -/
theorem HostCall.Ok.exhaust (h : c.Ok P arrayOf Knows (some stream))
    (hwaiting : c.life.waiting = true)
    {life : Life D E V A} (hlife : c.life.answer N .null = life)
    (hspec : NextSpec stream stream' (.ok none) answers) :
    (c.after life answers []).Ok P arrayOf Knows (life.leaves (some stream')) := by
  have hstream := Life.stream_answer_null (N := N) (h.isOpen hwaiting)
  have hreturned : (c.life.answer N .null).returned = c.life.returned ++ [.ended] := rfl
  rw [hlife] at hstream hreturned
  refine h.after hwaiting hlife nofun fun hraised _ => ?_
  obtain ⟨toCome, hinOrder, hheld⟩ := h.inOrder hraised
  obtain ⟨rfl, -, hsource⟩ := hheld stream rfl
  obtain ⟨hnone, hstop⟩ := hspec.ended rfl
  have hbatches := hspec.batches none rfl
  rw [hnone] at hbatches
  obtain ⟨hcome, hyielded⟩ := List.append_eq_nil_iff.1 hbatches
  rw [Life.leaves_of_closed (by rw [hstream])]
  refine ⟨[], ⟨?_, ?_, fun _ => ?_, fun _ => ⟨rfl, fun haiterator => ?_⟩⟩, nofun⟩
  · have harrays := hinOrder.arrays
    rw [HostCall.after, HostCall.yielded_append, hyielded, List.append_nil, harrays, hcome]
    unfold HostCall.received
    rw [hreturned, List.filterMap_append]
    simp [Returned.array?]
  · show Returned.failed ∉ life.returned
    rw [hreturned, List.mem_append, List.mem_singleton]
    rintro (hmem | hmem)
    · exact hinOrder.unfailed hmem
    · cases hmem
  · show life.stream.exhausted = true
    rw [hstream]
  · exact List.mem_append_right _ (hstop (hsource.2 haiterator))

/-- A frame with one batch is pushed, and the batch is returned. -/
theorem Life.answer_batch {l : Life D E V A} {frame : IpcFrame} {array : A}
    (hfailed : l.stream.decoder.failed = false)
    (hread : (read N l.stream.decoder frame.bytes).failed = false)
    (hbatches : (read N l.stream.decoder frame.bytes).batches = [array]) :
    l.answer N (.frame frame) = { l with
      stream := { l.stream with
        decoder := { read N l.stream.decoder frame.bytes with batches := [] } }
      waiting := false
      returned := l.returned ++ [.batch array]
      events := l.events ++ endSeen (read N l.stream.decoder frame.bytes) } := by
  have hpush := pushInto_eq hfailed hread
  rw [Life.answer, Life.push, hpush]
  simp only [Life.afterPush, Bool.not_true, Bool.false_eq_true, if_false, hbatches,
    List.isEmpty_cons, Bool.false_and, Life.fetch, tryPopBatch, Life.give]

/-- **The host sends a batch**: it is read and returned, and both sides stay in step. -/
theorem HostCall.Ok.receive (hunderstands : Understands N P conforms arrayOf Knows)
    (h : c.Ok P arrayOf Knows (some stream)) (hwaiting : c.life.waiting = true) {batch : B}
    (hspec : NextSpec stream stream' (.ok (some batch)) answers)
    (hconforms : conforms stream'.encoder.schema batch = true) {frame : IpcFrame}
    (hframe : (stream'.encoder.encodeBatch P batch).1 = .ok frame.bytes) {life : Life D E V A}
    (hlife : c.life.answer N (.frame frame) = life) :
    (c.after life answers []).Ok P arrayOf Knows (life.leaves
      (some { stream' with encoder := (stream'.encoder.encodeBatch P batch).2 })) := by
  refine h.after hwaiting hlife nofun fun hraised _ => ?_
  obtain ⟨toCome, hinOrder, hheld⟩ := h.inOrder hraised
  obtain ⟨rfl, hinStep, hsource⟩ := hheld stream rfl
  have hencoder : stream'.encoder.InStep P := hspec.encoder ▸ hinStep.encoder
  obtain ⟨encoder, hencoded, hinStep', hwriter, hclosed, hschema⟩ := hencoder.encodeBatch batch
  rw [hencoded] at hframe ⊢
  rw [hspec.encoder] at hwriter hclosed hschema hframe hconforms
  have hbytes := Except.ok.inj hframe
  obtain ⟨hbatches, -, hfollows⟩ := hunderstands.read_messages hinStep.follows hconforms
  rw [hinStep.drained, List.nil_append, hbytes] at hbatches
  rw [hbytes] at hfollows
  have hanswer := Life.answer_batch (l := c.life) hinStep.follows.notFailed hfollows.notFailed
    hbatches
  rw [hlife] at hanswer
  have hcome := hspec.batches (some batch) rfl
  have hexhausted : ¬c.life.stream.exhausted = true := by
    rw [(h.life.waiting hwaiting).2]
    exact Bool.false_ne_true
  subst hanswer
  refine ⟨stream'.toCome, ⟨?_, ?_, fun hended => ?_, fun hex => absurd hex hexhausted⟩, ?_⟩
  · have harrays := hinOrder.arrays
    rw [HostCall.after, HostCall.yielded_append, List.map_append, harrays, List.append_assoc,
      ← List.map_append, hcome]
    unfold HostCall.received
    rw [List.filterMap_append]
    simp [Returned.array?]
  · show Returned.failed ∉ c.life.returned ++ [.batch (arrayOf batch)]
    rw [List.mem_append, List.mem_singleton]
    rintro (hmem | hmem)
    · exact hinOrder.unfailed hmem
    · cases hmem
  · rcases List.mem_append.1 (show Returned.ended ∈ c.life.returned ++ [_] from hended) with
      hmem | hmem
    · exact hinOrder.ended hmem
    · cases List.mem_singleton.1 hmem
  · intro held hheld'
    obtain rfl := Option.some.inj (Life.mem_of_leaves hheld')
    refine ⟨rfl, ⟨hinStep', hclosed.trans hinStep.notClosed, ?_, rfl⟩, hspec.source.trans hsource⟩
    rw [hwriter, hschema]
    exact ⟨hfollows.knows, hfollows.schema, hfollows.notDone, hfollows.notFailed⟩

/-- What DuckDB has of an encoded batch: the frame, or an error that is not about the handle. -/
theorem udfResult_encodeChecked (encoder : FrameEncoder S W) (batch : B) :
    (∃ e, udfResult ((encodeChecked P conforms encoder batch).1.map some) = .error e ∧
        ∀ handle, e ≠ .notOpen handle) ∨
      ∃ frame : IpcFrame, udfResult ((encodeChecked P conforms encoder batch).1.map some) =
          .ok (some frame) ∧ conforms encoder.schema batch = true ∧
        (encoder.encodeBatch P batch).1 = .ok frame.bytes := by
  unfold encodeChecked
  split_ifs with hconforms
  · dsimp only
    cases hencoded : (encoder.encodeBatch P batch).1 with
    | error message => exact .inl ⟨.raised message, rfl, nofun⟩
    | ok bytes =>
      by_cases hfits : bytes.length < 2 ^ 63
      · refine .inr ⟨⟨bytes, hfits⟩, ?_, hconforms, rfl⟩
        show (toFrame bytes).map some = _
        rw [toFrame, dif_pos hfits]
        rfl
      · refine .inl ⟨.raised "cannot fit 'int' into an index-sized integer", ?_, nofun⟩
        show (toFrame bytes).map some = _
        rw [toFrame, dif_neg hfits]
        rfl
  · exact .inl ⟨_, rfl, nofun⟩

/-- **An answer of the host** keeps what holds of its stream. -/
theorem HostCall.Ok.next (hunderstands : Understands N P conforms arrayOf Knows)
    (h : c.Ok P arrayOf Knows (some stream)) (hwaiting : c.life.waiting = true)
    {host host' : HostStreamUdfs S B W} (hlookup : host.live.lookup c.handle = some stream)
    {result : Except HostError (Option (List UInt8))}
    (hnext : host.nextFrame P c.handle conforms answers = some (result, host', []))
    {life : Life D E V A}
    (hlife : c.life.answer N (nextAnswer describe (udfResult result)) = life) :
    ∃ stream', host'.live = host.live.insert c.handle stream' ∧
      (c.after life answers (raisedBy (udfResult result))).Ok P arrayOf Knows
        (life.leaves (some stream')) := by
  unfold HostStreamUdfs.nextFrame at hnext
  rw [hlookup] at hnext
  dsimp only at hnext
  cases hbatch : stream.nextBatch answers with
  | none =>
    rw [hbatch] at hnext
    cases hnext
  | some found =>
    obtain ⟨returned, stream', rest⟩ := found
    obtain ⟨asked, hasked, hspec⟩ := nextBatch_spec hbatch
    rw [hbatch] at hnext
    cases returned with
    | error e =>
      cases hnext
      exact ⟨stream', rfl, h.raise hwaiting hlife (hspec.known e rfl)⟩
    | ok batch =>
      cases batch with
      | none =>
        cases hnext
        rw [List.append_nil] at hasked
        subst hasked
        exact ⟨stream', rfl, h.exhaust hwaiting hlife hspec⟩
      | some batch =>
        cases hnext
        rw [List.append_nil] at hasked
        subst hasked
        refine ⟨_, rfl, ?_⟩
        obtain ⟨e, hresult, hknown⟩ | ⟨frame, hresult, hconforms, hencoded⟩ :=
          udfResult_encodeChecked (P := P) stream'.encoder batch
        · rw [hresult] at hlife ⊢
          exact h.raise hwaiting hlife hknown
        · rw [hresult] at hlife ⊢
          have hencoder : (encodeChecked P conforms stream'.encoder batch).2 =
              (stream'.encoder.encodeBatch P batch).2 := by
            rw [encodeChecked, if_pos hconforms]
          rw [hencoder]
          exact h.receive hunderstands hwaiting hspec hconforms hencoded hlife

/-! ### All streams -/

/-- The handle with a number. -/
def handleOf (number : Nat) : String := "b" ++ toString number

theorem handleOf_injective : Function.Injective handleOf := by
  intro m n h
  have hdigits : Nat.toDigits 10 m = Nat.toDigits 10 n := by
    have hlist := congrArg String.toList h
    simpa [handleOf, toString, Nat.repr] using hlist
  rw [← Nat.ofDigitChars_ten_toDigits (n := m), hdigits, Nat.ofDigitChars_ten_toDigits]

/-- What holds of a host and its streams. -/
structure Serving.Ok (P : StreamWriter S B W) (arrayOf : B → A)
    (Knows : S → W → D → Option V → Prop) (s : Serving D E V A S B W) : Prop where
  calls : ∀ c ∈ s.calls, c.Ok P arrayOf Knows (s.host.live.lookup c.handle)
  distinct : (s.calls.map HostCall.handle).Nodup
  numbered : ∀ c ∈ s.calls, ∃ number ≤ s.counter, c.handle = handleOf number
  live : ∀ handle ∈ s.host.live, ∃ c ∈ s.calls, c.handle = handle
  /-- The streams that were closed are those that the host was told of. -/
  closed : ∀ handle, handle ∈ s.closings.map Prod.fst ↔
    ∃ c ∈ s.calls, c.handle = handle ∧ c.life.stream.closed = true
  once : (s.closings.map Prod.fst).Nodup
  known : ∀ p ∈ s.closings, p.2 ≠ .error (.notOpen p.1)

variable {s s' : Serving D E V A S B W}

theorem Serving.Ok.eq_of_handle (h : s.Ok P arrayOf Knows) {c₁ c₂ : HostCall D E V A B}
    (h₁ : c₁ ∈ s.calls) (h₂ : c₂ ∈ s.calls) (hhandle : c₁.handle = c₂.handle) : c₁ = c₂ :=
  List.inj_on_of_nodup_map h.distinct h₁ h₂ hhandle

/-- What is in a list after one element was exchanged for another with its key. -/
theorem mem_set_iff {α κ : Type} {l : List α} {key : α → κ} (hdistinct : (l.map key).Nodup)
    {i : Nat} {a a' b : α} (ha : l[i]? = some a) :
    b ∈ l.set i a' ↔ b = a' ∨ (b ∈ l ∧ key b ≠ key a) := by
  obtain ⟨hi, rfl⟩ := List.getElem?_eq_some_iff.1 ha
  constructor
  · intro hb
    obtain ⟨j, hj, rfl⟩ := List.mem_iff_getElem.1 hb
    rw [List.length_set] at hj
    rw [List.getElem_set]
    split_ifs with hij
    · exact .inl rfl
    · refine .inr ⟨List.getElem_mem hj, fun hkey => hij ?_⟩
      have hi' : i < (l.map key).length := by simpa using hi
      have hj' : j < (l.map key).length := by simpa using hj
      have hmap : (l.map key)[i] = (l.map key)[j] := by
        simpa using hkey.symm
      exact (hdistinct.getElem_inj_iff).1 hmap
  · rintro (rfl | ⟨hb, hkey⟩)
    · exact List.mem_set hi _
    · obtain ⟨j, hj, rfl⟩ := List.mem_iff_getElem.1 hb
      have hij : i ≠ j := by
        rintro rfl
        exact hkey rfl
      refine List.mem_iff_getElem.2 ⟨j, by simpa using hj, ?_⟩
      rw [List.getElem_set_ne hij]

theorem map_set_of_eq {α κ : Type} {l : List α} {key : α → κ} {i : Nat} {a a' : α}
    (ha : l[i]? = some a) (hkey : key a' = key a) : (l.set i a').map key = l.map key := by
  obtain ⟨hi, rfl⟩ := List.getElem?_eq_some_iff.1 ha
  rw [List.map_set, hkey]
  refine List.ext_getElem (by simp) fun j h₁ h₂ => ?_
  rw [List.getElem_set]
  split_ifs with hij
  · subst hij
    rw [List.getElem_map]
  · rfl

/-- Closing a stream that the host has. -/
theorem HostStreamUdfs.closeStream_eq {host : HostStreamUdfs S B W} {handle : String}
    (h : (host.live.lookup handle).isSome) (aclose : Except String Unit) :
    (host.closeStream handle aclose).2.live = host.live.erase handle ∧
      (host.closeStream handle aclose).1 ≠ .error (.notOpen handle) := by
  obtain ⟨stream, hstream⟩ := Option.isSome_iff_exists.1 h
  unfold closeStream
  rw [hstream]
  refine ⟨rfl, ?_⟩
  -- what it raises is what `aclose` or pyarrow raises
  unfold LiveStream.close
  dsimp only
  generalize stream.encoder.closeAndTakeTrailingBytes.1 = trailing
  cases stream.source with
  | batches left => cases trailing <;> simp [Except.bind, Except.mapError]
  | aiterator => cases aclose <;> cases trailing <;> simp [Except.bind, Except.mapError]

/-- What the host is told of a stream: nothing, or that it was closed. -/
inductive Serving.Told (s : Serving D E V A S B W) (host : HostStreamUdfs S B W)
    (c : HostCall D E V A B) (events : List HostEvent) : Prop
  | nothing (hcloses : closes events = [])
      (hclosed : c.handle ∈ s.closings.map Prod.fst ↔ c.life.stream.closed = true)
      (hleaves : c.life.leaves (host.live.lookup c.handle) = host.live.lookup c.handle)
  | closed {udf : String} (hcloses : closes events = [.close udf c.handle])
      (hfresh : c.handle ∉ s.closings.map Prod.fst) (hclosed : c.life.stream.closed = true)
      (hthere : (host.live.lookup c.handle).isSome)

/-- **A stream is new or changes**, and is closed at the host if it was closed; the others keep what
they have. -/
theorem Serving.Ok.settle (h : s.Ok P arrayOf Knows) {calls : List (HostCall D E V A B)}
    {counter : Nat} {host : HostStreamUdfs S B W}
    (hmem : ∀ b, b ∈ calls ↔ b = c ∨ (b ∈ s.calls ∧ b.handle ≠ c.handle))
    (hdistinct : (calls.map HostCall.handle).Nodup)
    (hnumbered : ∀ b ∈ calls, ∃ number ≤ counter, b.handle = handleOf number)
    (hother : ∀ handle, handle ≠ c.handle → host.live.lookup handle = s.host.live.lookup handle)
    (hok : c.Ok P arrayOf Knows (c.life.leaves (host.live.lookup c.handle)))
    {events : List HostEvent} (htold : s.Told host c events) (aclose : Except String Unit) :
    Serving.Ok P arrayOf Knows (Serving.heed { s with counter, host, calls } aclose events) := by
  have hlive : ∀ handle, handle ∈ host.live → ∃ b ∈ calls, b.handle = handle := by
    intro handle hin
    by_cases hsame : handle = c.handle
    · exact ⟨c, (hmem c).2 (.inl rfl), hsame.symm⟩
    · rw [← AList.lookup_isSome, hother handle hsame, AList.lookup_isSome] at hin
      obtain ⟨b, hb, rfl⟩ := h.live handle hin
      exact ⟨b, (hmem b).2 (.inr ⟨hb, hsame⟩), rfl⟩
  -- which of the others are closed does not change
  have hclosings : ∀ handle, (∃ b ∈ calls, b.handle = handle ∧ b.life.stream.closed = true) ↔
      (handle = c.handle ∧ c.life.stream.closed = true) ∨
        (handle ≠ c.handle ∧ handle ∈ s.closings.map Prod.fst) := by
    intro handle
    constructor
    · rintro ⟨b, hb, rfl, hbclosed⟩
      rcases (hmem b).1 hb with rfl | ⟨hb, hne⟩
      · exact .inl ⟨rfl, hbclosed⟩
      · exact .inr ⟨hne, (h.closed _).2 ⟨b, hb, rfl, hbclosed⟩⟩
    · rintro (⟨rfl, hclosed⟩ | ⟨hne, hin⟩)
      · exact ⟨c, (hmem c).2 (.inl rfl), rfl, hclosed⟩
      · obtain ⟨b, hb, rfl, hbclosed⟩ := (h.closed handle).1 hin
        exact ⟨b, (hmem b).2 (.inr ⟨hb, hne⟩), rfl, hbclosed⟩
  cases htold with
  | nothing hcloses hclosed hleaves =>
    rw [heed_of_none hcloses]
    rw [hleaves] at hok
    refine ⟨fun b hb => ?_, hdistinct, hnumbered, hlive, fun handle => ?_, h.once, h.known⟩
    · rcases (hmem b).1 hb with rfl | ⟨hb, hne⟩
      · exact hok
      · show b.Ok P arrayOf Knows (host.live.lookup b.handle)
        rw [hother _ hne]
        exact h.calls b hb
    · rw [hclosings handle]
      by_cases hsame : handle = c.handle
      · subst hsame
        simpa using hclosed
      · simp [hsame]
  | @closed udf hcloses hfresh hclosed hthere =>
    rw [heed_of_close hcloses]
    obtain ⟨herase, hknown⟩ := HostStreamUdfs.closeStream_eq hthere aclose
    unfold Serving.close
    refine ⟨fun b hb => ?_, hdistinct, hnumbered, fun handle hin => ?_, fun handle => ?_, ?_, ?_⟩
    · show b.Ok P arrayOf Knows ((host.closeStream c.handle aclose).2.live.lookup b.handle)
      rw [herase]
      rcases (hmem b).1 hb with rfl | ⟨hb, hne⟩
      · rw [AList.lookup_erase]
        rwa [Life.leaves_of_closed hclosed] at hok
      · rw [AList.lookup_erase_ne hne, hother _ hne]
        exact h.calls b hb
    · refine hlive handle ?_
      replace hin : handle ∈ (host.closeStream c.handle aclose).2.live := hin
      rw [herase, AList.mem_erase] at hin
      exact hin.2
    · rw [hclosings handle, List.map_append, List.mem_append, List.map_singleton,
        List.mem_singleton]
      by_cases hsame : handle = c.handle
      · simp [hsame, hclosed]
      · simp [hsame]
    · rw [List.map_append]
      refine h.once.append (List.nodup_singleton _) fun handle hin hthis => ?_
      rw [List.mem_singleton.1 hthis] at hin
      exact hfresh hin
    · intro p hp
      rcases List.mem_append.1 hp with hp | hp
      · exact h.known p hp
      · rw [List.mem_singleton.1 hp]
        exact hknown

/-- A stream changes. -/
theorem Serving.Ok.turn (h : s.Ok P arrayOf Knows) {i : Nat} (hi : s.calls[i]? = some c)
    {host : HostStreamUdfs S B W}
    (hother : ∀ handle, handle ≠ c.handle → host.live.lookup handle = s.host.live.lookup handle)
    (hthere : (host.live.lookup c.handle).isSome ↔ c.life.IsOpen) (hkeeps : c.life.Keeps c'.life)
    {new : List HostEvent} (hevents : c'.life.events = c.life.events ++ new)
    (hok : c'.Ok P arrayOf Knows (c'.life.leaves (host.live.lookup c.handle)))
    (aclose : Except String Unit) : (s.turn i c c' host aclose).Ok P arrayOf Knows := by
  have hin := List.mem_of_getElem? hi
  have hhandle : c'.handle = c.handle := hkeeps.handle
  have hmem : ∀ b, b ∈ s.calls.set i c' ↔ b = c' ∨ (b ∈ s.calls ∧ b.handle ≠ c'.handle) := by
    intro b
    rw [mem_set_iff h.distinct hi, hhandle]
  have hdistinct : ((s.calls.set i c').map HostCall.handle).Nodup := by
    rw [map_set_of_eq hi hhandle]
    exact h.distinct
  have hnumbered : ∀ b ∈ s.calls.set i c', ∃ number ≤ s.counter, b.handle = handleOf number := by
    intro b hb
    rcases (hmem b).1 hb with rfl | ⟨hb, -⟩
    · rw [hhandle]
      exact h.numbered c hin
    · exact h.numbered b hb
  have hcloses : c.handle ∈ s.closings.map Prod.fst ↔ c.life.stream.closed = true := by
    rw [h.closed]
    constructor
    · rintro ⟨b, hb, hsame, hbclosed⟩
      obtain rfl := h.eq_of_handle hb hin hsame
      exact hbclosed
    · exact fun hclosed => ⟨c, hin, rfl, hclosed⟩
  rw [← hhandle] at hother hok
  unfold Serving.turn
  rw [hevents, List.drop_left]
  refine h.settle hmem hdistinct hnumbered hother hok ?_ aclose
  -- the step tells of no close, or of the one close
  rcases (h.calls c hin).life.closes_new hok.life hkeeps hevents with
    ⟨hnone, hsame⟩ | ⟨hclose, hopen, hclosed⟩
  · refine .nothing hnone ?_ ?_
    · rw [hhandle, hsame]
      exact hcloses
    · cases hclosed : c'.life.stream.closed with
      | false => exact Life.leaves_of_not hclosed
      | true =>
        rw [Life.leaves_of_closed hclosed, hhandle]
        by_contra hsome
        have hopen := hthere.1 (Option.isSome_iff_ne_none.2 fun hnone => hsome hnone.symm)
        rw [hsame, hopen.notClosed] at hclosed
        cases hclosed
  · replace hclose : closes new = [.close c.life.stream.closeUdf c.handle] := hclose
    rw [← hhandle] at hclose
    refine .closed hclose ?_ hclosed ?_
    · rw [hhandle, hcloses, hopen]
      exact Bool.false_ne_true
    · rw [hhandle]
      exact hthere.2 ⟨hkeeps.opened.symm.trans (hok.life.told.closedOpened hclosed), hopen⟩

/-- A stream is bound. -/
theorem Serving.Ok.append (h : s.Ok P arrayOf Knows) (hhandle : c.handle = handleOf (s.counter + 1))
    {host : HostStreamUdfs S B W}
    (hother : ∀ handle, handle ≠ c.handle → host.live.lookup handle = s.host.live.lookup handle)
    (hthere : (host.live.lookup c.handle).isSome ↔ c.life.stream.opened = true)
    (hok : c.Ok P arrayOf Knows (c.life.leaves (host.live.lookup c.handle)))
    (aclose : Except String Unit) :
    Serving.Ok P arrayOf Knows (Serving.heed
      { s with counter := s.counter + 1, host, calls := s.calls ++ [c] } aclose c.life.events) := by
  have hnew : ∀ b ∈ s.calls, b.handle ≠ c.handle := by
    intro b hb hsame
    obtain ⟨number, hle, hnumber⟩ := h.numbered b hb
    rw [hsame, hhandle] at hnumber
    have := handleOf_injective hnumber
    omega
  have hmem : ∀ b, b ∈ s.calls ++ [c] ↔ b = c ∨ (b ∈ s.calls ∧ b.handle ≠ c.handle) := by
    intro b
    rw [List.mem_append, List.mem_singleton, or_comm]
    exact or_congr_right ⟨fun hb => ⟨hb, hnew b hb⟩, fun hb => hb.1⟩
  have hdistinct : ((s.calls ++ [c]).map HostCall.handle).Nodup := by
    rw [List.map_append]
    refine h.distinct.append (List.nodup_singleton _) fun handle hin hthis => ?_
    obtain ⟨b, hb, rfl⟩ := List.mem_map.1 hin
    exact hnew b hb (List.mem_singleton.1 hthis)
  have hnumbered : ∀ b ∈ s.calls ++ [c], ∃ number ≤ s.counter + 1,
      b.handle = handleOf number := by
    intro b hb
    rcases (hmem b).1 hb with rfl | ⟨hb, -⟩
    · exact ⟨_, le_rfl, hhandle⟩
    · obtain ⟨number, hle, hnumber⟩ := h.numbered b hb
      exact ⟨number, by omega, hnumber⟩
  have hfresh : c.handle ∉ s.closings.map Prod.fst := by
    rw [h.closed]
    rintro ⟨b, hb, hsame, -⟩
    exact hnew b hb hsame
  refine h.settle hmem hdistinct hnumbered hother hok ?_ aclose
  have hcloses := hok.life.told.closes
  cases hclosed : c.life.stream.closed with
  | false =>
    rw [hclosed, if_neg Bool.false_ne_true] at hcloses
    exact .nothing hcloses (iff_of_false hfresh (by rw [hclosed]; exact Bool.false_ne_true))
      (Life.leaves_of_not hclosed)
  | true =>
    rw [if_pos hclosed] at hcloses
    exact .closed hcloses hfresh hclosed (hthere.2 (hok.life.told.closedOpened hclosed))

/-! ### Binding -/

/-- A stream that the host has not opened. -/
theorem Life.bind_unopened (info : StreamFunctionInfo) (number : Nat) {answers : OpenAnswers}
    (h : ∀ message, answers.executeOpen ≠ .ok (some message)) (bindSchema : Except String Unit) :
    (openStreamAndBindSchema N info number answers bindSchema).stream = newStream N info number ∧
      (openStreamAndBindSchema N info number answers bindSchema).live = false ∧
      (openStreamAndBindSchema N info number answers bindSchema).returned = [] := by
  have hthrown : ∃ message, openHostStream N info number answers =
      (newStream N info number).thrown [] message := by
    unfold openHostStream
    dsimp only
    cases answers.prepareOpen with
    | error e => exact ⟨_, rfl⟩
    | ok _ =>
      cases hexecute : answers.executeOpen with
      | error e => exact ⟨_, rfl⟩
      | ok message =>
        cases message with
        | none => exact ⟨_, rfl⟩
        | some message => exact absurd hexecute (h message)
  obtain ⟨message, hthrown⟩ := hthrown
  unfold openStreamAndBindSchema
  rw [hthrown]
  exact ⟨rfl, rfl, rfl⟩

/-- What closing leaves of a stream. -/
structure HostStream.Same (stream stream' : HostStream D E V A) : Prop where
  handle : stream'.handle = stream.handle
  opened : stream'.opened = stream.opened
  exhausted : stream'.exhausted = stream.exhausted
  decoder : stream'.decoder = stream.decoder

theorem HostStream.same_closeOnce (stream : HostStream D E V A) :
    stream.Same stream.closeOnce.1 := by
  unfold closeOnce
  split_ifs
  · exact ⟨rfl, rfl, rfl, rfl⟩
  · exact ⟨rfl, rfl, rfl, rfl⟩

/-- A stream that the host has opened, with what its schema message leaves. -/
theorem Life.bind_opened (info : StreamFunctionInfo) (number : Nat) {answers : OpenAnswers}
    {frame : IpcFrame} (hprepare : answers.prepareOpen = .ok ())
    (hexecute : answers.executeOpen = .ok (some frame)) (hne : frame.bytes ≠ [])
    {st : DecoderState D E V A} (hpush : pushInto N frame (newDecoder N) = (true, st))
    (hschema : st.schema.isSome) (bindSchema : Except String Unit) :
    (openStreamAndBindSchema N info number answers bindSchema).returned = [] ∧
      (openStreamAndBindSchema N info number answers bindSchema).stream.handle =
        handleOf number ∧
      (openStreamAndBindSchema N info number answers bindSchema).stream.opened = true ∧
      (openStreamAndBindSchema N info number answers bindSchema).stream.exhausted = false ∧
      (openStreamAndBindSchema N info number answers bindSchema).stream.decoder = st := by
  have hopened : ∃ stream : HostStream D E V A, stream.handle = handleOf number ∧
      stream.opened = true ∧ stream.exhausted = false ∧ stream.decoder = st ∧
      -- the stream is opened even if what follows raises: then it is closed again
      (openHostStream N info number answers).stream = stream := by
    have hempty : frame.bytes.isEmpty = false := by simpa using hne
    have hsome : st.schema.isNone = false := by
      rw [← Option.not_isSome, hschema]
      rfl
    unfold openHostStream
    dsimp only
    rw [hprepare, hexecute]
    dsimp only
    rw [hempty, show (newStream N info number).decoder = newDecoder N from rfl, hpush]
    unfold HostStream.readSchema
    dsimp only
    rw [hsome]
    simp only [Bool.not_true, Bool.or_self, Bool.false_eq_true, if_false]
    split_ifs
    · have hsame := HostStream.same_closeOnce
        ({ newStream N info number with opened := true, decoder := st } : HostStream D E V A)
      exact ⟨_, hsame.handle, hsame.opened, hsame.exhausted, hsame.decoder, rfl⟩
    · cases answers.prepareNext with
      | error e =>
        have hsame := HostStream.same_closeOnce ({ newStream N info number with
          opened := true, decoder := st, schema := st.schema } : HostStream D E V A)
        exact ⟨_, hsame.handle, hsame.opened, hsame.exhausted, hsame.decoder, rfl⟩
      | ok _ => exact ⟨_, rfl, rfl, rfl, rfl, rfl⟩
  obtain ⟨stream, hhandle, hopen, hexhausted, hdecoder, hstream⟩ := hopened
  unfold openStreamAndBindSchema
  dsimp only
  cases (openHostStream N info number answers).error with
  | some message =>
    rw [hstream]
    exact ⟨rfl, hhandle, hopen, hexhausted, hdecoder⟩
  | none =>
    cases bindSchema with
    | error e =>
      have hsame := HostStream.same_closeOnce stream
      dsimp only [dropData, destroy]
      rw [if_pos rfl, hstream]
      exact ⟨rfl, hsame.handle.trans hhandle, hsame.opened.trans hopen,
        hsame.exhausted.trans hexhausted, hsame.decoder.trans hdecoder⟩
    | ok _ =>
      dsimp only
      rw [hstream]
      exact ⟨rfl, hhandle, hopen, hexhausted, hdecoder⟩

/-- The next handle is new to the host. -/
theorem Serving.Ok.lookup_next (h : s.Ok P arrayOf Knows) :
    s.host.live.lookup (handleOf (s.counter + 1)) = none := by
  rw [AList.lookup_eq_none]
  intro hin
  obtain ⟨c, hc, hhandle⟩ := h.live _ hin
  obtain ⟨number, hle, hnumber⟩ := h.numbered c hc
  have := handleOf_injective (hnumber.symm.trans hhandle)
  omega

/-- While a stream is bound nothing is asked of it. -/
theorem Life.ordered_bind (info : StreamFunctionInfo) (number : Nat) (answers : OpenAnswers)
    (bindSchema : Except String Unit) : NoNextAfter HostEvent.isSaidEnd
      (openStreamAndBindSchema N info number answers bindSchema).events := by
  have hsilent := silent_openStreamAndBindSchema (N := N) info number answers bindSchema
  exact List.Pairwise.imp_of_mem (fun _ hb _ _ => hsilent _ hb)
    (List.pairwise_of_forall fun _ _ => trivial)

/-- A stream is bound that the host does not open. -/
theorem Serving.Ok.bind_unopened (h : s.Ok P arrayOf Knows) (info : StreamFunctionInfo)
    {answers : OpenAnswers} (hnone : ∀ message, answers.executeOpen ≠ .ok (some message))
    (bindSchema aclose : Except String Unit) {life : Life D E V A}
    (hlife : Life.openStreamAndBindSchema N info (s.counter + 1) answers bindSchema = life) :
    Serving.Ok P arrayOf Knows (Serving.heed { s with
      counter := s.counter + 1
      calls := s.calls ++ [{ life, source := none }] } aclose life.events) := by
  obtain ⟨hstream, hlive, hreturned⟩ :=
    Life.bind_unopened (N := N) info (s.counter + 1) hnone bindSchema
  have hok := Life.ok_openStreamAndBindSchema (N := N) info (s.counter + 1) answers bindSchema
  have hordered := Life.ordered_bind (N := N) info (s.counter + 1) answers bindSchema
  rw [hlife] at hstream hlive hreturned hok hordered
  have hhandle : life.stream.handle = handleOf (s.counter + 1) := by
    rw [hstream]
    rfl
  have hclosed : ¬life.stream.opened = true := by
    rw [hstream]
    exact Bool.false_ne_true
  have hlookup : s.host.live.lookup life.stream.handle = none := by
    rw [hhandle]
    exact h.lookup_next
  refine Serving.Ok.append (c := { life, source := none }) h hhandle (fun _ _ => rfl) ?_ ?_ aclose
  · show (s.host.live.lookup life.stream.handle).isSome ↔ life.stream.opened = true
    rw [hlookup]
    exact iff_of_false (by simp) hclosed
  · show HostCall.Ok P arrayOf Knows { life, source := none }
      (life.leaves (s.host.live.lookup life.stream.handle))
    rw [hlookup, Life.leaves, ite_self]
    refine ⟨hok, fun hlive' => ?_, iff_of_false (by simp) fun hopen => hclosed hopen.opened, nofun,
      fun _ => hordered, fun _ => ⟨[], ⟨?_, ?_, fun hended => ?_, fun hexhausted => ?_⟩, nofun⟩⟩
    · rw [show life.live = true from hlive'] at hlive
      cases hlive
    · unfold HostCall.received
      rw [hreturned]
      rfl
    · rw [hreturned]
      exact List.not_mem_nil
    · rw [hreturned] at hended
      cases hended
    · rw [hstream] at hexhausted
      cases hexhausted

/-- A stream is bound that the host opens. -/
theorem Serving.Ok.bind_opened (hunderstands : Understands N P conforms arrayOf Knows)
    (h : s.Ok P arrayOf Knows) (info : StreamFunctionInfo) {schema : S} {source : BatchSource B}
    {answers : OpenAnswers} (hprepare : answers.prepareOpen = .ok ()) {frame : IpcFrame}
    (hexecute : answers.executeOpen = .ok (some frame))
    (hframe : frame.bytes = (P.serialize schema).bytes) (bindSchema aclose : Except String Unit)
    {host : HostStreamUdfs S B W}
    (hhost : host.live = s.host.live.insert (handleOf (s.counter + 1))
      ⟨{ FrameEncoder.init P schema with dropSchema := true }, source, []⟩) {life : Life D E V A}
    (hlife : Life.openStreamAndBindSchema N info (s.counter + 1) answers bindSchema = life) :
    Serving.Ok P arrayOf Knows (Serving.heed { s with
      counter := s.counter + 1
      host
      calls := s.calls ++ [{ life, source := some source }] } aclose life.events) := by
  -- the only bytes are those of the schema message
  obtain ⟨hdrained, hfollows⟩ := hunderstands.read_schema schema
  have hnew : (newDecoder N).failed = false := by
    rw [newDecoder, if_pos hunderstands.initialized]
  have hne : frame.bytes ≠ [] := by
    have := (P.serialize schema).append_ne_nil []
    rwa [List.append_nil, ← hframe] at this
  rw [← hframe] at hdrained hfollows
  have hpush := pushInto_eq hnew hfollows.notFailed
  obtain ⟨hreturned, hhandle, hopened, hexhausted, hdecoder⟩ :=
    Life.bind_opened info (s.counter + 1) hprepare hexecute hne hpush hfollows.schema bindSchema
  have hok := Life.ok_openStreamAndBindSchema (N := N) info (s.counter + 1) answers bindSchema
  have hordered := Life.ordered_bind (N := N) info (s.counter + 1) answers bindSchema
  rw [hlife] at hreturned hhandle hopened hexhausted hdecoder hok hordered
  have hlookup : host.live.lookup life.stream.handle =
      some ⟨{ FrameEncoder.init P schema with dropSchema := true }, source, []⟩ := by
    rw [hhost, hhandle, AList.lookup_insert]
  refine Serving.Ok.append (c := { life, source := some source }) h hhandle (fun handle hne' => ?_)
    ?_ ?_ aclose
  · rw [hhost, AList.lookup_insert_ne]
    exact fun hsame => hne' (hsame.trans hhandle.symm)
  · show (host.live.lookup life.stream.handle).isSome ↔ life.stream.opened = true
    rw [hlookup]
    exact iff_of_true rfl hopened
  · show HostCall.Ok P arrayOf Knows { life, source := some source }
      (life.leaves (host.live.lookup life.stream.handle))
    rw [hlookup]
    refine ⟨hok, fun _ => hopened, ?_, fun _ hraised => absurd hraised List.not_mem_nil,
      fun _ => hordered, fun _ =>
      ⟨LiveStream.toCome ⟨{ FrameEncoder.init P schema with dropSchema := true }, source, []⟩,
        ⟨?_, ?_, fun hended => ?_, fun hex => ?_⟩, fun stream hstream => ?_⟩⟩
    -- the host has dropped the stream exactly if the life has closed it
    · cases hclosed : life.stream.closed with
      | true =>
        rw [Life.leaves_of_closed hclosed]
        refine iff_of_false (by simp) fun hopen => ?_
        rw [show life.stream.closed = false from hopen.notClosed] at hclosed
        cases hclosed
      | false =>
        rw [Life.leaves_of_not hclosed]
        exact iff_of_true rfl ⟨hopened, hclosed⟩
    · unfold HostCall.received HostCall.yielded
      rw [hreturned]
      cases source <;> simp [LiveStream.toCome]
    · rw [hreturned]
      exact List.not_mem_nil
    · rw [hreturned] at hended
      cases hended
    · rw [hexhausted] at hex
      cases hex
    · obtain rfl := Option.some.inj (Life.mem_of_leaves hstream)
      -- nothing has been sent but what the writer held when the schema was dropped
      refine ⟨rfl, ⟨⟨rfl, .inl ⟨rfl, ?_⟩⟩, rfl, ?_, ?_⟩, by simp⟩
      · show P.held schema = _
        rw [StreamWriter.held, hunderstands.lazy]
        rfl
      · rw [hdecoder]
        exact hfollows
      · rw [hdecoder]
        exact hdrained

/-- **A bind** keeps what holds of all streams. -/
theorem Serving.Ok.bind (hunderstands : Understands N P conforms arrayOf Knows)
    (h : s.Ok P arrayOf Knows) (function : String) (call : CallOutcome B) (answers : BindAnswers) :
    (s.bind N P describe function call answers).Ok P arrayOf Knows := by
  unfold Serving.bind
  dsimp only
  cases answers.prepareOpen with
  | error e =>
    have hfailed : ∀ message, OpenAnswers.executeOpen
        { prepareOpen := .error e, executeOpen := .ok none } ≠ .ok (some message) := nofun
    have hbound :=
      h.bind_unopened (N := N) (s.info function) hfailed answers.bindSchema (.ok ()) rfl
    have hclosed :=
      Life.bind_unopened (N := N) (s.info function) (s.counter + 1) hfailed answers.bindSchema
    -- a stream that was not opened is not closed
    have hcloses := (Life.ok_openStreamAndBindSchema (N := N) (s.info function) (s.counter + 1)
      { prepareOpen := .error e, executeOpen := .ok none } answers.bindSchema).told.closes
    rw [hclosed.1, if_neg (show ¬(newStream N (s.info function) (s.counter + 1)).closed = true from
      Bool.false_ne_true)] at hcloses
    rwa [heed_of_none hcloses] at hbound
  | ok _ =>
    dsimp only
    unfold HostStreamUdfs.openStream
    cases s.host.sourceOf function call with
    | error e => exact h.bind_unopened _ (fun message hsome => by cases hsome) _ _ rfl
    | ok found =>
      obtain ⟨schema, source⟩ := found
      have hstarted : (s.host.start P ("b" ++ toString (s.counter + 1)) schema source).1 =
          .ok (P.serialize schema).bytes := by
        unfold HostStreamUdfs.start
        rw [FrameEncoder.takeSchemaMessage_init]
        rfl
      have hlive : (s.host.start P ("b" ++ toString (s.counter + 1)) schema source).2.live =
          s.host.live.insert (handleOf (s.counter + 1))
            ⟨{ FrameEncoder.init P schema with dropSchema := true }, source, []⟩ := by
        unfold HostStreamUdfs.start
        rw [FrameEncoder.takeSchemaMessage_init]
        rfl
      obtain ⟨frame, hframe, hbytes⟩ : ∃ frame, toFrame (P.serialize schema).bytes = .ok frame ∧
          frame.bytes = (P.serialize schema).bytes := by
        rw [toFrame, dif_pos (hunderstands.schemaFits schema)]
        exact ⟨_, rfl, rfl⟩
      refine h.bind_opened hunderstands _ rfl ?_ hbytes _ _ hlive rfl
      show Except.map some (Except.mapError describe (Except.bind _ toFrame)) = _
      rw [hstarted]
      show Except.map some (Except.mapError describe (toFrame _)) = _
      rw [hframe]
      rfl

/-- **Every step** keeps what holds of all streams. -/
theorem Serving.Ok.step (hunderstands : Understands N P conforms arrayOf Knows)
    (h : s.Ok P arrayOf Knows) {label : ServeLabel B}
    (hnext : (serving N P conforms describe).next s label = some s') : s'.Ok P arrayOf Knows := by
  cases label with
  | elsewhere =>
    obtain rfl := Option.some.inj hnext
    refine ⟨h.calls, h.distinct, fun c hc => ?_, h.live, h.closed, h.once, h.known⟩
    obtain ⟨number, hle, hnumber⟩ := h.numbered c hc
    exact ⟨number, Nat.le_succ_of_le hle, hnumber⟩
  | bind function call answers =>
    obtain rfl := Option.some.inj hnext
    exact h.bind hunderstands function call answers
  | onStream i e aclose =>
    obtain ⟨c, hi, hturn⟩ := Option.bind_eq_some_iff.1 hnext
    have hc := h.calls c (List.mem_of_getElem? hi)
    -- only the host answers a pull
    have hanswer : ∀ a, e ≠ .answer a := by
      rintro a rfl
      cases hturn
    have hmap : (c.life.step N e).map (fun life => s.turn i c { c with life } s.host aclose) =
        some s' := by
      cases e with
      | answer a => exact absurd rfl (hanswer a)
      | produceStream | getNext | releaseWrapper | dropData => exact hturn
    obtain ⟨life, hstep, rfl⟩ := Option.map_eq_some_iff.1 hmap
    obtain ⟨new, hevents, -⟩ := hc.life.adds_step hstep
    exact h.turn hi (fun _ _ => rfl) hc.there (Life.keeps_step hstep) hevents
      (hc.onStream hstep hanswer) aclose
  | next i answers aclose =>
    obtain ⟨c, hi, hturn⟩ := Option.bind_eq_some_iff.1 hnext
    have hc := h.calls c (List.mem_of_getElem? hi)
    unfold Serving.next at hturn
    split at hturn
    next result host hframe =>
      obtain ⟨life, hstep, rfl⟩ := Option.map_eq_some_iff.1 hturn
      have hwaiting : c.life.waiting = true := by
        rw [Life.step] at hstep
        split_ifs at hstep with hwaiting
        exact hwaiting
      -- a call that waits has its stream at the host
      obtain ⟨stream, hstream⟩ := Option.isSome_iff_exists.1 (hc.there.2 (hc.isOpen hwaiting))
      rw [hstream] at hc
      have hlife : c.life.answer N (nextAnswer describe (udfResult result)) = life := by
        rw [Life.step_answer hwaiting] at hstep
        exact Option.some.inj hstep
      obtain ⟨stream', hhost, hok⟩ := hc.next hunderstands hwaiting hstream hframe hlife
      obtain ⟨new, hevents, -⟩ := hc.life.adds_step hstep
      have hlookup : host.live.lookup c.handle = some stream' := by
        rw [hhost, AList.lookup_insert]
      refine h.turn hi (fun handle hne => ?_) ?_ (Life.keeps_step hstep) hevents ?_ aclose
      · rw [hhost, AList.lookup_insert_ne hne]
      · rw [hlookup]
        exact iff_of_true rfl (hc.isOpen hwaiting)
      · rw [hlookup]
        exact hok
    next => cases hturn

/-- A host without streams. -/
theorem Serving.ok_start {host : HostStreamUdfs S B W} (h : host.live = ∅) (counter : Nat) :
    Serving.Ok P arrayOf Knows (⟨counter, host, [], []⟩ : Serving D E V A S B W) where
  calls c hc := by cases hc
  distinct := .nil
  numbered c hc := by cases hc
  live handle hin := by
    replace hin : handle ∈ host.live := hin
    rw [h] at hin
    exact absurd hin (AList.notMem_empty handle)
  closed handle := by simp
  once := .nil
  known p hp := by cases hp

variable {host : HostStreamUdfs S B W} {counter : Nat} {labels : List (ServeLabel B)}

theorem Serving.ok_of_run (hunderstands : Understands N P conforms arrayOf Knows)
    (hhost : host.live = ∅) (h : (serving N P conforms describe).Run Machine.Free
      ⟨counter, host, [], []⟩ labels s) : s.Ok P arrayOf Knows :=
  h.invariant (Serving.ok_start hhost counter) fun _ _ _ hok _ hnext => hok.step hunderstands hnext

/-- **What a generator yields is what the scan receives**: whatever streams a host serves, in
whatever order they are bound, asked, answered and dropped, and however their generators cut what
they yield, the scan of each has received a beginning of what was yielded, in order and nothing
twice, as long as its calls of `_next` raise nothing; then no `get_next` has failed, and one has
ended only if the generator has and nothing of what it yielded is missing. -/
theorem served_in_order (hunderstands : Understands N P conforms arrayOf Knows)
    (hhost : host.live = ∅) (h : (serving N P conforms describe).Run Machine.Free
      ⟨counter, host, [], []⟩ labels s) :
    ∀ c ∈ s.calls, c.raised = [] → (∃ toCome, c.InOrder arrayOf toCome) ∧
      NoNextAfter HostEvent.isSaidEnd c.life.events := by
  intro c hc hraised
  have hok := (Serving.ok_of_run hunderstands hhost h).calls c hc
  obtain ⟨toCome, hinOrder, -⟩ := hok.inOrder hraised
  exact ⟨⟨toCome, hinOrder⟩, hok.ordered hraised⟩

/-- **Every stream is closed at the host once**: the host has exactly the streams that it has opened
and that were not closed, no call of `_next` or `_close` is for a stream that it does not have, no
handle is closed twice, and a stream that is gone was closed. -/
theorem closed_at_the_host (hunderstands : Understands N P conforms arrayOf Knows)
    (hhost : host.live = ∅) (h : (serving N P conforms describe).Run Machine.Free
      ⟨counter, host, [], []⟩ labels s) :
    (∀ handle, handle ∈ s.host.live ↔ ∃ c ∈ s.calls, c.handle = handle ∧ c.life.IsOpen) ∧
      (s.closings.map Prod.fst).Nodup ∧ (∀ p ∈ s.closings, p.2 ≠ .error (.notOpen p.1)) ∧
      (∀ c ∈ s.calls, .notOpen c.handle ∉ c.raised) ∧
      ∀ c ∈ s.calls, c.life.stream.opened = true → c.life.live = false →
        c.handle ∈ s.closings.map Prod.fst := by
  have hok := Serving.ok_of_run hunderstands hhost h
  refine ⟨fun handle => ⟨fun hin => ?_, ?_⟩, hok.once, hok.known, fun c hc hraised => ?_,
    fun c hc hopened hgone => ?_⟩
  · obtain ⟨c, hc, rfl⟩ := hok.live handle hin
    exact ⟨c, hc, rfl, (hok.calls c hc).there.1 (AList.lookup_isSome.2 hin)⟩
  · rintro ⟨c, hc, rfl, hopen⟩
    exact AList.lookup_isSome.1 ((hok.calls c hc).there.2 hopen)
  · exact (hok.calls c hc).known _ hraised _ rfl
  · exact (hok.closed c.handle).2 ⟨c, hc, rfl, (hok.calls c hc).life.gone hgone hopened⟩

end Served

/-! ### A generator that ticks -/

namespace Sample

/-- A host with one streaming RPC. -/
def tickHost : HostStreamUdfs Unit UInt8 Bool where
  openUdf := "ticks_open"
  nextUdf := "ticks_next"
  closeUdf := "ticks_close"
  registry := (∅ : AList fun _ : String => RpcEntry Unit).insert "ticks" ⟨true, ()⟩

/-- The host and the wire, with the errors as DuckDB shows them. -/
def ticking : Machine (Serving Unit Unit UInt8 UInt8 Unit UInt8 Bool) (ServeLabel UInt8) :=
  serving byteReader byteWriter (fun _ _ => true) fun _ => "Python exception"

/-- The generator yields an empty table, a table of two batches, and ends. -/
def ticksLabels : List (ServeLabel UInt8) :=
  [.bind "ticks" (.returned (.other "async_generator")) {}, .onStream 0 .produceStream (.ok ()),
    .onStream 0 .getNext (.ok ()), .next 0 [.value (.table []), .value (.table [4, 5])] (.ok ()),
    .onStream 0 .getNext (.ok ()), .next 0 [] (.ok ()), .onStream 0 .getNext (.ok ()),
    .next 0 [.stop] (.ok ()), .onStream 0 .releaseWrapper (.ok ()), .onStream 0 .dropData (.ok ())]

/-- The host afterwards. -/
def ticked : Serving Unit Unit UInt8 UInt8 Unit UInt8 Bool :=
  (ticking.exec ⟨0, tickHost, [], []⟩ ticksLabels).getD ⟨0, tickHost, [], []⟩

theorem run_ticks : ticking.Run Machine.Free ⟨0, tickHost, [], []⟩ ticksLabels ticked :=
  Machine.run_of_exec rfl

end Sample

theorem served_in_order_ticks : Sample.ticked.calls.map HostCall.received = [[4, 5]] ∧
    ∀ c ∈ Sample.ticked.calls, c.raised = [] → (∃ toCome, c.InOrder id toCome) ∧
      NoNextAfter HostEvent.isSaidEnd c.life.events :=
  ⟨rfl, served_in_order Sample.understands_bytes rfl Sample.run_ticks⟩

theorem closed_at_the_host_ticks :
    (∀ handle, handle ∈ Sample.ticked.host.live ↔
        ∃ c ∈ Sample.ticked.calls, c.handle = handle ∧ c.life.IsOpen) ∧
      (Sample.ticked.closings.map Prod.fst).Nodup ∧
      (∀ p ∈ Sample.ticked.closings, p.2 ≠ .error (.notOpen p.1)) ∧
      (∀ c ∈ Sample.ticked.calls, .notOpen c.handle ∉ c.raised) ∧
      ∀ c ∈ Sample.ticked.calls, c.life.stream.opened = true → c.life.live = false →
        c.handle ∈ Sample.ticked.closings.map Prod.fst :=
  closed_at_the_host Sample.understands_bytes rfl Sample.run_ticks

end Provider

end VirtualCatalog
