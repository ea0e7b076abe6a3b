import VirtualCatalog.Provider.HostStream

/-!
# A host stream is closed once

The bind data, the scan and the stream itself can each close a stream, and the end can be seen
behind a batch that is still to be fetched.

* `Life.ClosedOnce` : the close UDF is called once if the stream was opened and is gone.
* `Life.Late` : the end was seen together with a batch, and the batch was popped.
* `Life.Ok` : what holds of every stream; one owner has the release callback, and what was closed is
  exhausted while it is there.
* `Life.Adds` : what a step adds to what the host was told.
* `closed_once_iff` : in every run each stream is closed once and nothing is asked of it after its
  close; nothing is asked of it after its end exactly if no late stream is asked for a batch.
-/

namespace VirtualCatalog

namespace Provider

section Stream

variable {D E V A : Type}

/-- The close UDF is called with the handle of the stream, once if the stream was opened and is
gone, not more than once before, and never if it was not opened. -/
structure Life.ClosedOnce (l : Life D E V A) : Prop where
  most : closes l.events = [] ∨ closes l.events = [.close l.stream.closeUdf l.stream.handle]
  unopened : .opened ∉ l.events → closes l.events = []
  gone : .opened ∈ l.events → l.live = false →
    closes l.events = [.close l.stream.closeUdf l.stream.handle]

/-- The end was seen, it is not noted, and no batch is left. -/
structure Life.Late (l : Life D E V A) : Prop where
  done : l.stream.decoder.done = true
  empty : l.stream.decoder.batches = []
  unnoted : l.stream.exhausted = false

/-- No late stream is asked for a batch. -/
def InTime : List (Life D E V A) → StreamLabel → Prop
  | w, .onStream i .getNext => ∀ l ∈ w[i]?, ¬l.Late
  | _, _ => True

variable {N : Nanoarrow D E V A} {l l' : Life D E V A} {stream : HostStream D E V A}

/-! ### One step -/

/-- What holds of every stream that was bound. -/
structure Life.Ok (l : Life D E V A) : Prop where
  told : l.stream.Told l.events
  gone : l.live = false → l.stream.opened = true → l.stream.closed = true
  /-- A stream that was closed and is still there is exhausted. -/
  spent : l.live = true → l.stream.closed = true → l.stream.exhausted = true
  /-- One of the copies has the release callback. -/
  data : ∀ data ∈ l.data, data.release = true → l.live = true ∧ l.wrapper = false
  wrapper : l.wrapper = true → l.live = true
  waiting : l.waiting = true → l.wrapper = true ∧ l.stream.exhausted = false
  kept : ∀ data ∈ l.data, data.consumed = false → data.release = true

namespace Life

theorem Ok.closedOnce (h : l.Ok) : l.ClosedOnce where
  most := by
    rw [h.told.closes]
    split_ifs
    · exact .inr rfl
    · exact .inl rfl
  unopened hunopened := by
    have hclosed : ¬l.stream.closed = true := fun hclosed =>
      hunopened (h.told.opened.1 (h.told.closedOpened hclosed))
    rw [h.told.closes, if_neg hclosed]
  gone hopened hgone := by
    rw [h.told.closes, if_pos (h.gone hgone (h.told.opened.2 hopened))]

/-- A stream without owners is destroyed. -/
theorem Ok.destroy (h : l.Ok) (hdata : ∀ data ∈ l.data, data.release = false)
    (hwrapper : l.wrapper = false) (hwaiting : l.waiting = false) : l.destroy.Ok where
  told := h.told.closeOnce.1
  gone _ := h.told.closeOnce.2
  spent hlive := by cases hlive
  data data hmem hrelease := by
    rw [hdata data hmem] at hrelease
    cases hrelease
  wrapper hw := by
    rw [show l.wrapper = true from hw] at hwrapper
    cases hwrapper
  waiting hw := by
    rw [show l.waiting = true from hw] at hwaiting
    cases hwaiting
  kept := h.kept

theorem Ok.give (h : l.Ok) (r : Returned A) : (l.give r).Ok where
  told := h.told
  gone := h.gone
  spent := h.spent
  data := h.data
  wrapper := h.wrapper
  waiting := nofun
  kept := h.kept

theorem Ok.fail (h : l.Ok) (message : String) : (l.fail message).Ok where
  told := ⟨h.told.opened, h.told.closes, h.told.closedOpened, h.told.saidEnd, h.told.quiet⟩
  gone := h.gone
  spent := h.spent
  data := h.data
  wrapper := h.wrapper
  waiting := nofun
  kept := h.kept

/-- The end of a live stream that waited. -/
theorem Ok.exhaust (h : l.Ok) (hsaid : .saidEnd ∈ l.events) : l.exhaust.Ok where
  told := (h.told.exhaust hsaid).closeOnce.1
  gone _ := (h.told.exhaust hsaid).closeOnce.2
  spent _ _ := by
    show ({ l.stream with exhausted := true } : HostStream D E V A).closeOnce.1.exhausted = true
    unfold HostStream.closeOnce
    split_ifs <;> rfl
  data := h.data
  wrapper := h.wrapper
  waiting := nofun
  kept := h.kept

theorem tryPopBatch_eq_some {st st' : DecoderState D E V A} {array : A}
    (h : tryPopBatch st = some (array, st')) : st'.done = st.done := by
  unfold tryPopBatch at h
  split at h
  · cases h
  · cases h
    rfl

/-- A live stream that is not exhausted gives a batch or asks for the next frame. -/
theorem Ok.fetch (h : l.Ok) (hwrapper : l.wrapper = true) (hopen : l.stream.exhausted = false) :
    l.fetch.Ok := by
  unfold Life.fetch
  cases hpop : tryPopBatch l.stream.decoder with
  | some popped =>
    obtain ⟨array, decoder⟩ := popped
    have hdone := tryPopBatch_eq_some hpop
    refine ⟨⟨h.told.opened, h.told.closes, h.told.closedOpened, ?_, h.told.quiet⟩, h.gone, h.spent,
      h.data, h.wrapper, nofun, h.kept⟩
    show _ ↔ l.stream.exhausted = true ∨ decoder.done = true
    rw [hdone]
    exact h.told.saidEnd
  | none =>
    have hclosed : l.stream.closed = false := by
      by_contra hclosed
      rw [Bool.not_eq_false] at hclosed
      rw [h.spent (h.wrapper hwrapper) hclosed] at hopen
      cases hopen
    exact ⟨h.told.next hclosed _ _, h.gone, h.spent, h.data, h.wrapper,
      fun _ => ⟨hwrapper, hopen⟩, h.kept⟩

theorem Ok.getNext (h : l.Ok) (hwrapper : l.wrapper = true) : l.getNext.Ok := by
  unfold Life.getNext
  cases hopen : l.stream.exhausted with
  | true => exact h.give .ended
  | false => exact h.fetch hwrapper hopen

theorem Ok.push (h : l.Ok) (frame : IpcFrame) : (l.push N frame).Ok where
  told := h.told.push fun hdone => done_pushInto hdone frame
  gone := h.gone
  spent := h.spent
  data := h.data
  wrapper := h.wrapper
  waiting := h.waiting
  kept := h.kept

theorem Ok.afterPush (h : l.Ok) (hwrapper : l.wrapper = true) (hopen : l.stream.exhausted = false)
    (read : Bool) : (l.afterPush read).Ok := by
  unfold Life.afterPush
  split_ifs with hread hend
  · exact h.fail _
  · rw [Bool.and_eq_true] at hend
    exact h.exhaust (h.told.saidEnd.2 (.inr hend.2))
  · exact h.fetch hwrapper hopen

theorem Ok.answer (h : l.Ok) (hwaiting : l.waiting = true) (a : NextAnswer) :
    (l.answer N a).Ok := by
  obtain ⟨hwrapper, hopen⟩ := h.waiting hwaiting
  cases a with
  | failed message => exact h.fail message
  | null =>
    -- the end is told just before it is noted
    have htold : ({ l.stream with exhausted := true } : HostStream D E V A).Told
        (l.events ++ [.saidEnd]) := by
      refine ⟨?_, ?_, h.told.closedOpened, by simp, ?_⟩
      · simpa using h.told.opened
      · rw [closes_append, h.told.closes]
        exact List.append_nil _
      · refine h.told.quiet.append (List.pairwise_singleton _ _) fun b hb hnext => ?_
        rw [List.mem_singleton.1 hb] at hnext
        cases hnext
    refine ⟨htold.closeOnce.1, fun _ => htold.closeOnce.2, fun _ _ => ?_, h.data, h.wrapper, nofun,
      h.kept⟩
    show ({ l.stream with exhausted := true } : HostStream D E V A).closeOnce.1.exhausted = true
    unfold HostStream.closeOnce
    split_ifs <;> rfl
  | frame frame => exact (h.push frame).afterPush hwrapper hopen _

theorem Ok.dropData (h : l.Ok) {data : HostStreamData} (hdata : l.data = some data) :
    (l.dropData data).Ok := by
  have hcleared : Ok { l with data := none } :=
    ⟨h.told, h.gone, h.spent, nofun, h.wrapper, h.waiting, nofun⟩
  unfold Life.dropData
  split_ifs with hrelease
  · obtain ⟨-, hwrapper⟩ := h.data data hdata hrelease
    refine hcleared.destroy nofun hwrapper ?_
    by_contra hwaiting
    rw [Bool.not_eq_false] at hwaiting
    rw [(h.waiting hwaiting).1] at hwrapper
    cases hwrapper
  · exact hcleared

theorem Ok.takeHostStreamOnce (h : l.Ok) {data : HostStreamData} (hdata : l.data = some data)
    (htaken : l.takeHostStreamOnce data = some l') : l'.Ok := by
  unfold Life.takeHostStreamOnce at htaken
  cases hconsumed : data.consumed with
  | true =>
    rw [hconsumed] at htaken
    cases htaken
  | false =>
    have hrelease := h.kept data hdata hconsumed
    rw [hconsumed, hrelease] at htaken
    obtain rfl := Option.some.inj htaken
    obtain ⟨hlive, hwrapper⟩ := h.data data hdata hrelease
    refine ⟨h.told, h.gone, h.spent, ?_, fun _ => hlive, fun hwaiting => ?_, ?_⟩
    · rintro data' ⟨⟩ hnone
      cases hnone
    · exact ⟨rfl, (h.waiting hwaiting).2⟩
    · rintro data' ⟨⟩ hnot
      cases hnot

theorem Ok.step (h : l.Ok) {e : Step} (hstep : l.step N e = some l') : l'.Ok := by
  cases e with
  | produceStream =>
    obtain ⟨data, hdata, htaken⟩ := Option.bind_eq_some_iff.1 hstep
    exact h.takeHostStreamOnce hdata htaken
  | getNext =>
    rw [Life.step] at hstep
    split_ifs at hstep with hcan
    rw [Bool.and_eq_true] at hcan
    obtain rfl := Option.some.inj hstep
    exact h.getNext hcan.1
  | answer a =>
    rw [Life.step] at hstep
    split_ifs at hstep with hcan
    obtain rfl := Option.some.inj hstep
    exact h.answer hcan a
  | releaseWrapper =>
    rw [Life.step] at hstep
    split_ifs at hstep with hcan
    rw [Bool.and_eq_true] at hcan
    obtain rfl := Option.some.inj hstep
    obtain ⟨hwrapper, hidle⟩ := hcan
    have hwaiting : l.waiting = false := by simpa using hidle
    -- the bind data has no callback, as the wrapper has it
    have hdata : ∀ data ∈ l.data, data.release = false := by
      intro data hmem
      by_contra hrelease
      rw [Bool.not_eq_false] at hrelease
      rw [(h.data data hmem hrelease).2] at hwrapper
      cases hwrapper
    have hcleared : Ok { l with wrapper := false } := by
      refine ⟨h.told, h.gone, h.spent, fun data hmem hrelease => ?_, nofun, fun hw => ?_, h.kept⟩
      · rw [hdata data hmem] at hrelease
        cases hrelease
      · rw [show l.waiting = true from hw] at hwaiting
        cases hwaiting
    exact hcleared.destroy hdata rfl hwaiting
  | dropData =>
    obtain ⟨data, hdata, rfl⟩ := Option.map_eq_some_iff.1 hstep
    exact h.dropData hdata

theorem ok_openStreamAndBindSchema (info : StreamFunctionInfo) (number : Nat)
    (answers : OpenAnswers) (bindSchema : Except String Unit) :
    (openStreamAndBindSchema N info number answers bindSchema).Ok := by
  have hopen := ok_openHostStream (N := N) info number answers
  unfold openStreamAndBindSchema
  generalize openHostStream N info number answers = opened at hopen
  dsimp only
  cases herror : opened.error with
  | some message =>
    exact ⟨hopen.told, fun _ => hopen.threw (by rw [herror]; rfl), nofun, nofun, nofun, nofun, nofun⟩
  | none =>
    have hbound : Life.Ok
        ⟨opened.stream, true, some ⟨true, false⟩, false, false, [], opened.events⟩ := by
      refine ⟨hopen.told, nofun, fun _ hclosed => ?_, ?_, nofun, nofun, ?_⟩
      · have hopened := hopen.went herror
        rw [show opened.stream.closed = true from hclosed] at hopened
        cases hopened
      · rintro data ⟨⟩ -
        exact ⟨rfl, rfl⟩
      · rintro data ⟨⟩ -
        rfl
    cases bindSchema with
    | error e => exact hbound.dropData rfl
    | ok _ => exact hbound

/-! ### What a step adds -/

/-- The new events of a step: the next UDF is called at most before the end is said, unless a late
stream is asked. -/
structure Adds (l : Life D E V A) (e : Step) (new : List HostEvent) : Prop where
  ordered : NoNextAfter HostEvent.isSaidEnd new
  inTime : (∃ b ∈ new, b.isNext = true) → .saidEnd ∈ l.events → e = .getNext ∧ l.Late
  late : e = .getNext → l.Late → ∃ b ∈ new, b.isNext = true

/-- New events without a call of the next UDF. -/
theorem Adds.of_no_next {e : Step} {new : List HostEvent} (hnew : ∀ b ∈ new, b.isNext = false)
    (he : e = .getNext → ¬l.Late) : l.Adds e new where
  ordered := List.Pairwise.imp_of_mem (fun _ hb _ _ => hnew _ hb) (List.pairwise_of_forall fun _ _ => trivial)
  inTime hnext := by
    obtain ⟨b, hb, hnext⟩ := hnext
    rw [hnew b hb] at hnext
    cases hnext
  late hget hlate := absurd hlate (he hget)

theorem fetch_events (l : Life D E V A) :
    (l.stream.decoder.batches ≠ [] ∧ l.fetch.events = l.events) ∨
      (l.stream.decoder.batches = [] ∧
        l.fetch.events = l.events ++ [.next l.stream.nextUdf l.stream.handle]) := by
  unfold Life.fetch tryPopBatch
  cases hbatches : l.stream.decoder.batches with
  | nil => exact .inr ⟨rfl, rfl⟩
  | cons batch batches => exact .inl ⟨nofun, rfl⟩

theorem adds_dropData (l : Life D E V A) (data : HostStreamData) :
    ∃ new, (l.dropData data).events = l.events ++ new ∧ l.Adds .dropData new := by
  unfold Life.dropData
  split_ifs
  · exact ⟨_, rfl, .of_no_next (fun b hb => isNext_closeOnce hb) nofun⟩
  · exact ⟨[], (List.append_nil _).symm, .of_no_next nofun nofun⟩

theorem Ok.adds_getNext (h : l.Ok) :
    ∃ new, l.getNext.events = l.events ++ new ∧ l.Adds .getNext new := by
  unfold Life.getNext
  cases hopen : l.stream.exhausted with
  | true =>
    refine ⟨[], (List.append_nil _).symm, .of_no_next nofun fun _ hlate => ?_⟩
    rw [hlate.unnoted] at hopen
    cases hopen
  | false =>
    rcases l.fetch_events with ⟨hbatches, hevents⟩ | ⟨hbatches, hevents⟩
    · exact ⟨[], hevents.trans (List.append_nil _).symm,
        .of_no_next nofun fun _ hlate => hbatches hlate.empty⟩
    · refine ⟨_, hevents, List.pairwise_singleton _ _, fun _ hsaid => ⟨rfl, ?_⟩, fun _ _ => ?_⟩
      · rcases h.told.saidEnd.1 hsaid with hex | hdone
        · rw [hopen] at hex
          cases hex
        · exact ⟨hdone, hbatches, hopen⟩
      · exact ⟨_, List.mem_singleton_self _, rfl⟩

theorem Ok.adds_answer (h : l.Ok) (hwaiting : l.waiting = true) (a : NextAnswer) :
    ∃ new, (l.answer N a).events = l.events ++ new ∧ l.Adds (.answer a) new := by
  obtain ⟨-, hopen⟩ := h.waiting hwaiting
  cases a with
  | failed message => exact ⟨[], (List.append_nil _).symm, .of_no_next nofun nofun⟩
  | null =>
    refine ⟨_, List.append_assoc _ _ _, .of_no_next (fun b hb => ?_) nofun⟩
    rcases List.mem_append.1 hb with hb | hb
    · rw [List.mem_singleton.1 hb]
      rfl
    · exact isNext_closeOnce hb
  | frame frame =>
    -- the decoder stays done once it is
    have hpersists : l.stream.decoder.done = true →
        (pushInto N frame l.stream.decoder).2.done = true := fun hdone => done_pushInto hdone frame
    show ∃ new, ((l.push N frame).afterPush _).events = _ ∧ _
    generalize (pushInto N frame l.stream.decoder).1 = read
    have hquiet : ∀ b ∈ endSeen (pushInto N frame l.stream.decoder).2, b.isNext = false := by
      intro b hb
      rw [mem_endSeen_eq hb]
      rfl
    unfold Life.afterPush
    split_ifs with hread hend
    · exact ⟨_, rfl, .of_no_next hquiet nofun⟩
    · refine ⟨_, List.append_assoc _ _ _, .of_no_next (fun b hb => ?_) nofun⟩
      rcases List.mem_append.1 hb with hb | hb
      · exact hquiet b hb
      · exact isNext_closeOnce hb
    -- a batch is there, or the host is asked for the next one
    · rcases (l.push N frame).fetch_events with ⟨hbatches, hevents⟩ | ⟨hbatches, hevents⟩
      · exact ⟨_, hevents, .of_no_next hquiet nofun⟩
      · -- no batch is left, so the frame has not ended the stream
        have hdone : (pushInto N frame l.stream.decoder).2.done = false := by
          have hbatches' : (pushInto N frame l.stream.decoder).2.batches = [] := hbatches
          by_contra hdone
          rw [Bool.not_eq_false] at hdone
          refine hend ?_
          show ((pushInto N frame l.stream.decoder).2.batches.isEmpty &&
            (pushInto N frame l.stream.decoder).2.done) = true
          rw [hbatches', hdone]
          rfl
        have hnone : endSeen (pushInto N frame l.stream.decoder).2 = [] := by
          rw [endSeen, hdone]
          rfl
        refine ⟨[.next l.stream.nextUdf l.stream.handle], ?_, List.pairwise_singleton _ _,
          fun _ hsaid => ?_, nofun⟩
        · rw [hevents]
          show (l.events ++ endSeen (pushInto N frame l.stream.decoder).2) ++ _ = _
          rw [hnone, List.append_nil]
          rfl
        · rcases h.told.saidEnd.1 hsaid with hex | hd
          · rw [hopen] at hex
            cases hex
          · rw [hpersists hd] at hdone
            cases hdone

theorem Ok.adds_step (h : l.Ok) {e : Step} (hstep : l.step N e = some l') :
    ∃ new, l'.events = l.events ++ new ∧ l.Adds e new := by
  cases e with
  | produceStream =>
    obtain ⟨data, hdata, htaken⟩ := Option.bind_eq_some_iff.1 hstep
    unfold Life.takeHostStreamOnce at htaken
    split_ifs at htaken
    obtain rfl := Option.some.inj htaken
    exact ⟨[], (List.append_nil _).symm, .of_no_next nofun nofun⟩
  | getNext =>
    rw [Life.step] at hstep
    split_ifs at hstep
    obtain rfl := Option.some.inj hstep
    exact h.adds_getNext
  | answer a =>
    rw [Life.step] at hstep
    split_ifs at hstep with hcan
    obtain rfl := Option.some.inj hstep
    exact h.adds_answer hcan a
  | releaseWrapper =>
    rw [Life.step] at hstep
    split_ifs at hstep
    obtain rfl := Option.some.inj hstep
    exact ⟨_, rfl, .of_no_next (fun b hb => isNext_closeOnce hb) nofun⟩
  | dropData =>
    obtain ⟨data, hdata, rfl⟩ := Option.map_eq_some_iff.1 hstep
    exact l.adds_dropData data

theorem silent_openStreamAndBindSchema (info : StreamFunctionInfo) (number : Nat)
    (answers : OpenAnswers) (bindSchema : Except String Unit) :
    ∀ b ∈ (openStreamAndBindSchema N info number answers bindSchema).events, b.isNext = false := by
  have hopen := ok_openHostStream (N := N) info number answers
  unfold openStreamAndBindSchema
  generalize openHostStream N info number answers = opened at hopen
  dsimp only
  cases opened.error with
  | some message => exact hopen.silent
  | none =>
    cases bindSchema with
    | error e =>
      intro b hb
      rcases List.mem_append.1 (show b ∈ opened.events ++ opened.stream.closeOnce.2 from hb) with
        hb | hb
      · exact hopen.silent b hb
      · exact isNext_closeOnce hb
    | ok _ => exact hopen.silent

end Life

/-! ### Runs -/

/-- Every stream is closed once, and nothing is asked of it after its close or its end. -/
def ClosedProperly (w : List (Life D E V A)) : Prop :=
  ∀ l ∈ w, l.ClosedOnce ∧ NoNextAfter HostEvent.isClose l.events ∧
    NoNextAfter HostEvent.isSaidEnd l.events

variable {w w' : List (Life D E V A)} {label : StreamLabel}

/-- A step binds a function, or is a step of a stream. -/
theorem hostStreams_next (h : (hostStreams N).next w label = some w') :
    (∃ info answers bindSchema, label = .bind info answers bindSchema ∧
      w' = w ++ [Life.openStreamAndBindSchema N info (w.length + 1) answers bindSchema]) ∨
      ∃ i e l l', label = .onStream i e ∧ w[i]? = some l ∧ l.step N e = some l' ∧ w' = w.set i l' := by
  cases label with
  | bind info answers bindSchema =>
    exact .inl ⟨info, answers, bindSchema, rfl, (Option.some.inj h).symm⟩
  | onStream i e =>
    obtain ⟨l, hl, hstep⟩ := Option.bind_eq_some_iff.1 h
    obtain ⟨l', hl', rfl⟩ := Option.map_eq_some_iff.1 hstep
    exact .inr ⟨i, e, l, l', rfl, hl, hl', rfl⟩

/-- A property of every stream is kept if opening establishes it and every step keeps it. -/
theorem forall_of_next {P : Life D E V A → Prop} (hw : ∀ l ∈ w, P l)
    (hbind : ∀ info number answers bindSchema,
      P (Life.openStreamAndBindSchema N info number answers bindSchema))
    (hstep : ∀ i e l l', label = .onStream i e → w[i]? = some l → l.step N e = some l' → P l')
    (h : (hostStreams N).next w label = some w') : ∀ l ∈ w', P l := by
  rcases hostStreams_next h with ⟨info, answers, bindSchema, -, rfl⟩ | ⟨i, e, l, l', hlabel, hl, hl', rfl⟩
  · intro l hmem
    rcases List.mem_append.1 hmem with hmem | hmem
    · exact hw l hmem
    · rw [List.mem_singleton.1 hmem]
      exact hbind _ _ _ _
  · intro l₂ hmem
    rcases List.mem_or_eq_of_mem_set hmem with hmem | rfl
    · exact hw l₂ hmem
    · exact hstep i e l l₂ hlabel hl hl'

theorem streams_ok_of_next (hw : ∀ l ∈ w, l.Ok) (h : (hostStreams N).next w label = some w') :
    ∀ l ∈ w', l.Ok :=
  forall_of_next hw (fun _ _ _ _ => Life.ok_openStreamAndBindSchema _ _ _ _)
    (fun _ _ l _ _ hl hstep => (hw l (List.mem_of_getElem? hl)).step hstep) h

/-- A step in time asks nothing after the end. -/
theorem ordered_of_next (hw : ∀ l ∈ w, l.Ok)
    (hordered : ∀ l ∈ w, NoNextAfter HostEvent.isSaidEnd l.events) (htime : InTime w label)
    (h : (hostStreams N).next w label = some w') :
    ∀ l ∈ w', NoNextAfter HostEvent.isSaidEnd l.events := by
  refine forall_of_next (P := fun l => NoNextAfter HostEvent.isSaidEnd l.events) hordered
    (fun info number answers bindSchema => ?_) (fun i e l l' hlabel hl hstep => ?_) h
  · have hsilent := Life.silent_openStreamAndBindSchema (N := N) info number answers bindSchema
    exact List.Pairwise.imp_of_mem (fun _ hb _ _ => hsilent _ hb)
      (List.pairwise_of_forall fun _ _ => trivial)
  · have hmem := List.mem_of_getElem? hl
    obtain ⟨new, hevents, hadds⟩ := (hw l hmem).adds_step hstep
    show NoNextAfter _ l'.events
    rw [hevents]
    refine (hordered l hmem).append hadds.ordered fun b hb hnext a ha => ?_
    by_contra hsaid
    have hsaid' : a = .saidEnd := by
      cases a with
      | saidEnd => rfl
      | opened | next | close => exact absurd rfl hsaid
    obtain ⟨rfl, hlate⟩ := hadds.inTime ⟨b, hb, hnext⟩ (hsaid' ▸ ha)
    subst hlabel
    exact htime l hl hlate

/-- What the host was told stays told. -/
def Grows (w w' : List (Life D E V A)) : Prop :=
  ∀ (i : Nat) (l : Life D E V A), w[i]? = some l →
    ∃ l' : Life D E V A, w'[i]? = some l' ∧ ∃ new, l'.events = l.events ++ new

theorem grows_of_next (hw : ∀ l ∈ w, l.Ok) (h : (hostStreams N).next w label = some w') :
    Grows w w' := by
  rcases hostStreams_next h with ⟨info, answers, bindSchema, -, rfl⟩ | ⟨i, e, l, l', -, hl, hl', rfl⟩
  · intro i l hl
    exact ⟨l, by rw [List.getElem?_append_left (List.getElem?_eq_some_iff.1 hl).1, hl], [],
      (List.append_nil _).symm⟩
  · intro j l₂ hl₂
    obtain ⟨new, hevents, -⟩ := (hw l (List.mem_of_getElem? hl)).adds_step hl'
    by_cases hij : i = j
    · subst hij
      rw [hl] at hl₂
      obtain rfl := Option.some.inj hl₂
      exact ⟨l', by rw [List.getElem?_set_self (List.getElem?_eq_some_iff.1 hl).1], new, hevents⟩
    · exact ⟨l₂, by rw [List.getElem?_set_ne hij, hl₂], [], (List.append_nil _).symm⟩

theorem Grows.trans {w'' : List (Life D E V A)} (h : Grows w w') (h' : Grows w' w'') :
    Grows w w'' := by
  intro i l hl
  obtain ⟨l', hl', new, hevents⟩ := h i l hl
  obtain ⟨l'', hl'', new', hevents'⟩ := h' i l' hl'
  exact ⟨l'', hl'', new ++ new', by rw [hevents', hevents, List.append_assoc]⟩

/-- A late stream that is asked for a batch asks the host after the end. -/
theorem asked_late (hw : ∀ l ∈ w, l.Ok) (hlate : ¬InTime w label)
    (h : (hostStreams N).next w label = some w') :
    ∃ (i : Nat) (l : Life D E V A), w'[i]? = some l ∧
      ¬NoNextAfter HostEvent.isSaidEnd l.events := by
  rcases hostStreams_next h with ⟨info, answers, bindSchema, rfl, -⟩ | ⟨i, e, l, l', rfl, hl, hl', rfl⟩
  · exact absurd trivial hlate
  · have he : e = .getNext ∧ l.Late := by
      cases e with
      | getNext =>
        refine ⟨rfl, ?_⟩
        by_contra hnot
        refine hlate fun l₂ hl₂ => ?_
        rw [hl] at hl₂
        obtain rfl := Option.some.inj hl₂
        exact hnot
      | produceStream | answer | releaseWrapper | dropData => exact absurd trivial hlate
    have hok := hw l (List.mem_of_getElem? hl)
    obtain ⟨new, hevents, hadds⟩ := hok.adds_step hl'
    obtain ⟨b, hb, hnext⟩ := hadds.late he.1 he.2
    refine ⟨i, l', List.getElem?_set_self (List.getElem?_eq_some_iff.1 hl).1, fun hordered => ?_⟩
    rw [hevents] at hordered
    have hafter := (List.pairwise_append.1 hordered).2.2 .saidEnd
      (hok.told.saidEnd.2 (.inr he.2.done)) b hb rfl
    rw [hnext] at hafter
    cases hafter

/-- What was asked too late stays so. -/
theorem not_ordered_of_grows {i : Nat} (hl : w[i]? = some l)
    (hlate : ¬NoNextAfter HostEvent.isSaidEnd l.events) (h : Grows w w') :
    ∃ l' ∈ w', ¬NoNextAfter HostEvent.isSaidEnd l'.events := by
  obtain ⟨l', hl', new, hevents⟩ := h i l hl
  refine ⟨l', List.mem_of_getElem? hl', fun hordered => hlate ?_⟩
  rw [hevents] at hordered
  exact (List.pairwise_append.1 hordered).1

variable {labels : List StreamLabel}

theorem streams_ok_of_run {C : List (Life D E V A) → StreamLabel → Prop}
    (h : (hostStreams N).Run C w labels w') (hw : ∀ l ∈ w, l.Ok) : ∀ l ∈ w', l.Ok :=
  h.invariant hw fun _ _ _ hok _ hnext => streams_ok_of_next hok hnext

theorem grows_of_run (h : (hostStreams N).Run Machine.Free w labels w') (hw : ∀ l ∈ w, l.Ok) :
    Grows w w' := by
  induction h with
  | nil w => exact fun i l hl => ⟨l, hl, [], (List.append_nil _).symm⟩
  | cons _ hs _ ih => exact (grows_of_next hw hs).trans (ih (streams_ok_of_next hw hs))

/-- A run at whose end nothing was asked too late is in time. -/
theorem inTime_of_ordered (h : (hostStreams N).Run Machine.Free w labels w')
    (hw : ∀ l ∈ w, l.Ok) (hordered : ∀ l ∈ w', NoNextAfter HostEvent.isSaidEnd l.events) :
    (hostStreams N).Run InTime w labels w' := by
  induction h with
  | nil w => exact .nil w
  | cons _ hs hr ih =>
    have hok := streams_ok_of_next hw hs
    refine .cons ?_ hs (ih hok hordered)
    by_contra hlate
    obtain ⟨i, l, hl, hasked⟩ := asked_late hw hlate hs
    obtain ⟨l', hl', hnot⟩ := not_ordered_of_grows hl hasked (grows_of_run hr hok)
    exact hnot (hordered l' hl')

/-- A run in time asks nothing too late. -/
theorem ordered_of_inTime (h : (hostStreams N).Run InTime w labels w') (hw : ∀ l ∈ w, l.Ok)
    (hordered : ∀ l ∈ w, NoNextAfter HostEvent.isSaidEnd l.events) :
    ∀ l ∈ w', NoNextAfter HostEvent.isSaidEnd l.events :=
  (h.invariant (I := fun w => (∀ l ∈ w, l.Ok) ∧
    ∀ l ∈ w, NoNextAfter HostEvent.isSaidEnd l.events) ⟨hw, hordered⟩
    fun _ _ _ hboth htime hs =>
      ⟨streams_ok_of_next hboth.1 hs, ordered_of_next hboth.1 hboth.2 htime hs⟩).2

/-- **A host stream is closed once, whatever becomes of it**: in every run of binds, scans, answers
and destructions each stream is closed with its handle once if it was opened and is gone, never if
it was not opened, and asked nothing after its close; and it is asked nothing after its end exactly
if no late stream is asked for a batch in the run. -/
theorem closed_once_iff (h : (hostStreams N).Run Machine.Free [] labels w) :
    (∀ l ∈ w, l.ClosedOnce ∧ NoNextAfter HostEvent.isClose l.events) ∧
      (ClosedProperly w ↔ (hostStreams N).Run InTime [] labels w) := by
  have hnone : ∀ l ∈ ([] : List (Life D E V A)), l.Ok := fun l hl => by cases hl
  have hok := streams_ok_of_run h hnone
  have hclosed : ∀ l ∈ w, l.ClosedOnce ∧ NoNextAfter HostEvent.isClose l.events :=
    fun l hl => ⟨(hok l hl).closedOnce, (hok l hl).told.quiet⟩
  refine ⟨hclosed, fun hproper => ?_, fun htime l hl => ?_⟩
  · exact inTime_of_ordered h hnone fun l hl => (hproper l hl).2.2
  · exact ⟨(hclosed l hl).1, (hclosed l hl).2,
      ordered_of_inTime htime hnone (fun l hl => by cases hl) l hl⟩

end Stream

/-! ### A batch and the end in one frame -/

namespace Sample

/-- A nanoarrow whose headers are nine bytes long and end with the type of the message. -/
def typed : Nanoarrow Unit Unit Unit Unit :=
  { ipc with
    verifyHeader := fun d _ => .ok d
    decodeHeader := fun d header =>
      if header.drop 8 = [1] then .ok (⟨.schema, 0⟩, d)
      else if header.drop 8 = [3] then .ok (⟨.recordBatch, 0⟩, d)
      else .error "unknown message type"
    decodeSchema := fun d => .ok (.mk "+s" "" true [] none, d)
    encodings := fun _ => some ()
    setSchema := fun d _ _ => .ok d
    decodeArray := fun d _ _ => .ok (d, ()) }

/-- A schema message. -/
def schemaFrame : IpcFrame := ⟨[0xFF, 0xFF, 0xFF, 0xFF, 1, 0, 0, 0, 1], by decide⟩

/-- A batch, and the end of the stream. -/
def lastFrame : IpcFrame := ⟨[0xFF, 0xFF, 0xFF, 0xFF, 1, 0, 0, 0, 3] ++ marker, by decide⟩

/-- A stream function. -/
def ticks : StreamFunctionInfo := ⟨"ticks", "ticks_open", "ticks_next", "ticks_close"⟩

/-- The stream is opened, taken by a scan and asked for its first frame. -/
def scanned : List StreamLabel :=
  [.bind ticks { executeOpen := .ok (some schemaFrame) } (.ok ()), .onStream 0 .produceStream,
    .onStream 0 .getNext]

/-- The host says NULL, and the scan ends. -/
def whole : List StreamLabel :=
  scanned ++ [.onStream 0 (.answer .null), .onStream 0 .releaseWrapper, .onStream 0 .dropData]

/-- The first frame holds a batch and the end, and the scan goes on. -/
def late : List StreamLabel :=
  scanned ++ [.onStream 0 (.answer (.frame lastFrame)), .onStream 0 .getNext]

/-- What is left of the streams. -/
def left (labels : List StreamLabel) : List (Life Unit Unit Unit Unit) :=
  ((hostStreams typed).exec [] labels).getD []

end Sample

theorem closed_once_whole :
    (∀ l ∈ Sample.left Sample.whole, l.ClosedOnce ∧ NoNextAfter HostEvent.isClose l.events) ∧
      (ClosedProperly (Sample.left Sample.whole) ↔
        (hostStreams Sample.typed).Run InTime [] Sample.whole (Sample.left Sample.whole)) :=
  closed_once_iff (Machine.run_of_exec (show (hostStreams Sample.typed).exec [] Sample.whole =
    some (Sample.left Sample.whole) from rfl))

/-- The host is asked again after the end. -/
theorem not_closedProperly :
    (hostStreams Sample.typed).Run Machine.Free [] Sample.late (Sample.left Sample.late) ∧
      ¬ClosedProperly (Sample.left Sample.late) := by
  refine ⟨Machine.run_of_exec rfl, fun h => ?_⟩
  have hevents : (Sample.left Sample.late).map (·.events) = [[.opened, .next "ticks_next" "b1",
      .saidEnd, .next "ticks_next" "b1"]] := by rfl
  obtain ⟨l, _, hw, hl, -⟩ := List.map_eq_cons_iff.1 hevents
  have hordered := (h l (hw ▸ List.mem_cons_self)).2.2
  rw [hl] at hordered
  have hafter := List.pairwise_iff_getElem.1 hordered 2 3 (by decide) (by decide) (by decide) rfl
  cases hafter

end Provider

end VirtualCatalog
