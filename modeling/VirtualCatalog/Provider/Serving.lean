import VirtualCatalog.Provider.HostUdfs
import VirtualCatalog.Provider.StreamClose
import VirtualCatalog.Provider.WireFormat

/-!
# Host streams, from the generator to the scan

A scan pulls a host stream through three UDFs, one answer of the host after the other.  Here both
sides run together: DuckDB binds, scans and drops streams, and the host's functions answer with what
its generators yield, in any interleaving of any number of streams.

* `HostCall` : a stream with what its source has yielded; `Serving` : all of them, and the host.
* `serving` : the machine; closing a stream calls the host.
* `HostCall.InOrder` : what a scan has received, beside what was yielded.
* `Life.Keeps`, `Life.Ok.closes_new` : what a step of a stream changes, and when it tells the host.
-/

namespace VirtualCatalog

namespace Provider

section Serving

variable {D E V A S B W : Type}

/-! ### Both sides -/

/-- A stream that was bound, with what the host has done for it. -/
structure HostCall (D E V A B : Type) where
  life : Life D E V A
  /-- Where its batches come from, if it was opened. -/
  source : Option (BatchSource B)
  /-- What its iterator has answered. -/
  answered : List (Anext B) := []
  /-- What its calls of `_next` have raised. -/
  raised : List HostError := []

/-- The streams of a host. -/
structure Serving (D E V A S B W : Type) where
  /-- `handle_counter`. -/
  counter : Nat := 0
  host : HostStreamUdfs S B W
  calls : List (HostCall D E V A B) := []
  /-- The calls of `_close`, with what they returned or raised. -/
  closings : List (String × Except HostError (List UInt8)) := []

/-- The buffer of a value, which Python cannot make longer. -/
def toFrame (bytes : List UInt8) : Except HostError IpcFrame :=
  if h : bytes.length < 2 ^ 63 then .ok ⟨bytes, h⟩
  else .error (.raised "cannot fit 'int' into an index-sized integer")

/-- What DuckDB does while a stream is bound, besides calling the host. -/
structure BindAnswers where
  prepareOpen : Except String Unit := .ok ()
  schemaCopied : Bool := true
  prepareNext : Except String Unit := .ok ()
  /-- What is done with the schema once the stream is opened. -/
  bindSchema : Except String Unit := .ok ()
  /-- What `aclose` does if the stream is closed. -/
  aclose : Except String Unit := .ok ()

/-- What can happen. -/
inductive ServeLabel (B : Type) where
  /-- A stream of another host is bound. -/
  | elsewhere
  | bind (function : String) (call : CallOutcome B) (answers : BindAnswers)
  /-- Something happens to a stream on DuckDB's side. -/
  | onStream (i : Nat) (step : Life.Step) (aclose : Except String Unit)
  /-- The host answers a stream's call of `_next`, its iterator having answered so. -/
  | next (i : Nat) (answers : List (Anext B)) (aclose : Except String Unit)

/-- The handle of a call of the close UDF. -/
def HostEvent.closedHandle : HostEvent → Option String
  | .close _ handle => some handle
  | .opened | .next _ _ | .saidEnd => none

/-- What DuckDB has of what a call of `_next` returned or raised. -/
def udfResult : Except HostError (Option (List UInt8)) → Except HostError (Option IpcFrame)
  | .error e => .error e
  | .ok none => .ok none
  | .ok (some bytes) => (toFrame bytes).map some

/-- The answer that a stream waits for. -/
def nextAnswer (describe : HostError → String) :
    Except HostError (Option IpcFrame) → Life.NextAnswer
  | .error e => .failed (describe e)
  | .ok none => .null
  | .ok (some frame) => .frame frame

/-- What was raised. -/
def raisedBy : Except HostError (Option IpcFrame) → List HostError
  | .error e => [e]
  | .ok _ => []

/-- A stream whose call of `_next` was answered, with what it raised. -/
def HostCall.after (c : HostCall D E V A B) (life : Life D E V A) (answers : List (Anext B))
    (raised : List HostError) : HostCall D E V A B :=
  { c with life, answered := c.answered ++ answers, raised := c.raised ++ raised }

namespace Serving

/-- The close UDF is called. -/
def close (aclose : Except String Unit) (s : Serving D E V A S B W) (handle : String) :
    Serving D E V A S B W :=
  { s with
    host := (s.host.closeStream handle aclose).2
    closings := s.closings ++ [(handle, (s.host.closeStream handle aclose).1)] }

/-- The host is told of what happened to a stream. -/
def heed (s : Serving D E V A S B W) (aclose : Except String Unit) (events : List HostEvent) :
    Serving D E V A S B W :=
  (events.filterMap HostEvent.closedHandle).foldl (close aclose) s

variable (N : Nanoarrow D E V A) (P : StreamWriter S B W) (conforms : S → B → Bool)
  (describe : HostError → String)

/-- The stream function of a host's RPC. -/
def info (s : Serving D E V A S B W) (function : String) : StreamFunctionInfo :=
  ⟨function, s.host.openUdf, s.host.nextUdf, s.host.closeUdf⟩

/-- A stream is bound. -/
def bind (s : Serving D E V A S B W) (function : String) (call : CallOutcome B)
    (answers : BindAnswers) : Serving D E V A S B W :=
  let number := s.counter + 1
  match answers.prepareOpen with
  | .error e =>
    let life := Life.openStreamAndBindSchema N (s.info function) number
      { prepareOpen := .error e, executeOpen := .ok none } answers.bindSchema
    { s with counter := number, calls := s.calls ++ [{ life, source := none }] }
  | .ok _ =>
    let opened := s.host.openStream P ("b" ++ toString number) function call
    let life := Life.openStreamAndBindSchema N (s.info function) number
      { executeOpen := ((opened.1.bind toFrame).mapError describe).map some
        schemaCopied := answers.schemaCopied
        prepareNext := answers.prepareNext } answers.bindSchema
    let found := (s.host.sourceOf function call).toOption.map (·.2)
    let bound : Serving D E V A S B W := { s with
      counter := number
      host := opened.2
      calls := s.calls ++ [{ life, source := found }] }
    bound.heed answers.aclose life.events

/-- A stream becomes `c'`, and the host is told. -/
def turn (s : Serving D E V A S B W) (i : Nat) (c c' : HostCall D E V A B)
    (host : HostStreamUdfs S B W) (aclose : Except String Unit) : Serving D E V A S B W :=
  { s with host, calls := s.calls.set i c' }.heed aclose
    (c'.life.events.drop c.life.events.length)

/-- Something happens to a stream on DuckDB's side, but no answer of the host. -/
def onStream (s : Serving D E V A S B W) (i : Nat) (c : HostCall D E V A B) (step : Life.Step)
    (aclose : Except String Unit) : Option (Serving D E V A S B W) :=
  match step with
  | .answer _ => none
  | step => (c.life.step N step).map fun life => s.turn i c { c with life } s.host aclose

/-- The host answers a stream that waits. -/
def next (s : Serving D E V A S B W) (i : Nat) (c : HostCall D E V A B) (answers : List (Anext B))
    (aclose : Except String Unit) : Option (Serving D E V A S B W) :=
  match s.host.nextFrame P c.life.stream.handle conforms answers with
  | some (result, host, []) =>
    let result := udfResult result
    (c.life.step N (.answer (nextAnswer describe result))).map fun life =>
      s.turn i c (c.after life answers (raisedBy result)) host aclose
  | _ => none

end Serving

/-- The host and all its streams. -/
def serving (N : Nanoarrow D E V A) (P : StreamWriter S B W) (conforms : S → B → Bool)
    (describe : HostError → String) : Machine (Serving D E V A S B W) (ServeLabel B) where
  next
    | s, .elsewhere => some { s with counter := s.counter + 1 }
    | s, .bind function call answers => some (s.bind N P describe function call answers)
    | s, .onStream i step aclose => s.calls[i]?.bind fun c => s.onStream N i c step aclose
    | s, .next i answers aclose =>
      s.calls[i]?.bind fun c => s.next N P conforms describe i c answers aclose

/-! ### What is received -/

/-- The host has opened a stream, and it was not closed. -/
structure Life.IsOpen (l : Life D E V A) : Prop where
  opened : l.stream.opened = true
  notClosed : l.stream.closed = false

namespace HostCall

variable (c : HostCall D E V A B)

/-- `handle`. -/
def handle : String := c.life.stream.handle

/-- What its source has yielded. -/
def yielded : List B :=
  (match c.source with
    | some (.batches left) => left
    | some .aiterator | none => []) ++ c.answered.flatMap Anext.batches

/-- The source has said that it yields nothing more, or it is a table. -/
def Ended : Prop := c.source = some .aiterator → .stop ∈ c.answered

end HostCall

/-- The array that was returned. -/
def Returned.array? : Returned A → Option A
  | .batch array => some array
  | .ended | .failed => none

/-- What the scan has received. -/
def HostCall.received (c : HostCall D E V A B) : List A := c.life.returned.filterMap Returned.array?

/-- The scan has received, in order, what was yielded, up to what is to come; nothing has failed,
and it has come to an end only if nothing is to come and the source has ended. -/
structure HostCall.InOrder (arrayOf : B → A) (c : HostCall D E V A B) (toCome : List B) : Prop where
  arrays : c.yielded.map arrayOf = c.received ++ toCome.map arrayOf
  unfailed : .failed ∉ c.life.returned
  ended : .ended ∈ c.life.returned → c.life.stream.exhausted = true
  exhausted : c.life.stream.exhausted = true → toCome = [] ∧ c.Ended

/-! ### The frame of a step -/

/-- What no step of a stream changes. -/
structure Life.Keeps (l l' : Life D E V A) : Prop where
  handle : l'.stream.handle = l.stream.handle
  closeUdf : l'.stream.closeUdf = l.stream.closeUdf
  opened : l'.stream.opened = l.stream.opened
  live : l'.live = true → l.live = true
  closed : l.stream.closed = true → l'.stream.closed = true

variable {N : Nanoarrow D E V A} {l l' : Life D E V A}

namespace Life

theorem Keeps.trans {l'' : Life D E V A} (h : l.Keeps l') (h' : l'.Keeps l'') : l.Keeps l'' :=
  ⟨h'.handle.trans h.handle, h'.closeUdf.trans h.closeUdf, h'.opened.trans h.opened,
    fun hlive => h.live (h'.live hlive), fun hclosed => h'.closed (h.closed hclosed)⟩

theorem keeps_destroy (l : Life D E V A) : l.Keeps l.destroy := by
  unfold destroy HostStream.closeOnce
  split_ifs
  · exact ⟨rfl, rfl, rfl, nofun, id⟩
  · exact ⟨rfl, rfl, rfl, nofun, fun _ => rfl⟩

theorem keeps_dropData (l : Life D E V A) (data : HostStreamData) : l.Keeps (l.dropData data) := by
  have hcleared : l.Keeps { l with data := none } := ⟨rfl, rfl, rfl, id, id⟩
  unfold dropData
  split_ifs
  · exact hcleared.trans (keeps_destroy _)
  · exact hcleared

theorem keeps_exhaust (l : Life D E V A) : l.Keeps l.exhaust := by
  unfold exhaust HostStream.closeOnce give
  split_ifs
  · exact ⟨rfl, rfl, rfl, id, id⟩
  · exact ⟨rfl, rfl, rfl, id, fun _ => rfl⟩

theorem keeps_fetch (l : Life D E V A) : l.Keeps l.fetch := by
  unfold fetch
  split
  · exact ⟨rfl, rfl, rfl, id, id⟩
  · exact ⟨rfl, rfl, rfl, id, id⟩

theorem keeps_afterPush (l : Life D E V A) (read : Bool) : l.Keeps (l.afterPush read) := by
  unfold afterPush
  split_ifs
  · exact ⟨rfl, rfl, rfl, id, id⟩
  · exact l.keeps_exhaust
  · exact l.keeps_fetch

theorem keeps_step {e : Step} (h : l.step N e = some l') : l.Keeps l' := by
  cases e with
  | produceStream =>
    obtain ⟨data, -, htaken⟩ := Option.bind_eq_some_iff.1 h
    unfold takeHostStreamOnce at htaken
    split_ifs at htaken
    obtain rfl := Option.some.inj htaken
    exact ⟨rfl, rfl, rfl, id, id⟩
  | getNext =>
    rw [Life.step] at h
    split_ifs at h
    obtain rfl := Option.some.inj h
    unfold getNext
    split_ifs
    · exact ⟨rfl, rfl, rfl, id, id⟩
    · exact l.keeps_fetch
  | answer a =>
    rw [Life.step] at h
    split_ifs at h
    obtain rfl := Option.some.inj h
    cases a with
    | failed message => exact ⟨rfl, rfl, rfl, id, id⟩
    | null =>
      have hsaid : l.Keeps { l with events := l.events ++ [HostEvent.saidEnd] } :=
        ⟨rfl, rfl, rfl, id, id⟩
      exact hsaid.trans (keeps_exhaust _)
    | frame frame =>
      have hpush : l.Keeps (l.push N frame) := ⟨rfl, rfl, rfl, id, id⟩
      exact hpush.trans ((l.push N frame).keeps_afterPush _)
  | releaseWrapper =>
    rw [Life.step] at h
    split_ifs at h
    obtain rfl := Option.some.inj h
    have hcleared : l.Keeps { l with wrapper := false } := ⟨rfl, rfl, rfl, id, id⟩
    exact hcleared.trans (keeps_destroy _)
  | dropData =>
    obtain ⟨data, -, rfl⟩ := Option.map_eq_some_iff.1 h
    exact l.keeps_dropData data

end Life

/-! ### Telling the host -/

theorem filterMap_closedHandle (events : List HostEvent) :
    events.filterMap HostEvent.closedHandle = (closes events).filterMap HostEvent.closedHandle := by
  induction events with
  | nil => rfl
  | cons event events ih =>
    cases event with
    | opened | next udf handle | saidEnd => exact ih
    | close udf handle => exact congrArg (handle :: ·) ih

namespace Serving

variable {s : Serving D E V A S B W}

theorem heed_of_none {events : List HostEvent} (h : closes events = [])
    (aclose : Except String Unit) : s.heed aclose events = s := by
  rw [heed, filterMap_closedHandle, h]
  rfl

theorem heed_of_close {events : List HostEvent} {udf handle : String}
    (h : closes events = [.close udf handle]) (aclose : Except String Unit) :
    s.heed aclose events = s.close aclose handle := by
  rw [heed, filterMap_closedHandle, h]
  rfl

end Serving

/-- A step closes its stream, and the host is told, or it does not. -/
theorem Life.Ok.closes_new (h : l.Ok) (h' : l'.Ok) (hkeeps : l.Keeps l') {new : List HostEvent}
    (hevents : l'.events = l.events ++ new) :
    (closes new = [] ∧ l'.stream.closed = l.stream.closed) ∨
      (closes new = [.close l.stream.closeUdf l.stream.handle] ∧ l.stream.closed = false ∧
        l'.stream.closed = true) := by
  have hcloses := h'.told.closes
  rw [hevents, closes_append, h.told.closes, hkeeps.closeUdf, hkeeps.handle] at hcloses
  cases hclosed : l.stream.closed with
  | true =>
    rw [hclosed, hkeeps.closed hclosed, if_pos rfl] at hcloses
    exact .inl ⟨(List.append_cancel_left (hcloses.trans (List.append_nil _).symm)),
      hkeeps.closed hclosed⟩
  | false =>
    rw [hclosed] at hcloses
    cases hclosed' : l'.stream.closed with
    | true =>
      rw [hclosed'] at hcloses
      exact .inr ⟨hcloses, rfl, rfl⟩
    | false =>
      rw [hclosed'] at hcloses
      exact .inl ⟨hcloses, rfl⟩

end Serving

end Provider

end VirtualCatalog
