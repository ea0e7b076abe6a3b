import VirtualCatalog.Machine.Basic
import VirtualCatalog.Machine.Fallible
import VirtualCatalog.Provider.Listing
import Mathlib.Logic.Function.Basic

/-!
# The key buffer of a keyed write

The scans of the target of an `UPDATE` or `DELETE` put the key of every row they produce into one
buffer (`ProviderPKBuffer`) and emit the index it landed at as the row's id.  Several scans do so
at once, each on several threads, and only `Append` is locked.

* `ScanKeys.read` : the key of a row of a record batch.
* `scanning` : the machine, whose steps are the appends.
* `ScanCall.Emits`, `Emission` : for which row an id was emitted.
* `Scans.Ok`, `Scans.Ok.reachable` : in every reachable state the ids are the indices of the
  buffer, each emitted once (`Scans.Ok.ids_nodup`), and what the buffer holds at an id is the key
  of the row that the id was emitted for (`Scans.Ok.exists_emission`).
-/

namespace VirtualCatalog

namespace Provider

/-- What DuckDB and Arrow do with values of `V`, logical types of `T`, Arrow arrays of `A` and
encoded record batches of `B`. -/
structure ValueOps (V T A B : Type) where
  /-- `Value::type`. -/
  type : V → T
  /-- The cast of a value to another type than its own. -/
  convert : V → T → Except ProviderError V
  /-- `Value::GetValue<int64_t>`. -/
  int64 : V → Int
  /-- `ReadArrowValue` of an array at a position, with a type and an Arrow format. -/
  readArrowValue : A → Nat → T → String → Except ProviderError V
  /-- `ArrowIpcStreamEncoder::EncodeChunk` for columns of these types. -/
  encodeChunk : List T → List (List V) → Except ProviderError B

variable {V T A B : Type} (D : ValueOps V T A B)

/-- `vector::operator[]`, which is checked. -/
def vectorAt {α : Type} (l : List α) (i : Nat) : Except ProviderError α :=
  match l[i]? with
  | some a => .ok a
  | none => .error (.internal ("Attempted to access index " ++ toString i
      ++ " within vector of size " ++ toString l.length))

theorem vectorAt_eq_ok {α : Type} {l : List α} {i : Nat} {a : α} :
    vectorAt l i = .ok a ↔ l[i]? = some a := by
  unfold vectorAt
  cases l[i]? <;> simp

/-! ### The buffer -/

/-- `ProviderPKBuffer`. -/
structure ProviderPKBuffer (V : Type) where
  rows : List (List V) := []

/-- `ProviderPKBuffer::Append`: the index that the row landed at. -/
def ProviderPKBuffer.append (buffer : ProviderPKBuffer V) (row : List V) :
    ProviderPKBuffer V × Nat :=
  (⟨buffer.rows ++ [row]⟩, (buffer.rows ++ [row]).length - 1)

/-- `PKBufferRow`. -/
def pkBufferRow (buffer : Option (ProviderPKBuffer V)) (rowId : Int) (keyColumns : Nat)
    (context : String) : Except ProviderError (List V) :=
  match buffer with
  | none => .error (.internal (context ++ ": no primary key buffer was attached to the scan"))
  | some buffer =>
    if h : rowId < 0 ∨ buffer.rows.length ≤ rowId.toNat then
      .error (.internal (context ++ ": row id " ++ toString rowId
        ++ " is out of range for a key buffer holding " ++ toString buffer.rows.length ++ " rows"))
    else
      have : rowId.toNat < buffer.rows.length := by omega
      let row := buffer.rows[rowId.toNat]
      if row.length ≠ keyColumns then
        .error (.internal (context ++ ": key buffer row " ++ toString rowId ++ " holds "
          ++ toString row.length ++ " columns, expected " ++ toString keyColumns))
      else .ok row

/-- A row is found exactly at its index, and it has as many values as the key has columns. -/
theorem pkBufferRow_eq_ok {buffer : ProviderPKBuffer V} {rowId : Int} {keyColumns : Nat}
    {context : String} {row : List V} :
    pkBufferRow (some buffer) rowId keyColumns context = .ok row ↔
      0 ≤ rowId ∧ buffer.rows[rowId.toNat]? = some row ∧ row.length = keyColumns := by
  unfold pkBufferRow
  dsimp only
  by_cases h : rowId < 0 ∨ buffer.rows.length ≤ rowId.toNat
  · rw [dif_pos h]
    refine ⟨nofun, fun ⟨h0, hrow, _⟩ => ?_⟩
    obtain ⟨hlt, _⟩ := List.getElem?_eq_some_iff.1 hrow
    omega
  · have hlt : rowId.toNat < buffer.rows.length := by omega
    have h0 : 0 ≤ rowId := by omega
    rw [dif_neg h, List.getElem?_eq_getElem hlt]
    split
    next hne =>
      refine ⟨nofun, ?_⟩
      rintro ⟨_, hrow, hlen⟩
      cases hrow
      exact absurd hlen hne
    next heq =>
      constructor
      · intro hrow
        cases hrow
        exact ⟨h0, rfl, not_not.1 heq⟩
      · rintro ⟨_, hrow, _⟩
        cases hrow
        rfl

/-! ### The scans -/

/-- A record batch. -/
structure RecordBatch (A : Type) where
  children : List A

/-- `ProviderScanGlobalState` as far as the keys go: where they are in a batch and how they are
laid out. -/
structure ScanKeys (T : Type) where
  pkStartIndex : Nat
  pkCount : Nat
  pkTypes : List T
  pkFormats : List String

/-- The check `AppendPKValuesAndEmitBufferRowIds` begins with. -/
def ScanKeys.check (scan : ScanKeys T) (batch : RecordBatch A) : Except ProviderError Unit :=
  if batch.children.length < scan.pkStartIndex + scan.pkCount ∨
      scan.pkTypes.length < scan.pkCount then
    .error (.invalidInput ("vcatprovider: batch carries " ++ toString batch.children.length
      ++ " columns, too few for the " ++ toString scan.pkCount ++ " key columns at offset "
      ++ toString scan.pkStartIndex))
  else .ok ()

/-- The key of the row `row` of a batch: `pk_vals`. -/
def ScanKeys.read (scan : ScanKeys T) (batch : RecordBatch A) (row : Nat) :
    Except ProviderError (List V) :=
  (List.range scan.pkCount).mapM fun pkIdx => do
    let array ← vectorAt batch.children (scan.pkStartIndex + pkIdx)
    let format ← vectorAt scan.pkFormats pkIdx
    let type ← vectorAt scan.pkTypes pkIdx
    D.readArrowValue array row type format

/-- A call of `AppendPKValuesAndEmitBufferRowIds`, with the row ids it has written. -/
structure ScanCall (T A : Type) where
  scan : ScanKeys T
  batch : RecordBatch A
  chunkOffset : Nat
  count : Nat
  rowIds : List Nat := []

/-- An id with the row it was emitted for. -/
structure Emission (T A : Type) where
  id : Nat
  scan : ScanKeys T
  batch : RecordBatch A
  row : Nat

/-- The key of the row that an id was emitted for. -/
def Emission.key (e : Emission T A) : Except ProviderError (List V) := e.scan.read D e.batch e.row

/-- Every id that the call has written was emitted for its row. -/
def ScanCall.Emits (c : ScanCall T A) (emitted : List (Emission T A)) : Prop :=
  ∀ i id, c.rowIds[i]? = some id → ⟨id, c.scan, c.batch, c.chunkOffset + i⟩ ∈ emitted

/-- The scans of the target, on any number of threads. -/
structure Scans (V T A : Type) where
  buffer : ProviderPKBuffer V := {}
  calls : Nat → Option (ScanCall T A) := fun _ => none
  /-- The calls that returned: their row ids are in the chunks of the scans. -/
  finished : List (ScanCall T A) := []
  /-- Ghost: every id with its row. -/
  emitted : List (Emission T A) := []

/-- The steps. -/
inductive Scans.Label (T A : Type) where
  /-- A thread calls `AppendPKValuesAndEmitBufferRowIds`. -/
  | begin (t : Nat) (scan : ScanKeys T) (batch : RecordBatch A) (chunkOffset count : Nat)
  /-- The next row of the thread's call. -/
  | row (t : Nat)
  /-- The thread's call returns. -/
  | finish (t : Nat)

namespace Scans

/-- One step.  A call that throws is gone, and with it the statement. -/
def next (s : Scans V T A) : Label T A → Option (Scans V T A)
  | .begin t scan batch chunkOffset count =>
    match s.calls t, scan.check batch with
    | some _, _ => none
    -- the checks of the batch raise before the first row
    | none, .error _ => some s
    | none, .ok _ => some { s with
        calls := Function.update s.calls t (some ⟨scan, batch, chunkOffset, count, []⟩) }
  | .row t =>
    match s.calls t with
    | none => none
    | some c =>
      if c.rowIds.length < c.count then
        match c.scan.read D c.batch (c.chunkOffset + c.rowIds.length) with
        | .error _ => some { s with calls := Function.update s.calls t none }
        -- the row id is the place of the key in the buffer
        | .ok key => some { s with
            buffer := (s.buffer.append key).1
            calls := Function.update s.calls t
              (some { c with rowIds := c.rowIds ++ [(s.buffer.append key).2] })
            emitted := s.emitted ++ [⟨(s.buffer.append key).2, c.scan, c.batch,
              c.chunkOffset + c.rowIds.length⟩] }
      else none
  | .finish t =>
    match s.calls t with
    | none => none
    | some c =>
      -- every row of the chunk has its id
      if c.rowIds.length = c.count then
        some { s with calls := Function.update s.calls t none, finished := s.finished ++ [c] }
      else none

end Scans

/-- The machine of the scans. -/
def scanning : Machine (Scans V T A) (Scans.Label T A) := ⟨Scans.next D⟩

/-! ### Ids and keys -/

/-- The invariant: the ids are the indices of the buffer, in order, and each index holds the key
of the row its id was emitted for. -/
structure Scans.Ok (s : Scans V T A) : Prop where
  ids : s.emitted.map Emission.id = List.range s.buffer.rows.length
  keys : List.Forall₂ (fun e key => e.key D = .ok key) s.emitted s.buffer.rows
  calls : ∀ t c, s.calls t = some c → c.Emits s.emitted
  finished : ∀ c ∈ s.finished, c.rowIds.length = c.count ∧ c.Emits s.emitted

variable {D} {s s' : Scans V T A} {c : ScanCall T A}

theorem ProviderPKBuffer.append_snd (buffer : ProviderPKBuffer V) (row : List V) :
    (buffer.append row).2 = buffer.rows.length := by
  show (buffer.rows ++ [row]).length - 1 = buffer.rows.length
  rw [List.length_append, List.length_singleton, Nat.add_sub_cancel]

/-- What was emitted stays emitted. -/
theorem ScanCall.Emits.append {es : List (Emission T A)} (h : c.Emits es)
    (es' : List (Emission T A)) : c.Emits (es ++ es') :=
  fun i id hid => List.mem_append_left _ (h i id hid)

/-- The call after one more row. -/
theorem ScanCall.Emits.push {es : List (Emission T A)} (h : c.Emits es) (id : Nat) :
    ({ c with rowIds := c.rowIds ++ [id] } : ScanCall T A).Emits
      (es ++ [⟨id, c.scan, c.batch, c.chunkOffset + c.rowIds.length⟩]) := by
  intro i id' hid
  rcases Nat.lt_trichotomy i c.rowIds.length with hi | rfl | hi
  · rw [List.getElem?_append_left hi] at hid
    exact List.mem_append_left _ (h i id' hid)
  · rw [List.getElem?_concat_length] at hid
    cases hid
    exact List.mem_append_right _ List.mem_cons_self
  · have hlen : (c.rowIds ++ [id]).length ≤ i := by
      rw [List.length_append, List.length_singleton]
      omega
    rw [List.getElem?_eq_none hlen] at hid
    cases hid

namespace Scans.Ok

/-- Threads other than `t` keep their calls, and `t` has a call of which `P` holds or none. -/
theorem calls_update {P : ScanCall T A → Prop} {calls : Nat → Option (ScanCall T A)} {t : Nat}
    {new : Option (ScanCall T A)} (h : ∀ t c, calls t = some c → P c) (hnew : ∀ c ∈ new, P c) :
    ∀ t' c, Function.update calls t new t' = some c → P c := by
  intro t' c hc
  by_cases ht : t' = t
  · subst ht
    rw [Function.update_self] at hc
    exact hnew c hc
  · rw [Function.update_of_ne ht] at hc
    exact h t' c hc

/-- The invariant after a call appended a row. -/
theorem row (h : s.Ok D) {t : Nat} (hc : s.calls t = some c) {key : List V}
    (hkey : c.scan.read D c.batch (c.chunkOffset + c.rowIds.length) = .ok key) :
    Scans.Ok D { s with
      buffer := (s.buffer.append key).1
      calls := Function.update s.calls t
        (some { c with rowIds := c.rowIds ++ [(s.buffer.append key).2] })
      emitted := s.emitted ++ [⟨(s.buffer.append key).2, c.scan, c.batch,
        c.chunkOffset + c.rowIds.length⟩] } := by
  refine ⟨?_, ?_, ?_, fun c hc => ?_⟩
  · show (s.emitted ++ [_]).map Emission.id = List.range (s.buffer.rows ++ [key]).length
    rw [List.map_append, h.ids, List.length_append, List.length_singleton, List.range_succ,
      ← s.buffer.append_snd key]
    rfl
  · exact List.rel_append h.keys (.cons hkey .nil)
  · refine calls_update (fun t' c' hc' => (h.calls t' c' hc').append _) ?_
    rintro _ ⟨⟩
    exact (h.calls t c hc).push _
  · obtain ⟨hlen, hemits⟩ := h.finished c hc
    exact ⟨hlen, hemits.append _⟩

/-- Every step keeps the invariant. -/
theorem step (h : s.Ok D) {l : Label T A} (hs : (scanning D).next s l = some s') : s'.Ok D := by
  cases l with
  | begin t scan batch chunkOffset count =>
    simp only [scanning, next] at hs
    split at hs
    · cases hs
    · cases hs
      exact h
    · cases hs
      refine ⟨h.ids, h.keys, calls_update h.calls ?_, h.finished⟩
      rintro _ ⟨⟩ i id hid
      cases hid
  | row t =>
    simp only [scanning, next] at hs
    split at hs
    · cases hs
    next c hc =>
      split at hs
      · split at hs
        · cases hs
          exact ⟨h.ids, h.keys, calls_update h.calls nofun, h.finished⟩
        next key hkey =>
          cases hs
          exact h.row hc hkey
      · cases hs
  | finish t =>
    simp only [scanning, next] at hs
    split at hs
    · cases hs
    next c hc =>
      split at hs
      next hlen =>
        cases hs
        refine ⟨h.ids, h.keys, calls_update h.calls nofun, fun c' hc' => ?_⟩
        rcases List.mem_append.1 hc' with hc' | hc'
        · exact h.finished c' hc'
        · rw [List.mem_singleton.1 hc']
          exact ⟨hlen, h.calls t c hc⟩
      · cases hs

/-- The invariant of every reachable state. -/
theorem reachable (h : (scanning D).ReachableBy Machine.Free {} s) : s.Ok D :=
  h.invariant ⟨rfl, .nil, nofun, nofun⟩ fun _ _ _ hs _ hn => hs.step hn

/-- No id was emitted twice. -/
theorem ids_nodup (h : s.Ok D) : (s.emitted.map Emission.id).Nodup := by
  rw [h.ids]
  exact List.nodup_range

/-- What the buffer holds at an index is the key of the row that this id was emitted for. -/
theorem exists_emission (h : s.Ok D) {id : Nat} {key : List V}
    (hkey : s.buffer.rows[id]? = some key) :
    ∃ e ∈ s.emitted, e.id = id ∧ e.key D = .ok key := by
  obtain ⟨hlt, hget⟩ := List.getElem?_eq_some_iff.1 hkey
  have hlt' : id < s.emitted.length := by rw [h.keys.length_eq]; exact hlt
  refine ⟨s.emitted[id], List.getElem_mem hlt', ?_, ?_⟩
  · have hid : (s.emitted.map Emission.id)[id]? = some id := by
      rw [h.ids, List.getElem?_range hlt]
    rw [List.getElem?_map, List.getElem?_eq_getElem hlt'] at hid
    exact Option.some.inj hid
  · rw [← hget]
    exact h.keys.get hlt' hlt

end Scans.Ok

end Provider

end VirtualCatalog
