import VirtualCatalog.Bridge.Lookup
import VirtualCatalog.Bridge.Consistent
import VirtualCatalog.Bridge.ContextRace

/-!
# The context covers every predicate

A predicate enters a policy after its names were looked up in one snapshot of the context.  It is
then copied into the pending entry, handed over to a grant book, and held by undo logs while a
target transaction is open.  A context never loses a name, so wherever the predicate ends up, the
context of its registration has the names.

* `Registry.Covered` : the invariant, over the entry, the books, the undo logs and the calls in
  flight of one id.
* `context_covers` : it holds of every reachable registry, as long as the id is not registered anew
  under a policy call.
-/

namespace VirtualCatalog

/-- Every predicate of the grants by key uses only names of the context. -/
def ClosedAt (values : ContextValues) (m : TableKey → Option SourceGrant) : Prop :=
  ∀ k g, m k = some g → ClosedGrant values g

/-- So does every predicate of the grants that an undo would reinstall. -/
def ClosedUndos (values : ContextValues) (undos : List GrantUndo) : Prop :=
  ∀ undo ∈ undos, ∀ k g, undo.Holds k g → ClosedGrant values g

theorem closedAt_iff {values : ContextValues} {T : GrantTables} :
    ClosedAt values T.grantAt ↔ ClosedGrants values T := Iff.rfl

theorem ClosedUndos.mono {values values' : ContextValues} {undos : List GrantUndo}
    (h : ClosedUndos values undos) (hg : ContextGrows values values') : ClosedUndos values' undos :=
  fun undo hu k g hh => (h undo hu k g hh).mono hg

theorem closedGrant_created {values : ContextValues} (key : List String) :
    ClosedGrant values (createdGrant key) := by
  have none : ∀ v, (createdGrant key).usingPredicates v = none ∧
      (createdGrant key).checkPredicates v = none := by
    intro v
    cases key <;> simp [createdGrant, crossingVerbs, SourceGrant.allow]
  intro v
  rw [(none v).1, (none v).2]
  exact ⟨fun e he => (by cases he), fun e he => (by cases he)⟩

/-- An operation of a session moves grants between the book and its log. -/
theorem DuckDBSession.Logs.closed {values : ContextValues} {session : DuckDBSession}
    {m m' : TableKey → Option SourceGrant} {op : SessionOp} {undos : List GrantUndo}
    (h : session.Logs m op m' undos) (hm : ClosedAt values m)
    (hu : ClosedUndos values session.grantUndo) : ClosedAt values m' ∧ ClosedUndos values undos :=
  h.all closedGrant_created hm hu

namespace Registry

/-- What a policy call holds between its sections. -/
def ClosedStage (values : ContextValues) : PolicyStage → Prop
  | .lookedUp => True
  | .snapshotted snapshot => ContextGrows snapshot values
  | .resolved commit => ClosedCommit values commit

/-- The context of each registration of the id has every name that its predicates use. -/
structure Covered (id : String) (s : Registry) : Prop where
  pending : ∀ p, s.pending id = some p →
    ClosedGrants (s.contexts p.registration).values p.state.tables
  book : ∀ b bridge, s.bridges b = some bridge → bridge.bridgeId = id →
    ClosedGrants (s.contexts bridge.registration).values bridge.book.tables
  undo : ∀ b bridge, s.bridges b = some bridge → bridge.bridgeId = id →
    ∀ session ∈ bridge.sessions,
      ClosedUndos (s.contexts bridge.registration).values session.grantUndo
  calls : ∀ call, .policy call ∈ s.calls → call.bridgeId = id →
    ClosedStage (s.contexts call.registration).values call.stage
  numbered : ∀ call, .policy call ∈ s.calls → call.registration < s.registrations

variable {s s' : Registry} {agent : Agent} {nonce id : String}

theorem ClosedStage.mono {values values' : ContextValues} {stage : PolicyStage}
    (h : ClosedStage values stage) (hg : ContextGrows values values') : ClosedStage values' stage := by
  cases stage with
  | lookedUp => trivial
  | snapshotted snapshot => exact fun n hn => hg n (h n hn)
  | resolved commit => exact ClosedCommit.mono h hg

/-- Every context has the names that it had. -/
def Grown (s s' : Registry) : Prop :=
  ∀ r < s.registrations, ContextGrows (s.contexts r).values (s'.contexts r).values

/-- A move that adds no predicate. -/
theorem Covered.mono (h : s.Covered id) (hr : s.Registered) (hg : s.Grown s')
    (hn : s.registrations ≤ s'.registrations)
    (hp : ∀ p', s'.pending id = some p' → ∃ p, s.pending id = some p ∧
      p'.registration = p.registration ∧ p'.state.tables = p.state.tables)
    (hb : ∀ b bridge', s'.bridges b = some bridge' → ∃ bridge, s.bridges b = some bridge ∧
      bridge'.bridgeId = bridge.bridgeId ∧ bridge'.registration = bridge.registration ∧
        bridge'.book.tables = bridge.book.tables ∧ bridge'.sessions = bridge.sessions)
    (hc : ∀ call, .policy call ∈ s'.calls → .policy call ∈ s.calls) : s'.Covered id where
  pending p' hp' := by
    obtain ⟨p, hp, hreg, ht⟩ := hp p' hp'
    rw [hreg, ht]
    exact (h.pending p hp).mono (hg _ (hr.numbered id p hp))
  book b bridge' hb' hid := by
    obtain ⟨bridge, hb, hid', hreg, ht, -⟩ := hb b bridge' hb'
    rw [hreg, ht]
    exact (h.book b bridge hb (hid'.symm.trans hid)).mono (hg _ (hr.books b bridge hb).1)
  undo b bridge' hb' hid session hs := by
    obtain ⟨bridge, hb, hid', hreg, -, hses⟩ := hb b bridge' hb'
    rw [hreg]
    exact (h.undo b bridge hb (hid'.symm.trans hid) session (hses ▸ hs)).mono
      (hg _ (hr.books b bridge hb).1)
  calls call hcall hid := (h.calls call (hc call hcall) hid).mono (hg _ (h.numbered call (hc call hcall)))
  numbered call hcall := (h.numbered call (hc call hcall)).trans_le hn

theorem Grown.of_eq (h : s'.contexts = s.contexts) : s.Grown s' := fun r _ => by
  rw [h]
  exact fun _ hn => hn

/-- A context changes, and has the names that it had. -/
theorem grown_setContext {r : Nat} {context : BridgeContext}
    (h : ContextGrows (s.contexts r).values context.values) : s.Grown (s.setContext r context) := by
  intro r' _
  rw [contexts_setContext]
  split_ifs with hr
  · exact hr ▸ h
  · exact fun _ hn => hn

/-- An entry changes, but not its grants. -/
theorem Covered.setPending (h : s.Covered id) (hr : s.Registered) {id' : String} {p p' : PendingSource}
    (hp : s.pending id' = some p) (hreg : p'.registration = p.registration)
    (ht : p'.state.tables = p.state.tables) : (s.setPending id' p').Covered id := by
  refine h.mono hr (.of_eq rfl) le_rfl (fun q hq => ?_)
    (fun b bridge hb => ⟨bridge, hb, rfl, rfl, rfl, rfl⟩) fun _ hc => hc
  rw [pending_setPending] at hq
  split_ifs at hq with hid
  · cases hq
    exact ⟨p, hid ▸ hp, hreg, ht⟩
  · exact ⟨q, hq, rfl, rfl⟩

/-- A book changes, but not its grants and sessions. -/
theorem Covered.setBridge (h : s.Covered id) (hr : s.Registered) {b : Nat} {bridge bridge' : Bridge}
    (hb : s.bridges b = some bridge) (hid : bridge'.bridgeId = bridge.bridgeId)
    (hreg : bridge'.registration = bridge.registration)
    (ht : bridge'.book.tables = bridge.book.tables) (hs : bridge'.sessions = bridge.sessions) :
    (s.setBridge b bridge').Covered id := by
  refine h.mono hr (.of_eq rfl) le_rfl (fun p hp => ⟨p, hp, rfl, rfl⟩) (fun b' bridge₁ hb₁ => ?_)
    fun _ hc => hc
  rw [bridges_setBridge] at hb₁
  split_ifs at hb₁ with hbb
  · cases hb₁
    exact ⟨bridge, hbb ▸ hb, hid, hreg, ht, hs⟩
  · exact ⟨bridge₁, hb₁, rfl, rfl, rfl, rfl⟩

/-- An event is noted. -/
theorem Covered.note (h : s.Covered id) {r : Nat} {event : RegistryEvent} :
    (s.note r event).Covered id := ⟨h.pending, h.book, h.undo, h.calls, h.numbered⟩

/-- Entries go, and calls end. -/
theorem Covered.drop (h : s.Covered id) (hr : s.Registered) (hg : s'.contexts = s.contexts)
    (hn : s'.registrations = s.registrations) (hb : s'.bridges = s.bridges)
    (hp : ∀ p, s'.pending id = some p → s.pending id = some p)
    (hc : ∀ call, .policy call ∈ s'.calls → .policy call ∈ s.calls) : s'.Covered id :=
  h.mono hr (.of_eq hg) hn.ge (fun p hp' => ⟨p, hp p hp', rfl, rfl⟩)
    (fun _ bridge hb' => ⟨bridge, hb ▸ hb', rfl, rfl, rfl, rfl⟩) hc

/-! ### The moves that add predicates -/

/-- What a call in flight has found. -/
theorem Aimed.pending (h : s.Aimed id) {call : PolicyCall} (hcall : .policy call ∈ s.calls)
    (hid : call.bridgeId = id) {p : PendingSource} (hp : s.pending id = some p)
    (hdb : p.sourceDb = call.sourceDb) : p.registration = call.registration :=
  (h call hcall hid _ (.pending p hp hdb)).1

theorem Aimed.live (h : s.Aimed id) {call : PolicyCall} (hcall : .policy call ∈ s.calls)
    (hid : call.bridgeId = id) {entry : LiveBridge} {bridge : Bridge} (hp : s.pending id = none)
    (hl : s.liveBridge id = some (entry, bridge)) (hdb : entry.sourceDb = call.sourceDb) :
    bridge.registration = call.registration :=
  (h call hcall hid _ (.live entry bridge hp hl hdb)).1

theorem target_numbered (hr : s.Registered) {db : Nat} {target : GrantTarget}
    (ht : s.Target id db target) : target.registration < s.registrations := by
  cases ht with
  | pending p hp => exact hr.numbered id p hp
  | live entry bridge hp hl => exact (hr.books _ bridge (bridges_of_liveBridge hl).2.1).1

/-- A new registration has no policy and an empty context. -/
theorem Covered.addPending (h : s.Covered id) (hr : s.Registered) {id' : String} {p : PendingSource}
    (hs : p.state = {}) : (s.addPending id' p).Covered id := by
  have grown : s.Grown (s.addPending id' p) := by
    intro r hlt
    change ContextGrows _ (Function.update s.contexts s.registrations {} r).values
    rw [Function.update_of_ne (Nat.ne_of_lt hlt)]
    exact fun _ hn => hn
  have old : Covered id { s.addPending id' p with pending := Function.update s.pending id' none } :=
    h.mono hr grown (Nat.le_succ _) (fun q hq => ⟨q, (dropPending_sub hq).1, rfl, rfl⟩)
      (fun _ bridge hb => ⟨bridge, hb, rfl, rfl, rfl, rfl⟩) fun _ hc => hc
  refine ⟨fun q hq => ?_, old.book, old.undo, old.calls, old.numbered⟩
  rw [pending_addPending] at hq
  split_ifs at hq with hid
  · cases hq
    rw [hs]
    exact closedGrants_empty
  · exact (h.pending q hq).mono (grown _ (hr.numbered id q hq))

/-- The policy of a pending entry becomes that of its book. -/
theorem Covered.attach (h : s.Covered id) {id' : String} {p : PendingSource}
    (hp : s.pending id' = some p) : (s.attach id' p).Covered id where
  pending q hq := h.pending q (dropPending_sub hq).1
  book b bridge hb hid := by
    rw [bridges_attach] at hb
    split_ifs at hb
    · cases hb
      have hid : id' = id := hid
      exact h.pending p (hid ▸ hp)
    · exact h.book b bridge hb hid
  undo b bridge hb hid := by
    rw [bridges_attach] at hb
    split_ifs at hb
    · cases hb
      exact fun session hs => by cases hs
    · exact h.undo b bridge hb hid
  calls := h.calls
  numbered := h.numbered

/-- A call commits what it resolved. -/
theorem Covered.commitPending (h : s.Covered id) (ha : s.Aimed id) {call : PolicyCall}
    {commit : PolicyCommit} {p : PendingSource} (hcall : .policy call ∈ s.calls)
    (hs : call.stage = .resolved commit) (hp : s.pending call.bridgeId = some p)
    (hdb : p.sourceDb = call.sourceDb) : (s.setPending call.bridgeId
      { p with state := commit.applyPending (copyPolicy p.state) }).Covered id := by
  refine ⟨fun q hq => ?_, h.book, h.undo, h.calls, h.numbered⟩
  rw [pending_setPending] at hq
  split_ifs at hq with hid
  · cases hq
    have hc := h.calls call hcall hid.symm
    rw [hs, ← ha.pending hcall hid.symm (hid ▸ hp) hdb] at hc
    exact applyPending_closed (Closed.closedGrants_copy (h.pending p (hid ▸ hp))) hc
  · exact h.pending q hq

theorem Covered.commitLive (h : s.Covered id) (hr : s.Registered) (ha : s.Aimed id)
    {call : PolicyCall} {commit : PolicyCommit} {entry : LiveBridge} {bridge : Bridge}
    {book : GrantBook} (hcall : .policy call ∈ s.calls) (hs : call.stage = .resolved commit)
    (hp : s.pending call.bridgeId = none) (hl : s.liveBridge call.bridgeId = some (entry, bridge))
    (hdb : entry.sourceDb = call.sourceDb)
    (hok : commitPolicy call.bridgeId bridge.book commit = .ok book) :
    (s.setBridge entry.grants { bridge with book := book }).Covered id := by
  obtain ⟨he, hb, -⟩ := bridges_of_liveBridge hl
  obtain ⟨-, -, state, happly, -, rfl⟩ := commitPolicy_ok_iff.1 hok
  refine ⟨h.pending, fun b bridge' hb' hid => ?_, fun b bridge' hb' hid => ?_, h.calls, h.numbered⟩
  · rw [bridges_setBridge] at hb'
    split_ifs at hb'
    · cases hb'
      obtain ⟨bridge₀, hb₀, hid₀, -⟩ := hr.live _ entry he
      rw [hb] at hb₀
      cases hb₀
      have hid' : call.bridgeId = id := hid₀.symm.trans hid
      have hc := h.calls call hcall hid'
      rw [hs, ← ha.live hcall hid' (hid' ▸ hp) (hid' ▸ hl) hdb] at hc
      exact apply_closed happly (Closed.closedGrants_copy (h.book _ bridge hb hid)) hc
    · exact h.book b bridge' hb' hid
  · rw [bridges_setBridge] at hb'
    split_ifs at hb'
    · cases hb'
      exact h.undo _ bridge hb hid
    · exact h.undo b bridge' hb' hid

/-- A session moves grants between the book and its undo log. -/
theorem Covered.session (h : s.Covered id) {b : Nat} {bridge : Bridge} {after : Live}
    {label : LiveLabel} (hb : s.bridges b = some bridge) (hl : ∀ l, label ≠ .owner l)
    (hs : Live.next bridge.bridgeId (s.liveOf bridge) label = some after) :
    (s.setBridge b { bridge with book := after.store.book, sessions := after.sessions }).Covered id := by
  -- the grants and the logs after the step
  have step : bridge.bridgeId = id →
      ClosedGrants (s.contexts bridge.registration).values after.store.book.tables ∧
        ∀ session ∈ after.sessions,
          ClosedUndos (s.contexts bridge.registration).values session.grantUndo := by
    intro hid
    have hbook := h.book b bridge hb hid
    have hundo := h.undo b bridge hb hid
    cases label with
    | owner l => exact absurd rfl (hl l)
    | begin =>
      cases hs
      refine ⟨hbook, fun session hsession => ?_⟩
      rcases List.mem_append.1 hsession with hsession | hsession
      · exact hundo session hsession
      · cases List.mem_singleton.1 hsession
        exact fun undo hu => by cases hu
    | session i op =>
      obtain ⟨session, book, session', hi, -, hstep, rfl⟩ := Live.next_session hs
      obtain ⟨hm, hu⟩ := hstep.logs.closed (closedAt_iff.2 hbook)
        (hundo session (List.mem_of_getElem? hi))
      refine ⟨closedAt_iff.1 hm, fun session₁ h₁ => ?_⟩
      rcases List.mem_or_eq_of_mem_set h₁ with h₁ | rfl
      · exact hundo session₁ h₁
      · exact hu
  refine ⟨h.pending, fun b' bridge' hb' hid => ?_, fun b' bridge' hb' hid => ?_, h.calls, h.numbered⟩
  · rw [bridges_setBridge] at hb'
    split_ifs at hb'
    · cases hb'
      exact (step hid).1
    · exact h.book b' bridge' hb' hid
  · rw [bridges_setBridge] at hb'
    split_ifs at hb'
    · cases hb'
      exact (step hid).2
    · exact h.undo b' bridge' hb' hid

theorem resolve_closed {request : PolicyRequest} {view : SourceView} {values : ContextValues}
    {commit : PolicyCommit} (h : request.resolve view values = .ok commit) :
    ClosedCommit values commit := by
  cases request with
  | set edit => exact resolveEdit_closed h
  | configure config =>
    rw [PolicyRequest.resolve] at h
    cases hp : resolvePolicy view values config with
    | error e => rw [hp] at h; cases h
    | ok state =>
      rw [hp] at h
      cases h
      exact resolvePolicy_closed hp

/-- A call goes on. -/
theorem Covered.setCall (h : s.Covered id) {i : Nat} {call : PolicyCall} {stage : PolicyStage}
    (hi : s.calls[i]? = some (.policy call))
    (hs : call.bridgeId = id → ClosedStage (s.contexts call.registration).values stage) :
    (s.withCalls (s.calls.set i (.policy { call with stage := stage }))).Covered id := by
  refine ⟨h.pending, h.book, h.undo, fun call' hc' hid => ?_, fun call' hc' => ?_⟩
  · rcases List.mem_or_eq_of_mem_set hc' with hc' | hc'
    · exact h.calls call' hc' hid
    · cases hc'
      exact hs hid
  · rcases List.mem_or_eq_of_mem_set hc' with hc' | hc'
    · exact h.numbered call' hc'
    · cases hc'
      exact h.numbered call (List.mem_of_getElem? hi)

/-- **Every move keeps the predicates covered.** -/
theorem Covered.move (h : s.Covered id) (hr : s.Registered) (ha : s.Aimed id)
    (hm : Move agent s s') : s'.Covered id := by
  cases hm with
  | tick elapsed => exact h.drop hr rfl rfl rfl (fun _ hp => hp) fun _ hc => hc
  | close db => exact h.drop hr rfl rfl rfl (fun _ hp => hp) fun _ hc => hc
  | purge => exact h.drop hr rfl rfl rfl (fun p hp => (expired_of_purge hp).1) fun _ hc => hc
  | touch id' p hp => exact h.setPending hr hp rfl rfl
  -- a registration starts without grants, and with an empty context
  | register id' p _ hp hl hreg hf hs => exact h.addPending hr hs
  | wrongToken id' token p hp =>
    rw [wrongToken]
    refine Covered.note ?_
    split
    · exact h.drop hr rfl rfl rfl (fun p hp => (dropPending_sub hp).1) fun _ hc => hc
    · exact h.setPending hr hp rfl rfl
  | drop id' => exact h.drop hr rfl rfl rfl (fun p hp => (dropPending_sub hp).1) fun _ hc => hc
  | attach id' p hp => exact h.attach hp
  | destroySource b bridge hb =>
    have hset : Covered id (s.setBridge b { bridge with attached := false }) :=
      h.setBridge hr hb rfl rfl rfl rfl
    obtain ⟨live, heq⟩ := s.destroySource_eq b bridge
    rw [heq]
    exact ⟨hset.pending, hset.book, hset.undo, hset.calls, hset.numbered⟩
  | commitPending call commit p hcall hs hp hdb =>
    refine Covered.note ?_
    exact h.commitPending ha hcall hs hp hdb
  | commitLive call commit entry bridge book hcall hs hp hl hdb hok =>
    refine Covered.note ?_
    exact h.commitLive hr ha hcall hs hp hl hdb hok
  | finalizePending id' p hp =>
    refine Covered.note ?_
    exact h.setPending hr hp rfl rfl
  | finalizeLive b bridge hb =>
    refine Covered.note ?_
    exact h.setBridge hr hb rfl rfl rfl rfl
  | beginPolicy call target _ ht hreg _ hs =>
    refine ⟨h.pending, h.book, h.undo, fun call' hc' hid => ?_, fun call' hc' => ?_⟩
    · rcases List.mem_append.1 hc' with hc' | hc'
      · exact h.calls call' hc' hid
      · cases List.mem_singleton.1 hc'
        rw [hs]
        trivial
    · rcases List.mem_append.1 hc' with hc' | hc'
      · exact h.numbered call' hc'
      · cases List.mem_singleton.1 hc'
        exact hreg ▸ target_numbered hr ht
  | snapshotPolicy i call hi hs => exact h.setCall hi fun _ _ hn => hn
  -- the commit was checked against a snapshot of a context that only grows
  | resolvePolicy i call values view commit hi hs hok =>
    refine h.setCall hi fun hid => ?_
    have hgrows := h.calls call (List.mem_of_getElem? hi) hid
    rw [hs] at hgrows
    exact (resolve_closed hok).mono hgrows
  | beginContext call =>
    refine h.drop hr rfl rfl rfl (fun _ hp => hp) fun call' hc => ?_
    rcases List.mem_append.1 hc with hc | hc
    · exact hc
    · cases List.mem_singleton.1 hc
  | advanceContext i call =>
    refine h.drop hr rfl rfl rfl (fun _ hp => hp) fun call' hc => ?_
    rcases List.mem_or_eq_of_mem_set hc with hc | hc
    · exact hc
    · cases hc
  | endCall i =>
    exact h.drop hr rfl rfl rfl (fun _ hp => hp) fun call' hc => List.mem_of_mem_eraseIdx hc
  -- a context only grows
  | writeContext r name value =>
    exact h.mono hr (grown_setContext (Closed.contextGrows_insert _ _ _)) le_rfl
      (fun p hp => ⟨p, hp, rfl, rfl⟩) (fun _ bridge hb => ⟨bridge, hb, rfl, rfl, rfl, rfl⟩) fun _ hc => hc
  | finalizeContext r =>
    exact h.mono hr (grown_setContext fun _ hn => hn) le_rfl (fun p hp => ⟨p, hp, rfl, rfl⟩)
      (fun _ bridge hb => ⟨bridge, hb, rfl, rfl, rfl, rfl⟩) fun _ hc => hc
  | session b bridge hb after label _ hl hs => exact h.session hb hl hs
  | holds b bridge hb n => exact h.setBridge hr hb rfl rfl rfl rfl

/-- What holds of one id in every reachable registry. -/
structure Kept (id : String) (s : Registry) : Prop where
  registered : s.Registered
  aimed : s.Aimed id
  covered : s.Covered id

theorem Kept.next {l : RegistryLabel} (h : s.Kept id) (hl : Undisturbed id s l)
    (hs : s.next nonce l = some s') : s'.Kept id := by
  have hm := next_moves hs
  have hc := clear_of_undisturbed hl
  clear hs
  generalize s.agent l = agent at hm hc
  suffices s'.Kept id ∧ s'.Clear agent id from this.1
  induction hm with
  | refl => exact ⟨h, hc⟩
  | tail _ hm ih =>
    obtain ⟨⟨hr, ha, hcov⟩, hc⟩ := ih
    exact ⟨⟨hr.move hm, ha.move hr hc hm, hcov.move hr ha hm⟩, hc.move hm⟩

theorem kept_empty : Kept id {} where
  registered := registered_empty
  aimed call hc := by cases hc
  covered := ⟨fun p hp => (by cases hp), fun b bridge hb => (by cases hb),
    fun b bridge hb => (by cases hb), fun call hc => (by cases hc), fun call hc => (by cases hc)⟩

/-- **The context of a registration has every name of every predicate**, installed or held by an undo
log, as long as the id is not registered anew while a policy call is in flight. -/
theorem context_covers (h : (registryMachine nonce).ReachableBy (Undisturbed id) {} s) :
    s.Covered id :=
  (h.invariant (I := Kept id) kept_empty fun _ _ _ hi hl hs => hi.next hl hs).covered

namespace Sample

/-- A source with two tables, in which the owner writes `tenant = $tenant`. -/
def tenantView : SourceView := { view with
  parse := fun _ => .ok [VirtualCatalog.Sample.tenantRows]
  entry := fun _ => some { columns := ["tenant", "amount"], probe := fun _ => .ok ["BOOLEAN"] } }

/-- The sections of a call that grants select on a table of `main` where `tenant = $tenant`. -/
def grantingTenant (table : String) : List RegistryLabel :=
  [.setPolicy 0 "b" (.set (.verb ⟨"", "main", table⟩ .select
      { granted := true, usingText := "tenant = $tenant" })),
    .snapshot 0, .resolve 0 tenantView, .finish 0]

/-- The owner sets the tenant and grants two tables; then the target drops one of them. -/
def droppingOne : List RegistryLabel :=
  [.register 0 "b" (.ok ⟨0, "first"⟩) (some "token") "",
    .setContext 0 "b" "tenant" (.integer 1), .snapshot 0, .resolve 0 tenantView, .finish 0] ++
    grantingTenant "orders" ++ grantingTenant "archive" ++
    [.redeem "b" "token" (.ok ()), .beginSession 0,
      .session 0 0 (.ddl ⟨"main", "orders", .drop⟩ true fun _ => false),
      .session 0 0 (.run {}), .session 0 0 .record]

end Sample

/-- The book holds the predicate of one table, and an undo log that of the other. -/
theorem context_covers_dropped : ∃ bridge session g g',
    (Sample.after Sample.droppingOne).bridges 0 = some bridge ∧ session ∈ bridge.sessions ∧
    bridge.book.tables.findGrant "main" "archive" = some g ∧
    session.grantUndo = [.dropped "main" "orders" g'] ∧
    g.usingPredicates .select = some VirtualCatalog.Sample.tenantRows ∧
    g'.usingPredicates .select = some VirtualCatalog.Sample.tenantRows ∧
    ClosedGrant ((Sample.after Sample.droppingOne).contexts bridge.registration).values g ∧
    ClosedGrant ((Sample.after Sample.droppingOne).contexts bridge.registration).values g' := by
  have run : (registryMachine "n").ReachableBy (Undisturbed "b") {}
      (Sample.after Sample.droppingOne) := by
    -- only the first label registers the id, and no call is in flight then
    refine ⟨Sample.droppingOne, .cons (fun _ _ h => by cases h) rfl
      (Machine.run_of_exec_forall rfl fun l hl _ => ?_)⟩
    cases l with
    | register => simp [Sample.grantingTenant] at hl
    | _ => trivial
  have hcovered := context_covers run
  obtain ⟨bridge, session, g, g', hb, hs, hg, hundo, hp, hp'⟩ : ∃ bridge session g g',
      (Sample.after Sample.droppingOne).bridges 0 = some bridge ∧ session ∈ bridge.sessions ∧
      bridge.book.tables.findGrant "main" "archive" = some g ∧
      session.grantUndo = [.dropped "main" "orders" g'] ∧
      g.usingPredicates .select = some VirtualCatalog.Sample.tenantRows ∧
      g'.usingPredicates .select = some VirtualCatalog.Sample.tenantRows :=
    ⟨_, _, _, _, rfl, List.mem_cons_self, rfl, rfl, rfl, rfl⟩
  have hid : bridge.bridgeId = "b" := by
    cases hb
    rfl
  refine ⟨bridge, session, g, g', hb, hs, hg, hundo, hp, hp', ?_, ?_⟩
  · exact hcovered.book 0 bridge hb hid (tableKey "main" "archive") g hg
  · exact hcovered.undo 0 bridge hb hid session hs (.dropped "main" "orders" g')
      (hundo ▸ List.mem_cons_self) (tableKey "main" "orders") g' ⟨rfl, rfl⟩

end Registry

end VirtualCatalog
