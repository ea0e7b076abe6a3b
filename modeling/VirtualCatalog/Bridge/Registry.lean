import VirtualCatalog.Bridge.Session

/-!
# The registry of bridges

A source is registered under an id and waits there for a target to redeem its token; then it is
live until its `DuckDBSource` is destroyed.  Policies and context are set before and after, each by
a call that looks the id up, works without a lock and, for a policy, looks the id up again to
commit.  One mutex guards the registry, so the steps of all calls interleave between its sections.

* `PendingSource`, `LiveBridge`, `Bridge` : the entries of the two maps, and the grant books.
* `Registry` : both maps, the books, the contexts and the calls in flight, for any number of ids and
  database instances.  Registrations are numbered; the number is also that of the context.
* `registryMachine` : one section of one call at a time, the passing of time and the end of
  instances and sources.
-/

namespace VirtualCatalog

/-- `SourcePin`: an attached database by identity, with the name it was registered under. -/
structure SourcePin where
  attached : Nat
  registeredName : String
deriving DecidableEq

/-- `PendingSource`. -/
structure PendingSource where
  /-- Which registration it is, counted from the first. -/
  registration : Nat
  sourceDb : Nat
  token : String
  source : SourcePin
  lastTouched : Nat
  state : PolicyState := {}
  policyFinalized : Bool := false
  tokenFailures : Nat := 0

/-- `LiveBridge`; `grants` is the number of its book. -/
structure LiveBridge where
  sourceDb : Nat
  source : SourcePin
  grants : Nat

/-- A grant book and who holds it. -/
structure Bridge where
  registration : Nat
  bridgeId : String
  book : GrantBook
  sessions : List DuckDBSession := []
  /-- Its `DuckDBSource` is not destroyed. -/
  attached : Bool := true
  /-- The plans that hold it. -/
  holds : Nat := 0

/-- Somebody holds the book. -/
def Bridge.alive (bridge : Bridge) : Bool :=
  bridge.attached || decide (0 < bridge.holds) ||
    bridge.sessions.any fun session => !session.destroyed

/-- What `set_policy` or `configure_policy` asks for. -/
inductive PolicyRequest where
  | set (edit : PolicyEdit)
  | configure (config : PolicyConfig)

/-- The part of `SetPolicy` or `ConfigurePolicy` between the lookup and the commit. -/
def PolicyRequest.resolve (view : SourceView) (values : ContextValues) :
    PolicyRequest → Except BridgeError PolicyCommit
  | set edit => resolveEdit view values edit
  | configure config => .configure <$> resolvePolicy view values config

/-- How far a policy call is. -/
inductive PolicyStage where
  | lookedUp
  | snapshotted (values : ContextValues)
  | resolved (commit : PolicyCommit)

/-- A `set_policy` or `configure_policy` in flight. -/
structure PolicyCall where
  sourceDb : Nat
  bridgeId : String
  request : PolicyRequest
  /-- The registration it looked up. -/
  registration : Nat
  source : SourcePin
  stage : PolicyStage := .lookedUp

/-- How far a `set_context` is. -/
inductive ContextStage where
  | lookedUp
  | snapshotted (values : ContextValues)
  | probed

/-- A `set_context` in flight; it keeps the context it looked up. -/
structure ContextCall where
  sourceDb : Nat
  bridgeId : String
  name : String
  value : Value
  registration : Nat
  source : SourcePin
  dependents : List ContextDependent
  stage : ContextStage := .lookedUp

/-- A call in flight. -/
inductive RegistryCall where
  | policy (call : PolicyCall)
  | context (call : ContextCall)

/-- What happened to a registration. -/
inductive RegistryEvent where
  /-- A wrong token was compared with its own. -/
  | wrongToken
  | redeemed
  /-- A call committed that had looked up the given registration. -/
  | committed (lookedUp : Nat) (commit : PolicyCommit)
  | policyFinalized

/-- The registry, as one process has it. -/
structure Registry where
  now : Nat := 0
  /-- The database instances that are gone. -/
  closed : List Nat := []
  pending : String → Option PendingSource := fun _ => none
  live : String → Option LiveBridge := fun _ => none
  /-- The books, in the order they were made. -/
  bridges : Nat → Option Bridge := fun _ => none
  redeemed : Nat := 0
  /-- The context of each registration. -/
  contexts : Nat → BridgeContext := fun _ => {}
  registrations : Nat := 0
  calls : List RegistryCall := []
  /-- For the properties to refer to, newest first. -/
  history : List (Nat × RegistryEvent) := []

/-- `PENDING_SOURCE_TTL_SECONDS`. -/
def pendingSourceTtlSeconds : Nat := 30

/-- `MAX_TOKEN_FAILURES`. -/
def maxTokenFailures : Nat := 5

/-- The clock counts nanoseconds. -/
def ticksPerSecond : Nat := 1000000000

/-- `ConstantTimeEquals`. -/
def constantTimeEquals (a b : String) : Bool :=
  decide (a.toList.length = b.toList.length) &&
    decide ((a.toList.zip b.toList).foldl (fun diff p => diff ||| (p.1.val ^^^ p.2.val)) 0 = 0)

/-- What stands before the first colon of a token. -/
def noncePart (token : String) : Option String :=
  if ':' ∈ token.toList then some (.ofList (token.toList.takeWhile (· ≠ ':'))) else none

namespace Registry

/-! ### Changes -/

section

variable (s : Registry) (id : String) (p : PendingSource) (b r : Nat) (bridge : Bridge)

/-- `PendingSources()[id] = p`. -/
def setPending : Registry := { s with pending := Function.update s.pending id (some p) }

/-- `PendingLock::Drop`. -/
def dropPending : Registry := { s with pending := Function.update s.pending id none }

/-- The book `b` changes. -/
def setBridge : Registry := { s with bridges := Function.update s.bridges b (some bridge) }

/-- The context of a registration changes. -/
def setContext (context : BridgeContext) : Registry :=
  { s with contexts := Function.update s.contexts r context }

/-- Other calls are in flight. -/
def withCalls (calls : List RegistryCall) : Registry := { s with calls := calls }

/-- Note what happened to a registration. -/
def note (event : RegistryEvent) : Registry := { s with history := (r, event) :: s.history }

/-- A new registration under `id`. -/
def addPending : Registry :=
  { s.setPending id p with
    contexts := Function.update s.contexts s.registrations {}
    registrations := s.registrations + 1 }

theorem pending_setPending (id' : String) :
    (s.setPending id p).pending id' = if id' = id then some p else s.pending id' :=
  Function.update_apply ..

theorem pending_dropPending (id' : String) :
    (s.dropPending id).pending id' = if id' = id then none else s.pending id' :=
  Function.update_apply ..

theorem pending_addPending (id' : String) :
    (s.addPending id p).pending id' = if id' = id then some p else s.pending id' :=
  Function.update_apply ..

theorem bridges_setBridge (b' : Nat) :
    (s.setBridge b bridge).bridges b' = if b' = b then some bridge else s.bridges b' :=
  Function.update_apply ..

theorem contexts_setContext (context : BridgeContext) (r' : Nat) :
    (s.setContext r context).contexts r' = if r' = r then context else s.contexts r' :=
  Function.update_apply ..

end

/-! ### Lookups -/

section

variable (s : Registry) (id : String) (db : Nat)

/-- An entry is idle for too long, or its instance is gone. -/
def expired (p : PendingSource) : Bool :=
  decide (pendingSourceTtlSeconds < (s.now - p.lastTouched) / ticksPerSecond) ||
    decide (p.sourceDb ∈ s.closed)

/-- `PurgeExpiredPendingSources`. -/
def purge : Registry :=
  { s with pending := fun id => (s.pending id).filter fun p => !s.expired p }

/-- The live entry of an id whose book is still held. -/
def liveBridge : Option (LiveBridge × Bridge) :=
  (s.live id).bind fun entry =>
    ((s.bridges entry.grants).filter Bridge.alive).map fun bridge => (entry, bridge)

/-- `IsLiveBridge`. -/
def isLiveBridge : Bool := (s.liveBridge id).isSome

/-- `last_touched = now`. -/
def touched (p : PendingSource) : PendingSource := { p with lastTouched := s.now }

/-- `GrantTarget`. -/
structure GrantTarget where
  registration : Nat
  source : SourcePin
  tables : GrantTables
  policyFinalized : Bool
  /-- The pending entry, or the live one with its book. -/
  entry : PendingSource ⊕ (LiveBridge × Bridge)

/-- The entry was made by another instance. -/
def otherConnection : BridgeError :=
  ⟨.permission, "vcatbridge: bridge '" ++ id ++ "' was registered by a different source connection"⟩

/-- The id has no entry. -/
def noSource : BridgeError :=
  ⟨.permission, "vcatbridge: no registered source for bridge '" ++ id ++ "'"⟩

/-- `LookupLive`. -/
def lookupLive : Except BridgeError GrantTarget :=
  match s.liveBridge id with
  | none => .error (noSource id)
  | some (entry, bridge) =>
    if entry.sourceDb ≠ db then .error (otherConnection id)
    else .ok ⟨bridge.registration, entry.source, bridge.book.tables, bridge.book.policyFinalized,
      .inr (entry, bridge)⟩

/-- `LookupGrantTarget`, and what `LookupContext` does likewise: a pending entry of the caller's own
instance is touched. -/
def lookupGrantTarget : Except BridgeError GrantTarget × Registry :=
  match s.purge.pending id with
  | some p =>
    if p.sourceDb ≠ db then (.error (otherConnection id), s.purge)
    else (.ok ⟨p.registration, p.source, p.state.tables, p.policyFinalized, .inl (s.touched p)⟩,
      s.purge.setPending id (s.touched p))
  | none => (s.purge.lookupLive id db, s.purge)

/-- `LookupOpenGrants`. -/
def lookupOpenGrants : Except BridgeError GrantTarget × Registry :=
  let (found, s) := s.lookupGrantTarget id db
  (do
    let target ← found
    throwIf target.policyFinalized
      ⟨.permission, "vcatbridge: the policies of bridge '" ++ id ++ "' are finalized"⟩
    return target, s)

end

/-! ### Registering and redeeming -/

/-- `RegisterSourceFunc`; `pin` is what `PinSourceCatalog` says, and `uuid` a new one. -/
def registerSource (nonce : String) (s : Registry) (db : Nat) (id : String)
    (pin : Except BridgeError SourcePin) (chosen : Option String) (uuid : String) :
    Except BridgeError String × Registry :=
  if id = "" then (.error ⟨.io, "vcatbridge: bridge id cannot be empty"⟩, s)
  else
    match pin with
    | .error e => (.error e, s)
    | .ok source =>
      if chosen = some "" then (.error ⟨.io, "vcatbridge: the token cannot be empty"⟩, s)
      else
        let token := chosen.getD (nonce ++ ":" ++ uuid)
        -- the expired entries are purged first, so that their ids are free
        if (s.purge.pending id).isSome || s.purge.isLiveBridge id then
          (.error ⟨.io, "vcatbridge: a source is already registered for bridge '" ++ id ++ "'"⟩,
            s.purge)
        else (.ok token, s.purge.addPending id
          { registration := s.registrations, sourceDb := db, token := token, source := source,
            lastTouched := s.now })

/-- A wrong token counts, and too many drop the entry. -/
def wrongToken (s : Registry) (id : String) (p : PendingSource) : Registry :=
  (if maxTokenFailures ≤ p.tokenFailures + 1 then s.dropPending id
    else s.setPending id { p with tokenFailures := p.tokenFailures + 1 }).note p.registration .wrongToken

/-- The grant book of a pending entry. -/
def bookOf (id : String) (p : PendingSource) : Bridge :=
  { registration := p.registration, bridgeId := id,
    book := { state := p.state, policyFinalized := p.policyFinalized } }

/-- The pending entry becomes a grant book, and the id is live. -/
def attach (s : Registry) (id : String) (p : PendingSource) : Registry :=
  { (s.dropPending id).note p.registration .redeemed with
    bridges := Function.update s.bridges s.redeemed (some (bookOf id p))
    redeemed := s.redeemed + 1
    live := Function.update s.live id (some ⟨p.sourceDb, p.source, s.redeemed⟩) }

theorem bridges_attach (s : Registry) (id : String) (p : PendingSource) (b : Nat) :
    (s.attach id p).bridges b = if b = s.redeemed then some (bookOf id p) else s.bridges b :=
  Function.update_apply ..

theorem live_attach (s : Registry) (id : String) (p : PendingSource) (id' : String) :
    (s.attach id p).live id' =
      if id' = id then some ⟨p.sourceDb, p.source, s.redeemed⟩ else s.live id' :=
  Function.update_apply ..

/-- `RedeemBridge`; `settings` is what `ThrowUnlessSettingsMatch` says. -/
def redeemBridge (nonce : String) (s : Registry) (id token : String)
    (settings : Except BridgeError Unit) : Except BridgeError Nat × Registry :=
  if (noncePart token).any (· ≠ nonce) then
    (.error ⟨.permission, "vcatbridge: source and target loaded different copies of the " ++
      "virtual_catalog extension. Ensure both connections use the same extension installation."⟩, s)
  else
    match s.purge.pending id with
    | none => (.error (noSource id), s.purge)
    | some p =>
      if constantTimeEquals p.token token = false then
        (.error ⟨.permission, "vcatbridge: invalid setup token for bridge '" ++ id ++ "'"⟩,
          s.purge.wrongToken id p)
      else if s.purge.isLiveBridge id then
        (.error ⟨.permission, "vcatbridge: bridge '" ++ id ++ "' is already attached"⟩, s.purge)
      else
        match validateGrantSet p.state.tables p.state.createSchemas id true with
        | .error e => (.error e, s.purge)
        -- the policy is checked as a whole before anything is moved
        | .ok _ =>
          -- `Pin` fails: the instance is gone, and the entry goes with it
          if p.sourceDb ∈ s.closed then (.error (noSource id), s.purge.dropPending id)
          else
            match settings with
            | .error e => (.error e, s.purge)
            | .ok _ => (.ok s.redeemed, s.purge.attach id p)

/-- `~DuckDBSource`: the live entry goes if it is that of this book. -/
def destroySource (s : Registry) (b : Nat) (bridge : Bridge) : Registry :=
  let s' := s.setBridge b { bridge with attached := false }
  match s.live bridge.bridgeId with
  | none => s'
  | some entry =>
    if entry.grants = b then { s' with live := Function.update s.live bridge.bridgeId none } else s'

/-! ### Policy -/

/-- `LookUpOpenBridge` up to its snapshot of the context. -/
def lookUpOpenBridge (s : Registry) (db : Nat) (id : String) (request : PolicyRequest) :
    Except BridgeError Unit × Registry :=
  match s.lookupOpenGrants id db with
  | (.error e, s) => (.error e, s)
  | (.ok target, s) => (.ok (), s.withCalls (s.calls ++ [.policy
      { sourceDb := db, bridgeId := id, request := request, registration := target.registration,
        source := target.source }]))

/-- `CommitPolicy` of a call. -/
def commitCall (s : Registry) (call : PolicyCall) (commit : PolicyCommit) :
    Except BridgeError Unit × Registry :=
  match s.lookupOpenGrants call.bridgeId call.sourceDb with
  | (.error e, s) => (.error e, s)
  | (.ok target, s) =>
    match target.entry with
    | .inl p => (.ok (), (s.setPending call.bridgeId
        { p with state := commit.applyPending (copyPolicy p.state) }).note p.registration
          (.committed call.registration commit))
    | .inr (entry, bridge) =>
      match commitPolicy call.bridgeId bridge.book commit with
      | .error e => (.error e, s)
      | .ok book => (.ok (), (s.setBridge entry.grants { bridge with book := book }).note
          bridge.registration (.committed call.registration commit))

/-- `FinalizePolicyFunc`. -/
def finalizePolicy (s : Registry) (db : Nat) (id : String) : Except BridgeError Unit × Registry :=
  match s.lookupGrantTarget id db with
  | (.error e, s) => (.error e, s)
  | (.ok target, s) =>
    if target.policyFinalized then
      (.error ⟨.permission, "vcatbridge: the policies of bridge '" ++ id ++
        "' are already finalized"⟩, s)
    else
      match target.entry with
      | .inl p =>
        (.ok (), (s.setPending id { p with policyFinalized := true }).note p.registration
          .policyFinalized)
      | .inr (entry, bridge) => (.ok (), (s.setBridge entry.grants
          { bridge with book := { bridge.book with policyFinalized := true } }).note
            bridge.registration .policyFinalized)

/-! ### Context -/

/-- `SetContextFunc` up to its snapshot of the context. -/
def lookUpContext (s : Registry) (db : Nat) (id name : String) (value : Value) :
    Except BridgeError Unit × Registry :=
  if name = "" then (.error ⟨.io, "vcatbridge: the context name cannot be empty"⟩, s)
  else if value matches .null then
    (.error ⟨.io, "vcatbridge: context '" ++ name ++ "' cannot be NULL"⟩, s)
  else
    match s.lookupGrantTarget id db with
    | (.error e, s) => (.error e, s)
    | (.ok target, s) => (.ok (), s.withCalls (s.calls ++ [.context
        { sourceDb := db, bridgeId := id, name := name, value := value,
          registration := target.registration, source := target.source,
          dependents := collectDependents target.tables name }]))

/-- The context of a bridge is finalized. -/
def contextFinalized (id : String) : BridgeError :=
  ⟨.permission, "vcatbridge: the context of bridge '" ++ id ++ "' is finalized"⟩

/-- The probes of `SetContextFunc`, under its snapshot with the new value. -/
def probeContext (s : Registry) (view : SourceView) (call : ContextCall) (values : ContextValues) :
    Except BridgeError Unit := do
  throwIf (s.contexts call.registration).finalized (contextFinalized call.bridgeId)
  call.dependents.forM fun d =>
    match view.entry (tableKey d.schema d.table) with
    | none => .ok ()
    | some entry => probePredicate entry d.predicate (values.insert call.name call.value)
        (view.print d.predicate) d.clause

/-- The write of `SetContextFunc`. -/
def writeContext (s : Registry) (call : ContextCall) : Except BridgeError Unit × Registry :=
  let context := s.contexts call.registration
  if context.finalized then (.error (contextFinalized call.bridgeId), s)
  else (.ok (), s.setContext call.registration
    { context with values := context.values.insert call.name call.value })

/-- `FinalizeContextFunc`. -/
def finalizeContext (s : Registry) (db : Nat) (id : String) : Except BridgeError Unit × Registry :=
  match s.lookupGrantTarget id db with
  | (.error e, s) => (.error e, s)
  | (.ok target, s) =>
    let context := s.contexts target.registration
    if context.finalized then
      (.error ⟨.permission, "vcatbridge: the context of bridge '" ++ id ++ "' is already finalized"⟩, s)
    else (.ok (), s.setContext target.registration { context with finalized := true })

/-! ### The machine -/

/-- `ContextSnapshot` of a call. -/
def snapshot (s : Registry) (i : Nat) : RegistryCall → Option Registry
  | .policy call =>
    match call.stage with
    | .lookedUp => some (s.withCalls (s.calls.set i
        (.policy { call with stage := .snapshotted (s.contexts call.registration).values })))
    | _ => none
  | .context call =>
    match call.stage with
    | .lookedUp => some (s.withCalls (s.calls.set i
        (.context { call with stage := .snapshotted (s.contexts call.registration).values })))
    | _ => none

/-- What a call does without a lock; one that fails is over. -/
def resolve (s : Registry) (view : SourceView) (i : Nat) : RegistryCall → Option Registry
  | .policy call =>
    match call.stage with
    | .snapshotted values =>
      match call.request.resolve view values with
      | .error _ => some (s.withCalls (s.calls.eraseIdx i))
      | .ok commit =>
        some (s.withCalls (s.calls.set i (.policy { call with stage := .resolved commit })))
    | _ => none
  | .context call =>
    match call.stage with
    | .snapshotted values =>
      match s.probeContext view call values with
      | .error _ => some (s.withCalls (s.calls.eraseIdx i))
      | .ok _ => some (s.withCalls (s.calls.set i (.context { call with stage := .probed })))
    | _ => none

/-- The last section of a call. -/
def finish (s : Registry) (i : Nat) : RegistryCall → Option Registry
  | .policy call =>
    match call.stage with
    | .resolved commit =>
      let s' := (s.commitCall call commit).2
      some (s'.withCalls (s'.calls.eraseIdx i))
    | _ => none
  | .context call =>
    match call.stage with
    | .probed =>
      let s' := (s.writeContext call).2
      some (s'.withCalls (s'.calls.eraseIdx i))
    | _ => none

/-- A book with its sessions, as they see it. -/
def liveOf (s : Registry) (bridge : Bridge) : Live :=
  { store := ⟨bridge.book, s.contexts bridge.registration, [], [], []⟩
    sessions := bridge.sessions }

/-- A session of the book `b` begins or goes on. -/
def sessionStep (s : Registry) (b : Nat) (bridge : Bridge) (label : LiveLabel) : Option Registry :=
  (Live.next bridge.bridgeId (s.liveOf bridge) label).map fun after =>
    s.setBridge b { bridge with book := after.store.book, sessions := after.sessions }

end Registry

/-- A section of a call, or something that happens to the process. -/
inductive RegistryLabel where
  | tick (elapsed : Nat)
  /-- A database instance is gone. -/
  | close (db : Nat)
  | register (db : Nat) (id : String) (pin : Except BridgeError SourcePin) (chosen : Option String)
      (uuid : String)
  | redeem (id token : String) (settings : Except BridgeError Unit)
  | destroySource (b : Nat)
  | setPolicy (db : Nat) (id : String) (request : PolicyRequest)
  | setContext (db : Nat) (id name : String) (value : Value)
  /-- The snapshot of the `i`-th call in flight. -/
  | snapshot (i : Nat)
  /-- Its work without a lock; `view` is what the source it pinned answers. -/
  | resolve (i : Nat) (view : SourceView)
  /-- Its last section. -/
  | finish (i : Nat)
  | finalizePolicy (db : Nat) (id : String)
  | finalizeContext (db : Nat) (id : String)
  | beginSession (b : Nat)
  | session (b i : Nat) (op : SessionOp)
  /-- A plan takes or leaves the book `b`. -/
  | hold (b : Nat)
  | release (b : Nat)

namespace Registry

/-- One label; a call that is refused may still have purged and touched. -/
def next (nonce : String) (s : Registry) : RegistryLabel → Option Registry
  | .tick elapsed => some { s with now := s.now + elapsed }
  | .close db => some { s with closed := db :: s.closed }
  | .register db id pin chosen uuid =>
    if db ∈ s.closed then none else some (s.registerSource nonce db id pin chosen uuid).2
  | .redeem id token settings => some (s.redeemBridge nonce id token settings).2
  | .destroySource b =>
    (s.bridges b).bind fun bridge =>
      if bridge.attached then some (s.destroySource b bridge) else none
  | .setPolicy db id request =>
    if db ∈ s.closed then none else some (s.lookUpOpenBridge db id request).2
  | .setContext db id name value =>
    if db ∈ s.closed then none else some (s.lookUpContext db id name value).2
  | .snapshot i => (s.calls[i]?).bind (s.snapshot i)
  | .resolve i view => (s.calls[i]?).bind (s.resolve view i)
  | .finish i => (s.calls[i]?).bind (s.finish i)
  | .finalizePolicy db id => if db ∈ s.closed then none else some (s.finalizePolicy db id).2
  | .finalizeContext db id => if db ∈ s.closed then none else some (s.finalizeContext db id).2
  | .beginSession b =>
    (s.bridges b).bind fun bridge =>
      if bridge.attached then s.sessionStep b bridge .begin else none
  | .session b i op => (s.bridges b).bind fun bridge => s.sessionStep b bridge (.session i op)
  | .hold b =>
    (s.bridges b).bind fun bridge =>
      if bridge.alive then some (s.setBridge b { bridge with holds := bridge.holds + 1 }) else none
  | .release b =>
    (s.bridges b).map fun bridge => s.setBridge b { bridge with holds := bridge.holds - 1 }

/-- Who acts in a label. -/
inductive Agent where
  /-- The instance `db` registers the id. -/
  | registrant (db : Nat) (id : String)
  /-- The instance `db` looks the id up. -/
  | owner (db : Nat) (id : String)
  /-- A target comes with a token for the id. -/
  | target (id token : String)
  /-- A session of the book `b` begins or goes on. -/
  | session (b : Nat) (label : LiveLabel)
  | other

/-- Who acts in a label. -/
def agent (s : Registry) : RegistryLabel → Agent
  | .register db id _ _ _ => .registrant db id
  | .setPolicy db id _ | .setContext db id _ _ | .finalizePolicy db id | .finalizeContext db id =>
    .owner db id
  | .finish i =>
    match s.calls[i]? with
    | some (.policy call) => .owner call.sourceDb call.bridgeId
    | _ => .other
  | .redeem id token _ => .target id token
  | .beginSession b => .session b .begin
  | .session b i op => .session b (.session i op)
  | _ => .other

end Registry

/-- The registry of a process whose copy of the extension has the given nonce. -/
def registryMachine (nonce : String) : Machine Registry RegistryLabel := ⟨Registry.next nonce⟩

/-! ### The moves a label is made of -/

namespace Registry

/-- What a lookup of `id` by the instance `db` finds. -/
inductive Target (s : Registry) (id : String) (db : Nat) : GrantTarget → Prop
  | pending (p : PendingSource) (hp : s.pending id = some p) (hdb : p.sourceDb = db) :
      Target s id db ⟨p.registration, p.source, p.state.tables, p.policyFinalized, .inl p⟩
  | live (entry : LiveBridge) (bridge : Bridge) (hp : s.pending id = none)
      (hl : s.liveBridge id = some (entry, bridge)) (hdb : entry.sourceDb = db) :
      Target s id db ⟨bridge.registration, entry.source, bridge.book.tables,
        bridge.book.policyFinalized, .inr (entry, bridge)⟩

/-- One change of the registry on behalf of an agent, when the sources answer like `V`. -/
inductive MoveIn (V : SourceView → Prop) (agent : Agent) (s : Registry) : Registry → Prop
  | tick (elapsed : Nat) : MoveIn V agent s { s with now := s.now + elapsed }
  | close (db : Nat) : MoveIn V agent s { s with closed := db :: s.closed }
  | purge : MoveIn V agent s s.purge
  | touch (id : String) (p : PendingSource) (hp : s.pending id = some p)
      (ha : agent = .owner p.sourceDb id) : MoveIn V agent s (s.setPending id (s.touched p))
  | register (id : String) (p : PendingSource) (ha : agent = .registrant p.sourceDb id)
      (hp : s.pending id = none) (hl : s.isLiveBridge id = false) (hr : p.registration = s.registrations)
      (hf : p.tokenFailures = 0) (hs : p.state = {}) (hpf : p.policyFinalized = false) :
      MoveIn V agent s (s.addPending id p)
  | wrongToken (id token : String) (p : PendingSource) (hp : s.pending id = some p)
      (ha : agent = .target id token) (ht : token ≠ p.token) : MoveIn V agent s (s.wrongToken id p)
  | drop (id : String) : MoveIn V agent s (s.dropPending id)
  | attach (id : String) (p : PendingSource) (hp : s.pending id = some p)
      (hx : s.expired p = false) (ha : agent = .target id p.token) (hl : s.isLiveBridge id = false)
      (hv : validateGrantSet p.state.tables p.state.createSchemas id true = .ok ()) :
      MoveIn V agent s (s.attach id p)
  | destroySource (b : Nat) (bridge : Bridge) (hb : s.bridges b = some bridge)
      (ha : bridge.attached = true) : MoveIn V agent s (s.destroySource b bridge)
  | commitPending (call : PolicyCall) (commit : PolicyCommit) (p : PendingSource)
      (hcall : .policy call ∈ s.calls) (hs : call.stage = .resolved commit)
      (hp : s.pending call.bridgeId = some p) (hdb : p.sourceDb = call.sourceDb)
      (hf : p.policyFinalized = false) :
      MoveIn V agent s ((s.setPending call.bridgeId
        { p with state := commit.applyPending (copyPolicy p.state) }).note p.registration
          (.committed call.registration commit))
  | commitLive (call : PolicyCall) (commit : PolicyCommit) (entry : LiveBridge) (bridge : Bridge)
      (book : GrantBook) (hcall : .policy call ∈ s.calls) (hs : call.stage = .resolved commit)
      (hp : s.pending call.bridgeId = none)
      (hl : s.liveBridge call.bridgeId = some (entry, bridge))
      (hdb : entry.sourceDb = call.sourceDb)
      (hok : commitPolicy call.bridgeId bridge.book commit = .ok book) :
      MoveIn V agent s ((s.setBridge entry.grants { bridge with book := book }).note
        bridge.registration (.committed call.registration commit))
  | finalizePending (id : String) (p : PendingSource) (hp : s.pending id = some p) :
      MoveIn V agent s ((s.setPending id { p with policyFinalized := true }).note p.registration
        .policyFinalized)
  | finalizeLive (b : Nat) (bridge : Bridge) (hb : s.bridges b = some bridge) :
      MoveIn V agent s ((s.setBridge b
        { bridge with book := { bridge.book with policyFinalized := true } }).note
          bridge.registration .policyFinalized)
  | beginPolicy (call : PolicyCall) (target : GrantTarget)
      (ha : agent = .owner call.sourceDb call.bridgeId)
      (ht : s.Target call.bridgeId call.sourceDb target)
      (hr : target.registration = call.registration) (hsrc : target.source = call.source)
      (hs : call.stage = .lookedUp) :
      MoveIn V agent s (s.withCalls (s.calls ++ [.policy call]))
  | snapshotPolicy (i : Nat) (call : PolicyCall) (hi : s.calls[i]? = some (.policy call))
      (hs : call.stage = .lookedUp) :
      MoveIn V agent s (s.withCalls (s.calls.set i
        (.policy { call with stage := .snapshotted (s.contexts call.registration).values })))
  | resolvePolicy (i : Nat) (call : PolicyCall) (values : ContextValues) (view : SourceView)
      (commit : PolicyCommit) (hi : s.calls[i]? = some (.policy call))
      (hs : call.stage = .snapshotted values) (hok : call.request.resolve view values = .ok commit)
      (hv : V view) : MoveIn V agent s (s.withCalls (s.calls.set i
        (.policy { call with stage := .resolved commit })))
  | beginContext (call : ContextCall) :
      MoveIn V agent s (s.withCalls (s.calls ++ [.context call]))
  | advanceContext (i : Nat) (call : ContextCall) :
      MoveIn V agent s (s.withCalls (s.calls.set i (.context call)))
  | endCall (i : Nat) : MoveIn V agent s (s.withCalls (s.calls.eraseIdx i))
  | writeContext (r : Nat) (name : String) (value : Value) :
      MoveIn V agent s (s.setContext r
        { s.contexts r with values := (s.contexts r).values.insert name value })
  | finalizeContext (r : Nat) :
      MoveIn V agent s (s.setContext r { s.contexts r with finalized := true })
  | session (b : Nat) (bridge : Bridge) (hb : s.bridges b = some bridge) (after : Live)
      (label : LiveLabel) (ha : agent = .session b label) (hl : ∀ l, label ≠ .owner l)
      (h : Live.next bridge.bridgeId (s.liveOf bridge) label = some after) :
      MoveIn V agent s (s.setBridge b
        { bridge with book := after.store.book, sessions := after.sessions })
  | holds (b : Nat) (bridge : Bridge) (hb : s.bridges b = some bridge) (n : Nat) :
      MoveIn V agent s (s.setBridge b { bridge with holds := n })

/-- Some moves, one after another. -/
abbrev MovesIn (V : SourceView → Prop) (agent : Agent) : Registry → Registry → Prop :=
  Relation.ReflTransGen (MoveIn V agent)

/-- One change, whatever the sources answer. -/
abbrev Move (agent : Agent) : Registry → Registry → Prop := MoveIn (fun _ => True) agent

/-- Some moves, whatever the sources answer. -/
abbrev Moves (agent : Agent) : Registry → Registry → Prop := MovesIn (fun _ => True) agent

variable {V : SourceView → Prop} {nonce : String} {s s' : Registry} {id : String} {db : Nat}

/-- A lookup purges, and touches the entry that it finds. -/
theorem lookupGrantTarget_moves {r : Except BridgeError GrantTarget}
    (h : s.lookupGrantTarget id db = (r, s')) :
    MovesIn V (.owner db id) s s' ∧ s'.calls = s.calls ∧
      ∀ target, r = .ok target → s'.Target id db target := by
  rw [lookupGrantTarget] at h
  split at h
  next p hp =>
    split_ifs at h with hdb
    · cases h
      exact ⟨.single .purge, rfl, fun target ht => by cases ht⟩
    · cases h
      have hdb : p.sourceDb = db := not_not.1 hdb
      refine ⟨.tail (.single .purge) (.touch id p hp (hdb ▸ rfl)), rfl, fun target ht => ?_⟩
      cases ht
      exact .pending (s.touched p) (Function.update_self _ _ _) hdb
  next hp =>
    cases h
    refine ⟨.single .purge, rfl, fun target ht => ?_⟩
    rw [lookupLive] at ht
    split at ht
    · cases ht
    next entry bridge hl =>
      split_ifs at ht with hdb
      cases ht
      exact .live entry bridge hp hl (not_not.1 hdb)

/-- A lookup for a change finds only policies that are not finalized. -/
theorem lookupOpenGrants_moves {r : Except BridgeError GrantTarget}
    (h : s.lookupOpenGrants id db = (r, s')) :
    MovesIn V (.owner db id) s s' ∧ s'.calls = s.calls ∧
      ∀ target, r = .ok target → s'.Target id db target ∧ target.policyFinalized = false := by
  cases hf : s.lookupGrantTarget id db with
  | mk found s₁ =>
    rw [lookupOpenGrants, hf] at h
    obtain ⟨rfl, rfl⟩ := Prod.mk.inj h
    obtain ⟨hm, hc, ht⟩ := lookupGrantTarget_moves hf
    refine ⟨hm, hc, fun target hok => ?_⟩
    cases found with
    | error e => cases hok
    | ok t =>
      obtain ⟨_, hthrow, hok⟩ := bind_eq_ok (x := throwIf _ _) hok
      obtain rfl : t = target := Except.ok.inj hok
      exact ⟨ht t rfl, by simpa using throwIf_eq_ok.1 hthrow⟩

theorem registerSource_moves {pin : Except BridgeError SourcePin} {chosen : Option String}
    {uuid : String} :
    MovesIn V (.registrant db id) s (s.registerSource nonce db id pin chosen uuid).2 := by
  unfold registerSource
  split
  · exact .refl
  split
  · exact .refl
  split
  · exact .refl
  dsimp only
  split
  · exact .single .purge
  next hfree =>
    obtain ⟨hp, hl⟩ : s.purge.pending id = none ∧ s.purge.isLiveBridge id = false := by
      simpa using hfree
    exact .tail (.single .purge) (.register id _ rfl hp hl rfl rfl rfl rfl)

theorem constantTimeEquals_iff {a b : String} : constantTimeEquals a b = true ↔ a = b := by
  have fold : ∀ (l : List (Char × Char)) (d : UInt32),
      l.foldl (fun diff p => diff ||| (p.1.val ^^^ p.2.val)) d = 0 ↔
        d = 0 ∧ ∀ p ∈ l, p.1 = p.2 := by
    intro l
    induction l with
    | nil => simp
    | cons p l ih =>
      intro d
      rw [List.foldl_cons, ih, UInt32.or_eq_zero_iff, UInt32.xor_eq_zero_iff, List.forall_mem_cons,
        and_assoc, Char.val_inj]
  rw [constantTimeEquals, Bool.and_eq_true, decide_eq_true_iff, decide_eq_true_iff, fold]
  constructor
  · rintro ⟨hlen, -, h⟩
    refine String.toList_inj.1 (List.ext_getElem hlen fun i hi hi' => ?_)
    have hz : i < (a.toList.zip b.toList).length := by rw [List.length_zip]; omega
    simpa using h _ (List.getElem_mem hz)
  · rintro rfl
    refine ⟨rfl, rfl, fun p hp => ?_⟩
    obtain ⟨i, hi, rfl⟩ := List.mem_iff_getElem.1 hp
    simp

theorem expired_of_purge {p : PendingSource} (h : s.purge.pending id = some p) :
    s.pending id = some p ∧ s.expired p = false := by
  obtain ⟨hp, hx⟩ := Option.filter_eq_some_iff.1 h
  exact ⟨hp, by simpa using hx⟩

/-- An entry in time survives a purge. -/
theorem pending_purge {p : PendingSource} (hp : s.pending id = some p) (hx : s.expired p = false) :
    s.purge.pending id = some p :=
  Option.filter_eq_some_iff.2 ⟨hp, by rw [hx]; rfl⟩

theorem redeemBridge_moves {token : String} {settings : Except BridgeError Unit} :
    MovesIn V (.target id token) s (s.redeemBridge nonce id token settings).2 := by
  unfold redeemBridge
  split
  · exact .refl
  split
  · exact .single .purge
  next p hp =>
    split
    next ht =>
      have hne : token ≠ p.token := by
        rintro rfl
        rw [constantTimeEquals_iff.2 rfl] at ht
        cases ht
      exact .tail (.single .purge) (.wrongToken id token p hp rfl hne)
    next ht =>
      have heq : p.token = token := constantTimeEquals_iff.1 (by simpa using ht)
      split
      · exact .single .purge
      next hl =>
        split
        · exact .single .purge
        next u hv =>
          split
          · exact .tail (.single .purge) (.drop id)
          split
          · exact .single .purge
          · exact .tail (.single .purge)
              (.attach id p hp (expired_of_purge hp).2 (heq ▸ rfl) (by simpa using hl) hv)

theorem lookUpOpenBridge_moves {request : PolicyRequest} :
    MovesIn V (.owner db id) s (s.lookUpOpenBridge db id request).2 := by
  rw [lookUpOpenBridge]
  split
  next e s₁ h => exact (lookupOpenGrants_moves h).1
  next target s₁ h =>
    obtain ⟨hm, -, ht⟩ := lookupOpenGrants_moves h
    exact hm.tail (.beginPolicy _ target rfl (ht target rfl).1 rfl rfl rfl)

theorem commitCall_moves {call : PolicyCall} {commit : PolicyCommit}
    (hcall : .policy call ∈ s.calls) (hs : call.stage = .resolved commit) :
    MovesIn V (.owner call.sourceDb call.bridgeId) s (s.commitCall call commit).2 := by
  rw [commitCall]
  split
  next e s₁ h => exact (lookupOpenGrants_moves h).1
  next target s₁ h =>
    obtain ⟨hm, hcalls, ht⟩ := lookupOpenGrants_moves h
    obtain ⟨ht, hf⟩ := ht target rfl
    have hcall : .policy call ∈ s₁.calls := by rw [hcalls]; exact hcall
    cases ht with
    | pending p hp hdb => exact hm.tail (.commitPending call commit p hcall hs hp hdb hf)
    | live entry bridge hp hl hdb =>
      dsimp only
      split
      · exact hm
      next book hok =>
        exact hm.tail (.commitLive call commit entry bridge book hcall hs hp hl hdb hok)

theorem bridges_of_liveBridge {entry : LiveBridge} {bridge : Bridge}
    (h : s.liveBridge id = some (entry, bridge)) :
    s.live id = some entry ∧ s.bridges entry.grants = some bridge ∧ bridge.alive = true := by
  obtain ⟨e, he, h⟩ := Option.bind_eq_some_iff.1 h
  obtain ⟨b, hb, h⟩ := Option.map_eq_some_iff.1 h
  obtain ⟨rfl, rfl⟩ := Prod.mk.inj h
  obtain ⟨hb, ha⟩ := Option.filter_eq_some_iff.1 hb
  exact ⟨he, hb, ha⟩

theorem finalizePolicy_moves : MovesIn V (.owner db id) s (s.finalizePolicy db id).2 := by
  rw [finalizePolicy]
  split
  next e s₁ h => exact (lookupGrantTarget_moves h).1
  next target s₁ h =>
    obtain ⟨hm, -, ht⟩ := lookupGrantTarget_moves h
    split_ifs
    · exact hm
    · cases ht target rfl with
      | pending p hp => exact hm.tail (.finalizePending id p hp)
      | live entry bridge hp hl =>
        exact hm.tail (.finalizeLive entry.grants bridge (bridges_of_liveBridge hl).2.1)

theorem lookUpContext_moves {name : String} {value : Value} :
    MovesIn V (.owner db id) s (s.lookUpContext db id name value).2 := by
  rw [lookUpContext.eq_def]
  by_cases hname : name = ""
  · rw [if_pos hname]
  rw [if_neg hname]
  by_cases hnull : (value matches .null) = true
  · rw [if_pos hnull]
  rw [if_neg hnull]
  split
  next e s₁ h => exact (lookupGrantTarget_moves h).1
  next target s₁ h => exact (lookupGrantTarget_moves h).1.tail (.beginContext _)

theorem finalizeContext_moves : MovesIn V (.owner db id) s (s.finalizeContext db id).2 := by
  rw [finalizeContext]
  split
  next e s₁ h => exact (lookupGrantTarget_moves h).1
  next target s₁ h =>
    obtain ⟨hm, -, -⟩ := lookupGrantTarget_moves h
    dsimp only
    split
    · exact hm
    · exact hm.tail (.finalizeContext _)

theorem snapshot_moves {i : Nat} {call : RegistryCall} {agent : Agent}
    (hi : s.calls[i]? = some call) (h : s.snapshot i call = some s') : MovesIn V agent s s' := by
  unfold snapshot at h
  cases call with
  | policy call =>
    dsimp only at h
    split at h <;> cases h
    next hs => exact .single (.snapshotPolicy i call hi hs)
  | context call =>
    dsimp only at h
    split at h <;> cases h
    exact .single (.advanceContext i _)

theorem resolve_moves {i : Nat} {view : SourceView} {call : RegistryCall}
    {agent : Agent} (hv : V view) (hi : s.calls[i]? = some call)
    (h : s.resolve view i call = some s') : MovesIn V agent s s' := by
  unfold resolve at h
  cases call with
  | policy call =>
    dsimp only at h
    split at h
    next values hs =>
      split at h <;> cases h
      · exact .single (.endCall i)
      next commit hok => exact .single (.resolvePolicy i call values view commit hi hs hok hv)
    next => cases h
  | context call =>
    dsimp only at h
    split at h
    · split at h <;> cases h
      · exact .single (.endCall i)
      · exact .single (.advanceContext i _)
    · cases h

/-- **Every label is a sequence of moves** on behalf of its agent. -/
theorem next_movesIn {l : RegistryLabel} (hv : ∀ i view, l = .resolve i view → V view)
    (h : s.next nonce l = some s') : MovesIn V (s.agent l) s s' := by
  unfold next at h
  cases l with
  | tick elapsed => cases h; exact .single (.tick elapsed)
  | close db => cases h; exact .single (.close db)
  | register db id pin chosen uuid =>
    dsimp only at h
    split_ifs at h
    cases h
    exact registerSource_moves
  | redeem id token settings => cases h; exact redeemBridge_moves
  | destroySource b =>
    obtain ⟨bridge, hb, h⟩ := Option.bind_eq_some_iff.1 h
    split_ifs at h with ha
    cases h
    exact .single (.destroySource b bridge hb ha)
  | setPolicy db id request =>
    dsimp only at h
    split_ifs at h
    cases h
    exact lookUpOpenBridge_moves
  | setContext db id name value =>
    dsimp only at h
    split_ifs at h
    cases h
    exact lookUpContext_moves
  | snapshot i =>
    obtain ⟨call, hi, h⟩ := Option.bind_eq_some_iff.1 h
    exact snapshot_moves hi h
  | resolve i view =>
    obtain ⟨call, hi, h⟩ := Option.bind_eq_some_iff.1 h
    exact resolve_moves (hv i view rfl) hi h
  | finish i =>
    obtain ⟨call, hi, h⟩ := Option.bind_eq_some_iff.1 h
    unfold finish at h
    cases call with
    | policy call =>
      dsimp only at h
      split at h <;> cases h
      next commit hs =>
        -- `finish` is on behalf of the owner whose call it is
        have ha : s.agent (.finish i) = .owner call.sourceDb call.bridgeId := by
          simp only [agent, hi]
        rw [ha]
        exact (commitCall_moves (List.mem_of_getElem? hi) hs).tail (.endCall i)
    | context call =>
      dsimp only at h
      split at h <;> cases h
      refine .tail ?_ (.endCall i)
      unfold writeContext
      dsimp only
      split
      · exact .refl
      · exact .single (.writeContext _ _ _)
  | finalizePolicy db id =>
    dsimp only at h
    split_ifs at h
    cases h
    exact finalizePolicy_moves
  | finalizeContext db id =>
    dsimp only at h
    split_ifs at h
    cases h
    exact finalizeContext_moves
  | beginSession b =>
    obtain ⟨bridge, hb, h⟩ := Option.bind_eq_some_iff.1 h
    split_ifs at h
    obtain ⟨after, ha, rfl⟩ := Option.map_eq_some_iff.1 h
    exact .single (.session b bridge hb after _ rfl (fun _ h => by cases h) ha)
  | session b i op =>
    obtain ⟨bridge, hb, h⟩ := Option.bind_eq_some_iff.1 h
    obtain ⟨after, ha, rfl⟩ := Option.map_eq_some_iff.1 h
    exact .single (.session b bridge hb after _ rfl (fun _ h => by cases h) ha)
  | hold b =>
    obtain ⟨bridge, hb, h⟩ := Option.bind_eq_some_iff.1 h
    split_ifs at h
    cases h
    exact .single (.holds b bridge hb _)
  | release b =>
    obtain ⟨bridge, hb, rfl⟩ := Option.map_eq_some_iff.1 h
    exact .single (.holds b bridge hb _)

theorem next_moves {l : RegistryLabel} (h : s.next nonce l = some s') : Moves (s.agent l) s s' :=
  next_movesIn (fun _ _ _ => trivial) h

end Registry

end VirtualCatalog
