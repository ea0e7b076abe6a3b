import VirtualCatalog.Bridge.Consistent
import VirtualCatalog.Bridge.Isolation
import VirtualCatalog.Bridge.Registry

/-!
# What a call of the owner has probed

`ProbePredicate` binds a predicate on the columns that the source has committed, with the values of
the context that the call has read, and holds no lock meanwhile.  What was probed is written later:
in between the tables, the policy and the context may be others.

* `SourceEntry.Binds` : a predicate binds as BOOLEAN; `TypedSource` : tables on which that depends
  on the types of the values only.
* `SourceGrant.HasPredicate`, `PolicyCommit.Brings` : the predicates of a grant, and those that a
  commit installs.
* `resolve_binds` : what a call is going to commit binds on the tables and with the values it saw.
* `Probing`, `probingMachine` : a bridge before and after its attach, with the calls of its owner,
  its sessions and the columns of the source, one section of one call at a time.
-/

namespace VirtualCatalog

/-! ### Binding -/

/-- `SELECT predicate FROM entry WHERE predicate` binds, with one BOOLEAN column. -/
def SourceEntry.Binds (entry : SourceEntry) (values : ContextValues) (predicate : Expr) : Prop :=
  ∃ expr, fillContext values predicate = .ok expr ∧ entry.probe expr = .ok ["BOOLEAN"]

/-- Two contexts give the names of a predicate values of the same types. -/
def SameTypes (typeOf : Value → String) (values values' : ContextValues) (predicate : Expr) :
    Prop :=
  ∀ n ∈ parameterNames predicate, (values.find? n).map typeOf = (values'.find? n).map typeOf

/-- The tables that a source ever has, by version.  Whether a predicate binds on one of them depends
on its text, the columns and the types of the values. -/
structure TypedSource where
  typeOf : Value → String
  entry : Nat → SourceEntry
  typed : ∀ version predicate values values', SameTypes typeOf values values' predicate →
    (entry version).Binds values predicate → (entry version).Binds values' predicate

theorem probePredicate_ok {entry : SourceEntry} {predicate : Expr} {values : ContextValues}
    {text clause : String} (h : probePredicate entry predicate values text clause = .ok ()) :
    entry.Binds values predicate := by
  obtain ⟨expr, hfill, h⟩ := bind_eq_ok h
  refine ⟨expr, hfill, ?_⟩
  split at h
  · cases h
  next hprobe => exact hprobe
  · cases h
  · cases h

/-! ### The predicates of a policy -/

/-- A predicate of a grant, for some verb. -/
def SourceGrant.HasPredicate (g : SourceGrant) (p : Expr) : Prop :=
  ∃ v, p ∈ g.usingPredicates v ∨ p ∈ g.checkPredicates v

/-- A predicate that a resolved verb has. -/
def ResolvedVerb.HasPredicate (r : ResolvedVerb) (p : Expr) : Prop :=
  p ∈ r.usingPredicate ∨ p ∈ r.checkPredicate

/-- A commit installs the predicate in the grant of a table. -/
def PolicyCommit.Brings : PolicyCommit → TableKey → Expr → Prop
  | .verb target _ resolved _, k, p =>
    k = tableKey target.schema target.name ∧ resolved.HasPredicate p
  | .configure state, k, p => ∃ g, state.tables.grantAt k = some g ∧ g.HasPredicate p
  | _, _, _ => False

section

variable {g : SourceGrant} {verb v : CrossingVerb} {r : ResolvedVerb} {p : Expr}

theorem not_hasPredicate_default : ¬ SourceGrant.HasPredicate {} p := by
  rintro ⟨v, h | h⟩ <;> cases h

/-- The grant of a created table has no predicates. -/
theorem not_hasPredicate_created (key : List String) : ¬ (createdGrant key).HasPredicate p := by
  have none : ∀ v, (createdGrant key).usingPredicates v = none ∧
      (createdGrant key).checkPredicates v = none := by
    intro v
    cases key <;> simp [createdGrant, crossingVerbs, SourceGrant.allow]
  rintro ⟨v, h | h⟩
  · rw [(none v).1] at h
    cases h
  · rw [(none v).2] at h
    cases h

theorem hasPredicate_installVerb (h : (installVerb g verb r).HasPredicate p) :
    g.HasPredicate p ∨ r.HasPredicate p := by
  obtain ⟨v, h⟩ := h
  by_cases hv : v = verb
  · subst hv
    simp only [installVerb, Function.update_self] at h
    exact .inr h
  · simp only [installVerb, Function.update_of_ne hv] at h
    exact .inl ⟨v, h⟩

end

/-- `CollectDependents` finds every predicate with the name. -/
theorem mem_collectDependents {T : GrantTables} {name : String} {k : TableKey} {g : SourceGrant}
    {p : Expr} (hg : T.grantAt k = some g) (hp : g.HasPredicate p)
    (hname : (contextNames p).contains name = true) :
    ∃ d ∈ collectDependents T name, tableKey d.schema d.table = k ∧ d.predicate = p := by
  obtain ⟨schema, table, rfl, hentry⟩ := GrantTables.mem_entries_of_grantAt hg
  obtain ⟨v, hp⟩ := hp
  have hfilter : ∀ {o : Option Expr}, p ∈ o →
      p ∈ (o.filter fun p => (contextNames p).contains name).toList := fun ho =>
    Option.mem_toList.2 (Option.filter_eq_some_iff.2 ⟨ho, hname⟩)
  rcases hp with hp | hp
  · refine ⟨⟨schema, table, "USING", p⟩, List.mem_flatMap.2 ⟨_, hentry, List.mem_flatMap.2
      ⟨v, mem_crossingVerbs v, List.mem_append_left _ ?_⟩⟩, rfl, rfl⟩
    exact List.mem_map_of_mem (hfilter hp)
  · refine ⟨⟨schema, table, "WITH CHECK", p⟩, List.mem_flatMap.2 ⟨_, hentry, List.mem_flatMap.2
      ⟨v, mem_crossingVerbs v, List.mem_append_right _ ?_⟩⟩, rfl, rfl⟩
    exact List.mem_map_of_mem (hfilter hp)

/-! ### What resolves, binds -/

section

variable {view : SourceView} {entry : SourceEntry} {values : ContextValues} {k : TableKey}
  {p : Expr}

theorem parseAndValidatePredicate_binds {text clause : String} {e : Expr}
    (h : parseAndValidatePredicate view entry text clause values = .ok e) :
    entry.Binds values e := by
  obtain ⟨es, -, h⟩ := bind_eq_ok h
  split at h
  · split at h
    · cases h
    · obtain ⟨_, hp, h⟩ := bind_eq_ok h
      cases h
      exact probePredicate_ok hp
  · cases h

theorem resolveCheck_binds {verb : CrossingVerb} {policy : PolicyVerb} {u : Expr} {c : Option Expr}
    (hu : entry.Binds values u) (h : resolveCheck view entry verb policy values u = .ok c) :
    ∀ e ∈ c, entry.Binds values e := by
  rw [resolveCheck.eq_def] at h
  split at h
  · cases hp : parseAndValidatePredicate view entry policy.checkText "WITH CHECK" values with
    | error x => rw [hp] at h; cases h
    | ok e =>
      rw [hp] at h
      cases h
      simpa using parseAndValidatePredicate_binds hp
  · cases verb <;> cases h <;> simp [hu]

theorem resolveVerb_binds {name : PolicyName} {verb : CrossingVerb} {policy : PolicyVerb}
    {r : ResolvedVerb} (h : resolveVerb view entry name verb policy values = .ok r)
    (hp : r.HasPredicate p) : entry.Binds values p := by
  rw [resolveVerb] at h
  obtain ⟨_, -, h⟩ := bind_eq_ok h
  obtain ⟨_, -, h⟩ := bind_eq_ok h
  obtain ⟨u, hu, h⟩ := bind_eq_ok h
  obtain ⟨c, hc, h⟩ := bind_eq_ok h
  obtain ⟨_, -, h⟩ := bind_eq_ok h
  cases h
  have hbu := parseAndValidatePredicate_binds hu
  rcases hp with hp | hp
  · simp only [Option.mem_def] at hp
    split_ifs at hp
    exact Option.some.inj hp ▸ hbu
  · exact resolveCheck_binds hbu hc p hp

theorem grantableEntry_ok {name : PolicyName} (h : grantableEntry view name = .ok entry) :
    view.entry (tableKey name.schema name.name) = some entry := by
  obtain ⟨_, -, h⟩ := bind_eq_ok h
  split at h
  next he => cases h; exact he
  · cases h

/-- The predicates of the table of a document bind on its entry. -/
theorem resolveTable_binds {table : PolicyTable} {g : SourceGrant}
    (h : resolveTable view values table entry = .ok g) (hp : g.HasPredicate p) :
    entry.Binds values p := by
  obtain ⟨g₁, h₁, h⟩ := bind_eq_ok h
  have hb₁ : ∀ p, g₁.HasPredicate p → entry.Binds values p := by
    refine foldlM_keeps (P := fun g => ∀ p, g.HasPredicate p → entry.Binds values p) h₁
      (fun p hp => absurd hp not_hasPredicate_default) fun g v g' hg hs => ?_
    split_ifs at hs
    · obtain ⟨r, hr, hs⟩ := bind_eq_ok (guarded_eq_ok hs)
      cases hs
      exact fun p hp => (hasPredicate_installVerb hp).elim (hg p) (resolveVerb_binds hr)
    · cases hs
      exact hg
  obtain ⟨g₂, h₂, h⟩ := bind_eq_ok h
  have hb₂ : ∀ p, g₂.HasPredicate p → entry.Binds values p := by
    rw [resolveTableKey] at h₂
    split at h₂
    · cases h₂
      exact hb₁
    · obtain ⟨r, -, h₂⟩ := bind_eq_ok (guarded_eq_ok h₂)
      cases h₂
      exact hb₁
  refine foldlM_keeps (P := fun g => ∀ p, g.HasPredicate p → entry.Binds values p) h hb₂
    (fun g parent g' hg hs => ?_) p hp
  obtain ⟨_, -, hs⟩ := bind_eq_ok (guarded_eq_ok hs)
  cases hs
  exact hg

theorem resolvePolicy_binds {config : PolicyConfig} {state : PolicyState} {g : SourceGrant}
    (h : resolvePolicy view values config = .ok state) (hg : state.tables.grantAt k = some g)
    (hp : g.HasPredicate p) : ∃ entry, view.entry k = some entry ∧ entry.Binds values p := by
  obtain ⟨schemas, -, h⟩ := bind_eq_ok h
  obtain ⟨tables, ht, h⟩ := bind_eq_ok h
  cases h
  refine foldlM_keeps (P := fun T : GrantTables => ∀ k g p, T.grantAt k = some g →
    g.HasPredicate p → ∃ entry, view.entry k = some entry ∧ entry.Binds values p) ht
    (fun k g p hg => by cases hg) (fun T table T' hT hs => ?_) k g p hg hp
  obtain ⟨entry, he, hs⟩ := bind_eq_ok hs
  obtain ⟨_, -, he⟩ := bind_eq_ok (guarded_eq_ok he)
  obtain ⟨g', hg', hs⟩ := bind_eq_ok hs
  cases hs
  intro k g p hg hp
  rw [GrantTables.grantAt_set] at hg
  split_ifs at hg with hk
  · cases hg
    exact ⟨entry, hk ▸ grantableEntry_ok he, resolveTable_binds hg' hp⟩
  · exact hT k g p hg hp

theorem resolveEdit_binds {edit : PolicyEdit} {c : PolicyCommit}
    (h : resolveEdit view values edit = .ok c) (hb : c.Brings k p) :
    ∃ entry, view.entry k = some entry ∧ entry.Binds values p := by
  cases edit with
  | verb target verb value =>
    rw [resolveEdit] at h
    split_ifs at h
    · obtain ⟨entry, he, h⟩ := bind_eq_ok h
      obtain ⟨r, hr, h⟩ := bind_eq_ok h
      cases h
      obtain ⟨rfl, hp⟩ := hb
      exact ⟨entry, grantableEntry_ok he, resolveVerb_binds hr hp⟩
    -- a verb that is taken away brings nothing
    · cases h
      obtain ⟨-, hp | hp⟩ := hb <;> cases hp
  | create target granted =>
    rw [resolveEdit] at h
    split_ifs at h
    · obtain ⟨_, -, h⟩ := bind_eq_ok h
      cases h
      cases hb
    · cases h
      cases hb
  | primaryKey target key =>
    cases key with
    | none => cases h; cases hb
    | some key =>
      obtain ⟨entry, -, h⟩ := bind_eq_ok h
      obtain ⟨r, -, h⟩ := bind_eq_ok h
      cases h
      cases hb
  | foreignKeys target op parents =>
    rw [resolveEdit] at h
    split_ifs at h
    · obtain ⟨entry, -, h⟩ := bind_eq_ok h
      obtain ⟨r, -, h⟩ := bind_eq_ok h
      cases h
      cases hb
    · cases h
      cases hb
  | whitelist op functions => cases h; cases hb

/-- **What a policy call is going to commit** binds on the tables that it saw, with the values that
it read. -/
theorem resolve_binds {request : PolicyRequest} {c : PolicyCommit}
    (h : request.resolve view values = .ok c) (hb : c.Brings k p) :
    ∃ entry, view.entry k = some entry ∧ entry.Binds values p := by
  cases request with
  | set edit => exact resolveEdit_binds h hb
  | configure config =>
    rw [PolicyRequest.resolve] at h
    cases hr : resolvePolicy view values config with
    | error e => rw [hr] at h; cases h
    | ok state =>
      rw [hr] at h
      cases h
      obtain ⟨g, hg, hp⟩ := hb
      exact resolvePolicy_binds hr hg hp

end

/-- A predicate of the policy after an edit was there before, or the edit has brought it. -/
theorem hasPredicate_applyPending {state : PolicyState} {c : PolicyCommit} {k : TableKey}
    {g : SourceGrant} {p : Expr} (hg : (c.applyPending state).tables.grantAt k = some g)
    (hp : g.HasPredicate p) :
    (∃ g', state.tables.grantAt k = some g' ∧ g'.HasPredicate p) ∨ c.Brings k p := by
  have old : state.tables.grantAt k = some g → (∃ g', state.tables.grantAt k = some g' ∧
      g'.HasPredicate p) ∨ c.Brings k p := fun hg => .inl ⟨g, hg, hp⟩
  -- a setting other than a verb leaves the predicates of the grant it finds
  have found : ∀ t : PolicyName, k = tableKey t.schema t.name →
      ((state.tables.findGrant t.schema t.name).getD {}).HasPredicate p →
        ∃ g', state.tables.grantAt k = some g' ∧ g'.HasPredicate p := by
    rintro t rfl hp
    cases hf : state.tables.findGrant t.schema t.name with
    | none =>
      rw [hf] at hp
      exact absurd hp not_hasPredicate_default
    | some g' =>
      rw [hf] at hp
      exact ⟨g', hf, hp⟩
  cases c with
  | verb target v resolved facts =>
    rw [PolicyCommit.applyPending] at hg
    split_ifs at hg
    · simp only [PolicyCommit.withGrant, GrantTables.grantAt_set] at hg
      split_ifs at hg with hk
      · cases hg
        exact (hasPredicate_installVerb hp).imp (fun hp => found target hk hp) fun hp => ⟨hk, hp⟩
      · exact old hg
    · split at hg
      · exact old hg
      next g' hf =>
        dsimp only at hg
        split_ifs at hg
        · simp only [GrantTables.grantAt_revoke] at hg
          split_ifs at hg
          exact old hg
        · simp only [PolicyCommit.withGrant, GrantTables.grantAt_set] at hg
          split_ifs at hg with hk
          · cases hg
            exact (hasPredicate_installVerb hp).imp (fun hp => ⟨g', hk ▸ hf, hp⟩) fun hp => ⟨hk, hp⟩
          · exact old hg
  | create schema granted => exact old hg
  | primaryKey target resolved =>
    rw [PolicyCommit.applyPending] at hg
    split_ifs at hg
    · exact old hg
    · simp only [PolicyCommit.withGrant, GrantTables.grantAt_set] at hg
      split_ifs at hg with hk
      · cases hg
        exact .inl (found target hk hp)
      · exact old hg
  | foreignKeys target op parents =>
    rw [PolicyCommit.applyPending] at hg
    split_ifs at hg
    · exact old hg
    · simp only [PolicyCommit.withGrant, GrantTables.grantAt_set] at hg
      split_ifs at hg with hk
      · cases hg
        exact .inl (found target hk hp)
      · exact old hg
  | whitelist op names => exact old hg
  | configure newState => exact .inr ⟨g, hg, hp⟩

/-! ### The columns of the source -/

/-- What a DDL changes on the source when columns count: an `ALTER` that is no `RENAME` leaves
another version of the table. -/
def CrossingDdl.reshapes (ddl : CrossingDdl) (version : Nat) (tx : SourceTransaction) :
    Option (TableKey → Option (Option Nat)) :=
  match ddl.statement, ddl.newName with
  | .alter _, none =>
    match tx.view ddl.tableKey with
    | some _ => some (Function.update (fun _ => none) ddl.tableKey (some (some version)))
    | none => some fun _ => none
  | _, _ => ddl.effect version tx

namespace Versions

/-- The source runs a DDL. -/
def reshaped (s : Versions) (i : Nat) (ddl : CrossingDdl) : Option Versions :=
  match s.transactions i with
  | none => none
  | some tx =>
    match ddl.reshapes s.versions tx with
    | none => none
    | some effect =>
      if ddl.keys.any fun k => (effect k).isSome && s.conflicts i tx k then none
      else some
        { s.withTransaction i (some { tx with running := effect }) with versions := s.versions + 1 }

/-- What an operation of a session does on the source, with its columns. -/
def answers (s : Versions) (i : Nat) : SessionOp → Option Versions
  | .run _ =>
    match (s.live.sessions[i]?).bind DuckDBSession.recording with
    | none => some s
    | some (ddl, _) => s.reshaped i ddl
  | op => s.source i op

end Versions

/-! ### Calls in flight -/

/-- What the owner calls. -/
inductive OwnerRequest where
  | policy (request : PolicyRequest)
  | context (name : String) (value : Value)

/-- It is a `set_context`. -/
def OwnerRequest.setsContext : OwnerRequest → Bool
  | .policy _ => false
  | .context _ _ => true

/-- A call that has probed and waits for the lock. -/
structure ProbedCall where
  write : PendingCall
  /-- What a `set_context` found to probe. -/
  dependents : List ContextDependent
  /-- The context that it has read. -/
  values : ContextValues
  /-- Ghost: the tables of the source as its probes saw them. -/
  tables : TableKey → Option Nat

/-- A call in flight, by how far it is. -/
inductive OwnerCall where
  | lookedUp (request : OwnerRequest) (dependents : List ContextDependent)
  | snapshotted (request : OwnerRequest) (dependents : List ContextDependent)
      (values : ContextValues)
  | probed (call : ProbedCall)

/-- The probe of one dependent; one whose table is not there is skipped. -/
def probeDependent (view : SourceView) (values : ContextValues) (d : ContextDependent) :
    Except BridgeError Unit :=
  match view.entry (tableKey d.schema d.table) with
  | none => .ok ()
  | some entry => probePredicate entry d.predicate values (view.print d.predicate) d.clause

/-- What a call does on the source, without a lock. -/
def OwnerRequest.probe (view : SourceView) (dependents : List ContextDependent)
    (values : ContextValues) : OwnerRequest → Except BridgeError PendingCall
  | .policy request => .policy <$> request.resolve view values
  | .context name value => do
    dependents.forM (probeDependent view (values.insert name value))
    return .context name value

/-! ### The machine -/

/-- One bridge: pending at first, then attached. -/
structure Probing where
  /-- The book, the context, the sessions and the tables of the source. -/
  source : Versions
  attached : Bool := false
  calls : List OwnerCall := []

/-- One section of one call, or a step of the target. -/
inductive ProbingLabel where
  /-- The lookup of a new call. -/
  | call (request : OwnerRequest)
  /-- `ContextSnapshot` of the `i`-th call in flight. -/
  | snapshot (i : Nat)
  /-- Its probes; `view` is what the source answers, but for the tables. -/
  | probe (i : Nat) (view : SourceView)
  /-- Its write, or its refusal. -/
  | finish (i : Nat)
  | finalizePolicy
  | finalizeContext
  /-- `RedeemBridge`. -/
  | attach
  /-- A session begins or goes on. -/
  | begin
  | session (i : Nat) (op : SessionOp)

namespace Probing

variable (s : Probing)

/-- The book and the context. -/
abbrev store : Store := s.source.live.store

/-- The values of the context. -/
abbrev values : ContextValues := s.store.context.values

/-- The bridge with another store. -/
def withStore (store : Store) : Probing :=
  { s with source := s.source.withLive { s.source.live with store := store } }

/-- The lookup of a call, and what `CollectDependents` finds. -/
def lookUp : OwnerRequest → Option (List ContextDependent)
  | .policy _ => if s.store.book.policyFinalized then none else some []
  | .context name value =>
    if name = "" ∨ value matches .null then none
    else some (collectDependents s.store.book.tables name)

/-- What a probe sees of the source: its tables as they are committed. -/
def sees (S : TypedSource) (view : SourceView) : SourceView :=
  { view with entry := fun k => (s.source.committed k).map S.entry }

/-- The store once a call has written, unless it is refused. -/
def written (bridgeId : String) : PendingCall → Option Store
  | .policy commit =>
    if s.attached then
      match commitPolicy bridgeId s.store.book commit with
      | .ok book => some { s.store with book := book }
      | .error _ => none
    else if s.store.book.policyFinalized then none
    else
      let state := commit.applyPending (copyPolicy s.store.book.state)
      some { s.store with book := { s.store.book with state := state } }
  | .context name value =>
    if s.store.context.finalized then none
    else
      let values := s.values.insert name value
      some { s.store with context := { s.store.context with values := values } }

/-- `ContextSnapshot` of the `i`-th call. -/
def snapshot (i : Nat) : OwnerCall → Option Probing
  | .lookedUp request dependents =>
    -- `SetContextFunc` looks at the flag before it probes, and again before it writes
    if s.store.context.finalized && request.setsContext then none
    else some { s with calls := s.calls.set i (.snapshotted request dependents s.values) }
  | _ => none

/-- The probes of the `i`-th call. -/
def probe (S : TypedSource) (view : SourceView) (i : Nat) : OwnerCall → Option Probing
  | .snapshotted request dependents values =>
    match request.probe (s.sees S view) dependents values with
    | .error _ => none
    | .ok write =>
      let call : ProbedCall := ⟨write, dependents, values, s.source.committed⟩
      some { s with calls := s.calls.set i (.probed call) }
  | _ => none

/-- The last section of the `i`-th call. -/
def finish (bridgeId : String) (i : Nat) : OwnerCall → Option Probing
  | .probed call =>
    let store := (s.written bridgeId call.write).getD s.store
    some { s.withStore store with calls := s.calls.eraseIdx i }
  | _ => none

/-- One label; a call that is refused before its last section has no further label. -/
def next (S : TypedSource) (bridgeId : String) : ProbingLabel → Option Probing
  | .call request =>
    (s.lookUp request).map fun dependents =>
      { s with calls := s.calls ++ [.lookedUp request dependents] }
  | .snapshot i => (s.calls[i]?).bind (s.snapshot i)
  | .probe i view => (s.calls[i]?).bind (s.probe S view i)
  | .finish i => (s.calls[i]?).bind (s.finish bridgeId i)
  | .finalizePolicy =>
    some (s.withStore { s.store with book := { s.store.book with policyFinalized := true } })
  | .finalizeContext =>
    some (s.withStore { s.store with context := { s.store.context with finalized := true } })
  | .attach =>
    match validateGrantSet s.store.book.tables s.store.book.state.createSchemas bridgeId true with
    | .error _ => none
    | .ok _ => if s.attached then none else some { s with attached := true }
  | .begin =>
    if s.attached then
      (s.source.next bridgeId .begin).map fun source => { s with source := source }
    else none
  | .session i op =>
    if s.attached then
      ((s.source.live.next bridgeId (.session i op)).bind fun live =>
        (s.source.withLive live).answers i op).map fun source => { s with source := source }
    else none

end Probing

/-- The steps of one bridge over a source. -/
def probingMachine (S : TypedSource) (bridgeId : String) : Machine Probing ProbingLabel :=
  ⟨fun s => s.next S bridgeId⟩

end VirtualCatalog
