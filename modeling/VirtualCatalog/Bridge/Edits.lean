import VirtualCatalog.Bridge.Covered

/-!
# The edits of a policy

A policy call resolves its edit without a lock and applies it later to a copy of whatever the policy
is by then.  However the calls interleave, the policy of a registration is the one it had with the
edits of the calls that committed applied one after another, each of which leaves what it does not name
as it was; and no edit is applied once the policy is finalized.

* `PolicyState.Same` : the same grants by key, schemas and functions.
* `PolicyCommit.applyPending_frame` : what an edit leaves as it was, the copying included.
* `replay`, `commitsOf` : the edits of a registration, in the order they committed.
* `Registry.Evolves` : what a run makes of the policy of a registration.
* `Registry.Final` : what holds once a policy is finalized.
-/

namespace VirtualCatalog

/-- The same policy: grants by key, schemas and functions. -/
structure PolicyState.Same (state state' : PolicyState) : Prop where
  tables : state.tables.grantAt = state'.tables.grantAt
  createSchemas : state.createSchemas = state'.createSchemas
  functions : state.functions = state'.functions

namespace PolicyState.Same

variable {state state' state'' : PolicyState}

@[refl] theorem refl (state : PolicyState) : state.Same state := ⟨rfl, rfl, rfl⟩

theorem symm (h : state.Same state') : state'.Same state :=
  ⟨h.tables.symm, h.createSchemas.symm, h.functions.symm⟩

theorem trans (h : state.Same state') (h' : state'.Same state'') : state.Same state'' :=
  ⟨h.tables.trans h'.tables, h.createSchemas.trans h'.createSchemas, h.functions.trans h'.functions⟩

/-- **A copy of a policy is the same policy**, every predicate included. -/
theorem copy (state : PolicyState) : (copyPolicy state).Same state :=
  ⟨funext fun k => state.tables.grantAt_copyTables k, rfl, rfl⟩

theorem withGrant (h : state.Same state') (target : PolicyName) (g : SourceGrant) :
    (PolicyCommit.withGrant state target g).Same (PolicyCommit.withGrant state' target g) := by
  refine ⟨funext fun k => ?_, h.createSchemas, h.functions⟩
  simp only [PolicyCommit.withGrant, GrantTables.grantAt_set, h.tables]

theorem revoke (h : state.Same state') (schema table : String) :
    PolicyState.Same { state with tables := state.tables.revoke schema table }
      { state' with tables := state'.tables.revoke schema table } := by
  refine ⟨funext fun k => ?_, h.createSchemas, h.functions⟩
  simp only [GrantTables.grantAt_revoke, h.tables]

/-- An edit does the same to the same policy. -/
theorem applyPending (h : state.Same state') (c : PolicyCommit) :
    (c.applyPending state).Same (c.applyPending state') := by
  have found : ∀ t : PolicyName, state.tables.findGrant t.schema t.name =
      state'.tables.findGrant t.schema t.name := by
    intro t
    rw [GrantTables.findGrant_eq, GrantTables.findGrant_eq, h.tables]
  cases c with
  | verb target v resolved facts =>
    simp only [PolicyCommit.applyPending, found]
    split_ifs
    · exact h.withGrant _ _
    · cases state'.tables.findGrant target.schema target.name with
      | none => exact h
      | some g =>
        dsimp only
        split_ifs
        · exact h.revoke _ _
        · exact h.withGrant _ _
  | create schema granted =>
    exact ⟨h.tables, by simp only [PolicyCommit.applyPending, h.createSchemas], h.functions⟩
  | primaryKey target resolved =>
    simp only [PolicyCommit.applyPending, found]
    split_ifs
    · exact h
    · exact h.withGrant _ _
  | foreignKeys target op parents =>
    simp only [PolicyCommit.applyPending, found]
    split_ifs
    · exact h
    · exact h.withGrant _ _
  | whitelist op names =>
    exact ⟨h.tables, h.createSchemas, by simp only [PolicyCommit.applyPending, h.functions]⟩
  | configure newState => exact .refl _

end PolicyState.Same

/-! ### What an edit leaves as it was -/

namespace PolicyCommit

/-- The tables an edit names; a whole policy names all. -/
def tables : PolicyCommit → Set TableKey
  | verb target _ _ _ | primaryKey target _ | foreignKeys target _ _ =>
    {k | k = tableKey target.schema target.name}
  | configure _ => Set.univ
  | _ => ∅

/-- The schemas an edit names. -/
def schemas : PolicyCommit → Set (List Char)
  | create schema _ => {f | f = fold schema}
  | configure _ => Set.univ
  | _ => ∅

/-- The functions an edit names; a list that is set exactly names all. -/
def functions : PolicyCommit → Set (List Char)
  | whitelist .set _ | configure _ => Set.univ
  | whitelist _ names => {f | ∃ n ∈ names, f = fold n}
  | _ => ∅

theorem functions_whitelist {op : PolicyListOp} {names : List String} (hop : op ≠ .set) :
    (whitelist op names).functions = {f | ∃ n ∈ names, f = fold n} := by
  cases op with
  | set => exact absurd rfl hop
  | _ => rfl

/-- What an edit does not name is as it was. -/
structure Frame (c : PolicyCommit) (state state' : PolicyState) : Prop where
  tables : ∀ k ∉ c.tables, state'.tables.grantAt k = state.tables.grantAt k
  schemas : ∀ f ∉ c.schemas, state'.createSchemas.slot f = state.createSchemas.slot f
  allowed : ∀ f ∉ c.functions, state'.functions.allowed.slot f = state.functions.allowed.slot f
  disallowed : ∀ f ∉ c.functions,
    state'.functions.disallowed.slot f = state.functions.disallowed.slot f
  builtins : c.functions ≠ Set.univ → state'.functions.builtins = state.functions.builtins

theorem frame_tables {c : PolicyCommit} {state : PolicyState} {T : GrantTables}
    (h : ∀ k ∉ c.tables, T.grantAt k = state.tables.grantAt k) :
    c.Frame state { state with tables := T } :=
  ⟨h, fun _ _ => rfl, fun _ _ => rfl, fun _ _ => rfl, fun _ => rfl⟩

theorem Frame.refl (c : PolicyCommit) (state : PolicyState) : c.Frame state state :=
  frame_tables fun _ _ => rfl

theorem frame_withGrant {c : PolicyCommit} {state : PolicyState} {target : PolicyName}
    (g : SourceGrant) (h : c.tables = {k | k = tableKey target.schema target.name}) :
    c.Frame state (withGrant state target g) := by
  refine frame_tables fun k hk => ?_
  rw [h] at hk
  exact (GrantTables.grantAt_set ..).trans (if_neg hk)

/-- The lists of functions after an edit of one of them. -/
theorem slot_applyFunctionList {functions : FunctionGrants} {op : PolicyListOp}
    {names : List String} (hop : op ≠ .set) :
    (applyFunctionList functions op names).builtins = functions.builtins ∧
      ∀ f, (∀ n ∈ names, f ≠ fold n) →
        (applyFunctionList functions op names).allowed.slot f = functions.allowed.slot f ∧
          (applyFunctionList functions op names).disallowed.slot f = functions.disallowed.slot f := by
  rw [applyFunctionList, if_neg hop]
  induction names generalizing functions with
  | nil => exact ⟨rfl, fun _ _ => ⟨rfl, rfl⟩⟩
  | cons n names ih =>
    rw [List.foldl_cons]
    split_ifs with hr
    · obtain ⟨hb, hs⟩ := @ih
        { functions with disallowed := functions.disallowed.add n, allowed := functions.allowed.erase n }
      simp only [if_pos hr] at hb hs
      refine ⟨hb, fun f hf => ?_⟩
      obtain ⟨ha, hd⟩ := hs f fun n' hn' => hf n' (List.mem_cons_of_mem _ hn')
      have hne := hf n List.mem_cons_self
      rw [ha, hd, CIMap.slot_erase, if_neg hne, CISet.add, CIMap.slot_insert, if_neg hne]
      exact ⟨rfl, rfl⟩
    · obtain ⟨hb, hs⟩ := @ih
        { functions with allowed := functions.allowed.add n, disallowed := functions.disallowed.erase n }
      simp only [if_neg hr] at hb hs
      refine ⟨hb, fun f hf => ?_⟩
      obtain ⟨ha, hd⟩ := hs f fun n' hn' => hf n' (List.mem_cons_of_mem _ hn')
      have hne := hf n List.mem_cons_self
      rw [ha, hd, CIMap.slot_erase, if_neg hne, CISet.add, CIMap.slot_insert, if_neg hne]
      exact ⟨rfl, rfl⟩

/-- **An edit leaves what it does not name as it was.** -/
theorem applyPending_frame (c : PolicyCommit) (state : PolicyState) :
    c.Frame state (c.applyPending state) := by
  cases c with
  | verb target v resolved facts =>
    rw [applyPending]
    split_ifs
    · exact frame_withGrant _ rfl
    · split
      · exact .refl _ _
      · dsimp only
        split_ifs
        · exact frame_tables fun k hk => (GrantTables.grantAt_revoke ..).trans (if_neg hk)
        · exact frame_withGrant _ rfl
  | create schema granted =>
    refine ⟨fun _ _ => rfl, fun f hf => ?_, fun _ _ => rfl, fun _ _ => rfl, fun _ => rfl⟩
    have hf : f ≠ fold schema := hf
    rw [applyPending]
    dsimp only
    split_ifs
    · rw [CISet.add, CIMap.slot_insert, if_neg hf]
    · rw [CIMap.slot_erase, if_neg hf]
  | primaryKey target resolved =>
    rw [applyPending]
    split_ifs
    · exact .refl _ _
    · exact frame_withGrant _ rfl
  | foreignKeys target op parents =>
    rw [applyPending]
    split_ifs
    · exact .refl _ _
    · exact frame_withGrant _ rfl
  | whitelist op names =>
    by_cases hop : op = .set
    · subst hop
      exact ⟨fun _ _ => rfl, fun _ _ => rfl, fun f hf => absurd (Set.mem_univ f) hf,
        fun f hf => absurd (Set.mem_univ f) hf, fun hne => absurd rfl hne⟩
    · obtain ⟨hb, hs⟩ := @slot_applyFunctionList state.functions op names hop
      have named : ∀ f ∉ (whitelist op names).functions, ∀ n ∈ names, f ≠ fold n := by
        intro f hf n hn heq
        rw [functions_whitelist hop] at hf
        exact hf ⟨n, hn, heq⟩
      exact ⟨fun _ _ => rfl, fun _ _ => rfl, fun f hf => (hs f (named f hf)).1,
        fun f hf => (hs f (named f hf)).2, fun _ => hb⟩
  | configure newState =>
    exact ⟨fun k hk => absurd (Set.mem_univ k) hk, fun f hf => absurd (Set.mem_univ f) hf,
      fun f hf => absurd (Set.mem_univ f) hf, fun f hf => absurd (Set.mem_univ f) hf,
      fun hne => absurd rfl hne⟩

end PolicyCommit

/-! ### Replaying edits -/

/-- The edits, one after another. -/
def replay (state : PolicyState) (commits : List PolicyCommit) : PolicyState :=
  commits.foldl (fun state c => c.applyPending state) state

theorem PolicyState.Same.replay {state state' : PolicyState} (h : state.Same state')
    (commits : List PolicyCommit) :
    (VirtualCatalog.replay state commits).Same (VirtualCatalog.replay state' commits) := by
  induction commits generalizing state state' with
  | nil => exact h
  | cons c commits ih => exact ih (h.applyPending c)

/-- The edit that an event committed to the registration `r`. -/
def commitOf (r : Nat) : Nat × RegistryEvent → Option PolicyCommit
  | (r', .committed _ c) => if r' = r then some c else none
  | _ => none

/-- The edits committed to `r`, in their order; the events are the newest first. -/
def commitsOf (r : Nat) (events : List (Nat × RegistryEvent)) : List PolicyCommit :=
  (events.filterMap (commitOf r)).reverse

theorem commitsOf_append (r : Nat) (events events' : List (Nat × RegistryEvent)) :
    commitsOf r (events' ++ events) = commitsOf r events ++ commitsOf r events' := by
  rw [commitsOf, List.filterMap_append, List.reverse_append]
  rfl

/-! ### Sessions and the policy -/

/-- Quiet operations leave the book alone. -/
theorem Live.book_of_quiet {bridgeId : String} {live live' : Live} {i : Nat} {op : SessionOp}
    (h : live.next bridgeId (.session i op) = some live') (hop : op.isQuiet = true) :
    live'.store.book = live.store.book := by
  obtain ⟨session, book, session', hi, -, hstep, rfl⟩ := Live.next_session h
  cases hstep with
  | quiet => rfl
  | _ => cases hop

/-- No session finalizes the policy, or takes that back. -/
theorem Live.policyFinalized_of_next {bridgeId : String} {live live' : Live} {label : LiveLabel}
    (hl : ∀ l, label ≠ .owner l) (h : live.next bridgeId label = some live') :
    live'.store.book.policyFinalized = live.store.book.policyFinalized := by
  cases label with
  | owner l => exact absurd rfl (hl l)
  | begin => cases h; rfl
  | session i op =>
    obtain ⟨session, book, session', hi, -, hstep, rfl⟩ := Live.next_session h
    have shaped : ∀ (book : GrantBook) (session : DuckDBSession),
        (DuckDBSession.forgetShaping book session).policyFinalized = book.policyFinalized := by
      intro book session
      rw [DuckDBSession.forgetShaping]
      split <;> rfl
    cases hstep with
    | quiet => rfl
    | record ddl answer conn =>
      rw [DuckDBSession.recordDdl]
      split
      · rfl
      · split <;> rfl
      · split <;> rfl
    | commit succeeds =>
      rw [DuckDBSession.commit]
      split
      · rfl
      · cases succeeds <;> exact shaped _ _
    | rollback => exact shaped _ _
    | destroy => rfl

/-- A label that is no DDL of the target on the registration `r`, nor the end of one. -/
def NoDdl (r : Nat) (s : Registry) : RegistryLabel → Prop
  | .session b _ op => ∀ bridge, s.bridges b = some bridge → bridge.registration = r → op.isQuiet = true
  | _ => True

namespace Registry

variable {s s' : Registry} {agent : Agent} {nonce : String} {r : Nat}

/-! ### The policy of a registration over one move -/

/-- A registration is not both pending and in a book. -/
theorem Registered.apart (h : s.Registered) {id : String} {p : PendingSource} {b : Nat}
    {bridge : Bridge} (hp : s.pending id = some p) (hb : s.bridges b = some bridge) :
    p.registration ≠ bridge.registration := by
  intro heq
  have h₀ := h.unredeemed id p hp
  rw [heq, (h.books b bridge hb).2] at h₀
  cases h₀

/-- A registration has one policy. -/
theorem HasPolicy.unique (h : s.Registered) {state state' : PolicyState} {f f' : Bool}
    (hp : s.HasPolicy r state f) (hp' : s.HasPolicy r state' f') : state = state' ∧ f = f' := by
  cases hp with
  | pending hp hr =>
    cases hp' with
    | pending hp' hr' =>
      cases h.distinct _ _ _ _ hp hp' (hr.trans hr'.symm)
      rw [hp] at hp'
      cases hp'
      exact ⟨rfl, rfl⟩
    | live hb hr' => exact absurd (hr.trans hr'.symm) (h.apart hp hb)
  | live hb hr =>
    cases hp' with
    | pending hp' hr' => exact absurd (hr'.trans hr.symm) (h.apart hp' hb)
    | live hb' hr' =>
      cases h.oneBook _ _ _ _ hb hb' (hr.trans hr'.symm)
      rw [hb] at hb'
      cases hb'
      exact ⟨rfl, rfl⟩

section

variable {state' : PolicyState} {f' : Bool}

/-- Entries and books that were there before have their policy. -/
theorem HasPolicy.of_sub (h : s'.HasPolicy r state' f')
    (hp : ∀ id p, s'.pending id = some p → s.pending id = some p) (hb : s'.bridges = s.bridges) :
    s.HasPolicy r state' f' := by
  cases h with
  | pending h hr => exact .pending (hp _ _ h) hr
  | live h hr => exact .live (hb ▸ h) hr

/-- The entry of one registration changes. -/
theorem HasPolicy.of_setPending {id : String} {p p' : PendingSource}
    (h : (s.setPending id p').HasPolicy r state' f') (hs : s.Registered)
    (hp : s.pending id = some p) (hreg : p'.registration = p.registration) :
    p.registration = r ∧ state' = p'.state ∧ f' = p'.policyFinalized ∨
      p.registration ≠ r ∧ s.HasPolicy r state' f' := by
  cases h with
  | @pending id' q hq hr =>
    rw [pending_setPending] at hq
    split_ifs at hq with hid
    · cases hq
      exact .inl ⟨hreg.symm.trans hr, rfl, rfl⟩
    · refine .inr ⟨fun heq => hid (hs.distinct id' id q p hq hp (hr.trans heq.symm)), .pending hq hr⟩
  | live hb hr => exact .inr ⟨fun heq => hs.apart hp hb (heq.trans hr.symm), .live hb hr⟩

/-- The book of one registration changes. -/
theorem HasPolicy.of_setBridge {b : Nat} {bridge bridge' : Bridge}
    (h : (s.setBridge b bridge').HasPolicy r state' f') (hs : s.Registered)
    (hb : s.bridges b = some bridge) (hreg : bridge'.registration = bridge.registration) :
    bridge.registration = r ∧ state' = bridge'.book.state ∧ f' = bridge'.book.policyFinalized ∨
      bridge.registration ≠ r ∧ s.HasPolicy r state' f' := by
  cases h with
  | pending hp hr => exact .inr ⟨fun heq => hs.apart hp hb (hr.trans heq.symm), .pending hp hr⟩
  | @live b' q hq hr =>
    rw [bridges_setBridge] at hq
    split_ifs at hq with hbb
    · cases hq
      exact .inl ⟨hreg.symm.trans hr, rfl, rfl⟩
    · refine .inr ⟨fun heq => hbb (hs.oneBook b' b q bridge hq hb (hr.trans heq.symm)), .live hq hr⟩

end

/-- The move is no DDL of a session on `r`. -/
def Calm (agent : Agent) (r : Nat) (s : Registry) : Prop :=
  ∀ b i op, agent = .session b (.session i op) → ∀ bridge, s.bridges b = some bridge →
    bridge.registration = r → op.isQuiet = true

/-- What a move makes of the policy `state` of `r`. -/
structure Becomes (agent : Agent) (r : Nat) (s s' : Registry) (state' : PolicyState) (f' : Bool)
    (state : PolicyState) (f : Bool) : Prop where
  before : s.HasPolicy r state f
  finalized : f = true → f' = true
  replayed : s.Calm agent r → ∃ events, s'.history = events ++ s.history ∧
    state'.Same (replay state (commitsOf r events))

theorem commitsOf_committed {r' l : Nat} {c : PolicyCommit} :
    commitsOf r [(r', .committed l c)] = if r' = r then [c] else [] := by
  rw [commitsOf]
  split_ifs with h <;> simp [commitOf, h]

/-- The policy is left alone. -/
theorem Becomes.keep {state : PolicyState} {f : Bool} (hp : s.HasPolicy r state f)
    (hh : s'.history = s.history) : Becomes agent r s s' state f state f :=
  ⟨hp, id, fun _ => ⟨[], hh, .refl _⟩⟩

/-- An event is noted that is no commit to `r`. -/
theorem Becomes.noted {state : PolicyState} {f f' : Bool} {e : Nat × RegistryEvent}
    (hp : s.HasPolicy r state f) (hf : f = true → f' = true) (hh : s'.history = e :: s.history)
    (he : commitsOf r [e] = []) : Becomes agent r s s' state f' state f :=
  ⟨hp, hf, fun _ => ⟨[e], hh, by rw [he]; exact .refl _⟩⟩

/-- An edit is committed to `r`. -/
theorem Becomes.committed {state : PolicyState} {l : Nat} {c : PolicyCommit} {state' : PolicyState}
    (hp : s.HasPolicy r state false) (hh : s'.history = (r, .committed l c) :: s.history)
    (hs : state' = c.applyPending (copyPolicy state)) :
    Becomes agent r s s' state' false state false := by
  refine ⟨hp, id, fun _ => ⟨[(r, .committed l c)], hh, ?_⟩⟩
  rw [commitsOf_committed, if_pos rfl, hs]
  exact (PolicyState.Same.copy state).applyPending c

/-- **Every move leaves the policy of a registration alone**, commits an edit to it, finalizes it, or is
the DDL of a session. -/
theorem HasPolicy.move (hs : s.Registered) (hm : Move agent s s') {state' : PolicyState} {f' : Bool}
    (h : s'.HasPolicy r state' f') (hlt : r < s.registrations) :
    ∃ state f, Becomes agent r s s' state' f' state f := by
  cases hm with
  | tick elapsed => exact ⟨_, _, .keep (h.of_sub (fun _ _ hp => hp) rfl) rfl⟩
  | close db => exact ⟨_, _, .keep (h.of_sub (fun _ _ hp => hp) rfl) rfl⟩
  | purge => exact ⟨_, _, .keep (h.of_sub (fun _ _ hp => (expired_of_purge hp).1) rfl) rfl⟩
  | touch id p hp =>
    rcases h.of_setPending hs hp rfl with ⟨hr, rfl, rfl⟩ | ⟨-, h⟩
    · have before : s.HasPolicy r p.state p.policyFinalized := .pending hp hr
      exact ⟨_, _, .keep before rfl⟩
    · exact ⟨_, _, .keep h rfl⟩
  | register id p ha hp hl hr =>
    cases h with
    -- the numbers of registrations are new
    | pending hq hr' =>
      rw [pending_addPending] at hq
      split_ifs at hq
      · cases hq
        omega
      · exact ⟨_, _, .keep (.pending hq hr') rfl⟩
    | live hb hr' => exact ⟨_, _, .keep (.live hb hr') rfl⟩
  -- a wrong token drops the entry or counts the failure, and leaves its policy
  | wrongToken id token p hp =>
    have before : s.HasPolicy r state' f' := by
      rw [wrongToken] at h
      split at h
      · exact h.of_sub (fun _ _ hp => (dropPending_sub hp).1) rfl
      · have h := h.of_sub (s := s.setPending id _) (fun _ _ hp => hp) rfl
        rcases h.of_setPending hs hp rfl with ⟨hr, rfl, rfl⟩ | ⟨-, h⟩
        · have before : s.HasPolicy r p.state p.policyFinalized := .pending hp hr
          exact before
        · exact h
    refine ⟨_, _, .noted (e := (p.registration, .wrongToken)) before (fun hf => hf) ?_ rfl⟩
    rw [wrongToken]
    split <;> rfl
  | drop id => exact ⟨_, _, .keep (h.of_sub (fun _ _ hp => (dropPending_sub hp).1) rfl) rfl⟩
  | attach id p hp =>
    -- the book takes the policy of the entry
    refine ⟨_, _, .noted (e := (p.registration, .redeemed)) ?_ (fun hf => hf) rfl rfl⟩
    cases h with
    | pending hq hr => exact .pending (dropPending_sub hq).1 hr
    | live hb hr =>
      rw [bridges_attach] at hb
      split_ifs at hb
      · cases hb
        exact .pending hp hr
      · exact .live hb hr
  | destroySource b bridge hb =>
    obtain ⟨live, heq⟩ := s.destroySource_eq b bridge
    rw [heq] at h
    have h := h.of_sub (s := s.setBridge b _) (fun _ _ hp => hp) rfl
    refine ⟨_, _, .keep ?_ (by rw [heq]; rfl)⟩
    rcases h.of_setBridge hs hb rfl with ⟨hr, rfl, rfl⟩ | ⟨-, h⟩
    · have before : s.HasPolicy r bridge.book.state bridge.book.policyFinalized := .live hb hr
      exact before
    · exact h
  -- another registration's commit is an event, but none of this one
  | commitPending call commit p hcall hst hp hdb hf =>
    have h := h.of_sub (s := s.setPending _ _) (fun _ _ hp => hp) rfl
    rcases h.of_setPending hs hp rfl with ⟨hr, rfl, rfl⟩ | ⟨hr, h⟩
    · subst hr
      refine ⟨p.state, false, ?_⟩
      rw [show p.policyFinalized = false from hf]
      exact .committed (hf ▸ .pending hp rfl) rfl rfl
    · exact ⟨_, _, .noted h (fun hf => hf) rfl (commitsOf_committed.trans (if_neg hr))⟩
  | commitLive call commit entry bridge book hcall hst hp hl hdb hok =>
    obtain ⟨-, hb, -⟩ := bridges_of_liveBridge hl
    obtain ⟨hf, -, state, happly, -, rfl⟩ := commitPolicy_ok_iff.1 hok
    have h := h.of_sub (s := s.setBridge _ _) (fun _ _ hp => hp) rfl
    rcases h.of_setBridge hs hb rfl with ⟨hr, rfl, rfl⟩ | ⟨hr, h⟩
    · subst hr
      refine ⟨bridge.book.state, false, ?_⟩
      rw [show bridge.book.policyFinalized = false from hf]
      exact .committed (hf ▸ .live hb rfl) rfl (PolicyCommit.eq_applyPending happly)
    · exact ⟨_, _, .noted h (fun hf => hf) rfl (commitsOf_committed.trans (if_neg hr))⟩
  | finalizePending id p hp =>
    have h := h.of_sub (s := s.setPending _ _) (fun _ _ hp => hp) rfl
    rcases h.of_setPending hs hp rfl with ⟨hr, rfl, rfl⟩ | ⟨hr, h⟩
    · exact ⟨p.state, p.policyFinalized, .noted (.pending hp hr) (fun _ => rfl) rfl rfl⟩
    · exact ⟨_, _, .noted h (fun hf => hf) rfl rfl⟩
  | finalizeLive b bridge hb =>
    have h := h.of_sub (s := s.setBridge _ _) (fun _ _ hp => hp) rfl
    rcases h.of_setBridge hs hb rfl with ⟨hr, rfl, rfl⟩ | ⟨hr, h⟩
    · exact ⟨bridge.book.state, bridge.book.policyFinalized,
        .noted (.live hb hr) (fun _ => rfl) rfl rfl⟩
    · exact ⟨_, _, .noted h (fun hf => hf) rfl rfl⟩
  | session b bridge hb after label ha hl hstep =>
    rcases h.of_setBridge hs hb rfl with ⟨hr, rfl, rfl⟩ | ⟨-, h⟩
    · refine ⟨bridge.book.state, bridge.book.policyFinalized, .live hb hr, ?_, fun hcalm => ⟨[], rfl, ?_⟩⟩
      · exact fun hf => (Live.policyFinalized_of_next hl hstep).trans hf
      -- a calm session does not write the book
      · have quiet : after.store.book = bridge.book := by
          cases label with
          | owner l => exact absurd rfl (hl l)
          | begin => cases hstep; rfl
          | session i op => exact Live.book_of_quiet hstep (hcalm b i op ha bridge hb hr)
        change PolicyState.Same after.store.book.state _
        rw [quiet]
        exact .refl _
    · exact ⟨_, _, .keep h rfl⟩
  | holds b bridge hb n =>
    rcases h.of_setBridge hs hb rfl with ⟨hr, rfl, rfl⟩ | ⟨-, h⟩
    · have before : s.HasPolicy r bridge.book.state bridge.book.policyFinalized := .live hb hr
      exact ⟨_, _, .keep before rfl⟩
    · exact ⟨_, _, .keep h rfl⟩
  | _ => exact ⟨_, _, .keep (h.of_sub (fun _ _ hp => hp) rfl) rfl⟩

/-! ### The policy of a registration over a run -/

/-- What a run makes of the policy of `r`. -/
structure Evolves (r : Nat) (s s' : Registry) : Prop where
  registrations : s.registrations ≤ s'.registrations
  policy : ∃ events, s'.history = events ++ s.history ∧
    ∀ state' f', s'.HasPolicy r state' f' → r < s.registrations →
      ∃ state f, s.HasPolicy r state f ∧ state'.Same (replay state (commitsOf r events))

theorem Evolves.refl (s : Registry) : s.Evolves r s :=
  ⟨le_rfl, [], rfl, fun state f h _ => ⟨state, f, h, .refl _⟩⟩

theorem Evolves.trans {s₁ : Registry} (h : s.Evolves r s₁) (h' : s₁.Evolves r s') :
    s.Evolves r s' := by
  obtain ⟨hn, events, hh, hp⟩ := h
  obtain ⟨hn', events', hh', hp'⟩ := h'
  refine ⟨hn.trans hn', events' ++ events, by rw [hh', hh, List.append_assoc], ?_⟩
  intro state' f' hpol hlt
  obtain ⟨state₁, f₁, hpol₁, hs₁⟩ := hp' state' f' hpol (hlt.trans_le hn)
  obtain ⟨state, f, hpol, hs⟩ := hp state₁ f₁ hpol₁ hlt
  refine ⟨state, f, hpol, hs₁.trans ?_⟩
  have happend : replay state (commitsOf r events ++ commitsOf r events') =
      replay (replay state (commitsOf r events)) (commitsOf r events') := List.foldl_append
  rw [commitsOf_append, happend]
  exact hs.replay _

/-- A move notes at most one event: a commit to a policy that is not finalized, or one that finalizes, or
another. -/
theorem Move.history (hm : Move agent s s') : s'.history = s.history ∨ ∃ e,
    s'.history = e :: s.history ∧ (∀ r c, commitOf r e = some c → ∃ state, s.HasPolicy r state false) ∧
      ∀ r, e = (r, .policyFinalized) → ∃ state, s'.HasPolicy r state true := by
  cases hm with
  | wrongToken id token p hp =>
    refine .inr ⟨(p.registration, .wrongToken), ?_, fun r c hc => (by cases hc), fun r hr => by cases hr⟩
    rw [Registry.wrongToken]
    split <;> rfl
  | attach id p hp =>
    exact .inr ⟨(p.registration, .redeemed), rfl, fun r c hc => (by cases hc), fun r hr => by cases hr⟩
  | destroySource b bridge =>
    obtain ⟨live, heq⟩ := s.destroySource_eq b bridge
    rw [heq]
    exact .inl rfl
  | commitPending call commit p hcall hst hp hdb hf =>
    refine .inr ⟨_, rfl, fun r c hc => ?_, fun r hr => by cases hr⟩
    simp only [commitOf, Option.ite_none_right_eq_some] at hc
    exact ⟨p.state, hf ▸ .pending hp hc.1⟩
  | commitLive call commit entry bridge book hcall hst hp hl hdb hok =>
    obtain ⟨-, hb, -⟩ := bridges_of_liveBridge hl
    obtain ⟨hf, -⟩ := commitPolicy_ok_iff.1 hok
    refine .inr ⟨_, rfl, fun r c hc => ?_, fun r hr => by cases hr⟩
    simp only [commitOf, Option.ite_none_right_eq_some] at hc
    exact ⟨bridge.book.state, hf ▸ .live hb hc.1⟩
  | finalizePending id p hp =>
    refine .inr ⟨_, rfl, fun r c hc => (by cases hc), fun r hr => ?_⟩
    cases hr
    have after : HasPolicy (s.setPending id { p with policyFinalized := true }) p.registration p.state
        true := .pending (p := { p with policyFinalized := true })
          ((s.pending_setPending id _ id).trans (if_pos rfl)) rfl
    exact ⟨p.state, .of_sub after (fun _ _ hp => hp) rfl⟩
  | finalizeLive b bridge hb =>
    refine .inr ⟨_, rfl, fun r c hc => (by cases hc), fun r hr => ?_⟩
    cases hr
    let final : Bridge := { bridge with book := { bridge.book with policyFinalized := true } }
    have after : (s.setBridge b final).HasPolicy bridge.registration bridge.book.state true :=
      @HasPolicy.live _ _ b final ((s.bridges_setBridge b final b).trans (if_pos rfl)) rfl
    exact ⟨bridge.book.state, .of_sub after (fun _ _ hp => hp) rfl⟩
  | _ => exact .inl rfl

theorem Evolves.of_move (hs : s.Registered) (hm : Move agent s s') (hc : s.Calm agent r) :
    s.Evolves r s' := by
  obtain ⟨events, hh⟩ : ∃ events, s'.history = events ++ s.history := by
    rcases Move.history hm with hh | ⟨e, hh, -⟩
    · exact ⟨[], hh⟩
    · exact ⟨[e], hh⟩
  refine ⟨(Continues.of_move hm).registrations, events, hh, fun state' f' hp hlt => ?_⟩
  obtain ⟨state, f, hb⟩ := hp.move hs hm hlt
  obtain ⟨events', hh', hsame⟩ := hb.replayed hc
  rw [hh] at hh'
  rw [List.append_cancel_right hh']
  exact ⟨state, f, hb.before, hsame⟩

/-- One move that is no DDL of a session on `r`. -/
def CalmMove (agent : Agent) (r : Nat) (s s' : Registry) : Prop := Move agent s s' ∧ s.Calm agent r

/-- A label without DDL on `r` is a sequence of calm moves. -/
theorem next_calm {l : RegistryLabel} (hl : NoDdl r s l) (h : s.next nonce l = some s') :
    Relation.ReflTransGen (CalmMove (s.agent l) r) s s' := by
  by_cases hsession : ∃ b label, s.agent l = .session b label
  · -- a session makes one move
    obtain ⟨b, label, ha⟩ := hsession
    cases l with
    | beginSession b' =>
      obtain ⟨bridge, hb, h⟩ := Option.bind_eq_some_iff.1 h
      split_ifs at h
      obtain ⟨after, hafter, rfl⟩ := Option.map_eq_some_iff.1 h
      refine .single ⟨.session b' bridge hb after .begin rfl (fun _ h => by cases h) hafter, ?_⟩
      intro b i op h
      cases h
    | session b' i op =>
      obtain ⟨bridge, hb, h⟩ := Option.bind_eq_some_iff.1 h
      obtain ⟨after, hafter, rfl⟩ := Option.map_eq_some_iff.1 h
      refine .single ⟨.session b' bridge hb after (.session i op) rfl (fun _ h => by cases h) hafter, ?_⟩
      intro b i op h
      cases h
      exact hl
    | finish i =>
      rw [agent] at ha
      split at ha <;> cases ha
    | _ => cases ha
  · have hc : ∀ s₁, Calm (s.agent l) r s₁ := fun s₁ b i op ha => absurd ⟨b, _, ha⟩ hsession
    exact Relation.ReflTransGen.mono (fun s₁ _ hm => ⟨hm, hc s₁⟩) _ _ (next_moves h)

theorem Evolves.of_next {l : RegistryLabel} (hs : s.Registered) (hl : NoDdl r s l)
    (h : s.next nonce l = some s') : s.Evolves r s' := by
  have hm := next_calm hl h
  clear h
  generalize s.agent l = agent at hm
  suffices s.Evolves r s' ∧ s'.Registered from this.1
  induction hm with
  | refl => exact ⟨.refl s, hs⟩
  | tail _ hm ih => exact ⟨ih.1.trans (of_move ih.2 hm.1 hm.2), ih.2.move hm.1⟩

/-- **A run without DDL replays the edits that it commits.** -/
theorem Evolves.of_run {ls : List RegistryLabel} (hs : s.Registered)
    (h : (registryMachine nonce).Run (NoDdl r) s ls s') : s.Evolves r s' := by
  induction h with
  | nil => exact .refl _
  | cons hl hnext _ ih => exact (of_next hs hl hnext).trans (ih (hs.moves (next_moves hnext)))

/-! ### Nothing commits after the policy is finalized -/

/-- The registrations whose policy was finalized stay so, and nothing was committed to them since. -/
structure Final (s : Registry) : Prop where
  frozen : ∀ r, (r, .policyFinalized) ∈ s.history →
    r < s.registrations ∧ ∀ state f, s.HasPolicy r state f → f = true
  last : ∀ newer older r, s.history = newer ++ (r, .policyFinalized) :: older → commitsOf r newer = []

theorem HasPolicy.lt (hs : s.Registered) {state : PolicyState} {f : Bool} (h : s.HasPolicy r state f) :
    r < s.registrations := by
  cases h with
  | pending hp hr => exact hr ▸ hs.numbered _ _ hp
  | live hb hr => exact hr ▸ (hs.books _ _ hb).1

theorem Final.move (h : s.Final) (hs : s.Registered) (hm : Move agent s s') : s'.Final := by
  have hn := (Continues.of_move hm).registrations
  -- a policy that was finalized still is
  have keep : ∀ r, (r, .policyFinalized) ∈ s.history →
      r < s'.registrations ∧ ∀ state f, s'.HasPolicy r state f → f = true := by
    intro r hr
    obtain ⟨hlt, hf⟩ := h.frozen r hr
    refine ⟨hlt.trans_le hn, fun state' f' hp => ?_⟩
    obtain ⟨state, f, hb⟩ := hp.move hs hm hlt
    exact hb.finalized (hf state f hb.before)
  rcases Move.history hm with hh | ⟨e, hh, hcommit, hfinal⟩
  · exact ⟨fun r hr => keep r (hh ▸ hr), fun newer older r heq => h.last newer older r (hh ▸ heq)⟩
  · refine ⟨fun r hr => ?_, fun newer older r heq => ?_⟩
    · rw [hh] at hr
      rcases List.mem_cons.1 hr with rfl | hr
      · obtain ⟨state₀, hp₀⟩ := hfinal r rfl
        have hs' := hs.move hm
        exact ⟨hp₀.lt hs', fun state f hp => (hp.unique hs' hp₀).2⟩
      · exact keep r hr
    · rw [hh] at heq
      cases newer with
      | nil => rfl
      | cons e' newer =>
        obtain ⟨rfl, holder⟩ : e = e' ∧ s.history = newer ++ (r, .policyFinalized) :: older :=
          List.cons.inj heq
        have hlast := h.last newer older r holder
        have hmem : (r, .policyFinalized) ∈ s.history := by rw [holder]; simp
        rw [← List.singleton_append, commitsOf_append, hlast, List.nil_append, commitsOf,
          List.filterMap_cons, List.filterMap_nil]
        cases hc : commitOf r e with
        | none => rfl
        | some c =>
          obtain ⟨state, hp⟩ := hcommit r c hc
          cases (h.frozen r hmem).2 state false hp

theorem Final.moves (h : s.Final) (hs : s.Registered) (hm : Moves agent s s') :
    s'.Final ∧ s'.Registered := by
  induction hm with
  | refl => exact ⟨h, hs⟩
  | tail _ hm ih => exact ⟨ih.1.move ih.2 hm, ih.2.move hm⟩

theorem final_of_reachable {C : Registry → RegistryLabel → Prop}
    (h : (registryMachine nonce).ReachableBy C {} s) : s.Final ∧ s.Registered := by
  refine h.invariant (I := fun s => s.Final ∧ s.Registered) ⟨⟨fun r hr => ?_, fun newer older r heq => ?_⟩,
    registered_empty⟩ fun s l t hi _ hnext => hi.1.moves hi.2 (next_moves hnext)
  · cases hr
  · cases newer <;> cases heq

end Registry

end VirtualCatalog
