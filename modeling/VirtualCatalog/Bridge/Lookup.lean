import VirtualCatalog.Bridge.Redeem

/-!
# Where a policy call commits

A policy call looks its id up twice: first for the source and the context it checks its arguments
against, and again for the grants it changes.  In between, the entry may expire or its source be
destroyed, and the same instance may register the id anew.

* `Registry.HasPolicy` : the policy of a registration, before and after its attach.
* `Registry.Aimed` : the calls in flight find no other registration than they have found.
* `Undisturbed` : a label that does not register an id anew under a call for it.
* `own_commits` : where the id is not registered anew, every commit changes the registration that
  its call was resolved against; `not_own_commits` is a run where it changes another.
-/

namespace VirtualCatalog

/-- A label that does not register the id while a policy call of the same instance is in flight for
it. -/
def Undisturbed (id : String) (s : Registry) : RegistryLabel → Prop
  | .register db id' _ _ _ => id' = id →
    ∀ call, .policy call ∈ s.calls → call.bridgeId = id → call.sourceDb ≠ db
  | _ => True

namespace Registry

/-- The policy of the registration `r`, and whether it is finalized. -/
inductive HasPolicy (s : Registry) (r : Nat) : PolicyState → Bool → Prop
  | pending {id : String} {p : PendingSource} (hp : s.pending id = some p)
      (hr : p.registration = r) : HasPolicy s r p.state p.policyFinalized
  | live {b : Nat} {bridge : Bridge} (hb : s.bridges b = some bridge)
      (hr : bridge.registration = r) : HasPolicy s r bridge.book.state bridge.book.policyFinalized

/-- Every call in flight for `id` finds only the registration it has found. -/
def Aimed (id : String) (s : Registry) : Prop :=
  ∀ call, .policy call ∈ s.calls → call.bridgeId = id → ∀ target, s.Target id call.sourceDb target →
    target.registration = call.registration ∧ target.source = call.source

/-- Every commit for `id` changes the registration that its call was resolved against. -/
def OwnCommits (id : String) (s : Registry) : Prop :=
  ∀ call commit, .policy call ∈ s.calls → call.bridgeId = id → call.stage = .resolved commit →
    (s.commitCall call commit).1 = .ok () →
      (∃ target, (s.lookupOpenGrants id call.sourceDb).1 = .ok target ∧
        target.registration = call.registration ∧ target.source = call.source) ∧
      ∀ r state f, r ≠ call.registration → (s.commitCall call commit).2.HasPolicy r state f →
        s.HasPolicy r state f

variable {s s' : Registry} {agent : Agent} {nonce id : String} {db : Nat}

/-! ### What a lookup finds after a move -/

/-- A lookup finds one thing. -/
theorem Target.unique {t t' : GrantTarget} (h : s.Target id db t) (h' : s.Target id db t') : t = t' := by
  cases h with
  | pending p hp hdb =>
    cases h' with
    | pending p' hp' =>
      rw [hp] at hp'
      cases hp'
      rfl
    | live entry bridge hp' => rw [hp] at hp'; cases hp'
  | live entry bridge hp hl hdb =>
    cases h' with
    | pending p' hp' => rw [hp] at hp'; cases hp'
    | live entry' bridge' hp' hl' =>
      rw [hl] at hl'
      cases hl'
      rfl

/-- A live entry is found. -/
theorem Registered.target_live (h : s.Registered) {entry : LiveBridge}
    (he : s.live id = some entry) (hdb : entry.sourceDb = db) :
    ∃ target bridge, s.Target id db target ∧ s.bridges entry.grants = some bridge ∧
      target.registration = bridge.registration ∧ target.source = entry.source := by
  obtain ⟨bridge, hb, -, ha⟩ := h.live id entry he
  have hp : s.pending id = none := by
    cases hp : s.pending id with
    | none => rfl
    | some p => rw [h.exclusive id p hp] at he; cases he
  have hl : s.liveBridge id = some (entry, bridge) := by
    rw [liveBridge, he, Option.bind_some, hb, Option.filter_some_pos (by simp [Bridge.alive, ha])]
    rfl
  exact ⟨_, bridge, .live entry bridge hp hl hdb, hb, rfl, rfl⟩

/-- **A lookup finds what it would have found before**, but for an id that is registered anew. -/
theorem Target.of_move (h : s.Registered) (hm : Move agent s s') {target' : GrantTarget}
    (ht : s'.Target id db target') :
    (∃ target, s.Target id db target ∧ target'.registration = target.registration ∧
      target'.source = target.source) ∨ agent = .registrant db id := by
  have same : ∀ {p : PendingSource}, s.pending id = some p → p.sourceDb = db →
      ∃ target, s.Target id db target ∧ p.registration = target.registration ∧
        p.source = target.source := fun {p} hp hdb => ⟨_, .pending p hp hdb, rfl, rfl⟩
  rcases hm.quiet_or with hq | ⟨id', p', ha, -, -, -, rfl⟩ | ⟨id', p', hp', rfl⟩ | ⟨id', p', hp', rfl⟩ |
    ⟨b, bridge', hb', rfl⟩
  -- a quiet move keeps the registrations and what is live
  · cases ht with
    | pending p hp hdb =>
      obtain ⟨q, hq, hr, -, hd, hs⟩ := hq.pending id p hp
      obtain ⟨target, ht, hr', hs'⟩ := same hq (hd.symm.trans hdb)
      exact .inl ⟨target, ht, hr.trans hr', hs.trans hs'⟩
    | live entry bridge hp hl hdb =>
      obtain ⟨he, hb, -⟩ := bridges_of_liveBridge hl
      obtain ⟨target, bridge₀, ht, hb₀, hr, hs⟩ := h.target_live (hq.live ▸ he) hdb
      obtain ⟨bridge₁, hb₁, hr₁, -⟩ := hq.bridge hb
      rw [hb₀] at hb₁
      cases hb₁
      exact .inl ⟨target, ht, hr₁.trans hr.symm, hs.symm⟩
  · cases ht with
    | pending p hp hdb =>
      rw [pending_addPending] at hp
      split_ifs at hp with hid
      -- the id is registered anew: the second case
      · cases hp
        exact .inr (by rw [ha, hdb, hid])
      · exact .inl (same hp hdb)
    | live entry bridge hp hl hdb =>
      rw [pending_addPending] at hp
      split_ifs at hp with hid
      exact .inl ⟨_, .live entry bridge hp hl hdb, rfl, rfl⟩
  -- a wrong token
  · cases ht with
    | pending p hp hdb =>
      rw [wrongToken] at hp
      split at hp
      · exact .inl (same (dropPending_sub hp).1 hdb)
      · change (s.setPending id' _).pending id = some p at hp
        rw [pending_setPending] at hp
        split_ifs at hp with hid
        · cases hp
          exact .inl (same (hid ▸ hp') hdb)
        · exact .inl (same hp hdb)
    | live entry bridge hp hl hdb =>
      have hl : s.liveBridge id = some (entry, bridge) := by
        rw [wrongToken] at hl
        split at hl <;> exact hl
      obtain ⟨he, hb, -⟩ := bridges_of_liveBridge hl
      obtain ⟨target, bridge₀, ht, hb₀, hr, hs⟩ := h.target_live he hdb
      rw [hb] at hb₀
      cases hb₀
      exact .inl ⟨target, ht, hr.symm, hs.symm⟩
  -- an entry is redeemed
  · cases ht with
    | pending p hp hdb => exact .inl (same (dropPending_sub hp).1 hdb)
    | live entry bridge hp hl hdb =>
      obtain ⟨he, hb, -⟩ := bridges_of_liveBridge hl
      rw [live_attach] at he
      rw [bridges_attach] at hb
      split_ifs at he with hid
      · cases he
        rw [if_pos rfl] at hb
        cases hb
        exact .inl (same (hid ▸ hp') hdb)
      · obtain ⟨target, bridge₀, ht, hb₀, hr, hs⟩ := h.target_live he hdb
        have hne : entry.grants ≠ s.redeemed := by
          intro heq
          rw [heq, h.unmade _ le_rfl] at hb₀
          cases hb₀
        rw [if_neg hne, hb₀] at hb
        cases hb
        exact .inl ⟨target, ht, hr.symm, hs.symm⟩
  · obtain ⟨live, heq⟩ := s.destroySource_eq b bridge'
    cases ht with
    | pending p hp hdb => exact .inl (same (by rw [heq] at hp; exact hp) hdb)
    | live entry bridge hp hl hdb =>
      obtain ⟨he, hb, -⟩ := bridges_of_liveBridge hl
      rw [live_destroySource] at he
      split_ifs at he
      obtain ⟨target, bridge₀, ht, hb₀, hr, hs⟩ := h.target_live he hdb
      rw [heq] at hb
      change (s.setBridge b _).bridges entry.grants = some bridge at hb
      rw [bridges_setBridge] at hb
      split_ifs at hb with hg
      · cases hb
        rw [hg, hb'] at hb₀
        cases hb₀
        exact .inl ⟨target, ht, hr.symm, hs.symm⟩
      · rw [hb₀] at hb
        cases hb
        exact .inl ⟨target, ht, hr.symm, hs.symm⟩

/-! ### The calls after a move -/

/-- A policy call in flight was so before, for the same registration, or it has just looked up. -/
theorem policyCall_of_move (hm : Move agent s s') {call' : PolicyCall}
    (h : .policy call' ∈ s'.calls) :
    (∃ call, .policy call ∈ s.calls ∧ call'.bridgeId = call.bridgeId ∧
      call'.sourceDb = call.sourceDb ∧ call'.registration = call.registration ∧
        call'.source = call.source) ∨
      agent = .owner call'.sourceDb call'.bridgeId ∧ call'.stage = .lookedUp ∧
        ∃ target, s'.Target call'.bridgeId call'.sourceDb target ∧
          target.registration = call'.registration ∧ target.source = call'.source := by
  have same : ∀ {call}, RegistryCall.policy call ∈ s.calls → ∃ call₀, .policy call₀ ∈ s.calls ∧
      call.bridgeId = call₀.bridgeId ∧ call.sourceDb = call₀.sourceDb ∧
        call.registration = call₀.registration ∧ call.source = call₀.source :=
    fun {call} hc => ⟨call, hc, rfl, rfl, rfl, rfl⟩
  cases hm with
  | beginPolicy call target ha ht hr hsrc hs =>
    rcases List.mem_append.1 h with h | h
    · exact .inl (same h)
    · cases List.mem_singleton.1 h
      refine .inr ⟨ha, hs, target, ?_, hr, hsrc⟩
      cases ht with
      | pending p hp hdb => exact .pending p hp hdb
      | live entry bridge hp hl hdb => exact .live entry bridge hp hl hdb
  | snapshotPolicy i call hi =>
    rcases List.mem_or_eq_of_mem_set h with h | h
    · exact .inl (same h)
    · cases h
      exact .inl ⟨call, List.mem_of_getElem? hi, rfl, rfl, rfl, rfl⟩
  | resolvePolicy i call values view commit hi =>
    rcases List.mem_or_eq_of_mem_set h with h | h
    · exact .inl (same h)
    · cases h
      exact .inl ⟨call, List.mem_of_getElem? hi, rfl, rfl, rfl, rfl⟩
  | beginContext call =>
    rcases List.mem_append.1 h with h | h
    · exact .inl (same h)
    · cases List.mem_singleton.1 h
  | advanceContext i call =>
    rcases List.mem_or_eq_of_mem_set h with h | h
    · exact .inl (same h)
    · cases h
  | endCall i => exact .inl (same (List.mem_of_mem_eraseIdx h))
  | wrongToken id token p hp =>
    rw [wrongToken] at h
    split at h <;> exact .inl (same h)
  | destroySource b bridge =>
    obtain ⟨live, heq⟩ := s.destroySource_eq b bridge
    rw [heq] at h
    exact .inl (same h)
  | _ => exact .inl (same h)

/-- No call of the agent's instance is in flight for the id that it registers. -/
def Clear (agent : Agent) (id : String) (s : Registry) : Prop :=
  ∀ db, agent = .registrant db id → ∀ call, .policy call ∈ s.calls → call.bridgeId = id →
    call.sourceDb ≠ db

theorem Clear.move (h : s.Clear agent id) (hm : Move agent s s') : s'.Clear agent id := by
  intro db ha call' hcall' hid hdb
  rcases policyCall_of_move hm hcall' with ⟨call, hcall, hid', hdb', -⟩ | ⟨hown, -⟩
  · exact h db ha call hcall (hid'.symm.trans hid) (hdb'.symm.trans hdb)
  · rw [ha] at hown
    cases hown

theorem Aimed.move (h : s.Aimed id) (hr : s.Registered) (hc : s.Clear agent id)
    (hm : Move agent s s') : s'.Aimed id := by
  intro call' hcall' hid target' ht'
  rcases Target.of_move hr hm ht' with ⟨target, ht, hreg, hsrc⟩ | ha
  · rcases policyCall_of_move hm hcall' with ⟨call, hcall, hid', hdb, hreg', hsrc'⟩ |
      ⟨-, -, target₁, ht₁, hreg₁, hsrc₁⟩
    · obtain ⟨h₁, h₂⟩ := h call hcall (hid'.symm.trans hid) target (hdb ▸ ht)
      exact ⟨hreg.trans (h₁.trans hreg'.symm), hsrc.trans (h₂.trans hsrc'.symm)⟩
    · rw [hid] at ht₁
      rw [ht'.unique ht₁]
      exact ⟨hreg₁, hsrc₁⟩
  · exact absurd rfl (hc.move hm call'.sourceDb ha call' hcall' hid)

/-- A label that leaves the id undisturbed registers it under no call. -/
theorem clear_of_undisturbed {l : RegistryLabel} (h : Undisturbed id s l) : s.Clear (s.agent l) id := by
  intro db ha
  cases l with
  | register db' id' pin chosen uuid =>
    cases ha
    exact h rfl
  | finish i =>
    rw [agent] at ha
    split at ha <;> cases ha
  | _ => cases ha

/-- What a lookup finds after some moves, for an agent that does not register. -/
theorem Target.of_moves (h : s.Registered) (hm : Moves agent s s')
    (ha : agent ≠ .registrant db id) {target' : GrantTarget} (ht : s'.Target id db target') :
    ∃ target, s.Target id db target ∧ target'.registration = target.registration ∧
      target'.source = target.source := by
  induction hm generalizing target' with
  | refl => exact ⟨target', ht, rfl, rfl⟩
  | tail hms hm ih =>
    obtain ⟨t₁, ht₁, hr₁, hs₁⟩ := (of_move (h.moves hms) hm ht).resolve_right ha
    obtain ⟨t, ht, hr, hs⟩ := ih ht₁
    exact ⟨t, ht, hr₁.trans hr, hs₁.trans hs⟩

/-- **The calls in flight stay aimed** while the id is not registered anew. -/
theorem Aimed.next {l : RegistryLabel} (h : s.Aimed id) (hr : s.Registered)
    (hl : Undisturbed id s l) (hs : s.next nonce l = some s') : s'.Aimed id := by
  have hm := next_moves hs
  have hc := clear_of_undisturbed hl
  clear hs
  generalize s.agent l = agent at hm hc
  suffices s'.Aimed id ∧ s'.Registered ∧ s'.Clear agent id from this.1
  induction hm with
  | refl => exact ⟨h, hr, hc⟩
  | tail _ hm ih => exact ⟨ih.1.move ih.2.1 ih.2.2 hm, ih.2.1.move hm, ih.2.2.move hm⟩

/-! ### What a commit changes -/

/-- A lookup changes no policy. -/
theorem lookupOpenGrants_hasPolicy {r : Nat} {state : PolicyState} {f : Bool}
    (h : (s.lookupOpenGrants id db).2.HasPolicy r state f) : s.HasPolicy r state f := by
  have purged : ∀ {r state f}, s.purge.HasPolicy r state f → s.HasPolicy r state f := by
    intro r state f h
    cases h with
    | pending hp hr => exact .pending (expired_of_purge hp).1 hr
    | live hb hr => exact .live hb hr
  have h : (s.lookupGrantTarget id db).2.HasPolicy r state f := h
  rw [lookupGrantTarget] at h
  split at h
  next p hp =>
    split_ifs at h
    · exact purged h
    · cases h with
      | @pending id' q hq hr =>
        rw [pending_setPending] at hq
        split_ifs at hq with hid
        · cases hq
          have hp : s.purge.HasPolicy r p.state p.policyFinalized := .pending hp hr
          exact purged hp
        · exact purged (.pending hq hr)
      | live hb hr => exact purged (.live hb hr)
  next => exact purged h

/-- A commit changes the policy of the registration that it finds. -/
theorem commitCall_spec {call : PolicyCall} {commit : PolicyCommit}
    (h : (s.commitCall call commit).1 = .ok ()) :
    ∃ target, (s.lookupOpenGrants call.bridgeId call.sourceDb).1 = .ok target ∧
      ∀ r state f, r ≠ target.registration → (s.commitCall call commit).2.HasPolicy r state f →
        s.HasPolicy r state f := by
  cases hl : s.lookupOpenGrants call.bridgeId call.sourceDb with
  | mk found s₁ =>
    have frame : ∀ {r state f}, s₁.HasPolicy r state f → s.HasPolicy r state f :=
      fun h => lookupOpenGrants_hasPolicy (by rw [hl]; exact h)
    rw [commitCall, hl] at h ⊢
    cases found with
    | error e => cases h
    | ok target =>
      refine ⟨target, rfl, fun r state f hr hpol => ?_⟩
      have htarget := ((lookupOpenGrants_moves (V := fun _ => True) hl).2.2 target rfl).1
      cases htarget with
      | pending p hp hdb =>
        cases hpol with
        | @pending id' q hq hr' =>
          change (s₁.setPending call.bridgeId _).pending id' = some q at hq
          rw [pending_setPending] at hq
          split_ifs at hq with hid
          · cases hq
            exact absurd hr'.symm hr
          · exact frame (.pending hq hr')
        | live hb hr' => exact frame (.live hb hr')
      | live entry bridge hp hl' hdb =>
        dsimp only at hpol
        split at hpol
        · exact frame hpol
        next book hok =>
          cases hpol with
          | pending hq hr' => exact frame (.pending hq hr')
          | @live b bridge' hb hr' =>
            change (s₁.setBridge entry.grants _).bridges b = some bridge' at hb
            rw [bridges_setBridge] at hb
            split_ifs at hb
            · cases hb
              exact absurd hr'.symm hr
            · exact frame (.live hb hr')

/-- **A commit changes only the registration its call was resolved against**, as long as its id is not
registered anew while it is in flight. -/
theorem own_commits (h : (registryMachine nonce).ReachableBy (Undisturbed id) {} s) :
    s.OwnCommits id := by
  have inv : s.Registered ∧ s.Aimed id := by
    refine h.invariant (I := fun s => s.Registered ∧ s.Aimed id)
      ⟨registered_empty, fun call hc => by cases hc⟩ fun s l t hi hl hs => ?_
    exact ⟨hi.1.moves (next_moves hs), hi.2.next hi.1 hl hs⟩
  rintro call commit hcall rfl hs hok
  obtain ⟨target, hfound, hframe⟩ := commitCall_spec hok
  obtain ⟨hm, -, ht⟩ := @lookupOpenGrants_moves (fun _ => True) s _ call.bridgeId call.sourceDb _ rfl
  obtain ⟨target₀, ht₀, hr, hsrc⟩ := Target.of_moves inv.1 hm (by simp) (ht target hfound).1
  obtain ⟨hr₀, hsrc₀⟩ := inv.2 call hcall rfl target₀ ht₀
  refine ⟨⟨target, hfound, hr.trans hr₀, hsrc.trans hsrc₀⟩, fun r state f hne => ?_⟩
  exact hframe r state f (by rwa [hr.trans hr₀])

namespace Sample

/-- A source that has every schema. -/
def view : SourceView where
  catalog := "source"
  parse _ := .ok []
  print _ := ""
  entry _ := none
  hasSchema _ := true
  keyQuery _ := .ok []
  verifyQuery _ := .ok false

/-- The owner lets the target create tables in a schema of the first catalog. -/
def resolving : List RegistryLabel :=
  [.register 0 "b" (.ok ⟨0, "first"⟩) (some "token") "",
    .setPolicy 0 "b" (.set (.create ⟨"", "s", ""⟩ true)), .snapshot 0, .resolve 0 view]

/-- Meanwhile the registration expires, and the owner registers the second catalog. -/
def renewing : List RegistryLabel :=
  resolving ++ [.tick 31000000000, .register 0 "b" (.ok ⟨1, "second"⟩) (some "token") ""]

/-- The registry after some labels. -/
def after (ls : List RegistryLabel) : Registry := ((registryMachine "n").exec {} ls).getD {}

end Sample

/-- An edit that was checked against the first catalog is committed to the second. -/
theorem not_own_commits : ¬ ∀ (nonce id : String) (s : Registry),
    (registryMachine nonce).ReachableBy Machine.Free {} s → s.OwnCommits id := by
  intro h
  have run : (registryMachine "n").ReachableBy Machine.Free {} (Sample.after Sample.renewing) :=
    ⟨Sample.renewing, Machine.run_of_exec rfl⟩
  have found : ((Sample.after Sample.renewing).lookupOpenGrants "b" 0).1.map (·.registration) = .ok 1 :=
    rfl
  obtain ⟨⟨target, ht, hr, -⟩, -⟩ := h "n" "b" _ run
    ⟨0, "b", .set (.create ⟨"", "s", ""⟩ true), 0, ⟨0, "first"⟩, .resolved (.create "s" true)⟩
    (.create "s" true) List.mem_cons_self rfl rfl rfl
  rw [ht, Except.map, hr] at found
  cases found

/-- Nobody registers the id anew. -/
theorem own_commits_resolving : (Sample.after Sample.resolving).OwnCommits "b" := by
  have run : (registryMachine "n").ReachableBy (Undisturbed "b") {} (Sample.after Sample.resolving) :=
    ⟨Sample.resolving, .cons (fun _ _ h => by cases h) rfl (.cons trivial rfl
      (.cons trivial rfl (.cons trivial rfl (.nil _))))⟩
  exact own_commits run

end Registry

end VirtualCatalog
