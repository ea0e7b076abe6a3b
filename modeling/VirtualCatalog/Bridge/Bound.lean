import VirtualCatalog.Bridge.Leaves

/-!
# Installed predicates bind

Nobody probes again once a predicate is installed: not when a value of another type is set, when the
table is altered or when a rollback brings back a grant.

* `ProbedCall.Probed` : what the probes of a call have shown.
* `ProbedCall.Fitting`, `Fitting` : no step writes what was probed against other tables, types or
  predicates.
* `run_calling` : calls of the owner one after the other do not.
* `predicates_bind` : in every run of such steps the installed predicates bind.
* `not_predicates_bind` : in others they do not.
-/

namespace VirtualCatalog

/-! ### The writes of the owner -/

/-- What a call has probed. -/
def ProbedCall.Probed (S : TypedSource) (call : ProbedCall) : Prop :=
  match call.write with
  | .policy commit => ∀ k p, commit.Brings k p →
      ∃ v, call.tables k = some v ∧ (S.entry v).Binds call.values p
  | .context name value => ∀ d ∈ call.dependents, ∀ v,
      call.tables (tableKey d.schema d.table) = some v →
        (S.entry v).Binds (call.values.insert name value) d.predicate

/-- The table under a name is the one that a call has seen there, and no session has changed it. -/
def Versions.Unmoved (s : Versions) (tables : TableKey → Option Nat) (k : TableKey) : Prop :=
  s.committed k = tables k ∧ ∀ i, s.changed i k = none

/-- What a call that writes has probed still holds. -/
structure ProbedCall.Fitting (S : TypedSource) (s : Probing) (call : ProbedCall) : Prop where
  /-- The predicates of a policy call were probed on the tables of now, with values of the types of
  now. -/
  policy : ∀ commit, call.write = .policy commit → ∀ k p, commit.Brings k p →
    s.source.Unmoved call.tables k ∧ SameTypes S.typeOf call.values s.values p
  /-- So was every live predicate for which the new value has another type, -/
  live : ∀ name value, call.write = .context name value → ∀ p,
    ¬ SameTypes S.typeOf s.values (s.values.insert name value) p →
      ∀ k g, s.source.grants k = some g → g.HasPredicate p →
        (∃ d ∈ call.dependents, tableKey d.schema d.table = k ∧ d.predicate = p) ∧
          s.source.Unmoved call.tables k ∧
            SameTypes S.typeOf (call.values.insert name value) (s.values.insert name value) p
  /-- and no rollback brings back another one. -/
  held : ∀ name value, call.write = .context name value → ∀ p,
    ¬ SameTypes S.typeOf s.values (s.values.insert name value) p →
      ∀ i, ∀ undo ∈ s.source.live.grantLogs i, ∀ k g, undo.Holds k g → ¬ g.HasPredicate p

/-- A predicate binds on a version, with the values of the context. -/
def Probing.BindsOn (S : TypedSource) (s : Probing) (v : Nat) (p : Expr) : Prop :=
  (S.entry v).Binds s.values p

/-- No step writes what was probed against other tables, types or predicates. -/
def Fitting (S : TypedSource) (bridgeId : String) (s : Probing) : ProbingLabel → Prop
  | .finish i => ∀ call, s.calls[i]? = some (.probed call) →
      (s.written bridgeId call.write).isSome = true → call.Fitting S s
  | .session i .record => ∀ session tx ddl answer, s.source.live.sessions[i]? = some session →
      session.recording = some (ddl, answer) → s.source.transactions i = some tx →
        FittingRecord (s.BindsOn S) s.source tx ddl answer
  | .session i .destroy => s.source.live.grantLogs i = []
  | _ => True

/-- A value of a name that a predicate does not have is of no type for it. -/
theorem sameTypes_insert {typeOf : Value → String} {values : ContextValues} {name : String}
    {value : Value} {p : Expr} (h : (contextNames p).contains name = false) :
    SameTypes typeOf values (values.insert name value) p := by
  intro n hn
  have hne : fold n ≠ fold name := by
    intro heq
    rw [contains_contextNames.2 ⟨n, hn, heq.symm⟩] at h
    cases h
  rw [CIMap.find?_insert, if_neg hne]

/-- **A call that nobody interrupts fits**, while no DDL is uncommitted: it has seen the tables, the
values and the predicates of now. -/
theorem ProbedCall.fitting_uninterrupted {S : TypedSource} {s : Probing} {call : ProbedCall}
    (hdependents : ∀ name value, call.write = .context name value →
      call.dependents = collectDependents s.store.book.tables name)
    (hvalues : call.values = s.values) (htables : call.tables = s.source.committed)
    (hchanged : ∀ i k, s.source.changed i k = none)
    (hlogs : ∀ i, s.source.live.grantLogs i = []) : call.Fitting S s := by
  have hunmoved : ∀ k, s.source.Unmoved call.tables k := fun k =>
    ⟨by rw [htables], fun i => hchanged i k⟩
  refine ⟨fun commit _ k p _ => ⟨hunmoved k, ?_⟩, fun name value hwrite p htypes k g hg hp =>
    ⟨?_, hunmoved k, ?_⟩, fun name value _ p _ i undo hundo => ?_⟩
  · rw [hvalues]
    exact fun _ _ => rfl
  · rw [hdependents name value hwrite]
    refine mem_collectDependents hg hp ?_
    by_contra hname
    exact htypes (sameTypes_insert (Bool.eq_false_iff.2 hname))
  · rw [hvalues]
    exact fun _ _ => rfl
  · rw [hlogs] at hundo
    cases hundo

namespace Versions

variable {s s' : Versions} {B B' : Nat → Expr → Prop} {k : TableKey} {v : Option Nat} {S : Set Nat}

/-- A table that no session has changed is left as it is committed. -/
theorem leaves_unmoved {tables : TableKey → Option Nat} (h : s.Unmoved tables k) :
    s.Leaves S k v ↔ tables k = v := by
  rw [← h.1]
  constructor
  · rintro (⟨i, -, hi⟩ | ⟨-, hv⟩)
    · rw [h.2] at hi
      cases hi
    · exact hv
  · exact fun hv => .inr ⟨fun i _ => h.2 i, hv⟩

/-- The owner writes other grants while no session has any to undo. -/
theorem Binding.rewrite (h : s.Binding B) (hlogs : ∀ i, s.live.grantLogs i = [])
    (hsame : s'.live.grantLogs = s.live.grantLogs) (hcommitted : s'.committed = s.committed)
    (hchanged : s'.changed = s.changed)
    (hgrants : ∀ k g p, s'.grants k = some g → g.HasPredicate p →
      (∃ g', s.grants k = some g' ∧ g'.HasPredicate p) ∨
        ∀ S, ∃ v, s.Leaves S k (some v) ∧ B v p) : s'.Binding B := by
  have htouched : ∀ i, s.live.grantLogs.touched i = ∅ := fun i => GrantLogs.touched_nil (hlogs i)
  have idle : ∀ S, RolledBack s.live.grantLogs.touched s.live.grantLogs.restores S s.grants
      s.grants :=
    fun S => ⟨fun i _ k hk => by rw [htouched] at hk; exact hk.elim, fun _ _ => rfl⟩
  refine ⟨fun S m hm k g p hk hp => ?_, fun i k hk => ?_⟩
  · rw [hsame] at hm
    rw [hm.frame k fun i _ hi => by rw [htouched] at hi; exact hi] at hk
    have hleft : ∃ v, s.Leaves S k (some v) ∧ B v p := by
      rcases hgrants k g p hk hp with ⟨g', hg', hp'⟩ | hnew
      · exact h.binds S s.grants (idle S) k g' p hg' hp'
      · exact hnew S
    obtain ⟨v, hl, hb⟩ := hleft
    exact ⟨v, hl.congr (by rw [hcommitted]) fun i _ => by rw [hchanged], hb⟩
  · rw [hsame, htouched] at hk
    exact hk.elim

/-- The values change: a predicate for which that matters is live, on a table that no session has
changed, and binds there. -/
theorem Binding.revalue (h : s.Binding B) (hx : s.Exclusive)
    (hgrants : s'.grants = s.grants) (hsame : s'.live.grantLogs = s.live.grantLogs)
    (hcommitted : s'.committed = s.committed) (hchanged : s'.changed = s.changed)
    (hbinds : ∀ p, (∀ v, B v p → B' v p) ∨
      (∀ k g, s.grants k = some g → g.HasPredicate p → (∀ i, s.changed i k = none) ∧
        ∀ v, s.committed k = some v → B' v p) ∧
      ∀ i, ∀ undo ∈ s.live.grantLogs i, ∀ k g, undo.Holds k g → ¬ g.HasPredicate p) :
    s'.Binding B' := by
  refine ⟨fun S m hm k g p hk hp => ?_, fun i k hk hnone => ?_⟩
  · rw [hsame, hgrants] at hm
    obtain ⟨v, hl, hb⟩ := h.binds S m hm k g p hk hp
    refine ⟨v, hl.congr (by rw [hcommitted]) fun i _ => by rw [hchanged], ?_⟩
    rcases hbinds p with hmono | ⟨hlive, hheld⟩
    · exact hmono v hb
    -- nobody rolls back to such a predicate, so that its table is as it is committed
    have hout : ∀ i ∈ S, k ∉ s.live.grantLogs.touched i := by
      intro i hi hki
      rw [hm.undone i hi k hki] at hk
      rcases GrantUndo.rollBack_origin (fun _ => GrantLogs.names_subset) hki hk with
        ⟨k', hk', -, hg⟩ | ⟨undo, hundo, k', -, hh⟩
      · have hsome := hx.logged i k' hk'
        rw [(hlive k' g hg hp).1] at hsome
        cases hsome
      · exact hheld i undo hundo k' g hh hp
    rw [hm.frame k hout] at hk
    obtain ⟨hfree, hnew⟩ := hlive k g hk hp
    refine hnew v ?_
    rcases hl with ⟨i, -, hi⟩ | ⟨-, hv⟩
    · rw [hfree i] at hi
      cases hi
    · exact hv
  · rw [hsame] at hk
    rw [hchanged] at hnone
    rw [hgrants]
    exact h.gone i k hk hnone

end Versions

/-! ### Whole runs -/

namespace Probing

variable {S : TypedSource} {bridgeId : String} {s s' : Probing} {l : ProbingLabel}

/-- The invariant. -/
structure Ok (S : TypedSource) (s : Probing) : Prop where
  exclusive : s.source.Exclusive
  binding : s.source.Binding (s.BindsOn S)
  /-- There is no target before the attach. -/
  alone : s.attached = false → s.source.live.sessions = []
  probed : ∀ call, .probed call ∈ s.calls → call.Probed S

/-- What a call has probed, on the tables and with the values that it saw. -/
theorem probed_of_probe {view : SourceView} {dependents : List ContextDependent}
    {values : ContextValues} {request : OwnerRequest} {write : PendingCall}
    (h : request.probe (s.sees S view) dependents values = .ok write) :
    ProbedCall.Probed S ⟨write, dependents, values, s.source.committed⟩ := by
  cases request with
  | policy request =>
    rw [OwnerRequest.probe] at h
    cases hr : request.resolve (s.sees S view) values with
    | error e => rw [hr] at h; cases h
    | ok commit =>
      rw [hr] at h
      cases h
      intro k p hb
      obtain ⟨entry, he, hbinds⟩ := resolve_binds hr hb
      obtain ⟨v, hv, rfl⟩ := Option.map_eq_some_iff.1 he
      exact ⟨v, hv, hbinds⟩
  | context name value =>
    obtain ⟨_, hprobed, h⟩ := bind_eq_ok h
    cases h
    intro d hd v hv
    have hok := forM_eq_ok.1 hprobed d hd
    have he : (s.sees S view).entry (tableKey d.schema d.table) = some (S.entry v) := by
      change (s.source.committed _).map S.entry = _
      rw [show s.source.committed (tableKey d.schema d.table) = some v from hv]
      rfl
    rw [probeDependent, he] at hok
    exact probePredicate_ok hok

/-- The store changes, but neither the tables nor the count. -/
theorem exclusive_withStore {store : Store} (h : s.source.Exclusive)
    (hcount : store.book.uncommittedDdl = s.store.book.uncommittedDdl) :
    (s.withStore store).source.Exclusive :=
  ⟨⟨hcount.trans h.sound.count, h.sound.linked⟩, h.there, h.apart, h.base, h.logged, h.running⟩

/-- A policy call writes what it has probed. -/
theorem Ok.policy (h : s.Ok S) {commit : PolicyCommit} {store : Store}
    (hw : s.written bridgeId (.policy commit) = some store)
    (hbrings : ∀ k p, commit.Brings k p →
      ∀ R, ∃ v, s.source.Leaves R k (some v) ∧ s.BindsOn S v p) :
    (s.withStore store).source.Exclusive ∧
      (s.withStore store).source.Binding ((s.withStore store).BindsOn S) := by
  -- a predicate was there before, or the call brings it
  have installed : ∀ (book : GrantBook) (state : PolicyState) k g p,
      state = commit.applyPending (copyPolicy book.state) → state.tables.grantAt k = some g →
        g.HasPredicate p → (∃ g', book.tables.grantAt k = some g' ∧ g'.HasPredicate p) ∨
          commit.Brings k p := by
    rintro book state k g p rfl hg hp
    have horigin := hasPredicate_applyPending hg hp
    rwa [show (copyPolicy book.state).tables.grantAt = book.tables.grantAt from
      funext (GrantTables.grantAt_copyTables _)] at horigin
  rw [written] at hw
  split_ifs at hw with hattached hfinal
  · split at hw
    next book hbook =>
      cases hw
      obtain ⟨-, hzero, state, happly, -, rfl⟩ := commitPolicy_ok_iff.1 hbook
      refine ⟨exclusive_withStore h.exclusive rfl, ?_⟩
      by_cases ht : commit.touchesTables = true
      · refine h.binding.rewrite (h.exclusive.sound.grantLogs_nil (hzero ht)) rfl rfl rfl
          fun k g p hg hp => ?_
        have horigin :=
          installed s.store.book state k g p (PolicyCommit.eq_applyPending happly) hg hp
        exact horigin.imp_right (hbrings k p)
      · cases commit with
        | whitelist op names =>
          cases happly
          exact h.binding.quiet (funext (GrantTables.grantAt_copyTables _)) rfl rfl rfl
        | _ => exact absurd rfl ht
    next => cases hw
  · cases hw
    refine ⟨exclusive_withStore h.exclusive rfl, ?_⟩
    have hlogs : ∀ i, s.source.live.grantLogs i = [] := by
      intro i
      rw [Live.grantLogs, Live.logsOf, h.alone (by simpa using hattached)]
      rfl
    exact h.binding.rewrite hlogs rfl rfl rfl fun k g p hg hp =>
      (installed s.store.book _ k g p rfl hg hp).imp_right (hbrings k p)

/-- A `set_context` writes its value. -/
theorem Ok.context (h : s.Ok S) {name : String} {value : Value} {store : Store} {call : ProbedCall}
    (hw : s.written bridgeId (.context name value) = some store)
    (hcall : call.write = .context name value) (hprobed : call.Probed S)
    (hfits : call.Fitting S s) :
    (s.withStore store).source.Exclusive ∧
      (s.withStore store).source.Binding ((s.withStore store).BindsOn S) := by
  rw [written] at hw
  split_ifs at hw
  cases hw
  refine ⟨exclusive_withStore h.exclusive rfl, h.binding.revalue h.exclusive rfl rfl rfl rfl
    fun p => ?_⟩
  by_cases hsame : SameTypes S.typeOf s.values (s.values.insert name value) p
  · exact .inl fun v hb => S.typed v p _ _ hsame hb
  · refine .inr ⟨fun k g hg hp => ?_, hfits.held name value hcall p hsame⟩
    obtain ⟨⟨d, hd, rfl, rfl⟩, hunmoved, htypes⟩ := hfits.live name value hcall p hsame k g hg hp
    refine ⟨hunmoved.2, fun v hv => ?_⟩
    rw [ProbedCall.Probed, hcall] at hprobed
    exact S.typed v _ _ _ htypes (hprobed d hd v (hunmoved.1 ▸ hv))

/-- A call makes its last section. -/
theorem Ok.finish (h : s.Ok S) {i : Nat} {call : OwnerCall} (hi : s.calls[i]? = some call)
    (hf : Fitting S bridgeId s (.finish i)) (hs : s.finish bridgeId i call = some s') :
    s'.Ok S := by
  cases call with
  | probed call =>
    cases hs
    have hprobed := h.probed call (List.mem_of_getElem? hi)
    have hcalls : ∀ call', OwnerCall.probed call' ∈ s.calls.eraseIdx i → call'.Probed S :=
      fun call' hmem => h.probed call' (List.mem_of_mem_eraseIdx hmem)
    cases hw : s.written bridgeId call.write with
    | none => exact ⟨h.exclusive, h.binding, h.alone, hcalls⟩
    | some store =>
      have hfits := hf call hi (by rw [hw]; rfl)
      have hkept : (s.withStore store).source.Exclusive ∧
          (s.withStore store).source.Binding ((s.withStore store).BindsOn S) := by
        cases hwrite : call.write with
        | policy commit =>
          rw [hwrite] at hw
          refine h.policy hw fun k p hb R => ?_
          obtain ⟨hunmoved, htypes⟩ := hfits.policy commit hwrite k p hb
          rw [ProbedCall.Probed, hwrite] at hprobed
          obtain ⟨v, hv, hbinds⟩ := hprobed k p hb
          exact ⟨v, (Versions.leaves_unmoved hunmoved).2 hv, S.typed v p _ _ htypes hbinds⟩
        | context name value => exact h.context (hwrite ▸ hw) hwrite hprobed hfits
      exact ⟨hkept.1, hkept.2, h.alone, hcalls⟩
  | _ => cases hs

/-- A step of a session. -/
theorem Ok.session (h : s.Ok S) {i : Nat} {op : SessionOp} {live : Live} {source : Versions}
    (hf : Fitting S bridgeId s (.session i op))
    (hlive : s.source.live.next bridgeId (.session i op) = some live)
    (hs : (s.source.withLive live).answers i op = some source) :
    source.Exclusive ∧ source.Binding (s.BindsOn S) := by
  have hx := h.exclusive
  have hb := h.binding
  cases op with
  | statement =>
    cases hs
    exact Versions.opens hx hb (.inl rfl) hlive
  | ddl ddl existing folds =>
    change (s.source.withLive live).source i (.ddl ddl existing folds) = some source at hs
    rw [Versions.source, Option.ite_none_right_eq_some] at hs
    obtain ⟨-, hs⟩ := hs
    cases hs
    exact Versions.opens hx hb (.inr ⟨ddl, existing, folds, rfl⟩) hlive
  | check =>
    cases hs
    refine Versions.continues hx hb (.inl rfl) hlive ?_
    obtain ⟨session, r, hi, -, hstep, rfl⟩ := Live.session_step hlive
    obtain ⟨-, -, -, hrec⟩ := DuckDBSession.step_continues (.inl rfl) hstep
    show ((s.source.live.sessions.set i r.2)[i]?).bind DuckDBSession.recording = none
    rw [List.getElem?_set_self (List.getElem?_eq_some_iff.1 hi).1]
    exact hrec rfl
  | run answer =>
    rw [Versions.answers] at hs
    cases hrec : (live.sessions[i]?).bind DuckDBSession.recording with
    | none =>
      rw [show (((s.source.withLive live).live.sessions)[i]?).bind DuckDBSession.recording = none
        from hrec] at hs
      cases hs
      exact Versions.continues hx hb (.inr ⟨answer, rfl⟩) hlive hrec
    | some d =>
      rw [show (((s.source.withLive live).live.sessions)[i]?).bind DuckDBSession.recording = some d
        from hrec] at hs
      exact Versions.runs hx hb hlive hrec hs
  | record =>
    cases hs
    exact Versions.records hx hb hf hlive
  | commit succeeds =>
    cases hs
    cases succeeds with
    | true => exact Versions.commits_binding hx hb hlive
    | false => exact Versions.closes hx hb (.inr (.inl rfl)) hlive
  | rollback =>
    cases hs
    exact Versions.closes hx hb (.inl rfl) hlive
  | destroy =>
    cases hs
    exact Versions.closes hx hb (.inr (.inr ⟨rfl, hf⟩)) hlive

/-- **Every fitting step keeps the invariant.** -/
theorem Ok.next (h : s.Ok S) (hf : Fitting S bridgeId s l) (hs : s.next S bridgeId l = some s') :
    s'.Ok S := by
  cases l with
  | call request =>
    obtain ⟨dependents, -, rfl⟩ := Option.map_eq_some_iff.1 hs
    refine ⟨h.exclusive, h.binding, h.alone, fun call hmem => ?_⟩
    rcases List.mem_append.1 hmem with hmem | hmem
    · exact h.probed call hmem
    · cases List.mem_singleton.1 hmem
  | snapshot i =>
    obtain ⟨call, hi, hs⟩ := Option.bind_eq_some_iff.1 hs
    cases call with
    | lookedUp request dependents =>
      rw [snapshot] at hs
      split_ifs at hs
      cases hs
      refine ⟨h.exclusive, h.binding, h.alone, fun call hmem => ?_⟩
      rcases List.mem_or_eq_of_mem_set hmem with hmem | heq
      · exact h.probed call hmem
      · cases heq
    | _ => cases hs
  | probe i view =>
    obtain ⟨call, hi, hs⟩ := Option.bind_eq_some_iff.1 hs
    cases call with
    | snapshotted request dependents values =>
      rw [probe] at hs
      split at hs
      · cases hs
      next write hprobe =>
        cases hs
        refine ⟨h.exclusive, h.binding, h.alone, fun call hmem => ?_⟩
        rcases List.mem_or_eq_of_mem_set hmem with hmem | heq
        · exact h.probed call hmem
        · cases heq
          exact probed_of_probe hprobe
    | _ => cases hs
  | finish i =>
    obtain ⟨call, hi, hs⟩ := Option.bind_eq_some_iff.1 hs
    exact h.finish hi hf hs
  | finalizePolicy =>
    cases hs
    exact ⟨exclusive_withStore h.exclusive rfl, h.binding.quiet rfl rfl rfl rfl, h.alone, h.probed⟩
  | finalizeContext =>
    cases hs
    exact ⟨exclusive_withStore h.exclusive rfl, h.binding.quiet rfl rfl rfl rfl, h.alone, h.probed⟩
  | attach =>
    rw [next] at hs
    split at hs
    · cases hs
    · split_ifs at hs
      cases hs
      exact ⟨h.exclusive, h.binding, fun hf => Bool.noConfusion hf, h.probed⟩
  | begin =>
    rw [next] at hs
    split_ifs at hs with hattached
    obtain ⟨source, hsource, rfl⟩ := Option.map_eq_some_iff.1 hs
    obtain ⟨hx, hb⟩ := Versions.begins h.exclusive h.binding hsource
    rw [Versions.next, Option.map_eq_some_iff] at hsource
    obtain ⟨live, hlive, rfl⟩ := hsource
    cases hlive
    exact ⟨hx, hb, fun hf => absurd (hf.symm.trans hattached) Bool.false_ne_true, h.probed⟩
  | session i op =>
    rw [next] at hs
    split_ifs at hs with hattached
    obtain ⟨source, hsource, rfl⟩ := Option.map_eq_some_iff.1 hs
    obtain ⟨live, hlive, hanswers⟩ := Option.bind_eq_some_iff.1 hsource
    obtain ⟨hx, hb⟩ := h.session hf hlive hanswers
    have hcontext : source.live.store.context = s.store.context := by
      rw [Versions.live_answers hanswers]
      obtain ⟨session, r, -, -, -, rfl⟩ := Live.session_step hlive
      rfl
    refine ⟨hx, ?_, fun hf => absurd (hf.symm.trans hattached) Bool.false_ne_true, h.probed⟩
    have hbinds : BindsOn S { s with source := source } = s.BindsOn S := by
      funext v p
      show (S.entry v).Binds source.live.store.context.values p = _
      rw [hcontext]
      rfl
    rw [hbinds]
    exact hb

/-- A bridge that has just been registered: no policy, no call and no session yet. -/
structure Start (s : Probing) : Prop where
  fresh : s.source.live.Fresh
  closed : ∀ i, s.source.transactions i = none
  pending : s.attached = false
  policy : s.store.book.tables = ∅
  calls : s.calls = []

/-- No session has uncommitted DDL, recorded or not. -/
def Quiet (s : Probing) : Prop :=
  ∀ i tx, s.source.transactions i = some tx → ∀ k, tx.touches k = false

/-- Every installed predicate binds as BOOLEAN on the committed table, with the values of now. -/
def Bound (S : TypedSource) (s : Probing) : Prop :=
  ∀ schema table g p, s.store.book.tables.findGrant schema table = some g → g.HasPredicate p →
    ∃ v, s.source.committed (tableKey schema table) = some v ∧ s.BindsOn S v p

theorem Start.ok (h : s.Start) : s.Ok S := by
  have hlogs : ∀ i, s.source.live.grantLogs i = [] := h.fresh.sound.grantLogs_nil h.fresh.count
  have htouched : ∀ i, s.source.live.grantLogs.touched i = ∅ := fun i =>
    GrantLogs.touched_nil (hlogs i)
  have hempty : ∀ k, s.source.grants k = none := by
    intro k
    show s.store.book.tables.grantAt k = none
    rw [h.policy]
    rfl
  refine ⟨⟨h.fresh.sound, fun i hi => ?_, fun i j tx other _ hi => ?_, fun i tx hi => ?_,
    fun i k hk => ?_, fun i session ddl answer hi => ?_⟩, ⟨fun R m hm k g p hk => ?_,
    fun i k hk => ?_⟩, fun _ => h.fresh.sessions, fun call hc => ?_⟩
  · rw [h.closed] at hi
    cases hi
  · rw [h.closed] at hi
    cases hi
  · rw [h.closed] at hi
    cases hi
  · rw [htouched] at hk
    exact hk.elim
  · rw [h.fresh.sessions] at hi
    cases hi
  · rw [hm.frame k fun i _ hi => by rw [htouched] at hi; exact hi, hempty] at hk
    cases hk
  · rw [htouched] at hk
    exact hk.elim
  · rw [h.calls] at hc
    cases hc

theorem Ok.bound (h : s.Ok S) (hq : s.Quiet) : s.Bound S := by
  intro schema table g p hg hp
  have idle : RolledBack s.source.live.grantLogs.touched s.source.live.grantLogs.restores ∅
      s.source.grants s.source.grants := ⟨fun _ hi => hi.elim, fun _ _ => rfl⟩
  rw [GrantTables.findGrant_eq] at hg
  obtain ⟨v, hl, hb⟩ := h.binding.binds ∅ _ idle _ g p hg hp
  refine ⟨v, ?_, hb⟩
  rcases hl with ⟨i, -, hi⟩ | ⟨-, hv⟩
  · obtain ⟨tx, htx, htouch⟩ := Versions.touches_of_changed (by rw [hi]; rfl)
    rw [hq i tx htx] at htouch
    cases htouch
  · exact hv

/-- **Installed predicates bind**: in every run that writes only what fits, from the registration of
a bridge on, every predicate of the policy binds as BOOLEAN under the current context whenever no
DDL of the target is uncommitted. -/
theorem predicates_bind {s₀ : Probing} {ls : List ProbingLabel} (h : s₀.Start)
    (hrun : (probingMachine S bridgeId).Run (Fitting S bridgeId) s₀ ls s) (hq : s.Quiet) :
    s.Bound S :=
  (hrun.invariant h.ok fun _ _ _ hok hf hs => hok.next hf hs).bound hq

/-! ### Calls that nobody interrupts -/

/-- The sections of one call. -/
def calling (view : SourceView) (request : OwnerRequest) : List ProbingLabel :=
  [.call request, .snapshot 0, .probe 0 view, .finish 0]

/-- What a call has probed, if it is a `set_context`, are the predicates that its lookup found. -/
theorem dependents_of_probe {view : SourceView} {dependents : List ContextDependent}
    {values : ContextValues} {request : OwnerRequest} {write : PendingCall}
    (hlookUp : s.lookUp request = some dependents)
    (hprobe : request.probe view dependents values = .ok write) {name : String} {value : Value}
    (hwrite : write = .context name value) :
    dependents = collectDependents s.store.book.tables name := by
  subst hwrite
  cases request with
  | policy request =>
    rw [OwnerRequest.probe] at hprobe
    cases hr : request.resolve view values with
    | error e => rw [hr] at hprobe; cases hprobe
    | ok commit => rw [hr] at hprobe; cases hprobe
  | context name value =>
    obtain ⟨_, -, hprobe⟩ := bind_eq_ok hprobe
    cases hprobe
    simp only [lookUp, Option.ite_none_left_eq_some, Option.some.injEq] at hlookUp
    exact hlookUp.2.symm

/-- **Calls one after the other fit**, while no DDL is uncommitted. -/
theorem run_calling {view : SourceView} {request : OwnerRequest} (hcalls : s.calls = [])
    (hchanged : ∀ i k, s.source.changed i k = none) (hlogs : ∀ i, s.source.live.grantLogs i = [])
    (hexec : (probingMachine S bridgeId).exec s (calling view request) = some s') :
    (probingMachine S bridgeId).Run (Fitting S bridgeId) s (calling view request) s' := by
  obtain ⟨s₁, h₁, hexec⟩ := Option.bind_eq_some_iff.1 hexec
  obtain ⟨s₂, h₂, hexec⟩ := Option.bind_eq_some_iff.1 hexec
  obtain ⟨s₃, h₃, hexec⟩ := Option.bind_eq_some_iff.1 hexec
  obtain ⟨s₄, h₄, hexec⟩ := Option.bind_eq_some_iff.1 hexec
  cases hexec
  refine .cons trivial h₁ (.cons trivial h₂ (.cons trivial h₃ (.single ?_ h₄)))
  obtain ⟨dependents, hlookUp, rfl⟩ := Option.map_eq_some_iff.1 h₁
  obtain ⟨call, hcall, h₂⟩ := Option.bind_eq_some_iff.1 h₂
  rw [hcalls] at hcall
  cases hcall
  rw [snapshot] at h₂
  split_ifs at h₂
  cases h₂
  obtain ⟨call, hcall, h₃⟩ := Option.bind_eq_some_iff.1 h₃
  rw [hcalls] at hcall
  cases hcall
  rw [probe] at h₃
  split at h₃
  · cases h₃
  next write hprobe =>
    cases h₃
    intro call hcall _
    simp only [hcalls] at hcall
    cases hcall
    exact ProbedCall.fitting_uninterrupted (fun _ _ => dependents_of_probe hlookUp hprobe) rfl rfl
      hchanged hlogs

namespace Sample

/-- The type of a value. -/
def typeOf : Value → String
  | .boolean _ => "BOOLEAN"
  | _ => "INTEGER"

/-- A constant binds with its type, an operator as BOOLEAN. -/
def constants : SourceEntry where
  columns := ["id"]
  probe
    | .constant v => .ok [typeOf v]
    | .node _ _ => .ok ["BOOLEAN"]
    | _ => .error "no such column"

theorem filledBy_sameTypes {predicate : Expr} {values values' : ContextValues}
    (hsame : SameTypes typeOf values values' predicate) (h : FilledBy values predicate) :
    FilledBy values' predicate := by
  rw [filledBy_iff] at h ⊢
  intro n hn
  have hisSome := congrArg Option.isSome (hsame n hn)
  rw [Option.isSome_map, Option.isSome_map] at hisSome
  exact hisSome.symm.trans (h n hn)

theorem constants_typed {predicate : Expr} {values values' : ContextValues}
    (hsame : SameTypes typeOf values values' predicate) (h : constants.Binds values predicate) :
    constants.Binds values' predicate := by
  obtain ⟨expr, hfill, hprobe⟩ := h
  obtain ⟨expr', hfill'⟩ :=
    fillContext_ok_iff.2 (filledBy_sameTypes hsame (fillContext_ok_iff.1 ⟨expr, hfill⟩))
  refine ⟨expr', hfill', ?_⟩
  cases predicate with
  | parameter n =>
    have htype := hsame n (mem_parameterNames.2 List.mem_cons_self)
    change fillLeaf values (.parameter n) = .ok expr at hfill
    change fillLeaf values' (.parameter n) = .ok expr' at hfill'
    rw [fillLeaf] at hfill hfill'
    cases hv : values.find? n with
    | none =>
      rw [hv] at hfill
      cases hfill
    | some v =>
      rw [hv] at hfill htype
      obtain ⟨v', hv', htype⟩ := Option.map_eq_some_iff.1 htype.symm
      rw [hv'] at hfill'
      cases hfill
      cases hfill'
      change Except.ok [typeOf v'] = _
      rw [htype]
      exact hprobe
  | node op children =>
    rw [eq_of_fillContext hfill', Expr.mapLeaves]
    rfl
  -- the others have no type to depend on
  | _ =>
    rw [eq_of_fillContext hfill] at hprobe
    rw [eq_of_fillContext hfill']
    exact hprobe

/-- A source of such tables. -/
def typedConstants : TypedSource where
  typeOf := typeOf
  entry _ := constants
  typed _ _ _ _ := constants_typed

/-- What the source answers but for its tables. -/
def view : SourceView where
  catalog := "source"
  parse
    | "true" => .ok [.constant (.boolean true)]
    | "$x" => .ok [.parameter "x"]
    | _ => .ok [.node (.call "IS NOT NULL") [.parameter "x"]]
  print _ := ""
  entry _ := none
  hasSchema _ := true
  keyQuery _ := .ok []
  verifyQuery _ := .ok false

/-- A bridge to a source with one table. -/
def registered : Probing where
  source :=
    { live :=
        { store := { book := {}, context := {}, installed := [], contexts := [] }
          sessions := [] }
      committed := fun k => if k = tableKey "main" "orders" then some 0 else none
      versions := 1
      law := fun _ => none }

theorem registered_start : registered.Start where
  fresh := ⟨rfl, rfl⟩
  closed _ := rfl
  pending := rfl
  policy := rfl
  calls := rfl

/-- A verb on `orders` is granted under a predicate. -/
def granting (verb : CrossingVerb) (text : String) : OwnerRequest :=
  .policy (.set (.verb ⟨"", "main", "orders"⟩ verb { granted := true, usingText := text }))

/-- The type of `x` changes between the probe of `$x` and its commit. -/
def retyped : List ProbingLabel :=
  calling view (.context "x" (.boolean true)) ++ calling view (granting .select "true") ++
    [.attach, .call (granting .select "$x"), .snapshot 0, .probe 0 view,
      .call (.context "x" (.integer 5)), .snapshot 1, .probe 1 view, .finish 1, .finish 0]

/-- Reading and dropping is granted, and the type of `x` changes. -/
def granted : List ProbingLabel :=
  calling view (.context "x" (.boolean true)) ++
    (calling view (granting .select "$x IS NOT NULL") ++
      (calling view (granting .drop "true") ++ calling view (.context "x" (.integer 5))))

/-- A session drops the table, and rolls back. -/
def dropped : List ProbingLabel :=
  [.attach, .begin, .session 0 (.ddl ⟨"main", "orders", .drop⟩ true fun _ => false),
    .session 0 (.run {}), .session 0 .record, .session 0 .rollback]

/-- The state after a list of steps. -/
def after (ls : List ProbingLabel) : Probing :=
  ((probingMachine typedConstants "b").exec registered ls).getD registered

end Sample

/-- The predicate was probed with a boolean, and is installed when its name has an integer. -/
theorem not_predicates_bind :
    ¬ ∀ (S : TypedSource) (bridgeId : String) (s₀ s : Probing) (ls : List ProbingLabel), s₀.Start →
        (probingMachine S bridgeId).Run Machine.Free s₀ ls s → s.Quiet → s.attached = true →
          s.Bound S := by
  intro h
  have hrun : (probingMachine Sample.typedConstants "b").Run Machine.Free Sample.registered
      Sample.retyped (Sample.after Sample.retyped) := Machine.run_of_exec rfl
  have hbound := h _ "b" _ _ _ Sample.registered_start hrun (fun i tx htx => by cases htx) rfl
  obtain ⟨v, -, expr, hfill, hprobe⟩ := hbound "main" "orders" _ (.parameter "x") rfl
    ⟨.select, .inl rfl⟩
  cases hfill
  exact absurd (List.head_eq_of_cons_eq (Except.ok.inj hprobe)) (by decide)

theorem granted_run : (probingMachine Sample.typedConstants "b").Run
    (Fitting Sample.typedConstants "b") Sample.registered Sample.granted
      (Sample.after Sample.granted) := by
  have hset : (probingMachine Sample.typedConstants "b").Run (Fitting Sample.typedConstants "b")
      Sample.registered (calling Sample.view (.context "x" (.boolean true)))
        (Sample.after (Sample.granted.take 4)) :=
    run_calling rfl (fun _ _ => rfl) (fun _ => rfl) rfl
  have hselect : (probingMachine Sample.typedConstants "b").Run (Fitting Sample.typedConstants "b")
      (Sample.after (Sample.granted.take 4))
        (calling Sample.view (Sample.granting .select "$x IS NOT NULL"))
          (Sample.after (Sample.granted.take 8)) :=
    run_calling rfl (fun _ _ => rfl) (fun _ => rfl) rfl
  have hdrop : (probingMachine Sample.typedConstants "b").Run (Fitting Sample.typedConstants "b")
      (Sample.after (Sample.granted.take 8)) (calling Sample.view (Sample.granting .drop "true"))
        (Sample.after (Sample.granted.take 12)) :=
    run_calling rfl (fun _ _ => rfl) (fun _ => rfl) rfl
  have hreset : (probingMachine Sample.typedConstants "b").Run (Fitting Sample.typedConstants "b")
      (Sample.after (Sample.granted.take 12))
        (calling Sample.view (.context "x" (.integer 5))) (Sample.after Sample.granted) :=
    run_calling rfl (fun _ _ => rfl) (fun _ => rfl) rfl
  exact hset.append (hselect.append (hdrop.append hreset))

/-- The predicate comes back with its table. -/
theorem predicates_bind_dropped :
    (Sample.after (Sample.granted ++ Sample.dropped)).Bound Sample.typedConstants ∧
      ∃ g, (Sample.after (Sample.granted ++ Sample.dropped)).store.book.tables.findGrant "main"
        "orders" = some g ∧ g.HasPredicate (.node (.call "IS NOT NULL") [.parameter "x"]) := by
  let s := Sample.after (Sample.granted ++ Sample.dropped.take 4)
  have hrecord : Fitting Sample.typedConstants "b" s (.session 0 .record) := by
    intro session tx ddl answer hs hrec htx
    cases hs
    cases hrec
    cases htx
    refine ⟨fun hidle => ?_, fun _ halter => ?_⟩
    · cases hidle (tableKey "main" "orders")
    · obtain ⟨info, halter⟩ := halter
      cases halter
  have hdropped : (probingMachine Sample.typedConstants "b").Run (Fitting Sample.typedConstants "b")
      (Sample.after Sample.granted) Sample.dropped
        (Sample.after (Sample.granted ++ Sample.dropped)) :=
    .cons trivial rfl (.cons trivial rfl (.cons trivial rfl (.cons trivial rfl (.cons hrecord rfl
      (.single trivial rfl)))))
  have hquiet : (Sample.after (Sample.granted ++ Sample.dropped)).Quiet := by
    intro i tx htx k
    cases i with
    | zero => cases htx
    | succ i => cases htx
  exact ⟨predicates_bind Sample.registered_start (granted_run.append hdropped) hquiet, _, rfl,
    .select, .inl rfl⟩

end Probing

end VirtualCatalog
