import VirtualCatalog.Bridge.LastWriter
import VirtualCatalog.Bridge.Covered
import VirtualCatalog.Sql.Eval

/-!
# The shape of a grant

The fields of a grant depend on each other, and many operations write some of them: edits and
documents of the owner, the redeem, DDL of the target and the undo of it.

* `SourceGrant.Coupled` : how the fields fit together.
* `Registry.GrantsHave` : a property of every grant that is installed, waits for a target or is held
  by an undo log, and that every commit in flight keeps.
* `GrantsHave.move` : it stays so, if resolving a request gives only commits that keep it.
* `grants_coupled` : the fields of every grant of every book fit together.
-/

namespace VirtualCatalog

/-! ### Properties of all grants -/

/-- The commit makes no grant without the property. -/
def PolicyCommit.Keeps (P : SourceGrant → Prop) (commit : PolicyCommit) : Prop :=
  ∀ state : PolicyState, AllGrants P state.tables.grantAt →
    AllGrants P (commit.applyPending state).tables.grantAt

section

variable {P : SourceGrant → Prop} {T : GrantTables} {g : SourceGrant} {s t : String}

theorem allGrants_empty : AllGrants P (GrantTables.grantAt ∅) := by
  intro k g hk
  cases hk

theorem AllGrants.copy (h : AllGrants P T.grantAt) : AllGrants P T.copyTables.grantAt := by
  intro k g hk
  rw [GrantTables.grantAt_copyTables] at hk
  exact h k g hk

theorem AllGrants.set (h : AllGrants P T.grantAt) (hg : P g) :
    AllGrants P (T.set s t g).grantAt := by
  intro k g' hk
  rw [GrantTables.grantAt_set] at hk
  split_ifs at hk
  · exact Option.some.inj hk ▸ hg
  · exact h k g' hk

theorem AllGrants.revoke (h : AllGrants P T.grantAt) : AllGrants P (T.revoke s t).grantAt := by
  intro k g' hk
  rw [GrantTables.grantAt_revoke] at hk
  split_ifs at hk
  exact h k g' hk

end

namespace Registry

/-- Every grant has the property, wherever it lies. -/
structure GrantsHave (P : SourceGrant → Prop) (s : Registry) : Prop where
  pending : ∀ id p, s.pending id = some p → AllGrants P p.state.tables.grantAt
  book : ∀ b bridge, s.bridges b = some bridge → AllGrants P bridge.book.tables.grantAt
  undo : ∀ b bridge, s.bridges b = some bridge → ∀ session ∈ bridge.sessions,
    AllHeld P session.grantUndo
  calls : ∀ call commit, .policy call ∈ s.calls → call.stage = .resolved commit → commit.Keeps P

section

variable {P : SourceGrant → Prop} {V : SourceView → Prop} {s s' : Registry} {agent : Agent}
  {nonce id : String} {b : Nat}

/-- Entries are dropped and calls end. -/
theorem GrantsHave.sub (h : s.GrantsHave P)
    (hp : ∀ id p, s'.pending id = some p → s.pending id = some p) (hb : s'.bridges = s.bridges)
    (hc : ∀ call, .policy call ∈ s'.calls → .policy call ∈ s.calls) : s'.GrantsHave P where
  pending id p hid := h.pending id p (hp id p hid)
  book b bridge hbridge := h.book b bridge (hb ▸ hbridge)
  undo b bridge hbridge := h.undo b bridge (hb ▸ hbridge)
  calls call commit hcall := h.calls call commit (hc call hcall)

theorem GrantsHave.note (h : s.GrantsHave P) (r : Nat) (event : RegistryEvent) :
    (s.note r event).GrantsHave P :=
  ⟨h.pending, h.book, h.undo, h.calls⟩

/-- An entry changes. -/
theorem GrantsHave.setPending (h : s.GrantsHave P) {p : PendingSource}
    (hp : AllGrants P p.state.tables.grantAt) : (s.setPending id p).GrantsHave P := by
  refine ⟨fun id' p' hp' => ?_, h.book, h.undo, h.calls⟩
  rw [pending_setPending] at hp'
  split_ifs at hp'
  · exact Option.some.inj hp' ▸ hp
  · exact h.pending id' p' hp'

/-- A book changes. -/
theorem GrantsHave.setBridge (h : s.GrantsHave P) {bridge : Bridge}
    (hbook : AllGrants P bridge.book.tables.grantAt)
    (hundo : ∀ session ∈ bridge.sessions, AllHeld P session.grantUndo) :
    (s.setBridge b bridge).GrantsHave P := by
  refine ⟨h.pending, fun b' bridge' hb' => ?_, fun b' bridge' hb' => ?_, h.calls⟩ <;>
    rw [bridges_setBridge] at hb' <;> split_ifs at hb'
  · exact Option.some.inj hb' ▸ hbook
  · exact h.book b' bridge' hb'
  · exact Option.some.inj hb' ▸ hundo
  · exact h.undo b' bridge' hb'

/-- An entry becomes a book. -/
theorem GrantsHave.attach (h : s.GrantsHave P) {p : PendingSource} (hp : s.pending id = some p) :
    (s.attach id p).GrantsHave P := by
  refine ⟨fun id' p' hp' => h.pending id' p' (dropPending_sub hp').1, fun b bridge hb => ?_,
    fun b bridge hb => ?_, h.calls⟩ <;> rw [bridges_attach] at hb <;> split_ifs at hb
  · cases hb
    exact h.pending id p hp
  · exact h.book b bridge hb
  · cases hb
    intro session hsession
    cases hsession
  · exact h.undo b bridge hb

/-- A call begins, or goes on. -/
theorem GrantsHave.withCalls (h : s.GrantsHave P) {calls : List RegistryCall}
    (hc : ∀ call commit, .policy call ∈ calls → call.stage = .resolved commit →
      .policy call ∈ s.calls ∨ commit.Keeps P) : (s.withCalls calls).GrantsHave P where
  pending := h.pending
  book := h.book
  undo := h.undo
  calls call commit hcall hs :=
    (hc call commit hcall hs).elim (fun hold => h.calls call commit hold hs) id

/-- A session of a book does something. -/
theorem GrantsHave.session (hcreated : ∀ key, P (createdGrant key)) (h : s.GrantsHave P)
    {bridge : Bridge} (hb : s.bridges b = some bridge) {label : LiveLabel} {after : Live}
    (hl : ∀ l, label ≠ .owner l)
    (hs : Live.next bridge.bridgeId (s.liveOf bridge) label = some after) :
    (s.setBridge b { bridge with book := after.store.book, sessions := after.sessions }).GrantsHave
      P := by
  have hbook := h.book b bridge hb
  have hundo := h.undo b bridge hb
  cases label with
  | owner l => exact absurd rfl (hl l)
  | begin =>
    cases hs
    refine h.setBridge hbook fun session hsession => ?_
    rcases List.mem_append.1 hsession with hsession | hsession
    · exact hundo session hsession
    · cases List.mem_singleton.1 hsession
      exact fun undo hu => by cases hu
  | session i op =>
    obtain ⟨session, book, session', hi, -, hstep, rfl⟩ := Live.next_session hs
    obtain ⟨hm, hu⟩ := hstep.logs.all hcreated hbook (hundo session (List.mem_of_getElem? hi))
    refine h.setBridge hm fun session₁ h₁ => ?_
    rcases List.mem_or_eq_of_mem_set h₁ with h₁ | rfl
    · exact hundo session₁ h₁
    · exact hu

/-- **Every move keeps a property** that the grant of a created table has, and that every resolved
request keeps. -/
theorem GrantsHave.move (hcreated : ∀ key, P (createdGrant key))
    (hresolve : ∀ {request : PolicyRequest} {view : SourceView} {values : ContextValues}
      {commit : PolicyCommit}, V view → request.resolve view values = .ok commit → commit.Keeps P)
    (h : s.GrantsHave P) (hm : MoveIn V agent s s') : s'.GrantsHave P := by
  cases hm with
  | purge => exact h.sub (fun id p hp => (expired_of_purge hp).1) rfl fun _ hc => hc
  | touch id p hp => exact h.setPending (h.pending id p hp)
  | register id p ha hp hl hr hf hs =>
    -- a registration starts without grants
    have hset : (s.setPending id p).GrantsHave P := h.setPending (hs ▸ allGrants_empty)
    exact ⟨hset.pending, hset.book, hset.undo, hset.calls⟩
  | wrongToken id token p hp =>
    rw [wrongToken]
    split_ifs
    · exact GrantsHave.note
        (h.sub (fun id' p' hp' => (dropPending_sub hp').1) rfl fun _ hc => hc) _ _
    · refine GrantsHave.note ?_ _ _
      exact h.setPending (h.pending id p hp)
  | drop id => exact h.sub (fun id' p hp => (dropPending_sub hp).1) rfl fun _ hc => hc
  | attach id p hp => exact h.attach hp
  | destroySource b bridge hb =>
    have hset : GrantsHave P (s.setBridge b { bridge with attached := false }) :=
      h.setBridge (h.book b bridge hb) (h.undo b bridge hb)
    obtain ⟨live, heq⟩ := s.destroySource_eq b bridge
    rw [heq]
    exact ⟨hset.pending, hset.book, hset.undo, hset.calls⟩
  | commitPending call commit p hcall hs hp =>
    -- the copy of the policy has the property, and the edit keeps it
    have hkeeps := h.calls call commit hcall hs
    refine GrantsHave.note ?_ _ _
    exact h.setPending (hkeeps _ (h.pending _ p hp).copy)
  | commitLive call commit entry bridge book hcall hs hp hl hdb hok =>
    obtain ⟨-, -, state, hstate, -, rfl⟩ := commitPolicy_ok_iff.1 hok
    have hb := (bridges_of_liveBridge hl).2.1
    have hkeeps := h.calls call commit hcall hs
    have hnew : AllGrants P state.tables.grantAt := by
      rw [PolicyCommit.eq_applyPending hstate]
      exact hkeeps _ (h.book _ bridge hb).copy
    refine GrantsHave.note ?_ _ _
    exact h.setBridge hnew (h.undo _ bridge hb)
  | finalizePending id p hp =>
    refine GrantsHave.note ?_ _ _
    exact h.setPending (h.pending id p hp)
  | finalizeLive b bridge hb =>
    refine GrantsHave.note ?_ _ _
    exact h.setBridge (h.book b bridge hb) (h.undo b bridge hb)
  | beginPolicy call target ha ht hr hsrc hst =>
    refine h.withCalls fun call' commit hcall hs => ?_
    rcases List.mem_append.1 hcall with hcall | hcall
    · exact .inl hcall
    · cases List.mem_singleton.1 hcall
      rw [hst] at hs
      cases hs
  | snapshotPolicy i call hi hst =>
    refine h.withCalls fun call' commit hcall hs => ?_
    rcases List.mem_or_eq_of_mem_set hcall with hcall | hcall
    · exact .inl hcall
    · cases hcall
      cases hs
  | resolvePolicy i call values view commit hi hst hok hv =>
    refine h.withCalls fun call' commit hcall hs => ?_
    rcases List.mem_or_eq_of_mem_set hcall with hcall | hcall
    · exact .inl hcall
    · cases hcall
      cases hs
      -- the one label that makes a commit
      exact .inr (hresolve hv hok)
  | beginContext call =>
    refine h.withCalls fun call' commit hcall hs => ?_
    rcases List.mem_append.1 hcall with hcall | hcall
    · exact .inl hcall
    · cases List.mem_singleton.1 hcall
  | advanceContext i call =>
    refine h.withCalls fun call' commit hcall hs => ?_
    rcases List.mem_or_eq_of_mem_set hcall with hcall | hcall
    · exact .inl hcall
    · cases hcall
  | endCall i => exact h.withCalls fun _ _ hcall _ => .inl (List.mem_of_mem_eraseIdx hcall)
  | session b bridge hb after label ha hl hs => exact h.session hcreated hb hl hs
  | holds b bridge hb n => exact h.setBridge (h.book b bridge hb) (h.undo b bridge hb)
  | _ => exact h.sub (fun _ _ hp => hp) rfl fun _ hc => hc

/-- The sources of a run answer like `V`. -/
def Answers (V : SourceView → Prop) : Registry → RegistryLabel → Prop
  | _, .resolve _ view => V view
  | _, _ => True

/-- So the property holds of every grant in every reachable registry. -/
theorem grantsHave_of_reachable (hcreated : ∀ key, P (createdGrant key))
    (hresolve : ∀ {request : PolicyRequest} {view : SourceView} {values : ContextValues}
      {commit : PolicyCommit}, V view → request.resolve view values = .ok commit → commit.Keeps P)
    (h : (registryMachine nonce).ReachableBy (Answers V) {} s) : s.GrantsHave P := by
  refine h.invariant (I := GrantsHave P) ?_ fun s l t hi hl hs => ?_
  · exact ⟨fun _ _ hp => (by cases hp), fun _ _ hb => (by cases hb), fun _ _ hb => (by cases hb),
      fun _ _ hc => (by cases hc)⟩
  · have hv : ∀ i view, l = .resolve i view → V view := by
      rintro i view rfl
      exact hl
    have hm := next_movesIn hv hs
    clear hs
    induction hm with
    | refl => exact hi
    | tail _ hm ih => exact ih.move hcreated hresolve hm

end

end Registry

/-! ### How the fields fit together -/

/-- Whatever the context gives its names, the expression is `TRUE` over every row. -/
def Expr.AlwaysTrue (e : Expr) : Prop :=
  ∀ values e', fillContext values e = .ok e' → ∀ sem read env, IsTrue (e'.eval sem read env)

/-- The source reads the keyword `true` as `TRUE`. -/
def SourceView.ReadsTrue (view : SourceView) : Prop :=
  ∀ text es, isUnrestricted text = true → view.parse text = .ok es → ∀ e ∈ es, e.AlwaysTrue

/-- The representation invariant of a grant. -/
structure SourceGrant.Coupled (g : SourceGrant) : Prop where
  /-- A verb that is not granted has no predicates. -/
  denied : ∀ v, v ∉ g.verbs → g.usingPredicates v = none ∧ g.checkPredicates v = none
  /-- A key that no policy set is the table's own, and needs no check. -/
  ownKey : g.keySet = false → g.key = g.discoveredKey ∧ g.keyVerified = true
  unrestricted : g.selectUnrestricted = true →
    .select ∈ g.verbs ∧ ∃ e, g.usingPredicates .select = some e ∧ e.AlwaysTrue
  /-- What an insert or update may write is checked. -/
  checked : ∀ v, v = .insert ∨ v = .update → v ∈ g.verbs → (g.usingPredicates v).isSome = true →
    (g.checkPredicates v).isSome = true

/-- The part of the invariant that a resolved verb brings. -/
structure ResolvedVerb.Coupled (r : ResolvedVerb) (verb : CrossingVerb) : Prop where
  denied : r.granted = false → r.usingPredicate = none ∧ r.checkPredicate = none
  unrestricted : r.unrestricted = true → r.granted = true ∧
    ∃ e, r.usingPredicate = some e ∧ e.AlwaysTrue
  checked : verb = .insert ∨ verb = .update → r.usingPredicate.isSome = true →
    r.checkPredicate.isSome = true

theorem alwaysTrue_constant : (Expr.constant (.boolean true)).AlwaysTrue := by
  intro values e' h sem read env
  cases h
  exact ⟨_, rfl, rfl⟩

section

variable {g : SourceGrant} {verb : CrossingVerb} {r : ResolvedVerb} {view : SourceView}
  {values : ContextValues} {entry : SourceEntry}

theorem coupled_empty : SourceGrant.Coupled {} where
  denied v _ := ⟨rfl, rfl⟩
  ownKey _ := ⟨rfl, rfl⟩
  unrestricted h := by cases h
  checked v _ h := absurd h (Finset.notMem_empty v)

/-- Allowing a verb without predicates. -/
theorem SourceGrant.Coupled.allow (h : g.Coupled) (hv : g.usingPredicates verb = none) :
    (g.allow verb).Coupled where
  denied v hnot := h.denied v fun hmem => hnot (Finset.mem_insert_of_mem hmem)
  ownKey := h.ownKey
  unrestricted hu := ⟨Finset.mem_insert_of_mem (h.unrestricted hu).1, (h.unrestricted hu).2⟩
  checked v hw hmem hsome := by
    rcases Finset.mem_insert.1 hmem with rfl | hmem
    · rw [show (g.allow v).usingPredicates v = none from hv] at hsome
      cases hsome
    · exact h.checked v hw hmem hsome

theorem coupled_created (key : List String) : (createdGrant key).Coupled := by
  have step : ∀ (vs : List CrossingVerb) (g : SourceGrant), g.Coupled →
      (∀ v, g.usingPredicates v = none) →
        (vs.foldl (fun g v => if (v = .update ∨ v = .delete) ∧ g.key = [] then g else g.allow v)
          g).Coupled := by
    intro vs
    induction vs with
    | nil => exact fun g hg _ => hg
    | cons v vs ih =>
      intro g hg hnone
      rw [List.foldl_cons]
      split_ifs
      · exact ih g hg hnone
      · exact ih (g.allow v) (hg.allow (hnone v)) hnone
  refine step crossingVerbs _ ?_ fun _ => rfl
  exact ⟨fun v _ => ⟨rfl, rfl⟩, fun _ => ⟨rfl, rfl⟩, nofun,
    fun v _ h => absurd h (Finset.notMem_empty v)⟩

theorem SourceGrant.Coupled.installFacts (h : g.Coupled) (facts : TableFacts) :
    (installFacts g facts).Coupled where
  denied := h.denied
  ownKey hset := by
    have hset : g.keySet = false := hset
    refine ⟨?_, (h.ownKey hset).2⟩
    show (if g.keySet = true then g.key else facts.discoveredKey) = facts.discoveredKey
    rw [hset]
    rfl
  unrestricted := h.unrestricted
  checked := h.checked

theorem SourceGrant.Coupled.installKey (h : g.Coupled) (resolved : ResolvedKey) :
    (installKey g resolved).Coupled where
  denied := h.denied
  ownKey hset := by
    have hset : resolved.set = false := hset
    simp [VirtualCatalog.installKey, hset]
  unrestricted := h.unrestricted
  checked := h.checked

theorem SourceGrant.Coupled.installVerb (h : g.Coupled) (hr : r.Coupled verb) :
    (installVerb g verb r).Coupled where
  denied v hnot := by
    by_cases hv : v = verb
    · subst hv
      have hdenied : r.granted = false := by
        by_contra hgranted
        refine hnot ?_
        show v ∈ if r.granted = true then _ else _
        rw [if_pos (Bool.of_not_eq_false hgranted)]
        exact Finset.mem_insert_self v _
      simpa [VirtualCatalog.installVerb] using hr.denied hdenied
    · have hold : v ∉ g.verbs := by
        intro hmem
        refine hnot ?_
        show v ∈ if r.granted = true then _ else _
        split_ifs
        · exact Finset.mem_insert_of_mem hmem
        · exact Finset.mem_erase_of_ne_of_mem hv hmem
      simpa [VirtualCatalog.installVerb, hv] using h.denied v hold
  ownKey := h.ownKey
  unrestricted hu := by
    by_cases hv : verb = .select
    · subst hv
      obtain ⟨hgranted, hexpr⟩ := hr.unrestricted (by simpa [VirtualCatalog.installVerb] using hu)
      simpa [VirtualCatalog.installVerb, hgranted] using hexpr
    · obtain ⟨hmem, hexpr⟩ := h.unrestricted (by simpa [VirtualCatalog.installVerb, hv] using hu)
      refine ⟨?_, by simpa [VirtualCatalog.installVerb, Ne.symm hv] using hexpr⟩
      show _ ∈ if r.granted = true then _ else _
      split_ifs
      · exact Finset.mem_insert_of_mem hmem
      · exact Finset.mem_erase_of_ne_of_mem (Ne.symm hv) hmem
  checked v hw hmem hsome := by
    by_cases hv : v = verb
    · subst hv
      have hsome : r.usingPredicate.isSome = true := by
        simpa [VirtualCatalog.installVerb] using hsome
      simpa [VirtualCatalog.installVerb] using hr.checked hw hsome
    · have hold : v ∈ g.verbs := by
        have hmem : v ∈ if r.granted = true then insert verb g.verbs else g.verbs.erase verb := hmem
        split_ifs at hmem
        · exact (Finset.mem_insert.1 hmem).resolve_left hv
        · exact Finset.mem_of_mem_erase hmem
      have hsome : (g.usingPredicates v).isSome = true := by
        simpa [VirtualCatalog.installVerb, hv] using hsome
      simpa [VirtualCatalog.installVerb, hv] using h.checked v hw hold hsome

/-! ### What resolving gives -/

theorem coupled_denied : ResolvedVerb.Coupled {} verb where
  denied _ := ⟨rfl, rfl⟩
  unrestricted h := by cases h
  checked _ h := by cases h

/-- A predicate is what the source reads. -/
theorem parse_of_parseAndValidatePredicate {text clause : String} {e : Expr}
    (h : parseAndValidatePredicate view entry text clause values = .ok e) :
    view.parse text = .ok [e] := by
  obtain ⟨es, hes, h⟩ := bind_eq_ok h
  split at h
  · split at h
    · cases h
    · obtain ⟨_, -, h⟩ := bind_eq_ok h
      cases h
      exact hes
  · cases h

/-- An insert or update has a check. -/
theorem isSome_of_resolveCheck {policy : PolicyVerb} {u : Expr} {c : Option Expr}
    (hw : verb = .insert ∨ verb = .update)
    (h : resolveCheck view entry verb policy values u = .ok c) : c.isSome = true := by
  rw [resolveCheck.eq_def] at h
  split at h
  · cases hp : parseAndValidatePredicate view entry policy.checkText "WITH CHECK" values with
    | error x => rw [hp] at h; cases h
    | ok e => rw [hp] at h; cases h; rfl
  · rcases hw with rfl | rfl
    · cases h
    · cases h
      rfl

/-- **A resolved verb fits together.** -/
theorem resolveVerb_coupled {name : PolicyName} {policy : PolicyVerb} (hview : view.ReadsTrue)
    (h : resolveVerb view entry name verb policy values = .ok r) : r.Coupled verb := by
  rw [resolveVerb] at h
  obtain ⟨_, -, h⟩ := bind_eq_ok h
  obtain ⟨_, -, h⟩ := bind_eq_ok h
  obtain ⟨u, hu, h⟩ := bind_eq_ok h
  obtain ⟨c, hc, h⟩ := bind_eq_ok h
  obtain ⟨_, -, h⟩ := bind_eq_ok h
  cases h
  refine ⟨fun h => (by cases h), fun hunrestricted => ⟨rfl, u, ?_, ?_⟩,
    fun hw _ => isSome_of_resolveCheck hw hc⟩
  · obtain ⟨hselect, -⟩ := Bool.and_eq_true_iff.1 hunrestricted
    rw [of_decide_eq_true hselect]
    rfl
  · obtain ⟨-, htext⟩ := Bool.and_eq_true_iff.1 hunrestricted
    exact hview policy.usingText [u] htext (parse_of_parseAndValidatePredicate hu) u
      List.mem_cons_self

theorem resolveTable_coupled {table : PolicyTable} (hview : view.ReadsTrue)
    (h : resolveTable view values table entry = .ok g) : g.Coupled := by
  obtain ⟨g₁, h₁, h⟩ := bind_eq_ok h
  have hverbs : g₁.Coupled := by
    refine foldlM_keeps h₁ (coupled_empty.installFacts _) fun g v g' hg hs => ?_
    split_ifs at hs
    · obtain ⟨r, hr, hs⟩ := bind_eq_ok (guarded_eq_ok hs)
      cases hs
      exact hg.installVerb (resolveVerb_coupled hview hr)
    · cases hs
      exact hg
  obtain ⟨g₂, h₂, h⟩ := bind_eq_ok h
  have hkey : g₂.Coupled := by
    rw [resolveTableKey] at h₂
    split at h₂
    · cases h₂
      exact hverbs
    · obtain ⟨r, -, h₂⟩ := bind_eq_ok (guarded_eq_ok h₂)
      cases h₂
      exact hverbs.installKey r
  refine foldlM_keeps h hkey fun g p g' hg hs => ?_
  obtain ⟨_, -, hs⟩ := bind_eq_ok (guarded_eq_ok hs)
  cases hs
  exact ⟨hg.denied, hg.ownKey, hg.unrestricted, hg.checked⟩

theorem resolvePolicy_coupled {config : PolicyConfig} {state : PolicyState}
    (hview : view.ReadsTrue) (h : resolvePolicy view values config = .ok state) :
    AllGrants SourceGrant.Coupled state.tables.grantAt := by
  obtain ⟨schemas, -, h⟩ := bind_eq_ok h
  obtain ⟨tables, ht, h⟩ := bind_eq_ok h
  cases h
  refine foldlM_keeps ht (P := fun T => AllGrants SourceGrant.Coupled (GrantTables.grantAt T))
    allGrants_empty fun T table T' hT hs => ?_
  obtain ⟨entry, -, hs⟩ := bind_eq_ok hs
  obtain ⟨g, hg, hs⟩ := bind_eq_ok hs
  cases hs
  exact hT.set (resolveTable_coupled hview hg)

end

/-! ### What committing keeps -/

namespace PolicyCommit

variable {target : PolicyName}

/-- The grant that a commit starts from: the one that is there, or a new one. -/
theorem found_coupled {state : PolicyState} (h : AllGrants SourceGrant.Coupled state.tables.grantAt)
    (schema table : String) : ((state.tables.findGrant schema table).getD {}).Coupled := by
  cases hf : state.tables.findGrant schema table with
  | none => exact coupled_empty
  | some g => exact h (tableKey schema table) g hf

theorem keeps_verb {v : CrossingVerb} {resolved : ResolvedVerb} (facts : TableFacts)
    (hr : resolved.Coupled v) : (verb target v resolved facts).Keeps SourceGrant.Coupled := by
  intro state h
  have hg := found_coupled h target.schema target.name
  rw [applyPending]
  split_ifs
  · exact h.set ((hg.installFacts facts).installVerb hr)
  · split
    · exact h
    next g hf =>
      rw [hf] at hg
      dsimp only
      split_ifs
      · exact h.revoke
      · exact h.set (SourceGrant.Coupled.installVerb hg hr)

theorem keeps_primaryKey (resolved : ResolvedKey) :
    (primaryKey target resolved).Keeps SourceGrant.Coupled := by
  intro state h
  rw [applyPending]
  split_ifs
  · exact h
  · exact h.set ((found_coupled h target.schema target.name).installKey resolved)

theorem keeps_foreignKeys (op : PolicyListOp) (parents : List PolicyName) :
    (foreignKeys target op parents).Keeps SourceGrant.Coupled := by
  intro state h
  have hg := found_coupled h target.schema target.name
  rw [applyPending]
  split_ifs
  · exact h
  · exact h.set ⟨hg.denied, hg.ownKey, hg.unrestricted, hg.checked⟩

/-- **A resolved request keeps the fields of every grant together.** -/
theorem keeps_of_resolve {request : PolicyRequest} {view : SourceView} {values : ContextValues}
    {commit : PolicyCommit} (hview : view.ReadsTrue)
    (h : request.resolve view values = .ok commit) : commit.Keeps SourceGrant.Coupled := by
  cases request with
  | configure config =>
    rw [PolicyRequest.resolve] at h
    cases hp : resolvePolicy view values config with
    | error e => rw [hp] at h; cases h
    | ok state =>
      rw [hp] at h
      cases h
      exact fun _ _ => resolvePolicy_coupled hview hp
  | set edit =>
    rw [PolicyRequest.resolve] at h
    cases edit with
    | verb target verb value =>
      rw [resolveEdit] at h
      split_ifs at h
      · obtain ⟨entry, -, h⟩ := bind_eq_ok h
        obtain ⟨r, hr, h⟩ := bind_eq_ok h
        cases h
        exact keeps_verb _ (resolveVerb_coupled hview hr)
      · cases h
        exact keeps_verb _ coupled_denied
    | create target granted =>
      rw [resolveEdit] at h
      split_ifs at h
      · obtain ⟨_, -, h⟩ := bind_eq_ok h
        cases h
        exact fun _ h => h
      · cases h
        exact fun _ h => h
    | primaryKey target key =>
      cases key with
      | none => cases h; exact keeps_primaryKey _
      | some key =>
        obtain ⟨entry, -, h⟩ := bind_eq_ok h
        obtain ⟨r, -, h⟩ := bind_eq_ok h
        cases h
        exact keeps_primaryKey r
    | foreignKeys target op parents =>
      rw [resolveEdit] at h
      split_ifs at h
      · obtain ⟨entry, -, h⟩ := bind_eq_ok h
        obtain ⟨_, -, h⟩ := bind_eq_ok h
        cases h
        exact keeps_foreignKeys op parents
      · cases h
        exact keeps_foreignKeys op parents
    | whitelist op functions => cases h; exact fun _ h => h

end PolicyCommit

namespace Registry

variable {s : Registry} {nonce : String}

/-- **The fields of every grant fit together**, after any sequence of edits, documents, redeems and
DDL, each committed or rolled back. -/
theorem grants_coupled (h : (registryMachine nonce).ReachableBy (Answers SourceView.ReadsTrue) {} s)
    {b : Nat} {bridge : Bridge} (hb : s.bridges b = some bridge) {schema table : String}
    {g : SourceGrant} (hg : bridge.book.tables.findGrant schema table = some g) : g.Coupled :=
  (grantsHave_of_reachable coupled_created PolicyCommit.keeps_of_resolve h).book b bridge hb
    (tableKey schema table) g hg

namespace Sample

/-- The owner sets a key and grants a verb, and a target attaches. -/
def attached : List RegistryLabel := keeping ++ [.redeem "b" "token" (.ok ())]

theorem people_readsTrue : people.ReadsTrue := by
  intro text es _ hes e he
  cases hes
  cases List.mem_singleton.1 he
  exact alwaysTrue_constant

end Sample

theorem grants_coupled_attached : ∃ bridge g,
    (Sample.after Sample.attached).bridges 0 = some bridge ∧
    bridge.book.tables.findGrant "main" "people" = some g ∧ g.selectUnrestricted = true ∧
      g.Coupled := by
  have answers : ∀ l ∈ Sample.attached, ∀ s, Answers SourceView.ReadsTrue s l := by
    intro l hl s
    cases l with
    | resolve i view =>
      have hview : view = Sample.people := by
        simp [Sample.attached, Sample.keeping, Sample.setting] at hl
        exact hl.2
      exact hview ▸ Sample.people_readsTrue
    | _ => trivial
  have run : (registryMachine "n").ReachableBy (Answers SourceView.ReadsTrue) {}
      (Sample.after Sample.attached) := ⟨Sample.attached, Machine.run_of_exec_forall rfl answers⟩
  have hsome : (((Sample.after Sample.attached).bridges 0).bind fun bridge =>
      bridge.book.tables.findGrant "main" "people").map SourceGrant.selectUnrestricted =
        some true := rfl
  obtain ⟨g, hfound, hg⟩ := Option.map_eq_some_iff.1 hsome
  obtain ⟨bridge, hb, hfound⟩ := Option.bind_eq_some_iff.1 hfound
  exact ⟨bridge, g, hb, hfound, hg, grants_coupled run hb hfound⟩

end Registry

end VirtualCatalog
