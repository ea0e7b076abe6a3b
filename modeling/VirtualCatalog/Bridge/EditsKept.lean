import VirtualCatalog.Bridge.EditEffect
import VirtualCatalog.Bridge.Edits

/-!
# No policy edit is lost

Every call that succeeds leaves its mark on the policy of one registration, the one it looked up as long
as that stands; one that is refused, wherever it is, leaves every policy as it was; and the policy of a
registration is there until its entry is dropped.

* `Registry.Untouched` : nothing changes but the entries that have expired.
* `Registry.Fails` : the labels at which a policy call is refused.
* `Registry.Standing` : a registration that is pending, or whose source is attached.
* `Registry.EditsKept`, `no_edit_lost` : what holds of every reachable registry.
-/

namespace VirtualCatalog

namespace Registry

variable {s s' : Registry} {agent : Agent} {nonce id : String} {db r : Nat}

/-! ### Refusals -/

/-- Nothing happens but that expired entries go, and that others are touched. -/
structure Untouched (s s' : Registry) : Prop where
  history : s'.history = s.history
  bridges : s'.bridges = s.bridges
  live : s'.live = s.live
  contexts : s'.contexts = s.contexts
  entries : ∀ id p', s'.pending id = some p' →
    ∃ p, s.pending id = some p ∧ p' = { p with lastTouched := p'.lastTouched }
  kept : ∀ id p, s.pending id = some p → s.expired p = false →
    ∃ t, s'.pending id = some { p with lastTouched := t }

/-- A policy call is refused. -/
def Fails (s : Registry) : RegistryLabel → Prop
  | .setPolicy db id request => ∃ e, (s.lookUpOpenBridge db id request).1 = .error e
  | .resolve i view => ∃ call values e, s.calls[i]? = some (.policy call) ∧
      call.stage = .snapshotted values ∧ call.request.resolve view values = .error e
  | .finish i => ∃ call commit e, s.calls[i]? = some (.policy call) ∧
      call.stage = .resolved commit ∧ (s.commitCall call commit).1 = .error e
  | .finalizePolicy db id => ∃ e, (s.finalizePolicy db id).1 = .error e
  | _ => False

theorem Untouched.withCalls (h : s.Untouched s') (calls : List RegistryCall) :
    s.Untouched (s'.withCalls calls) :=
  ⟨h.history, h.bridges, h.live, h.contexts, h.entries, h.kept⟩

theorem untouched_refl : s.Untouched s :=
  ⟨rfl, rfl, rfl, rfl, fun _ p hp => ⟨p, hp, rfl⟩, fun _ p hp _ => ⟨p.lastTouched, hp⟩⟩

/-- **A lookup changes nothing**, whether it finds something or not. -/
theorem untouched_lookupGrantTarget : s.Untouched (s.lookupGrantTarget id db).2 := by
  have purged : s.Untouched s.purge :=
    ⟨rfl, rfl, rfl, rfl, fun _ p hp => ⟨p, (expired_of_purge hp).1, rfl⟩,
      fun _ p hp hx => ⟨p.lastTouched, pending_purge hp hx⟩⟩
  rw [lookupGrantTarget]
  split
  next p hp =>
    split_ifs
    · exact purged
    · refine ⟨rfl, rfl, rfl, rfl, fun id' p' hp' => ?_, fun id' p' hp' hx => ?_⟩
      · rw [pending_setPending] at hp'
        split_ifs at hp' with hid
        · cases hp'
          exact ⟨p, hid ▸ (expired_of_purge hp).1, rfl⟩
        · exact purged.entries id' p' hp'
      · rw [pending_setPending]
        split_ifs with hid
        · subst hid
          rw [(expired_of_purge hp).1] at hp'
          cases hp'
          exact ⟨_, rfl⟩
        · exact purged.kept id' p' hp' hx
  · exact purged

theorem untouched_lookupOpenGrants : s.Untouched (s.lookupOpenGrants id db).2 :=
  untouched_lookupGrantTarget

theorem untouched_lookUpOpenBridge {request : PolicyRequest} {e : BridgeError}
    (h : (s.lookUpOpenBridge db id request).1 = .error e) :
    s.Untouched (s.lookUpOpenBridge db id request).2 := by
  have hl := @untouched_lookupOpenGrants s id db
  rw [lookUpOpenBridge] at h ⊢
  split
  next hf => rwa [hf] at hl
  next hf => rw [hf] at h; cases h

theorem untouched_commitCall {call : PolicyCall} {commit : PolicyCommit} {e : BridgeError}
    (h : (s.commitCall call commit).1 = .error e) : s.Untouched (s.commitCall call commit).2 := by
  have hl := @untouched_lookupOpenGrants s call.bridgeId call.sourceDb
  rw [commitCall] at h ⊢
  split
  next hf => rwa [hf] at hl
  next target s₁ hf =>
    rw [hf] at hl h
    dsimp only at h ⊢
    split
    next hentry => rw [hentry] at h; cases h
    next hentry =>
      rw [hentry] at h
      dsimp only at h ⊢
      split
      next => exact hl
      next hok => rw [hok] at h; cases h

theorem untouched_finalizePolicy {e : BridgeError} (h : (s.finalizePolicy db id).1 = .error e) :
    s.Untouched (s.finalizePolicy db id).2 := by
  have hl := @untouched_lookupGrantTarget s id db
  rw [finalizePolicy] at h ⊢
  split
  next hf => rwa [hf] at hl
  next target s₁ hf =>
    rw [hf] at hl h
    dsimp only at h ⊢
    split_ifs at h ⊢ with hfin
    · exact hl
    · cases hentry : target.entry <;> rw [hentry] at h <;> cases h

/-- **A call that is refused changes nothing.** -/
theorem untouched_of_fails {l : RegistryLabel} (hf : s.Fails l) (h : s.next nonce l = some s') :
    s.Untouched s' := by
  unfold next at h
  cases l with
  | setPolicy db id request =>
    obtain ⟨e, he⟩ := hf
    dsimp only at h
    split_ifs at h
    cases h
    exact untouched_lookUpOpenBridge he
  | resolve i view =>
    obtain ⟨call, values, e, hi, hs, he⟩ := hf
    dsimp only at h
    rw [hi, Option.bind_some, resolve, hs] at h
    dsimp only at h
    rw [he] at h
    cases h
    exact untouched_refl.withCalls _
  | finish i =>
    obtain ⟨call, commit, e, hi, hs, he⟩ := hf
    dsimp only at h
    rw [hi, Option.bind_some, finish, hs] at h
    cases h
    exact (untouched_commitCall he).withCalls _
  | finalizePolicy db id =>
    obtain ⟨e, he⟩ := hf
    dsimp only at h
    split_ifs at h
    cases h
    exact untouched_finalizePolicy he
  | _ => cases hf

/-! ### The registration of a call -/

/-- The registration that the id has now. -/
def current (s : Registry) (id : String) : Option Nat :=
  match s.purge.pending id with
  | some p => some p.registration
  | none => (s.liveBridge id).map fun pair => pair.2.registration

/-- The registration `r` is pending, or its source is attached. -/
def Standing (s : Registry) (r : Nat) : Prop :=
  (∃ id p, s.pending id = some p ∧ p.registration = r ∧ s.expired p = false) ∨
    ∃ b bridge, s.bridges b = some bridge ∧ bridge.registration = r ∧ bridge.attached = true

/-- Registrations, books and calls are filed under the same ids. -/
structure Filed (s : Registry) (ids : Nat → String) : Prop where
  pending : ∀ id p, s.pending id = some p → ids p.registration = id
  books : ∀ b bridge, s.bridges b = some bridge → ids bridge.registration = bridge.bridgeId
  calls : ∀ call, .policy call ∈ s.calls →
    ids call.registration = call.bridgeId ∧ call.registration < s.registrations

/-- **Every move keeps the ids.** -/
theorem Filed.move {ids : Nat → String} (h : s.Filed ids) (hs : s.Registered)
    (hm : Move agent s s') : ∃ ids', s'.Filed ids' := by
  have hn := (Continues.of_move hm).registrations
  have hs' := hs.move hm
  -- a call is that of before, or it has just looked up
  have filed : ∀ ids' : Nat → String, (∀ r < s.registrations, ids' r = ids r) →
      (∀ id p, s'.pending id = some p → ids' p.registration = id) →
      (∀ b bridge, s'.bridges b = some bridge → ids' bridge.registration = bridge.bridgeId) →
      s'.Filed ids' := by
    intro ids' hids hp hb
    refine ⟨hp, hb, fun call' hcall' => ?_⟩
    rcases policyCall_of_move hm hcall' with ⟨call, hcall, hid, -, hr, -⟩ |
      ⟨-, -, target, ht, hr, -⟩
    · obtain ⟨h₁, h₂⟩ := h.calls call hcall
      exact ⟨by rw [hr, hids _ h₂, h₁, hid], hr ▸ h₂.trans_le hn⟩
    · rw [← hr]
      cases ht with
      | pending p hp' => exact ⟨hp _ p hp', hs'.numbered _ p hp'⟩
      | live entry bridge _ hl =>
        obtain ⟨he, hb', -⟩ := bridges_of_liveBridge hl
        obtain ⟨bridge', hb'', hid, -⟩ := hs'.live _ entry he
        rw [hb'] at hb''
        cases hb''
        exact ⟨(hb _ bridge hb').trans hid, (hs'.books _ bridge hb').1⟩
  rcases hm.quiet_or with hq | ⟨id, p, -, -, hr, -, rfl⟩ | ⟨id, p, hp, rfl⟩ | ⟨id, p, hp, rfl⟩ |
    ⟨b, bridge, hb, rfl⟩
  · refine ⟨ids, filed ids (fun _ _ => rfl) (fun id p' hp' => ?_) fun b bridge' hb' => ?_⟩
    · obtain ⟨p, hp, hr, -⟩ := hq.pending id p' hp'
      rw [hr]
      exact h.pending id p hp
    · obtain ⟨bridge, hb, hr, hid, -⟩ := hq.bridge hb'
      rw [hr, hid]
      exact h.books b bridge hb
  · have hids : ∀ r < s.registrations, Function.update ids s.registrations id r = ids r :=
      fun r hlt => Function.update_of_ne hlt.ne _ _
    refine ⟨_, filed _ hids (fun id' p' hp' => ?_) fun b bridge hb => ?_⟩
    · rw [pending_addPending] at hp'
      split_ifs at hp' with hid
      · cases hp'
        rw [hr, Function.update_self, hid]
      · rw [hids _ (hs.numbered id' p' hp')]
        exact h.pending id' p' hp'
    · rw [hids _ (hs.books b bridge hb).1]
      exact h.books b bridge hb
  · refine ⟨ids, filed ids (fun _ _ => rfl) (fun id' p' hp' => ?_) fun b bridge hb => ?_⟩
    · rw [pending_wrongToken] at hp'
      split_ifs at hp' with hid
      · rw [afterWrongToken] at hp'
        split_ifs at hp'
        cases hp'
        rw [hid]
        exact h.pending id p hp
      · exact h.pending id' p' hp'
    · have hb : s.bridges b = some bridge := by
        rw [wrongToken_eq] at hb
        exact hb
      exact h.books b bridge hb
  · refine ⟨ids, filed ids (fun _ _ => rfl) (fun id' p' hp' => ?_) fun b bridge hb => ?_⟩
    · exact h.pending id' p' (dropPending_sub hp').1
    · rw [bridges_attach] at hb
      split_ifs at hb
      · cases hb
        exact h.pending id p hp
      · exact h.books b bridge hb
  · obtain ⟨live, heq⟩ := s.destroySource_eq b bridge
    rw [heq] at filed ⊢
    refine ⟨ids, filed ids (fun _ _ => rfl) (fun id' p' hp' => h.pending id' p' hp')
      fun b' bridge' hb' => ?_⟩
    change (s.setBridge b _).bridges b' = some bridge' at hb'
    rw [bridges_setBridge] at hb'
    split_ifs at hb'
    · cases hb'
      exact h.books b bridge hb
    · exact h.books b' bridge' hb'

theorem filed_empty : Filed {} fun _ => "" where
  pending _ _ h := by cases h
  books _ _ h := by cases h
  calls _ h := by cases h

theorem filed_of_reachable {C : Registry → RegistryLabel → Prop}
    (h : (registryMachine nonce).ReachableBy C {} s) : s.Registered ∧ ∃ ids, s.Filed ids := by
  refine h.invariant (I := fun s => s.Registered ∧ ∃ ids, s.Filed ids)
    ⟨registered_empty, _, filed_empty⟩ ?_
  intro s l t hi _ hnext
  have hm := next_moves hnext
  clear hnext
  generalize s.agent l = agent at hm
  induction hm with
  | refl => exact hi
  | tail _ hm ih =>
    obtain ⟨ids, hids⟩ := ih.2
    exact ⟨ih.1.move hm, hids.move ih.1 hm⟩

/-- **A registration that stands is the one its id has.** -/
theorem Filed.current_of_standing {ids : Nat → String} (h : s.Filed ids) (hs : s.Registered)
    (hr : s.Standing r) : s.current (ids r) = some r := by
  rw [current]
  rcases hr with ⟨id, p, hp, rfl, hx⟩ | ⟨b, bridge, hb, rfl, ha⟩
  · rw [h.pending id p hp, pending_purge hp hx]
  · rw [h.books b bridge hb]
    obtain ⟨entry, he, rfl⟩ := hs.attached b bridge hb ha
    have hp : s.purge.pending bridge.bridgeId = none := by
      cases hp : s.purge.pending bridge.bridgeId with
      | none => rfl
      | some p => rw [hs.exclusive _ p (expired_of_purge hp).1] at he; cases he
    have hl : s.liveBridge bridge.bridgeId = some (entry, bridge) := by
      rw [liveBridge, he, Option.bind_some, hb, Option.filter_some_pos (by simp [Bridge.alive, ha])]
      rfl
    rw [hp, hl]
    rfl

/-! ### Calls that succeed -/

/-- An event `e` is noted for the registration that the id has now, whose policy becomes `state'`. -/
structure Marks (s s' : Registry) (id : String) (r : Nat) (state state' : PolicyState) (f : Bool)
    (e : RegistryEvent) : Prop where
  current : s.current id = some r
  before : s.HasPolicy r state false
  after : s'.HasPolicy r state' f
  noted : s'.history = (r, e) :: s.history

theorem HasPolicy.cast {state : PolicyState} {f f' : Bool} (h : s.HasPolicy r state f) (hf : f = f') :
    s.HasPolicy r state f' :=
  hf ▸ h

theorem Untouched.hasPolicy (h : s.Untouched s') {state : PolicyState} {f : Bool}
    (hp : s'.HasPolicy r state f) : s.HasPolicy r state f := by
  cases hp with
  | pending hp hr =>
    obtain ⟨p, hp₀, heq⟩ := h.entries _ _ hp
    have before : s.HasPolicy p.registration p.state p.policyFinalized := .pending hp₀ rfl
    rw [heq] at hr ⊢
    exact hr ▸ before
  | live hb hr => exact .live (h.bridges ▸ hb) hr

/-- A lookup finds the registration that the id has now. -/
theorem current_of_lookupGrantTarget {target : GrantTarget}
    (h : (s.lookupGrantTarget id db).1 = .ok target) :
    s.current id = some target.registration := by
  rw [lookupGrantTarget] at h
  rw [current]
  cases hp : s.purge.pending id with
  | some p =>
    rw [hp] at h
    dsimp only at h ⊢
    split_ifs at h
    cases h
    rfl
  | none =>
    rw [hp] at h
    dsimp only at h ⊢
    rw [lookupLive] at h
    split at h
    · cases h
    next entry bridge hl =>
      have hl : s.liveBridge id = some (entry, bridge) := hl
      split_ifs at h
      cases h
      rw [hl]
      rfl

theorem current_of_lookupOpenGrants {target : GrantTarget}
    (h : (s.lookupOpenGrants id db).1 = .ok target) :
    s.current id = some target.registration := by
  rw [lookupOpenGrants] at h
  obtain ⟨found, hf, h⟩ := bind_eq_ok h
  obtain ⟨_, -, h⟩ := bind_eq_ok h
  cases h
  exact current_of_lookupGrantTarget hf

/-- **A call that commits applies its edit** to the policy of the registration that its id has now. -/
theorem marks_commitCall {call : PolicyCall} {commit : PolicyCommit}
    (h : (s.commitCall call commit).1 = .ok ()) : ∃ r state state',
      s.Marks (s.commitCall call commit).2 call.bridgeId r state state' false
        (.committed call.registration commit) ∧ state'.Same (commit.applyPending state) := by
  have hu := @untouched_lookupOpenGrants s call.bridgeId call.sourceDb
  have hc := @current_of_lookupOpenGrants s call.bridgeId call.sourceDb
  rw [commitCall] at h ⊢
  cases hl : s.lookupOpenGrants call.bridgeId call.sourceDb with
  | mk found s₁ =>
    rw [hl] at h hu hc
    cases found with
    | error e => cases h
    | ok target =>
      obtain ⟨ht, hf⟩ := (lookupOpenGrants_moves (V := fun _ => True) hl).2.2 target rfl
      have hc := hc rfl
      cases ht with
      | pending p hp hdb =>
        have before : s₁.HasPolicy p.registration p.state p.policyFinalized := .pending hp rfl
        refine ⟨p.registration, p.state, commit.applyPending (copyPolicy p.state),
          ⟨hc, hu.hasPolicy (before.cast hf), ?_, congrArg _ hu.history⟩, ?_⟩
        · have hp' : (s₁.setPending call.bridgeId
              { p with state := commit.applyPending (copyPolicy p.state) }).pending call.bridgeId =
              some { p with state := commit.applyPending (copyPolicy p.state) } :=
            Function.update_self ..
          have after := (@HasPolicy.pending _ p.registration _ _ hp' rfl).cast hf
          exact after.of_sub (fun _ _ h => h) rfl
        · exact (PolicyState.Same.copy p.state).applyPending commit
      | live entry bridge hp hlive hdb =>
        obtain ⟨-, hb, -⟩ := bridges_of_liveBridge hlive
        have before : s₁.HasPolicy bridge.registration bridge.book.state bridge.book.policyFinalized :=
          .live hb rfl
        dsimp only at h ⊢
        cases hok : commitPolicy call.bridgeId bridge.book commit with
        | error e => rw [hok] at h; cases h
        | ok book =>
          obtain ⟨-, -, state, happly, -, rfl⟩ := commitPolicy_ok_iff.1 hok
          refine ⟨bridge.registration, bridge.book.state, state,
            ⟨hc, hu.hasPolicy (before.cast hf), ?_, congrArg _ hu.history⟩, ?_⟩
          · have hb' : (s₁.setBridge entry.grants
                { bridge with book := { bridge.book with state := state } }).bridges entry.grants =
                some { bridge with book := { bridge.book with state := state } } :=
              Function.update_self ..
            have after := (@HasPolicy.live _ bridge.registration _ _ hb' rfl).cast hf
            exact after.of_sub (fun _ _ h => h) rfl
          · rw [PolicyCommit.eq_applyPending happly]
            exact (PolicyState.Same.copy bridge.book.state).applyPending commit

/-- **A call that finalizes does so** for the registration that its id has now. -/
theorem marks_finalizePolicy (h : (s.finalizePolicy db id).1 = .ok ()) :
    ∃ r state, s.Marks (s.finalizePolicy db id).2 id r state state true .policyFinalized := by
  have hu := @untouched_lookupGrantTarget s id db
  have hc := @current_of_lookupGrantTarget s id db
  rw [finalizePolicy] at h ⊢
  cases hl : s.lookupGrantTarget id db with
  | mk found s₁ =>
    rw [hl] at h hu hc
    cases found with
    | error e => cases h
    | ok target =>
      have ht := (lookupGrantTarget_moves (V := fun _ => True) hl).2.2 target rfl
      have hc := hc rfl
      dsimp only at h ⊢
      split_ifs at h ⊢ with hf
      cases ht with
      | pending p hp hdb =>
        have before : s₁.HasPolicy p.registration p.state p.policyFinalized := .pending hp rfl
        refine ⟨p.registration, p.state, hc, hu.hasPolicy (before.cast (by simpa using hf)), ?_,
          congrArg _ hu.history⟩
        have hp' : (s₁.setPending id { p with policyFinalized := true }).pending id =
            some { p with policyFinalized := true } := Function.update_self ..
        have after := @HasPolicy.pending _ p.registration _ _ hp' rfl
        exact after.of_sub (fun _ _ h => h) rfl
      | live entry bridge hp hlive hdb =>
        obtain ⟨-, hb, -⟩ := bridges_of_liveBridge hlive
        have before : s₁.HasPolicy bridge.registration bridge.book.state bridge.book.policyFinalized :=
          .live hb rfl
        refine ⟨bridge.registration, bridge.book.state, hc,
          hu.hasPolicy (before.cast (by simpa using hf)), ?_, congrArg _ hu.history⟩
        have hb' : (s₁.setBridge entry.grants
            { bridge with book := { bridge.book with policyFinalized := true } }).bridges entry.grants =
            some { bridge with book := { bridge.book with policyFinalized := true } } :=
          Function.update_self ..
        have after := @HasPolicy.live _ bridge.registration _ _ hb' rfl
        exact after.of_sub (fun _ _ h => h) rfl

/-! ### A registration that stays -/

/-- The registration `r` has a policy. -/
def Held (s : Registry) (r : Nat) : Prop := ∃ state f, s.HasPolicy r state f

/-- The label does not find the entry of `r` expired, nor does it compare a wrong token with its own. -/
def Stays (r : Nat) (s : Registry) (l : RegistryLabel) : Prop :=
  ∀ id p, s.pending id = some p → p.registration = r →
    s.expired p = false ∧ ∀ token settings, l = .redeem id token settings → token = p.token

section

variable (h : s.Held r)
include h

/-- The entries of `r` stay, and the books. -/
theorem Held.of_kept
    (hp : ∀ id p, s.pending id = some p → p.registration = r →
      ∃ p', s'.pending id = some p' ∧ p'.registration = r)
    (hb : s'.bridges = s.bridges) : s'.Held r := by
  obtain ⟨state, f, hpol⟩ := h
  cases hpol with
  | pending hp₀ hr =>
    obtain ⟨p', hp', hr'⟩ := hp _ _ hp₀ hr
    exact ⟨_, _, .pending hp' hr'⟩
  | live hb₀ hr => exact ⟨_, _, .live (hb ▸ hb₀) hr⟩

theorem Held.same (hp : s'.pending = s.pending) (hb : s'.bridges = s.bridges) : s'.Held r :=
  h.of_kept (fun _ p hp₀ hr => ⟨p, hp ▸ hp₀, hr⟩) hb

theorem Held.setPending {p : PendingSource} (p' : PendingSource) (hp : s.pending id = some p)
    (hr : p'.registration = p.registration) : (s.setPending id p').Held r := by
  refine h.of_kept (fun id' q hq hq' => ?_) rfl
  rw [pending_setPending]
  split_ifs with hid
  · subst hid
    rw [hp] at hq
    cases hq
    exact ⟨p', rfl, hr.trans hq'⟩
  · exact ⟨q, hq, hq'⟩

theorem Held.setBridge {b : Nat} {bridge : Bridge} (bridge' : Bridge) (hb : s.bridges b = some bridge)
    (hr : bridge'.registration = bridge.registration) : (s.setBridge b bridge').Held r := by
  obtain ⟨state, f, hpol⟩ := h
  cases hpol with
  | pending hp₀ hr₀ => exact ⟨_, _, .pending hp₀ hr₀⟩
  | @live b' bridge₀ hb₀ hr₀ =>
    by_cases hbb : b' = b
    · subst hbb
      rw [hb] at hb₀
      cases hb₀
      have hb' : (s.setBridge b' bridge').bridges b' = some bridge' := Function.update_self ..
      exact ⟨_, _, .live hb' (hr.trans hr₀)⟩
    · have hb' : (s.setBridge b bridge').bridges b' = some bridge₀ :=
        (Function.update_of_ne hbb _ _).trans hb₀
      exact ⟨_, _, .live hb' hr₀⟩

theorem Held.untouched (hu : s.Untouched s')
    (hx : ∀ id p, s.pending id = some p → p.registration = r → s.expired p = false) :
    s'.Held r := by
  refine h.of_kept (fun id p hp hr => ?_) hu.bridges
  obtain ⟨t, hp'⟩ := hu.kept id p hp (hx id p hp hr)
  exact ⟨_, hp', hr⟩

/-- Another registration takes an id that is free. -/
theorem Held.addPending {p : PendingSource} (hp : s.pending id = none) : (s.addPending id p).Held r := by
  refine h.of_kept (fun id' q hq hq' => ⟨q, ?_, hq'⟩) rfl
  rw [pending_addPending, if_neg, hq]
  rintro rfl
  rw [hp] at hq
  cases hq

/-- The entry of another registration goes. -/
theorem Held.dropPending {p : PendingSource} (hp : s.pending id = some p) (hr : p.registration ≠ r) :
    (s.dropPending id).Held r := by
  refine h.of_kept (fun id' q hq hq' => ⟨q, ?_, hq'⟩) rfl
  rw [pending_dropPending, if_neg, hq]
  rintro rfl
  rw [hp] at hq
  cases hq
  exact hr hq'

/-- A redeemed entry becomes a book. -/
theorem Held.attach (hs : s.Registered) {p : PendingSource} (hp : s.pending id = some p) :
    (s.attach id p).Held r := by
  by_cases hr : p.registration = r
  · have hb : (s.attach id p).bridges s.redeemed = some (bookOf id p) := Function.update_self ..
    exact ⟨_, _, .live hb hr⟩
  · obtain ⟨state, f, hpol⟩ := h.dropPending hp hr
    cases hpol with
    | pending hq hr' => exact ⟨_, _, .pending hq hr'⟩
    | @live b bridge hb hr' =>
      have hb' : (s.attach id p).bridges b = some bridge := by
        rw [bridges_attach, if_neg, ← hb]
        · rfl
        · rintro rfl
          have hb : s.bridges s.redeemed = some bridge := hb
          rw [hs.unmade _ le_rfl] at hb
          cases hb
      exact ⟨_, _, .live hb' hr'⟩

end

/-- The policy of `r` survives the sections of a call. -/
theorem Held.calls (h : s.Held r)
    (hx : ∀ id p, s.pending id = some p → p.registration = r → s.expired p = false) :
    (∀ request, (s.lookUpOpenBridge db id request).2.Held r) ∧
      (∀ call commit, (s.commitCall call commit).2.Held r) ∧
      (s.finalizePolicy db id).2.Held r ∧
      (∀ name value, (s.lookUpContext db id name value).2.Held r) ∧
      (s.finalizeContext db id).2.Held r := by
  have looked : ∀ id db, (s.lookupGrantTarget id db).2.Held r :=
    fun id db => h.untouched untouched_lookupGrantTarget hx
  -- a lookup finds the registration or fails, and each section writes at most its policy
  refine ⟨fun request => ?_, fun call commit => ?_, ?_, fun name value => ?_, ?_⟩
  · have hl : (s.lookupOpenGrants id db).2.Held r := looked id db
    rw [lookUpOpenBridge]
    split
    next hf => rwa [hf] at hl
    next hf =>
      rw [hf] at hl
      exact hl.same rfl rfl
  · have hl : (s.lookupOpenGrants call.bridgeId call.sourceDb).2.Held r := looked _ _
    rw [commitCall]
    split
    next hf => rwa [hf] at hl
    next target s₁ hf =>
      rw [hf] at hl
      cases ((lookupOpenGrants_moves (V := fun _ => True) hf).2.2 target rfl).1 with
      | pending p hp =>
        have held := hl.setPending { p with state := commit.applyPending (copyPolicy p.state) } hp rfl
        exact held.same rfl rfl
      | live entry bridge hp hlive =>
        dsimp only
        split
        · exact hl
        next book hok =>
          have held := hl.setBridge { bridge with book := book }
            (bridges_of_liveBridge hlive).2.1 rfl
          exact held.same rfl rfl
  · have hl := looked id db
    rw [finalizePolicy]
    split
    next hf => rwa [hf] at hl
    next target s₁ hf =>
      rw [hf] at hl
      have ht := (lookupGrantTarget_moves (V := fun _ => True) hf).2.2 target rfl
      split_ifs
      · exact hl
      · cases ht with
        | pending p hp =>
          have held := hl.setPending { p with policyFinalized := true } hp rfl
          exact held.same rfl rfl
        | live entry bridge hp hlive =>
          have held := hl.setBridge
            { bridge with book := { bridge.book with policyFinalized := true } }
            (bridges_of_liveBridge hlive).2.1 rfl
          exact held.same rfl rfl
  · have hl := looked id db
    rw [lookUpContext.eq_def]
    split_ifs
    · exact h
    · exact h
    · split
      next hf => rwa [hf] at hl
      next hf =>
        rw [hf] at hl
        exact hl.same rfl rfl
  · have hl := looked id db
    rw [finalizeContext]
    split
    next hf => rwa [hf] at hl
    next hf =>
      rw [hf] at hl
      dsimp only
      split_ifs
      · exact hl
      · exact hl.same rfl rfl

/-- It survives a registration, and a token that is not wrong. -/
theorem Held.registerSource (h : s.Held r) {pin : Except BridgeError SourcePin}
    {chosen : Option String} {uuid : String} (hp : s.purge.Held r) :
    (s.registerSource nonce db id pin chosen uuid).2.Held r := by
  unfold Registry.registerSource
  split
  · exact h
  split
  · exact h
  split
  · exact h
  dsimp only
  split_ifs with hfree
  · exact hp
  · have hnone : s.purge.pending id = none := by
      simp only [Bool.or_eq_true, not_or, Bool.not_eq_true, Option.isSome_eq_false_iff,
        Option.isNone_iff_eq_none] at hfree
      exact hfree.1
    exact hp.addPending hnone

theorem Held.redeemBridge (h : s.Held r) (hs : s.purge.Registered) (hp : s.purge.Held r)
    {token : String} {settings : Except BridgeError Unit}
    (ht : ∀ p, s.pending id = some p → p.registration = r → token = p.token) :
    (s.redeemBridge nonce id token settings).2.Held r := by
  unfold Registry.redeemBridge
  split
  · exact h
  split
  · exact hp
  next p hpend =>
    obtain ⟨hpend₀, hx⟩ := expired_of_purge hpend
    split
    next hwrong =>
      -- the token of another registration was compared
      have hne : p.registration ≠ r := by
        intro hr
        rw [ht p hpend₀ hr, constantTimeEquals_iff.2 rfl] at hwrong
        cases hwrong
      rw [wrongToken]
      split_ifs
      · exact (hp.dropPending hpend hne).same rfl rfl
      · have held := hp.setPending { p with tokenFailures := p.tokenFailures + 1 } hpend rfl
        exact held.same rfl rfl
    next =>
      split
      · exact hp
      split
      · exact hp
      split
      next hclosed =>
        -- an entry whose instance is gone was purged
        rw [expired, Bool.or_eq_false_iff] at hx
        exact absurd hclosed (of_decide_eq_false hx.2)
      split
      · exact hp
      · exact hp.attach hs hpend

/-- **The policy of a registration survives every label** that lets it stay. -/
theorem Held.next {l : RegistryLabel} (h : s.Held r) (hs : s.Registered) (hl : Stays r s l)
    (hn : s.next nonce l = some s') : s'.Held r := by
  have hx : ∀ id p, s.pending id = some p → p.registration = r → s.expired p = false :=
    fun id p hp hr => (hl id p hp hr).1
  have hpurge : s.purge.Held r :=
    h.of_kept (fun id p hp hr => ⟨p, pending_purge hp (hx id p hp hr), hr⟩) rfl
  unfold Registry.next at hn
  cases l with
  | tick elapsed => cases hn; exact h.same rfl rfl
  | close db => cases hn; exact h.same rfl rfl
  | register db id pin chosen uuid =>
    dsimp only at hn
    split_ifs at hn
    cases hn
    exact h.registerSource hpurge
  | redeem id token settings =>
    cases hn
    exact h.redeemBridge (hs.move (.purge : Move .other s s.purge)) hpurge fun p hp hr =>
      (hl id p hp hr).2 token settings rfl
  | destroySource b =>
    obtain ⟨bridge, hb, hn⟩ := Option.bind_eq_some_iff.1 hn
    split_ifs at hn
    cases hn
    obtain ⟨live, heq⟩ := s.destroySource_eq b bridge
    have held := h.setBridge { bridge with attached := false } hb rfl
    rw [heq]
    exact held.same rfl rfl
  | setPolicy db id request =>
    dsimp only at hn
    split_ifs at hn
    cases hn
    exact (h.calls hx).1 request
  | setContext db id name value =>
    dsimp only at hn
    split_ifs at hn
    cases hn
    exact (h.calls hx).2.2.2.1 name value
  | snapshot i =>
    obtain ⟨call, hi, hn⟩ := Option.bind_eq_some_iff.1 hn
    unfold snapshot at hn
    cases call <;> dsimp only at hn <;> split at hn <;> cases hn <;> exact h.same rfl rfl
  | resolve i view =>
    obtain ⟨call, hi, hn⟩ := Option.bind_eq_some_iff.1 hn
    unfold resolve at hn
    cases call <;> dsimp only at hn <;> split at hn <;> try cases hn
    all_goals split at hn <;> cases hn <;> exact h.same rfl rfl
  | finish i =>
    obtain ⟨call, hi, hn⟩ := Option.bind_eq_some_iff.1 hn
    unfold finish at hn
    cases call with
    | policy call =>
      dsimp only at hn
      split at hn <;> cases hn
      next commit hstage =>
        have held := (@Held.calls s "" 0 r h hx).2.1 call commit
        exact held.same rfl rfl
    | context call =>
      dsimp only at hn
      split at hn <;> cases hn
      unfold writeContext
      dsimp only
      split_ifs <;> exact h.same rfl rfl
  | finalizePolicy db id =>
    dsimp only at hn
    split_ifs at hn
    cases hn
    exact (h.calls hx).2.2.1
  | finalizeContext db id =>
    dsimp only at hn
    split_ifs at hn
    cases hn
    exact (h.calls hx).2.2.2.2
  | beginSession b =>
    obtain ⟨bridge, hb, hn⟩ := Option.bind_eq_some_iff.1 hn
    split_ifs at hn
    obtain ⟨after, -, rfl⟩ := Option.map_eq_some_iff.1 hn
    exact h.setBridge _ hb rfl
  | session b i op =>
    obtain ⟨bridge, hb, hn⟩ := Option.bind_eq_some_iff.1 hn
    obtain ⟨after, -, rfl⟩ := Option.map_eq_some_iff.1 hn
    exact h.setBridge _ hb rfl
  | hold b =>
    obtain ⟨bridge, hb, hn⟩ := Option.bind_eq_some_iff.1 hn
    split_ifs at hn
    cases hn
    exact h.setBridge _ hb rfl
  | release b =>
    obtain ⟨bridge, hb, rfl⟩ := Option.map_eq_some_iff.1 hn
    exact h.setBridge _ hb rfl

/-- It survives every run in which it stays. -/
theorem Held.run {ls : List RegistryLabel} (h : s.Held r) (hs : s.Registered)
    (hrun : (registryMachine nonce).Run (Stays r) s ls s') : s'.Held r := by
  suffices s'.Held r ∧ s'.Registered from this.1
  refine hrun.invariant (I := fun s => s.Held r ∧ s.Registered) ⟨h, hs⟩ ?_
  intro s l t hi hl hnext
  exact ⟨hi.1.next hi.2 hl hnext, hi.2.moves (next_moves hnext)⟩

/-! ### The edits of a registration -/

/-- What the owner of a policy may rely on. -/
structure EditsKept (nonce : String) (s : Registry) : Prop where
  /-- The policy after a run is the one before it with the edits that committed, in their order. -/
  replayed : ∀ r ls s' state f state' f', (registryMachine nonce).Run (NoDdl r) s ls s' →
    s.HasPolicy r state f → s'.HasPolicy r state' f' → ∃ events,
      s'.history = events ++ s.history ∧ state'.Same (replay state (commitsOf r events))
  /-- It is there, unless its entry expires or wrong tokens are tried on it. -/
  stays : ∀ r ls s', (registryMachine nonce).Run (Stays r) s ls s' → s.Held r → s'.Held r
  /-- A commit that succeeds applies its edit, to the registration of its call while that stands. -/
  recorded : ∀ i call commit s', s.calls[i]? = some (.policy call) → call.stage = .resolved commit →
    (s.commitCall call commit).1 = .ok () → s.next nonce (.finish i) = some s' →
      ∃ r state state', s.Marks s' call.bridgeId r state state' false
          (.committed call.registration commit) ∧ state'.Same (commit.applyPending state) ∧
        (s.Standing call.registration → r = call.registration)
  /-- An edit does what it asks for, to a copy of the policy. -/
  applied : ∀ (c : PolicyCommit) state, c.Applied state (c.applyPending (copyPolicy state))
  /-- It leaves what it does not name as it was, the copying of the policy included. -/
  framed : ∀ (c : PolicyCommit) state, c.Frame state (c.applyPending (copyPolicy state))
  /-- A copy has every field and every grant. -/
  copied : (∀ g : SourceGrant, g.copy = g) ∧ ∀ state, (copyPolicy state).Same state
  /-- A call that is refused, in whichever section, changes nothing. -/
  failed : ∀ l s', s.Fails l → s.next nonce l = some s' → s.Untouched s'
  /-- One that finalizes does so. -/
  finalized : ∀ db id s', (s.finalizePolicy db id).1 = .ok () →
    s.next nonce (.finalizePolicy db id) = some s' →
      ∃ r state, s.Marks s' id r state state true .policyFinalized
  /-- Nothing is committed after the policy was finalized. -/
  final : ∀ newer older r, s.history = newer ++ (r, .policyFinalized) :: older →
    commitsOf r newer = []

/-- **No policy edit is lost**, and none is made after the policy is finalized. -/
theorem no_edit_lost (h : (registryMachine nonce).ReachableBy Machine.Free {} s) :
    s.EditsKept nonce := by
  obtain ⟨hfinal, hs⟩ := final_of_reachable h
  obtain ⟨-, ids, hids⟩ := filed_of_reachable h
  refine
    { replayed := fun r ls s' state f state' f' hrun hp hp' => ?_
      stays := fun r ls s' hrun hheld => hheld.run hs hrun
      recorded := fun i call commit s' hi hstage hok hn => ?_
      applied := PolicyCommit.applied_copy
      framed := fun c state => ?_
      copied := ⟨SourceGrant.copy_eq, PolicyState.Same.copy⟩
      failed := fun l s' hf hn => untouched_of_fails hf hn
      finalized := fun db id s' hok hn => ?_
      final := hfinal.last }
  · obtain ⟨-, events, hh, hev⟩ := Evolves.of_run hs hrun
    obtain ⟨state₀, f₀, hp₀, hsame⟩ := hev state' f' hp' (hp.lt hs)
    rw [(hp.unique hs hp₀).1]
    exact ⟨events, hh, hsame⟩
  · obtain ⟨r, state, state', hm, hsame⟩ := marks_commitCall hok
    unfold next at hn
    dsimp only at hn
    rw [hi, Option.bind_some, finish, hstage] at hn
    cases hn
    have after := hm.after.of_sub
      (s := (s.commitCall call commit).2.withCalls ((s.commitCall call commit).2.calls.eraseIdx i))
      (fun _ _ h => h) rfl
    refine ⟨r, state, state', ⟨hm.current, hm.before, after, hm.noted⟩, hsame, fun hr => ?_⟩
    have hcur := hids.current_of_standing hs hr
    rw [(hids.calls call (List.mem_of_getElem? hi)).1, hm.current] at hcur
    exact Option.some.inj hcur
  · have hframe := c.applyPending_frame (copyPolicy state)
    have hcopy := PolicyState.Same.copy state
    exact ⟨fun k hk => (hframe.tables k hk).trans (congrFun hcopy.tables k), hframe.schemas,
      hframe.allowed, hframe.disallowed, hframe.builtins⟩
  · unfold next at hn
    dsimp only at hn
    split_ifs at hn
    cases hn
    exact marks_finalizePolicy hok

namespace Sample

/-- The owner commits an edit and finalizes the policy. -/
def finalizing : List RegistryLabel := resolving ++ [.finish 0, .finalizePolicy 0 "b"]

end Sample

theorem no_edit_lost_finalizing : (Sample.after Sample.finalizing).EditsKept "n" :=
  no_edit_lost ⟨Sample.finalizing, Machine.run_of_exec rfl⟩

end Registry

end VirtualCatalog
