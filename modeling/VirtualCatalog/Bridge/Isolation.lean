import VirtualCatalog.Bridge.Versions

/-!
# Each version under its own policy

A step of one session moves what it sees itself, what is committed, or the grants that all share.
The grants that lie under the names of tables fit the tables that anybody sees, now and after any
one session has rolled back; a step that gives nobody else's table another grant keeps that.

* `Versions.Ok` : the invariant.
* `Ok.quiet`, `Ok.ends` : the steps that leave the grants alone, those that end a transaction.
* `Ok.record` : a recorded DDL.
* `each_version_protected` : whoever looks a table up finds the grant of the version that he sees.
-/

namespace VirtualCatalog

/-! ### The invariant -/

namespace Live

/-- The log of a session. -/
def log (s : Live) (i : Nat) : List GrantUndo :=
  ((s.sessions[i]?).map DuckDBSession.grantUndo).getD []

theorem log_of_session {s : Live} {i : Nat} {session : DuckDBSession}
    (h : s.sessions[i]? = some session) : s.log i = session.grantUndo := by
  rw [log, h]
  rfl

theorem log_begin (s : Live) : ({ s with sessions := s.sessions ++ [{}] } : Live).log = s.log := by
  funext j
  show ((s.sessions ++ [({} : DuckDBSession)])[j]?.map DuckDBSession.grantUndo).getD [] = _
  rw [log, List.getElem?_append]
  split_ifs with hlt
  · rfl
  · rw [List.getElem?_eq_none (Nat.le_of_not_lt hlt)]
    cases hj : ([({} : DuckDBSession)])[j - s.sessions.length]? with
    | none => rfl
    | some session =>
      have hmem := List.mem_of_getElem? hj
      rw [List.mem_singleton.1 hmem]
      rfl

theorem log_step {s : Live} {i : Nat} {session session' : DuckDBSession} {store : Store}
    (h : s.sessions[i]? = some session) :
    ({ store := store, sessions := s.sessions.set i session' } : Live).log =
      Function.update s.log i session'.grantUndo := by
  funext j
  show (((s.sessions.set i session')[j]?).map DuckDBSession.grantUndo).getD [] = _
  by_cases hj : j = i
  · subst hj
    rw [Function.update_self, List.getElem?_set_self (List.getElem?_eq_some_iff.1 h).1]
    rfl
  · rw [Function.update_of_ne hj, List.getElem?_set_ne (Ne.symm hj), log]

/-- The step of a session that is there. -/
theorem session_step {bridgeId : String} {s s' : Live} {i : Nat} {op : SessionOp}
    (h : s.next bridgeId (.session i op) = some s') :
    ∃ session r, s.sessions[i]? = some session ∧ session.destroyed = false ∧
      session.step i s.store op = some r ∧
        s' = { store := { s.store with book := r.1 }, sessions := s.sessions.set i r.2 } := by
  rw [next] at h
  cases hi : s.sessions[i]? with
  | none => rw [hi] at h; cases h
  | some session =>
    rw [hi] at h
    dsimp only at h
    split_ifs at h with hd
    obtain ⟨r, hr, rfl⟩ := Option.map_eq_some_iff.1 h
    exact ⟨session, r, rfl, by simpa using hd, hr, rfl⟩

end Live

namespace DuckDBSession

variable {i : Nat} {store : Store} {session : DuckDBSession} {r : GrantBook × DuckDBSession}

theorem recording_of_pending_none (h : session.pending = none) : session.recording = none := by
  rw [recording, h]

/-- A session in the middle of a DDL does nothing else. -/
theorem pending_of_step {op : SessionOp} (hop : op = .statement ∨ ∃ ddl existing folds,
    op = .ddl ddl existing folds) (h : session.step i store op = some r) :
    session.pending = none := by
  cases hp : session.pending with
  | none => rfl
  | some d =>
    cases d with
    | checking ddl check =>
      cases check <;> rcases hop with rfl | ⟨ddl, existing, folds, rfl⟩ <;> simp [step, hp] at h
    | ran ddl answer =>
      rcases hop with rfl | ⟨ddl, existing, folds, rfl⟩ <;> simp [step, hp] at h

/-- A statement, or a DDL that begins, opens the connection. -/
theorem step_opens {op : SessionOp} (hop : op = .statement ∨ ∃ ddl existing folds,
    op = .ddl ddl existing folds) (h : session.step i store op = some r) :
    r.1 = store.book ∧ r.2.grantUndo = session.grantUndo ∧ r.2.conn.isSome = true ∧
      r.2.recording = none := by
  have hp := pending_of_step hop h
  rcases hop with rfl | ⟨ddl, existing, folds, rfl⟩
  · simp only [step, hp, Option.some.injEq] at h
    subst h
    exact ⟨rfl, shared_grantUndo _ _, isSome_shared_conn _ _,
      recording_of_pending_none ((shared_pending _ _).trans hp)⟩
  · simp only [step, hp, Option.some.injEq] at h
    subst h
    exact ⟨rfl, shared_grantUndo _ _, isSome_shared_conn _ _, rfl⟩

/-- A DDL goes on. -/
theorem step_continues {op : SessionOp} (hop : op = .check ∨ ∃ answer, op = .run answer)
    (h : session.step i store op = some r) :
    r.1 = store.book ∧ r.2.grantUndo = session.grantUndo ∧ r.2.conn = session.conn ∧
      (op = .check → r.2.recording = none) := by
  cases hp : session.pending with
  | none => rcases hop with rfl | ⟨answer, rfl⟩ <;> simp [step, hp] at h
  | some d =>
    cases d with
    | checking ddl check =>
      cases check <;> rcases hop with rfl | ⟨answer, rfl⟩ <;>
        simp only [step, hp, Option.some.injEq, reduceCtorEq] at h <;> subst h
      · exact ⟨rfl, runDdl_grantUndo _ _ _ _, runDdl_conn _ _ _ _, fun h => (by cases h)⟩
      · exact ⟨rfl, rfl, rfl, fun h => (by cases h)⟩
      · exact ⟨rfl, rfl, rfl, fun _ => rfl⟩
    | ran ddl answer =>
      rcases hop with rfl | ⟨answer, rfl⟩ <;> simp [step, hp] at h

end DuckDBSession

namespace Versions

/-- The invariant. -/
structure Ok (s : Versions) : Prop where
  sound : s.live.Sound
  /-- A session is in a transaction on the source while it has its connection. -/
  opened : ∀ i session, s.live.sessions[i]? = some session → session.destroyed = false →
    (s.transactions i).isSome = session.conn.isSome
  there : ∀ i, (s.transactions i).isSome = true → i < s.live.sessions.length
  numbered : ∀ viewer k v, s.view viewer k = some v → v < s.versions
  guarded : Guarded s.view s.law s.grants s.live.log
  touched : ∀ i, ∀ k ∈ undoNames (s.live.log i), ∃ tx, s.transactions i = some tx ∧
    (tx.changes k).isSome = true
  apart : ∀ i j tx other, i ≠ j → s.transactions i = some tx → s.transactions j = some other →
    ∀ k, tx.touches k = true → other.touches k = false
  /-- A DDL that is to be recorded has changed what it changes. -/
  running : ∀ i session ddl answer, s.live.sessions[i]? = some session →
    session.recording = some (ddl, answer) → ∃ tx v, s.transactions i = some tx ∧
      ddl.effect v tx = some tx.running ∧ v < s.versions ∧
      s.law v = some (createdGrant (answer.key.getD []))

variable {bridgeId : String} {s s' : Versions} {i : Nat} {session session' : DuckDBSession}
  {op : SessionOp}

theorem Ok.toProtected (h : s.Ok) : s.Protected := by
  intro viewer schema table v g hv hg
  rw [GrantTables.findGrant_eq] at hg
  exact h.guarded.fits viewer _ v g hv hg

/-- A session without a transaction sees what is committed. -/
theorem view_of_none (h : s.transactions i = none) : s.view (some i) = s.committed := by
  rw [view, h]
  rfl

theorem view_of_some {tx : SourceTransaction} (h : s.transactions i = some tx) :
    s.view (some i) = tx.view := by
  rw [view, h]
  rfl

/-- What a session sees depends on its transaction and on what is committed. -/
theorem view_congr {w : Option Nat} (hcommitted : s'.committed = s.committed)
    (h : ∀ i, w = some i → (s'.transactions i).map SourceTransaction.view =
      (s.transactions i).map SourceTransaction.view) : s'.view w = s.view w := by
  cases w with
  | none => exact hcommitted
  | some i => rw [view, view, h i rfl, hcommitted]

/-- A step that leaves the grants, the logs and the views as they are. -/
theorem Ok.quiet (h : s.Ok) (hsession : s.live.sessions[i]? = some session)
    (hsessions : s'.live.sessions = s.live.sessions.set i session')
    (hgrants : s'.grants = s.grants) (hundo : session'.grantUndo = session.grantUndo)
    (hsound : s'.live.Sound) (hview : s'.view = s.view) (hversions : s.versions ≤ s'.versions)
    (hlaw : ∀ v < s.versions, s'.law v = s.law v)
    (htransactions : ∀ j ≠ i, s'.transactions j = s.transactions j)
    (hopened : session'.destroyed = false →
      (s'.transactions i).isSome = session'.conn.isSome)
    (hchanges : ∀ tx, s.transactions i = some tx → ∃ tx', s'.transactions i = some tx' ∧
      tx'.changes = tx.changes)
    (hapart : ∀ tx, s'.transactions i = some tx → ∀ j ≠ i, ∀ other,
      s.transactions j = some other → ∀ k, tx.touches k = true → other.touches k = false)
    (hrunning : ∀ ddl answer, session'.recording = some (ddl, answer) → ∃ tx v,
      s'.transactions i = some tx ∧ ddl.effect v tx = some tx.running ∧ v < s'.versions ∧
        s'.law v = some (createdGrant (answer.key.getD []))) : s'.Ok := by
  have hlt : i < s.live.sessions.length := (List.getElem?_eq_some_iff.1 hsession).1
  have hlog : s'.live.log = s.live.log := by
    have hlive : s'.live = ⟨s'.live.store, s.live.sessions.set i session'⟩ := by rw [← hsessions]
    rw [hlive, Live.log_step hsession, hundo, ← Live.log_of_session hsession,
      Function.update_eq_self]
  refine ⟨hsound, fun j sess hj hd => ?_, fun j hj => ?_, fun w k v hv => ?_, ?_,
    fun j k hk => ?_, fun j j' tx other hjj' hj hj' k hk => ?_, fun j sess ddl answer hj hrec => ?_⟩
  · rw [hsessions] at hj
    rcases Live.getElem?_step hj with ⟨rfl, rfl⟩ | ⟨hji, hj⟩
    · exact hopened hd
    · rw [htransactions j hji]
      exact h.opened j sess hj hd
  · rw [hsessions, List.length_set]
    by_cases hji : j = i
    · exact hji ▸ hlt
    · rw [htransactions j hji] at hj
      exact h.there j hj
  · rw [hview] at hv
    exact (h.numbered w k v hv).trans_le hversions
  · rw [hview, hgrants, hlog]
    exact h.guarded.withLaw fun w k v hv => hlaw v (h.numbered w k v hv)
  · rw [hlog] at hk
    obtain ⟨tx, htx, hsome⟩ := h.touched j k hk
    by_cases hji : j = i
    · subst hji
      obtain ⟨tx', htx', hsame⟩ := hchanges tx htx
      exact ⟨tx', htx', by rwa [hsame]⟩
    · exact ⟨tx, by rwa [htransactions j hji], hsome⟩
  · by_cases hji : j = i
    · subst hji
      rw [htransactions j' (Ne.symm hjj')] at hj'
      exact hapart tx hj j' (Ne.symm hjj') other hj' k hk
    · rw [htransactions j hji] at hj
      -- the two transactions are named the other way round
      by_cases hji' : j' = i
      · subst hji'
        by_contra hne
        have hother := hapart other hj' j hji tx hj k (by simpa using hne)
        rw [hother] at hk
        cases hk
      · rw [htransactions j' hji'] at hj'
        exact h.apart j j' tx other hjj' hj hj' k hk
  · rw [hsessions] at hj
    rcases Live.getElem?_step hj with ⟨rfl, rfl⟩ | ⟨hji, hj⟩
    · exact hrunning ddl answer hrec
    · obtain ⟨tx, v, htx, heffect, hv, hl⟩ := h.running j sess ddl answer hj hrec
      exact ⟨tx, v, by rwa [htransactions j hji], heffect, hv.trans_le hversions,
        (hlaw v hv).trans hl⟩

/-! ### Steps without a change of the grants -/

/-- A transaction that has just begun sees what is committed. -/
theorem view_opened (s : Versions) (i : Nat) : (s.opened i).view = s.view := by
  rw [opened]
  cases hi : s.transactions i with
  | some tx => rfl
  | none =>
    funext w
    cases w with
    | none => rfl
    | some j =>
      by_cases hji : j = i
      · subst hji
        rw [view_of_none hi]
        exact view_of_some (s := s.withTransaction j _) (Function.update_self ..)
      · exact view_congr rfl fun k hk => by
          cases hk
          exact congrArg _ (Function.update_of_ne hji _ _)

theorem transactions_opened (s : Versions) {i j : Nat} (h : j ≠ i) :
    (s.opened i).transactions j = s.transactions j := by
  rw [opened]
  cases s.transactions i with
  | some tx => rfl
  | none => exact Function.update_of_ne h _ _

/-- The transaction of a session that is in one, or has just begun it. -/
theorem transaction_opened (s : Versions) (i : Nat) :
    (s.opened i).transactions i = s.transactions i ∧ (s.transactions i).isSome = true ∨
      s.transactions i = none ∧ (s.opened i).transactions i = some { snapshot := s.committed } := by
  rw [opened]
  cases hi : s.transactions i with
  | some tx => exact .inl ⟨hi, rfl⟩
  | none => exact .inr ⟨rfl, Function.update_self ..⟩

theorem live_opened (s : Versions) (i : Nat) : (s.opened i).live = s.live := by
  rw [opened]
  cases s.transactions i <;> rfl

theorem law_opened (s : Versions) (i : Nat) : (s.opened i).law = s.law := by
  rw [opened]
  cases s.transactions i <;> rfl

theorem versions_opened (s : Versions) (i : Nat) : (s.opened i).versions = s.versions := by
  rw [opened]
  cases s.transactions i <;> rfl

theorem Ok.begin (h : s.Ok) (hs : s.next bridgeId .begin = some s') : s'.Ok := by
  rw [next, Option.map_eq_some_iff] at hs
  obtain ⟨live, hlive, rfl⟩ := hs
  have hsound : live.Sound := h.sound.next hlive
  obtain rfl : { s.live with sessions := s.live.sessions ++ [{}] } = live := Option.some.inj hlive
  have hlog : (s.withLive { s.live with sessions := s.live.sessions ++ [{}] }).live.log =
      s.live.log := Live.log_begin s.live
  refine ⟨hsound, fun i session hi hd => ?_, fun i hi => ?_, h.numbered, ?_, fun i k hk => ?_,
    h.apart, fun i session ddl answer hi hrec => ?_⟩
  · by_cases hlt : i < s.live.sessions.length
    · exact h.opened i session ((List.getElem?_append_left hlt).symm.trans hi) hd
    · have hclosed : (s.transactions i).isSome = false :=
        Bool.of_not_eq_true fun hsome => hlt (h.there i hsome)
      rcases Live.getElem?_begin hi with hi | rfl
      · exact absurd (List.getElem?_eq_some_iff.1 hi).1 hlt
      · exact hclosed
  · refine (h.there i hi).trans_le ?_
    show _ ≤ (s.live.sessions ++ [({} : DuckDBSession)]).length
    rw [List.length_append]
    exact Nat.le_add_right _ _
  · rw [hlog]
    exact h.guarded
  · rw [hlog] at hk
    exact h.touched i k hk
  · rcases Live.getElem?_begin hi with hi | rfl
    · exact h.running i session ddl answer hi hrec
    · cases hrec

/-- A statement, or a DDL that begins: at most a transaction begins. -/
theorem Ok.opens (h : s.Ok) {live : Live} (hop : op = .statement ∨ ∃ ddl existing folds,
    op = .ddl ddl existing folds) (hlive : s.live.next bridgeId (.session i op) = some live) :
    ((s.withLive live).opened i).Ok := by
  have hsound : live.Sound := h.sound.next hlive
  obtain ⟨session, r, hi, hd, hstep, hl⟩ := Live.session_step hlive
  obtain ⟨hbook, hundo, hconn, hrec⟩ := DuckDBSession.step_opens hop hstep
  have hlive' : ((s.withLive live).opened i).live = live := live_opened _ i
  have htx := transaction_opened (s.withLive live) i
  refine h.quiet hi (by rw [hlive', hl]) ?_ hundo (by rwa [hlive']) (view_opened _ i)
    (versions_opened (s.withLive live) i).ge (fun v _ => by rw [law_opened]; rfl)
    (fun j hj => transactions_opened _ hj) (fun _ => ?_) (fun tx hi => ?_)
    (fun tx hi j hj other hother k hk => ?_) (fun ddl answer hsome => ?_)
  · show ((s.withLive live).opened i).live.tables.grantAt = _
    rw [hlive', hl]
    exact congrArg (fun b : GrantBook => b.tables.grantAt) hbook
  · rw [hconn]
    rcases htx with ⟨he, hsome⟩ | ⟨-, he⟩
    · rw [he, hsome]
    · rw [he]
      rfl
  · rcases htx with ⟨he, -⟩ | ⟨hnone, -⟩
    · exact ⟨tx, he.trans hi, rfl⟩
    · exact absurd (hi.symm.trans hnone) nofun
  · rcases htx with ⟨he, -⟩ | ⟨-, he⟩
    · exact h.apart i j tx other (Ne.symm hj) (he.symm.trans hi) hother k hk
    · obtain rfl := Option.some.inj (he.symm.trans hi)
      cases hk
  · rw [hrec] at hsome
    cases hsome

/-- A DDL goes on, and is not to be recorded yet. -/
theorem Ok.continues (h : s.Ok) {live : Live} (hop : op = .check ∨ ∃ answer, op = .run answer)
    (hlive : s.live.next bridgeId (.session i op) = some live)
    (hrec : (live.sessions[i]?).bind DuckDBSession.recording = none) : (s.withLive live).Ok := by
  have hsound : live.Sound := h.sound.next hlive
  obtain ⟨session, r, hi, hd, hstep, hl⟩ := Live.session_step hlive
  obtain ⟨hbook, hundo, hconn, -⟩ := DuckDBSession.step_continues hop hstep
  refine h.quiet hi (congrArg Live.sessions hl) ?_ hundo hsound rfl le_rfl (fun _ _ => rfl)
    (fun _ _ => rfl) (fun _ => ?_) (fun tx hi => ⟨tx, hi, rfl⟩)
    (fun tx hi j hj other => h.apart i j tx other (Ne.symm hj) hi) (fun ddl answer hsome => ?_)
  · show live.tables.grantAt = _
    rw [hl]
    exact congrArg (fun b : GrantBook => b.tables.grantAt) hbook
  · rw [hconn]
    exact h.opened i session hi hd
  · have hself : live.sessions[i]? = some r.2 := by
      rw [hl]
      exact List.getElem?_set_self (List.getElem?_eq_some_iff.1 hi).1
    rw [hself, Option.bind_some, hsome] at hrec
    cases hrec

/-- The source runs a DDL that is to be recorded. -/
theorem Ok.ran (h : s.Ok) {live : Live} {answer' : SourceAnswer}
    (hlive : s.live.next bridgeId (.session i (.run answer')) = some live) {ddl : CrossingDdl}
    {answer : SourceAnswer}
    (hrec : (live.sessions[i]?).bind DuckDBSession.recording = some (ddl, answer))
    (hs : (s.withLive live).ran i ddl answer = some s') : s'.Ok := by
  have hsound : live.Sound := h.sound.next hlive
  obtain ⟨session, r, hi, hd, hstep, hl⟩ := Live.session_step hlive
  obtain ⟨hbook, hundo, hconn, -⟩ := DuckDBSession.step_continues (.inr ⟨_, rfl⟩) hstep
  have hself : live.sessions[i]? = some r.2 := by
    rw [hl]
    exact List.getElem?_set_self (List.getElem?_eq_some_iff.1 hi).1
  rw [hself, Option.bind_some] at hrec
  rw [Versions.ran] at hs
  cases htx : s.transactions i with
  | none =>
    rw [show (s.withLive live).transactions i = none from htx] at hs
    cases hs
  | some tx =>
    rw [show (s.withLive live).transactions i = some tx from htx] at hs
    dsimp only at hs
    cases heffect : ddl.effect s.versions tx with
    | none =>
      rw [show ddl.effect (s.withLive live).versions tx = none from heffect] at hs
      cases hs
    | some effect =>
      rw [show ddl.effect (s.withLive live).versions tx = some effect from heffect] at hs
      dsimp only at hs
      split_ifs at hs with hconflict
      have hs := Option.some.inj hs
      have hi' : s'.transactions i = some { tx with running := effect } := by
        rw [← hs]
        exact Function.update_self ..
      have hothers : ∀ j ≠ i, s'.transactions j = s.transactions j := by
        -- a name another transaction touches is a conflict, which the source refuses
        intro j hj
        rw [← hs]
        exact Function.update_of_ne hj _ _
      have hkeys : ∀ k ∈ ddl.keys, (effect k).isSome = true →
          (s.withLive live).conflicts i tx k = false := by
        intro k hk hsome
        by_contra hne
        refine hconflict (List.any_eq_true.2 ⟨k, hk, ?_⟩)
        rw [hsome, Bool.true_and]
        simpa using hne
      -- until it is recorded, what the source ran is in nobody's view
      have hview : s'.view = s.view := by
        funext w
        refine view_congr (by rw [← hs]; rfl) fun j _ => ?_
        by_cases hji : j = i
        · subst hji
          rw [hi', htx]
          rfl
        · rw [hothers j hji]
      -- the grants, logs and views are as before
      refine h.quiet hi (by rw [← hs]; exact congrArg Live.sessions hl) ?_ hundo
        (by rw [← hs]; exact hsound) hview (by rw [← hs]; exact Nat.le_succ _)
        (fun v hv => by rw [← hs]; exact Function.update_of_ne hv.ne _ _) hothers (fun hd' => ?_)
        (fun tx' htx' => ?_) (fun tx' htx' j hj other hother k hk => ?_)
        (fun ddl' answer'' hsome => ?_)
      · rw [← hs]
        show live.tables.grantAt = _
        rw [hl]
        exact congrArg (fun b : GrantBook => b.tables.grantAt) hbook
      · rw [hconn, ← h.opened i session hi hd, htx, hi']
        rfl
      · obtain rfl := Option.some.inj (htx.symm.trans htx')
        exact ⟨_, hi', rfl⟩
      · obtain rfl := Option.some.inj (hi'.symm.trans htx')
        rcases Bool.or_eq_true_iff.1 hk with hchanged | hran
        · have hchanged : (tx.changes k).isSome = true := hchanged
          exact h.apart i j tx other (Ne.symm hj) htx hother k
            (by rw [SourceTransaction.touches, hchanged]; rfl)
        · have hfree := hkeys k ((CrossingDdl.changes_of_effect heffect).keys hran) hran
          rw [conflicts, Bool.or_eq_false_iff] at hfree
          have hlt : j < live.sessions.length := by
            rw [hl, List.length_set]
            exact h.there j (by rw [hother]; rfl)
          have hnot := List.any_eq_false.1 hfree.1 j (List.mem_range.2 hlt)
          rw [show (s.withLive live).transactions j = some other from hother] at hnot
          simpa [hj] using hnot
      -- the version it makes is the next one, and carries the grant `RecordDdl` would make
      · obtain ⟨rfl, rfl⟩ := Prod.mk.inj (Option.some.inj (hrec.symm.trans hsome))
        refine ⟨_, s.versions, hi', heffect, ?_, ?_⟩
        · rw [← hs]
          exact Nat.lt_succ_self _
        · rw [← hs]
          exact Function.update_self ..

/-! ### The end of a transaction -/

/-- What a session has changed concerns no entry of another session's log. -/
theorem Ok.aside (h : s.Ok) {tx : SourceTransaction} (htx : s.transactions i = some tx) {j : Nat}
    (hj : j ≠ i) {k : TableKey} (hk : k ∈ undoNames (s.live.log j)) : tx.touches k = false := by
  obtain ⟨other, hother, hsome⟩ := h.touched j k hk
  exact h.apart j i other tx hj hother htx k (by rw [SourceTransaction.touches, hsome]; rfl)

theorem Ok.apart_logs (h : s.Ok) {j : Nat} (hj : j ≠ i) {k : TableKey}
    (hk : k ∈ undoNames (s.live.log j)) : k ∉ undoNames (s.live.log i) := by
  intro hk'
  obtain ⟨tx, htx, hsome⟩ := h.touched i k hk'
  have hnot := h.aside htx hj hk
  rw [SourceTransaction.touches, hsome] at hnot
  cases hnot

theorem Ok.ends (h : s.Ok) (hsession : s.live.sessions[i]? = some session)
    (hsessions : s'.live.sessions = s.live.sessions.set i session')
    (hundo : session'.grantUndo = []) (hpending : session'.pending = none)
    (hclosed : session'.destroyed = false → session'.conn = none) (hsound : s'.live.Sound)
    (htransactions : s'.transactions = Function.update s.transactions i none)
    (hversions : s'.versions = s.versions) (hlaw : s'.law = s.law)
    (hseen : ∀ w k, ∃ w', s'.view w k = s.view w' k)
    (hguarded : ∀ log', log' i = [] → (∀ j ≠ i, log' j = s.live.log j) →
      Guarded s'.view s.law s'.grants log') : s'.Ok := by
  have hlog : s'.live.log = Function.update s.live.log i [] := by
    have hlive : s'.live = ⟨s'.live.store, s.live.sessions.set i session'⟩ := by rw [← hsessions]
    rw [hlive, Live.log_step hsession, hundo]
  have hself : s'.transactions i = none := by
    rw [htransactions]
    exact Function.update_self ..
  have hothers : ∀ j ≠ i, s'.transactions j = s.transactions j := by
    intro j hj
    rw [htransactions]
    exact Function.update_of_ne hj _ _
  -- whoever still has a transaction is another session
  have hne : ∀ {j : Nat}, (s'.transactions j).isSome = true → j ≠ i := by
    rintro j hsome rfl
    rw [hself] at hsome
    cases hsome
  refine ⟨hsound, fun j sess hj hd => ?_, fun j hj => ?_, fun w k v hv => ?_, ?_,
    fun j k hk => ?_, fun j j' tx other hjj' hj hj' => ?_, fun j sess ddl answer hj hrec => ?_⟩
  · rw [hsessions] at hj
    rcases Live.getElem?_step hj with ⟨rfl, rfl⟩ | ⟨hji, hj⟩
    · rw [hself, hclosed hd]
      rfl
    · rw [hothers j hji]
      exact h.opened j sess hj hd
  · rw [hsessions, List.length_set]
    rw [hothers j (hne hj)] at hj
    exact h.there j hj
  · obtain ⟨w', he⟩ := hseen w k
    rw [hversions]
    exact h.numbered w' k v (he ▸ hv)
  -- commit and rollback differ only in why the grants then guard the views
  · rw [hlaw]
    exact hguarded _ (by rw [hlog]; exact Function.update_self ..) fun j hj => by
      rw [hlog]
      exact Function.update_of_ne hj _ _
  · rw [hlog] at hk
    by_cases hji : j = i
    · rw [hji, Function.update_self] at hk
      obtain ⟨undo, hmem, -⟩ := hk
      cases hmem
    · rw [Function.update_of_ne hji] at hk
      rw [hothers j hji]
      exact h.touched j k hk
  · rw [hothers j (hne (by rw [hj]; rfl))] at hj
    rw [hothers j' (hne (by rw [hj']; rfl))] at hj'
    exact h.apart j j' tx other hjj' hj hj'
  · rw [hsessions] at hj
    rcases Live.getElem?_step hj with ⟨rfl, rfl⟩ | ⟨hji, hj⟩
    · rw [DuckDBSession.recording_of_pending_none hpending] at hrec
      cases hrec
    · rw [hothers j hji, hversions, hlaw]
      exact h.running j sess ddl answer hj hrec

/-- Nobody sees the transaction that is gone. -/
theorem view_closed (s : Versions) (i : Nat) :
    (∀ w ≠ some i, (s.withTransaction i none).view w = s.view w) ∧
      (s.withTransaction i none).view (some i) = s.view none := by
  constructor
  · intro w hw
    refine view_congr rfl fun j hj => ?_
    have hji : j ≠ i := fun he => hw (he ▸ hj)
    exact congrArg _ (Function.update_of_ne hji _ _)
  · exact view_of_none (s := s.withTransaction i none) (Function.update_self ..)

theorem seen_closed (s : Versions) (i : Nat) (w : Option Nat) (k : TableKey) :
    ∃ w', (s.withTransaction i none).view w k = s.view w' k := by
  obtain ⟨hothers, hself⟩ := view_closed s i
  by_cases hw : w = some i
  · exact ⟨none, by rw [hw, hself]⟩
  · exact ⟨w, by rw [hothers w hw]⟩

end Versions

namespace DuckDBSession.Stepped

variable {i : Nat} {store : Store} {session session' : DuckDBSession} {op : SessionOp}
  {book : GrantBook}

/-- A session without a connection has nothing to undo. -/
theorem grantUndo_of_conn_none (h : session.Linked i) (hconn : session.conn = none) :
    session.grantUndo = [] := by
  by_contra hne
  have hsome := h.undo hne
  rw [hconn] at hsome
  cases hsome

/-- What a rollback, or a commit that fails, leaves. -/
theorem rollsBack (h : session.Stepped i store op book session') (hlinked : session.Linked i)
    (hop : op = .rollback ∨ op = .commit false) :
    book.tables.grantAt = rolledBack session.grantUndo store.book.tables.grantAt ∧
      session'.grantUndo = [] ∧ session'.pending = none ∧ session'.conn = none := by
  cases h with
  | quiet hq => rcases hop with rfl | rfl <;> cases hq
  | record => rcases hop with hop | hop <;> cases hop
  | commit succeeds hp =>
    obtain rfl : succeeds = false := by rcases hop with h | h <;> cases h; rfl
    cases hconn : session.conn with
    | none =>
      have hnil := grantUndo_of_conn_none hlinked hconn
      rw [commit_of_conn_none hconn, hnil]
      exact ⟨rfl, rfl, hp, hconn⟩
    | some conn =>
      rw [commit_false hconn]
      exact ⟨grantAt_rollback _ _, rfl, hp, rfl⟩
  | rollback hp => exact ⟨grantAt_rollback _ _, rfl, hp, rfl⟩
  | destroy => rcases hop with hop | hop <;> cases hop

/-- What a commit leaves. -/
theorem commits (h : session.Stepped i store (.commit true) book session')
    (hlinked : session.Linked i) :
    book.tables.grantAt = store.book.tables.grantAt ∧
      session'.grantUndo = [] ∧ session'.pending = none ∧ session'.conn = none := by
  cases h with
  | quiet hq => cases hq
  | commit _ hp =>
    cases hconn : session.conn with
    | none =>
      have hnil := grantUndo_of_conn_none hlinked hconn
      rw [commit_of_conn_none hconn]
      exact ⟨rfl, hnil, hp, hconn⟩
    | some conn =>
      refine ⟨by rw [commit_true_tables], ?_⟩
      rw [DuckDBSession.commit, hconn]
      exact ⟨rfl, hp, rfl⟩

/-- What the end of a session leaves. -/
theorem destroys (h : session.Stepped i store .destroy book session') :
    book.tables.grantAt = store.book.tables.grantAt ∧
      session'.grantUndo = [] ∧ session'.pending = none ∧ session'.destroyed = true := by
  cases h with
  | quiet hq => cases hq
  | destroy hp => exact ⟨rfl, rfl, hp, rfl⟩

end DuckDBSession.Stepped

namespace Versions

variable {bridgeId : String} {s s' : Versions} {i : Nat} {op : SessionOp} {live : Live}

/-- A rollback, or a commit that fails. -/
theorem Ok.rollsBack (h : s.Ok) (hop : op = .rollback ∨ op = .commit false)
    (hlive : s.live.next bridgeId (.session i op) = some live) :
    ((s.withLive live).withTransaction i none).Ok := by
  have hsound : live.Sound := h.sound.next hlive
  obtain ⟨session, book, session', hi, hd, hstep, hl⟩ := Live.next_session hlive
  obtain ⟨hgrants, hundo, hpending, hconn⟩ := hstep.rollsBack (h.sound.linked i session hi) hop
  obtain ⟨hothers, hself⟩ := view_closed (s.withLive live) i
  refine h.ends hi (congrArg Live.sessions hl) hundo hpending (fun _ => hconn) hsound rfl rfl rfl
    (seen_closed _ i) fun log' hlog hlogs => ?_
  have hrolled : live.tables.grantAt = rolledBack (s.live.log i) s.grants := by
    rw [hl, Live.log_of_session hi]
    exact hgrants
  show Guarded _ s.law live.tables.grantAt log'
  rw [hrolled]
  exact h.guarded.rollback hlog hlogs hothers hself fun j hj k hk => h.apart_logs hj hk

/-- A session is destroyed. -/
theorem Ok.destroys (h : s.Ok) (hlive : s.live.next bridgeId (.session i .destroy) = some live) :
    ((s.withLive live).withTransaction i none).Ok := by
  have hsound : live.Sound := h.sound.next hlive
  obtain ⟨session, book, session', hi, hd, hstep, hl⟩ := Live.next_session hlive
  obtain ⟨hgrants, hundo, hpending, hdestroyed⟩ := hstep.destroys
  obtain ⟨hothers, hself⟩ := view_closed (s.withLive live) i
  refine h.ends hi (congrArg Live.sessions hl) hundo hpending (fun hd => ?_) hsound rfl rfl rfl
    (seen_closed _ i) fun log' hlog hlogs => ?_
  · rw [hdestroyed] at hd
    cases hd
  · have hsame : live.tables.grantAt = s.grants := by
      rw [hl]
      exact hgrants
    show Guarded _ s.law live.tables.grantAt log'
    rw [hsame]
    refine h.guarded.commit (C := fun _ => False) hlog hlogs (fun w k => ?_) nofun
    by_cases hw : w = some i
    · exact .inr (.inl ⟨by rw [hw, hself]; rfl, hw⟩)
    · exact .inl (by rw [hothers w hw]; rfl)

theorem transactions_commits (s : Versions) (i : Nat) :
    (s.commits i).transactions = Function.update s.transactions i none := by
  rw [commits]
  cases hi : s.transactions i with
  | none => exact (hi ▸ Function.update_eq_self i s.transactions).symm
  | some tx => rfl

theorem commits_frame (s : Versions) (i : Nat) :
    (s.commits i).live = s.live ∧ (s.commits i).versions = s.versions ∧
      (s.commits i).law = s.law := by
  rw [commits]
  cases s.transactions i <;> exact ⟨rfl, rfl, rfl⟩

/-- What is committed afterwards is what was, or what the session has changed. -/
theorem committed_commits (s : Versions) (i : Nat) (k : TableKey) :
    (s.commits i).committed k = s.committed k ∨
      (∃ tx, s.transactions i = some tx ∧ (tx.changes k).isSome = true) ∧
        (s.commits i).committed k = s.view (some i) k := by
  rw [commits]
  cases hi : s.transactions i with
  | none => exact .inl rfl
  | some tx =>
    rw [view_of_some hi, SourceTransaction.view]
    show (tx.changes k).getD _ = _ ∨ _ ∧ (tx.changes k).getD _ = _
    cases hc : tx.changes k with
    | none => exact .inl rfl
    | some v => exact .inr ⟨⟨tx, rfl, by rw [hc]; rfl⟩, rfl⟩

/-- What is seen afterwards was seen before. -/
theorem view_commits (s : Versions) (i : Nat) (w : Option Nat) (k : TableKey) :
    (s.commits i).view w k = s.view w k ∨ (s.commits i).view w k = s.view none k ∧ w = some i ∨
      (∃ tx, s.transactions i = some tx ∧ (tx.changes k).isSome = true) ∧
        (s.commits i).view w k = s.view (some i) k := by
  have hcommitted := committed_commits s i k
  cases w with
  | none => exact hcommitted.imp_right .inr
  | some j =>
    by_cases hji : j = i
    · subst hji
      have hself : (s.commits j).transactions j = none := by
        rw [transactions_commits]
        exact Function.update_self ..
      rw [view_of_none hself]
      rcases hcommitted with he | hnew
      · exact .inr (.inl ⟨he, rfl⟩)
      · exact .inr (.inr hnew)
    · have hsame : (s.commits i).transactions j = s.transactions j := by
        rw [transactions_commits]
        exact Function.update_of_ne hji _ _
      cases hj : s.transactions j with
      | some tx =>
        left
        rw [view_of_some (hsame.trans hj), view_of_some hj]
      | none =>
        rw [view_of_none (hsame.trans hj), view_of_none hj]
        exact hcommitted.imp_right .inr

/-- A session commits. -/
theorem Ok.commits (h : s.Ok)
    (hlive : s.live.next bridgeId (.session i (.commit true)) = some live) :
    ((s.withLive live).commits i).Ok := by
  have hsound : live.Sound := h.sound.next hlive
  obtain ⟨session, book, session', hi, hd, hstep, hl⟩ := Live.next_session hlive
  obtain ⟨hgrants, hundo, hpending, hconn⟩ := hstep.commits (h.sound.linked i session hi)
  obtain ⟨hlive', hversions, hlaw⟩ := commits_frame (s.withLive live) i
  have hsame : ((s.withLive live).commits i).grants = s.grants := by
    show ((s.withLive live).commits i).live.tables.grantAt = s.grants
    rw [hlive', hl]
    exact hgrants
  refine h.ends hi ((congrArg Live.sessions hlive').trans (congrArg Live.sessions hl)) hundo
    hpending (fun _ => hconn) (by rwa [hlive'])
    (transactions_commits (s.withLive live) i) hversions hlaw (fun w k => ?_)
    fun log' hlog hlogs => ?_
  · rcases view_commits (s.withLive live) i w k with he | ⟨he, -⟩ | ⟨-, he⟩
    · exact ⟨w, he⟩
    · exact ⟨none, he⟩
    · exact ⟨some i, he⟩
  · rw [hsame]
    refine h.guarded.commit hlog hlogs (view_commits (s.withLive live) i) ?_
    rintro k ⟨tx, htx, hsome⟩ j hj hk
    have hnot := h.aside htx hj hk
    rw [SourceTransaction.touches, hsome] at hnot
    cases hnot

end Versions

/-! ### A recorded DDL -/

namespace Versions

variable {bridgeId : String} {s s' : Versions} {i : Nat} {session session' : DuckDBSession}
  {tx : SourceTransaction} {ddl : CrossingDdl} {answer : SourceAnswer}
  {m' : TableKey → Option SourceGrant} {undo : GrantUndo} {version : Nat}
  {view' : Option Nat → TableKey → Option Nat} {log' : Nat → List GrantUndo}

/-- A DDL that changes no grant. -/
theorem Ok.guarded_unchanged (h : s.Ok) (htx : s.transactions i = some tx)
    (hcareful : CarefulRecord s i tx ddl answer)
    (hchanges : ddl.Changes version tx tx.running)
    (hnone : grantChange ddl answer s.grants = none)
    (hothers : ∀ w ≠ some i, view' w = s.view w)
    (hself : ∀ k, view' (some i) k = (tx.running k).getD (tx.view k)) :
    Guarded view' s.law s.grants s.live.log := by
  have hview : s.view (some i) = tx.view := view_of_some htx
  refine h.guarded.change (A := ∅) (fun _ _ => rfl) hothers (fun _ _ => rfl)
    (fun _ _ hg => .inl hg) (fun k v g hv hg => ?_) (fun k hk hv => ?_) (fun _ _ hg => hg)
    fun j hj k hk => ⟨nofun, ?_⟩
  · rw [hself] at hv
    cases hran : tx.running k with
    | none =>
      rw [hran, Option.getD_none, ← hview] at hv
      exact h.guarded.fits _ k v g hv hg
    | some w =>
      rw [hran, Option.getD_some] at hv
      exact hcareful.ungranted hnone k v g (hran.trans (congrArg some hv)) hg
  · rw [hself] at hv
    cases hran : tx.running k with
    | none =>
      rw [hran, Option.getD_none, ← hview] at hv
      exact h.guarded.gone i k hk hv
    | some w =>
      rw [hran, Option.getD_some] at hv
      exact (hchanges.taken (hran.trans (congrArg some hv))).1 hnone
  · have hfree := h.aside htx hj hk
    rw [SourceTransaction.touches, Bool.or_eq_false_iff] at hfree
    rw [hself, Option.not_isSome_iff_eq_none.1 (Bool.eq_false_iff.1 hfree.2), hview]
    rfl

/-- A DDL that changes grants. -/
theorem Ok.guarded_changed (h : s.Ok) (htx : s.transactions i = some tx)
    (hcareful : CarefulRecord s i tx ddl answer) (hchanges : ddl.Changes version tx tx.running)
    (hlaw : s.law version = some (createdGrant (answer.key.getD [])))
    (hchange : grantChange ddl answer s.grants = some (m', undo))
    (hothers : ∀ w ≠ some i, view' w = s.view w)
    (hself : ∀ k, view' (some i) k = (tx.running k).getD (tx.view k))
    (hlog : ∀ j ≠ i, log' j = s.live.log j) (hlogi : log' i = undo :: s.live.log i) :
    Guarded view' s.law m' log' := by
  have hview : s.view (some i) = tx.view := view_of_some htx
  obtain ⟨hall, hfree⟩ := hcareful.active hchanges hchange
  have hunnamed : ∀ {k}, tx.running k = none → k ∉ ddl.names := by
    intro k hran hk
    have hsome := hall k hk
    rw [hran] at hsome
    cases hsome
  have hundone := restore_grantChange_or hchange
  have hold : ∀ k ∈ undoNames (s.live.log i), undo.restore m' k = s.grants k := by
    intro k hk
    rcases hundone k with he | ⟨he, n, hn, rfl, hne⟩
    · exact he
    -- the name was free, so that the session's own log has left no grant there
    · have hempty : s.view (some i) (tableKey ddl.schema n) = none := by
        rw [hview]
        exact (hfree n hn).resolve_right hne
      rw [he, h.guarded.gone i _ hk hempty]
  refine h.guarded.change (A := ddl.names) hlog hothers
    (fun k hk => grantChange_frame hchange hk) (fun k g hg => ?_) (fun k v g hv hg => ?_)
    (fun k hk hv => ?_) (fun k g hg => ?_) fun j hj k hk => ?_
  · refine (CrossingDdl.given_of_grantChange hchange hg).imp_right fun hgiven w hw v hv => ?_
    exact hcareful.unseen k g hgiven w hw v hv
  · rw [hself] at hv
    cases hran : tx.running k with
    | none =>
      rw [hran, Option.getD_none, ← hview] at hv
      rw [grantChange_frame hchange (hunnamed hran)] at hg
      exact h.guarded.fits _ k v g hv hg
    | some w =>
      rw [hran, Option.getD_some] at hv
      rcases hchanges.granted (hran.trans (congrArg some hv)) hchange hg with
        ⟨rfl, rfl⟩ | ⟨hwas, hgrant⟩
      · exact hlaw
      · rw [← hview] at hwas
        exact h.guarded.fits _ _ v g hwas hgrant
  · rw [hself] at hv
    cases hran : tx.running k with
    | none =>
      rw [hran, Option.getD_none, ← hview] at hv
      have hnot := hunnamed hran
      rw [grantChange_frame hchange hnot]
      rw [hlogi, undoNames_cons] at hk
      rcases hk with hk | hk
      · exact absurd (grantChange_names hchange hk) hnot
      · exact h.guarded.gone i k hk hv
    | some w =>
      rw [hran, Option.getD_some] at hv
      exact (hchanges.taken (hran.trans (congrArg some hv))).2 m' undo hchange
  · rw [hlogi] at hg
    have hg : rolledBack (s.live.log i) (undo.restore m') k = some g := hg
    by_cases hk : k ∈ undoNames (s.live.log i)
    · rw [← rolledBack_congr hold hk]
      exact hg
    · rw [rolledBack_frame hk] at hg ⊢
      rcases hundone k with he | ⟨he, -⟩
      · rw [← he]
        exact hg
      · rw [he] at hg
        cases hg
  · have haside := h.aside htx hj hk
    rw [SourceTransaction.touches, Bool.or_eq_false_iff] at haside
    have hran := Option.not_isSome_iff_eq_none.1 (Bool.eq_false_iff.1 haside.2)
    refine ⟨hunnamed hran, ?_⟩
    rw [hself, hran, hview]
    rfl

end Versions

/-- What the recording of a DDL leaves. -/
theorem DuckDBSession.Stepped.records {i : Nat} {store : Store} {session session' : DuckDBSession}
    {book : GrantBook} (h : session.Stepped i store .record book session') :
    ∃ ddl answer, session.recording = some (ddl, answer) ∧ session'.conn = session.conn ∧
      session'.pending = none ∧
      (grantChange ddl answer store.book.tables.grantAt = none ∧
          book.tables.grantAt = store.book.tables.grantAt ∧
          session'.grantUndo = session.grantUndo ∨
        ∃ undo,
          grantChange ddl answer store.book.tables.grantAt = some (book.tables.grantAt, undo) ∧
          session'.grantUndo = undo :: session.grantUndo) := by
  cases h with
  | quiet hq => cases hq
  | record ddl answer conn hrec =>
    have hspec := recordDdl_spec store.book (session.finishDdl answer) conn ddl answer
    split at hspec
    next hnone =>
      refine ⟨ddl, answer, hrec, ?_, ?_, .inl ⟨hnone, hspec.1, ?_⟩⟩ <;> rw [hspec.2.2] <;> rfl
    next m undo hsome =>
      refine ⟨ddl, answer, hrec, ?_, ?_, .inr ⟨undo, ?_, ?_⟩⟩
      · rw [hspec.2.2]
        rfl
      · rw [hspec.2.2]
        rfl
      · rw [hspec.1, hsome]
      · rw [hspec.2.2]
        rfl

namespace Versions

variable {bridgeId : String} {s : Versions} {i : Nat} {tx : SourceTransaction} {live : Live}

/-- What is seen once the DDL of a session is recorded. -/
theorem view_recorded (htx : s.transactions i = some tx) :
    (∀ w ≠ some i, (s.withTransaction i (some tx.recorded)).view w = s.view w) ∧
      ∀ k, (s.withTransaction i (some tx.recorded)).view (some i) k =
        (tx.running k).getD (s.view (some i) k) := by
  refine ⟨fun w hw => view_congr rfl fun j hj => ?_, fun k => ?_⟩
  · have hji : j ≠ i := fun he => hw (he ▸ hj)
    exact congrArg _ (Function.update_of_ne hji _ _)
  · rw [view_of_some (s := s.withTransaction i (some tx.recorded)) (Function.update_self ..),
      SourceTransaction.view_recorded, view_of_some htx]

/-- A DDL is recorded. -/
theorem Ok.record (h : s.Ok)
    (hcareful : ∀ session tx ddl answer, s.live.sessions[i]? = some session →
      session.recording = some (ddl, answer) → s.transactions i = some tx →
        CarefulRecord s i tx ddl answer)
    (hlive : s.live.next bridgeId (.session i .record) = some live) :
    ((s.withLive live).withTransaction i
      ((s.transactions i).map SourceTransaction.recorded)).Ok := by
  have hsound : live.Sound := h.sound.next hlive
  obtain ⟨session, book, session', hi, hd, hstep, hl⟩ := Live.next_session hlive
  obtain ⟨ddl, answer, hrec, hconn, hpending, hgrants⟩ := hstep.records
  obtain ⟨tx, version, htx, heffect, hversion, hlaw⟩ := h.running i session ddl answer hi hrec
  have hchanges := CrossingDdl.changes_of_effect heffect
  have hcareful := hcareful session tx ddl answer hi hrec htx
  obtain ⟨hothers, hself⟩ := view_recorded (s := s.withLive live) htx
  have hself' : ∀ k, ((s.withLive live).withTransaction i (some tx.recorded)).view (some i) k =
      (tx.running k).getD (tx.view k) := by
    intro k
    rw [hself k, view_of_some (s := s.withLive live) htx]
  have hlt : i < s.live.sessions.length := (List.getElem?_eq_some_iff.1 hi).1
  have hsessions : live.sessions = s.live.sessions.set i session' := congrArg Live.sessions hl
  have hlog : live.log = Function.update s.live.log i session'.grantUndo := by
    rw [hl]
    exact Live.log_step hi
  have htransaction : Function.update s.transactions i (some tx.recorded) i = some tx.recorded :=
    Function.update_self ..
  have htransactions : ∀ j ≠ i, Function.update s.transactions i (some tx.recorded) j =
      s.transactions j := fun j hj => Function.update_of_ne hj _ _
  rw [htx, Option.map_some]
  -- from here on the invariant, one part after the other; session `i` is the only one that moved
  have hgrants' : live.tables.grantAt = book.tables.grantAt := by rw [hl]
  refine ⟨hsound, fun j sess hj hd' => ?_, fun j hj => ?_, fun w k v hv => ?_, ?_,
    fun j k hk => ?_, fun j j' tx' other hjj' hj hj' k hk => ?_,
    fun j sess ddl' answer' hj hrec' => ?_⟩
  · replace hj : live.sessions[j]? = some sess := hj
    show (Function.update s.transactions i (some tx.recorded) j).isSome = _
    rw [hsessions] at hj
    rcases Live.getElem?_step hj with ⟨rfl, rfl⟩ | ⟨hji, hj⟩
    · rw [htransaction, hconn, ← h.opened _ session hi hd, htx]
      rfl
    · rw [htransactions j hji]
      exact h.opened j sess hj hd'
  · show j < live.sessions.length
    rw [hsessions, List.length_set]
    by_cases hji : j = i
    · exact hji ▸ hlt
    · replace hj : (Function.update s.transactions i (some tx.recorded) j).isSome = true := hj
      rw [htransactions j hji] at hj
      exact h.there j hj
  · show v < s.versions
    -- its view gains what the DDL ran, every other view stays
    by_cases hw : w = some i
    · subst hw
      rw [hself'] at hv
      cases hran : tx.running k with
      | none =>
        rw [hran, Option.getD_none, ← view_of_some htx] at hv
        exact h.numbered _ k v hv
      | some x =>
        rw [hran, Option.getD_some] at hv
        rcases hchanges.cases_some (hran.trans (congrArg some hv)) with
          ⟨-, -, rfl⟩ | ⟨n, -, -, hwas⟩
        · exact hversion
        · rw [← view_of_some htx] at hwas
          exact h.numbered _ _ v hwas
    · rw [hothers w hw] at hv
      exact h.numbered w k v hv
  · show Guarded _ s.law live.tables.grantAt live.log
    rw [hgrants', hlog]
    -- the grants follow the tables whether or not the DDL changed a grant
    rcases hgrants with ⟨hnone, hsame, hundo⟩ | ⟨undo, hchange, hundo⟩
    · rw [hsame, hundo, ← Live.log_of_session hi, Function.update_eq_self]
      exact h.guarded_unchanged htx hcareful hchanges hnone hothers hself'
    · refine h.guarded_changed htx hcareful hchanges hlaw hchange hothers hself'
        (fun j hj => Function.update_of_ne hj _ _) ?_
      rw [Function.update_self, hundo, Live.log_of_session hi]
  · show ∃ other, Function.update s.transactions i (some tx.recorded) j = some other ∧ _
    replace hk : k ∈ undoNames (live.log j) := hk
    rw [hlog] at hk
    by_cases hji : j = i
    · subst hji
      refine ⟨_, htransaction, ?_⟩
      rw [Function.update_self] at hk
      have hlogged : k ∈ undoNames (s.live.log j) → (tx.recorded.changes k).isSome = true := by
        intro hk
        obtain ⟨tx', htx', hsome⟩ := h.touched j k hk
        obtain rfl := Option.some.inj (htx.symm.trans htx')
        show ((tx.running k).or (tx.changes k)).isSome = true
        rw [Option.isSome_or, hsome, Bool.or_true]
      rcases hgrants with ⟨-, -, hundo⟩ | ⟨undo, hchange, hundo⟩
      · rw [hundo, ← Live.log_of_session hi] at hk
        exact hlogged hk
      · rw [hundo, undoNames_cons, ← Live.log_of_session hi] at hk
        rcases hk with hk | hk
        · have hran := (hcareful.active hchanges hchange).1 k (grantChange_names hchange hk)
          show ((tx.running k).or (tx.changes k)).isSome = true
          rw [Option.isSome_or, hran, Bool.true_or]
        · exact hlogged hk
    · rw [Function.update_of_ne hji] at hk
      rw [htransactions j hji]
      exact h.touched j k hk
  · replace hj : Function.update s.transactions i (some tx.recorded) j = some tx' := hj
    replace hj' : Function.update s.transactions i (some tx.recorded) j' = some other := hj'
    -- what is recorded was already touched while it ran, so disjointness carries over
    by_cases hji : j = i
    · subst hji
      rw [htransaction] at hj
      cases hj
      rw [htransactions j' (Ne.symm hjj')] at hj'
      rw [SourceTransaction.touches_recorded] at hk
      exact h.apart j j' tx other hjj' htx hj' k hk
    · rw [htransactions j hji] at hj
      by_cases hji' : j' = i
      · subst hji'
        rw [htransaction] at hj'
        cases hj'
        rw [SourceTransaction.touches_recorded]
        exact h.apart j j' tx' tx hjj' hj htx k hk
      · rw [htransactions j' hji'] at hj'
        exact h.apart j j' tx' other hjj' hj hj' k hk
  · show ∃ tx' v, Function.update s.transactions i (some tx.recorded) j = some tx' ∧ _
    replace hj : live.sessions[j]? = some sess := hj
    rw [hsessions] at hj
    rcases Live.getElem?_step hj with ⟨rfl, rfl⟩ | ⟨hji, hj⟩
    · rw [DuckDBSession.recording_of_pending_none hpending] at hrec'
      cases hrec'
    · rw [htransactions j hji]
      exact h.running j sess ddl' answer' hj hrec'

end Versions

/-! ### Whole runs -/

namespace Versions

variable {bridgeId : String} {s s' : Versions} {l : LiveLabel}

/-- **Every step keeps the invariant.** -/
theorem Ok.next (h : s.Ok) (hl : Careful s l) (hs : s.next bridgeId l = some s') : s'.Ok := by
  cases l with
  | owner label => cases hs
  | begin => exact h.begin hs
  | session i op =>
    obtain ⟨live, hlive, hs⟩ := Option.bind_eq_some_iff.1 hs
    cases op with
    | statement =>
      cases hs
      exact h.opens (.inl rfl) hlive
    | ddl ddl existing folds =>
      rw [source, Option.ite_none_right_eq_some] at hs
      obtain ⟨-, hs⟩ := hs
      cases hs
      exact h.opens (.inr ⟨ddl, existing, folds, rfl⟩) hlive
    | check =>
      cases hs
      refine h.continues (.inl rfl) hlive ?_
      obtain ⟨session, r, hi, -, hstep, rfl⟩ := Live.session_step hlive
      obtain ⟨-, -, -, hrec⟩ := DuckDBSession.step_continues (.inl rfl) hstep
      show ((s.live.sessions.set i r.2)[i]?).bind DuckDBSession.recording = none
      rw [List.getElem?_set_self (List.getElem?_eq_some_iff.1 hi).1]
      exact hrec rfl
    | run answer =>
      rw [source] at hs
      cases hrec : (live.sessions[i]?).bind DuckDBSession.recording with
      | none =>
        rw [show ((s.withLive live).live.sessions[i]?).bind DuckDBSession.recording = none
          from hrec] at hs
        cases hs
        exact h.continues (.inr ⟨answer, rfl⟩) hlive hrec
      | some d =>
        rw [show ((s.withLive live).live.sessions[i]?).bind DuckDBSession.recording = some d
          from hrec] at hs
        exact h.ran hlive hrec hs
    | record =>
      cases hs
      exact h.record hl hlive
    | commit succeeds =>
      cases hs
      cases succeeds with
      | true => exact h.commits hlive
      | false => exact h.rollsBack (.inr rfl) hlive
    | rollback =>
      cases hs
      exact h.rollsBack (.inl rfl) hlive
    | destroy =>
      cases hs
      exact h.destroys hlive

theorem Start.ok (h : s.Start) : s.Ok := by
  have hview : ∀ w, s.view w = s.committed := by
    intro w
    cases w with
    | none => rfl
    | some i => exact view_of_none (h.closed i)
  have hlog : ∀ i, s.live.log i = [] := by
    intro i
    rw [Live.log, h.fresh.sessions]
    rfl
  have hfits : ∀ w k v g, s.view w k = some v → s.grants k = some g → s.law v = some g := by
    intro w k v g hv hg
    rw [hview] at hv
    rw [(h.installed k v hv).2, hg]
  have hunnamed : ∀ i k, k ∉ undoNames (s.live.log i) := by
    rintro i k ⟨undo, hundo, -⟩
    rw [hlog] at hundo
    cases hundo
  refine ⟨h.fresh.sound, fun i session hi => ?_, fun i hi => ?_, fun w k v hv => ?_,
    ⟨hfits, fun i w _ k v g hv hg => Guarded.undone_of_nil (hlog i) hfits hv hg,
      fun i k hk => absurd hk (hunnamed i k)⟩, fun i k hk => absurd hk (hunnamed i k),
    fun i j tx other _ hi => ?_, fun i session ddl answer hi => ?_⟩
  · rw [h.fresh.sessions] at hi
    cases hi
  · rw [h.closed] at hi
    cases hi
  · rw [hview] at hv
    exact (h.installed k v hv).1
  · rw [h.closed] at hi
    cases hi
  · rw [h.fresh.sessions] at hi
    cases hi

/-- **Each table version stays under its own policy**: in every run in which no recorded DDL gives
somebody else's table another grant, whoever looks a table up, in a session or in autocommit, finds
the grant that was installed for the version that he sees, or none. -/
theorem each_version_protected {s₀ : Versions} {ls : List LiveLabel} (h : s₀.Start)
    (hrun : (versionsMachine bridgeId).Run Careful s₀ ls s) : s.Protected :=
  (hrun.invariant h.ok fun _ _ _ hok hl hs => hok.next hl hs).toProtected

end Versions

namespace Sample

/-- A grant of the rows of one tenant, and of dropping the table. -/
def tenantGrant : SourceGrant where
  verbs := {.select, .drop}
  usingPredicates v := if v = .select then some (tenantIs (.parameter "tenant")) else none

/-- A source with one table, which is granted. -/
def oneTable : Versions where
  live :=
    { store :=
        { book := { state := { tables := tables tenantGrant } }
          context := {}
          installed := []
          contexts := [] }
      sessions := [] }
  committed k := if k = tableKey "main" "orders" then some 0 else none
  versions := 1
  law v := if v = 0 then some tenantGrant else none

theorem oneTable_start : oneTable.Start where
  fresh := ⟨rfl, rfl⟩
  closed _ := rfl
  installed k v hv := by
    change (if k = tableKey "main" "orders" then some 0 else none) = some v at hv
    split_ifs at hv with hk
    cases hv
    subst hk
    exact ⟨Nat.one_pos, rfl⟩

/-- `CREATE OR REPLACE TABLE orders`, in a session that has not committed. -/
def replaceOrders : List LiveLabel :=
  [.begin, .session 0 (.ddl ⟨"main", "orders", .create .replace⟩ true fun _ => false),
    .session 0 .check, .session 0 (.run { key := some ["id"] }), .session 0 .record]

/-- `CREATE TABLE items`, in a session that commits. -/
def createItems : List LiveLabel :=
  [.begin, .session 0 (.ddl ⟨"main", "items", .create .error⟩ false fun _ => false),
    .session 0 (.run { key := some ["id"] }), .session 0 .record, .session 0 (.commit true)]

/-- The state after a list of steps. -/
def afterRun (ls : List LiveLabel) : Versions :=
  ((versionsMachine "b").exec oneTable ls).getD oneTable

end Sample

namespace Versions

/-- The rows of every tenant are read of a table that somebody else is about to replace. -/
theorem not_each_version_protected : ¬ ∀ (bridgeId : String) (s₀ s : Versions)
    (ls : List LiveLabel), s₀.Start → (versionsMachine bridgeId).Run Machine.Free s₀ ls s →
      s.Protected := by
  intro h
  have hrun : (versionsMachine "b").Run Machine.Free Sample.oneTable Sample.replaceOrders
      (Sample.afterRun Sample.replaceOrders) := Machine.run_of_exec rfl
  have hlaw := h "b" _ _ _ Sample.oneTable_start hrun none "main" "orders" 0
    (createdGrant ["id"]) rfl rfl
  have hgrant : some Sample.tenantGrant = some (createdGrant ["id"]) := hlaw
  have hdiffer : Sample.tenantGrant.has .insert = (createdGrant ["id"]).has .insert :=
    congrArg (fun g : SourceGrant => g.has .insert) (Option.some.inj hgrant)
  revert hdiffer
  decide

/-- A new table that nobody sees yet. -/
theorem each_version_protected_create : (Sample.afterRun Sample.createItems).Protected := by
  let s := Sample.afterRun (Sample.createItems.take 3)
  have hunseen : ∀ viewer, viewer ≠ some 0 → s.view viewer (tableKey "main" "items") = none := by
    intro viewer hviewer
    cases viewer with
    | none => decide
    | some j =>
      cases j with
      | zero => exact absurd rfl hviewer
      | succ j =>
        have hj : s.transactions (j + 1) = none := rfl
        rw [view_of_none hj]
        decide
  have hcareful : Careful s (.session 0 .record) := by
    intro session tx ddl answer hs hrec htx
    cases hs
    cases hrec
    cases htx
    refine ⟨fun k g hgiven viewer hviewer v hv => ?_, fun hidle => ?_, fun hnone => ?_⟩
    · cases hgiven
      cases (hunseen viewer hviewer).symm.trans hv
    · cases hidle (tableKey "main" "items")
    · cases hnone
  have hrun : (versionsMachine "b").Run Careful Sample.oneTable Sample.createItems
      (Sample.afterRun Sample.createItems) :=
    .cons trivial rfl (.cons trivial rfl (.cons trivial rfl (.cons hcareful rfl
      (.single trivial rfl))))
  exact each_version_protected Sample.oneTable_start hrun

end Versions

end VirtualCatalog
