import VirtualCatalog.Bridge.Rollback

/-!
# No policy change during uncommitted DDL

A commit of table or schema settings is refused while the count of the book is positive, which is
while some session has an entry in its undo log.  The source runs a DDL before the session records
it, not every DDL pushes an entry, and an entry of one session may be what keeps the policy closed
for another.

* `Live.Uncommitted` : the session changed the source in a transaction that is still open.
* `Counts`, `Live.Recorded` : the steps that leave an entry wherever a recorded change is open.
* `Live.Covered.next_iff` : exactly these steps do.
* `uncommitted_refuses` : so every such commit is refused, but for the time between the run of a DDL
  and its record while no log has an entry.
-/

namespace VirtualCatalog

namespace Live

variable (s : Live) (i : Nat)

/-- The shaping of the book holds the connection of the session. -/
def Holds (session : DuckDBSession) : Prop :=
  ∃ name c, session.conn = some c ∧ s.store.book.shaping.find? name = some c

/-- The session changed the source through a DDL that is done with, and its transaction is neither
committed nor rolled back: a destroyed session's is open as long as the shaping holds its
connection. -/
def Recorded : Prop :=
  ∃ session, s.sessions[i]? = some session ∧ session.changed = true ∧
    (session.destroyed = true → s.Holds session)

/-- The source ran a DDL of the session that changed it, and the session has not recorded it. -/
def Recording : Prop :=
  ∃ session ddl answer, s.sessions[i]? = some session ∧ session.recording = some (ddl, answer) ∧
    answer.changed = true

/-- The session changed the source through DDL, and its transaction is neither committed nor rolled
back. -/
def Uncommitted : Prop := s.Recorded i ∨ s.Recording i

/-- Some session has an entry in its undo log. -/
def HasLog : Prop :=
  ∃ (j : Nat) (session : DuckDBSession), s.sessions[j]? = some session ∧ session.grantUndo ≠ []

/-- A session other than this one has. -/
def HasLogBeside : Prop :=
  ∃ (j : Nat) (session : DuckDBSession), j ≠ i ∧ s.sessions[j]? = some session ∧
    session.grantUndo ≠ []

/-- No DDL is between its run and its record, unless some log has an entry. -/
def Settled : Prop := ∀ i, s.Recording i → s.HasLog

end Live

/-- Every change that is done with leaves an entry or finds one.  A recorded DDL that changed the
source pushes an entry, or some log has one, which also a change needs that is not recorded at all.
A session that drops its entries leaves one to another session, if a recorded change stays open:
another session's, or its own if it is destroyed while the shaping holds its connection. -/
def Counts (s : Live) : LiveLabel → Prop
  | .session i (.run answer) => ∀ session, s.sessions[i]? = some session →
      session.RunsUnrecorded (.run answer) → s.HasLog
  | .session i .record => ∀ session ddl answer, s.sessions[i]? = some session →
      session.recording = some (ddl, answer) → answer.changed = true →
        grantChange ddl answer s.tables.grantAt ≠ none ∨ s.HasLog
  | .session i (.commit _) | .session i .rollback =>
      (∃ j, j ≠ i ∧ s.Recorded j) → s.HasLogBeside i
  | .session i .destroy =>
      (∃ j, s.Recorded j ∧ ∀ session, j = i → s.sessions[i]? = some session → s.Holds session) →
        s.HasLogBeside i
  | _ => True

namespace DuckDBSession

variable {i : Nat} {store : Store} {session session' : DuckDBSession} {op : SessionOp}
  {book : GrantBook} {conn : ConnId} {name : String} {c : ConnId}

theorem find?_recordDdl {ddl : CrossingDdl} {answer : SourceAnswer}
    (h : (recordDdl book session conn ddl answer).1.shaping.find? name = some c) :
    book.shaping.find? name = some c ∨ c = conn := by
  obtain ⟨schema, table, statement⟩ := ddl
  cases statement with
  | create oc => exact GrantBook.find?_shape _ _ _ _ h
  | drop =>
    simp only [recordDdl] at h
    split at h <;> exact .inl h
  | alter info =>
    rw [recordDdl] at h
    dsimp only at h
    split at h
    · rcases GrantBook.find?_shape _ _ _ _ h with h | h
      · exact GrantBook.find?_shape _ _ _ _ h
      · exact .inr h
    · exact GrantBook.find?_shape _ _ _ _ h

/-- The entries that are left when a transaction ends. -/
theorem find?_forgetShaping_iff (book : GrantBook) (session : DuckDBSession) (name : String)
    (c : ConnId) : (forgetShaping book session).shaping.find? name = some c ↔
      book.shaping.find? name = some c ∧ session.conn ≠ some c := by
  rw [forgetShaping]
  cases hc : session.conn with
  | none => simp
  | some c₀ =>
    dsimp only
    rw [CIMap.find?_keepValues, Option.filter_eq_some_iff, decide_eq_true_iff]
    have hne : c ≠ c₀ ↔ some c₀ ≠ some c := by
      rw [Ne, Ne, Option.some.injEq, eq_comm]
    rw [hne]

/-- A transaction ends: the connection is closed and its entries are gone, nothing is left to undo,
and nothing is changed. -/
structure Ends (store : Store) (book : GrantBook) (session session' : DuckDBSession) : Prop where
  conn : session'.conn = none
  grantUndo : session'.grantUndo = []
  changed : session'.changed = false
  shaping : ∀ name c, book.shaping.find? name = some c ↔
    store.book.shaping.find? name = some c ∧ session.conn ≠ some c

theorem ends_rollback : Ends store (session.rollback store.book).1 session
    (session.rollback store.book).2 where
  conn := rfl
  grantUndo := rfl
  changed := rfl
  shaping := find?_forgetShaping_iff (session.undoGrants store.book).1
    (session.undoGrants store.book).2

theorem ends_commit {succeeds : Bool} (hl : session.Linked i) :
    Ends store (session.commit store.book succeeds).1 session
      (session.commit store.book succeeds).2 := by
  cases hconn : session.conn with
  | none =>
    rw [commit_of_conn_none hconn]
    have hnone : ¬ session.conn.isSome = true := by simp [hconn]
    refine ⟨hconn, ?_, ?_, fun _ _ => by simp [hconn]⟩
    · by_contra hu
      exact hnone (hl.undo hu)
    · by_contra hchanged
      exact hnone (hl.changed (by simpa using hchanged))
  | some conn =>
    cases succeeds with
    | false =>
      rw [commit_false hconn]
      exact ends_rollback
    | true =>
      have hcommit : session.commit store.book true =
          (forgetShaping (session.forgetGrantUndo store.book).1
            (session.forgetGrantUndo store.book).2,
            { (session.forgetGrantUndo store.book).2 with conn := none, changed := false }) := by
        rw [DuckDBSession.commit, hconn]
        rfl
      rw [hcommit]
      exact ⟨rfl, rfl, rfl, find?_forgetShaping_iff (session.forgetGrantUndo store.book).1
        (session.forgetGrantUndo store.book).2⟩

/-- What `RecordDdl` does to the log and to the mark of a change. -/
theorem recordDdl_effect (ddl : CrossingDdl) (answer : SourceAnswer) :
    let session' := (recordDdl book (session.finishDdl answer) conn ddl answer).2
    session'.changed = (session.changed || answer.changed) ∧
      session'.destroyed = session.destroyed ∧ session'.conn = session.conn ∧
        (session'.grantUndo ≠ [] ↔
          grantChange ddl answer book.tables.grantAt ≠ none ∨ session.grantUndo ≠ []) := by
  have hspec := recordDdl_spec book (session.finishDdl answer) conn ddl answer
  dsimp only
  split at hspec
  next hnone =>
    rw [hspec.2.2, hnone]
    exact ⟨rfl, rfl, rfl, by simp [finishDdl]⟩
  next hsome =>
    rw [hspec.2.2, hsome]
    exact ⟨rfl, rfl, rfl, by simp⟩

end DuckDBSession

namespace Live

variable {bridgeId : String} {s s' : Live} {l : LiveLabel} {i : Nat}

/-- The count is positive exactly while a log has an entry. -/
theorem Sound.count_pos_iff (h : s.Sound) : 0 < s.store.book.uncommittedDdl ↔ s.HasLog := by
  rw [h.count, logged, Nat.pos_iff_ne_zero, Ne, List.sum_eq_zero_iff]
  simp only [List.mem_map, forall_exists_index, and_imp, forall_apply_eq_imp_iff₂, not_forall,
    List.length_eq_zero_iff, exists_prop]
  constructor
  · rintro ⟨session, hmem, hne⟩
    obtain ⟨j, hj⟩ := List.mem_iff_getElem?.1 hmem
    exact ⟨j, session, hj, hne⟩
  · rintro ⟨j, session, hj, hne⟩
    exact ⟨session, List.mem_of_getElem? hj, hne⟩

/-- Wherever a recorded change is open, some log has an entry. -/
structure Covered (s : Live) : Prop where
  sound : s.Sound
  logged : ∀ i, s.Recorded i → s.HasLog

/-- The owner's calls do not touch the shaping. -/
theorem next_owner_shaping {store' : Store} {label : OwnerLabel}
    (h : s.store.next bridgeId label = some store') :
    store'.book.shaping = s.store.book.shaping := by
  cases Store.next_effect h with
  | quiet hbook => rw [hbook]
  | policy commit hbook =>
    obtain ⟨-, -, state, -, -, hb⟩ := commitPolicy_ok_iff.1 hbook
    rw [hb]
  | context hbook => rw [hbook]

/-! ### One session steps -/

section

variable {session session' : DuckDBSession} {book : GrantBook}

/-- The bridge once the session number `i` has stepped. -/
def stepped (s : Live) (i : Nat) (book : GrantBook) (session' : DuckDBSession) : Live :=
  { store := { s.store with book := book }, sessions := s.sessions.set i session' }

theorem getElem?_stepped (hi : s.sessions[i]? = some session) (j : Nat) :
    (s.stepped i book session').sessions[j]? = if j = i then some session' else s.sessions[j]? := by
  have hlt : i < s.sessions.length := (List.getElem?_eq_some_iff.1 hi).1
  rw [stepped, List.getElem?_set]
  by_cases hij : i = j
  · rw [if_pos hij, if_pos hlt, if_pos hij.symm]
  · rw [if_neg hij, if_neg (Ne.symm hij)]

/-- A log of another session, or the session's own. -/
theorem hasLog_stepped (hi : s.sessions[i]? = some session) :
    (s.stepped i book session').HasLog ↔ session'.grantUndo ≠ [] ∨ s.HasLogBeside i := by
  constructor
  · rintro ⟨j, session₁, hj, hne⟩
    rw [getElem?_stepped hi] at hj
    split_ifs at hj with hji
    · cases hj
      exact .inl hne
    · exact .inr ⟨j, session₁, hji, hj, hne⟩
  · rintro (hne | ⟨j, session₁, hji, hj, hne⟩)
    · exact ⟨i, session', by rw [getElem?_stepped hi, if_pos rfl], hne⟩
    · exact ⟨j, session₁, by rw [getElem?_stepped hi, if_neg hji, hj], hne⟩

theorem hasLog_iff (hi : s.sessions[i]? = some session) :
    s.HasLog ↔ session.grantUndo ≠ [] ∨ s.HasLogBeside i := by
  constructor
  · rintro ⟨j, session₁, hj, hne⟩
    by_cases hji : j = i
    · rw [hji, hi] at hj
      cases hj
      exact .inl hne
    · exact .inr ⟨j, session₁, hji, hj, hne⟩
  · rintro (hne | ⟨j, session₁, -, hj, hne⟩)
    · exact ⟨i, session, hi, hne⟩
    · exact ⟨j, session₁, hj, hne⟩

theorem recorded_stepped_self (hi : s.sessions[i]? = some session) :
    (s.stepped i book session').Recorded i ↔ session'.changed = true ∧
      (session'.destroyed = true → (s.stepped i book session').Holds session') := by
  rw [Recorded, getElem?_stepped hi, if_pos rfl]
  simp

/-- Another session's recorded change stays open if the shaping of its connection stays. -/
theorem recorded_stepped {j : Nat} (hi : s.sessions[i]? = some session) (hji : j ≠ i)
    (hlinked : ∀ i (session : DuckDBSession), s.sessions[i]? = some session → session.Linked i)
    (hshaping : ∀ name c, c.session ≠ i →
      (book.shaping.find? name = some c ↔ s.store.book.shaping.find? name = some c)) :
    (s.stepped i book session').Recorded j ↔ s.Recorded j := by
  rw [Recorded, Recorded, getElem?_stepped hi, if_neg hji]
  refine exists_congr fun session₁ => and_congr_right fun hj => and_congr_right fun _ =>
    imp_congr_right fun _ => exists₂_congr fun name c => and_congr_right fun hc => ?_
  exact hshaping name c fun hown => hji (((hlinked j session₁ hj).owned c hc).symm.trans hown)

/-- A step that touches no log: only a change of the source that is not recorded can open one. -/
theorem quiet_iff {op : SessionOp} (h : s.Covered) (hi : s.sessions[i]? = some session)
    (hd : session.destroyed = false) (hq : session.Quiet i op session') :
    (∀ j, (s.stepped i s.store.book session').Recorded j → s.HasLog) ↔
      (session.RunsUnrecorded op → s.HasLog) := by
  have hbeside (j : Nat) (hji : j ≠ i) :
      (s.stepped i s.store.book session').Recorded j ↔ s.Recorded j :=
    recorded_stepped hi hji h.sound.linked fun _ _ _ => Iff.rfl
  have hself : (s.stepped i s.store.book session').Recorded i ↔
      session.changed = true ∨ session.RunsUnrecorded op := by
    rw [recorded_stepped_self hi, hq.changed, hq.destroyed, hd]
    simp
  have hown : session.changed = true → s.HasLog := fun hchanged =>
    h.logged i ⟨session, hi, hchanged, fun hd' => by rw [hd] at hd'; cases hd'⟩
  constructor
  · exact fun hall hr => hall i (hself.2 (.inr hr))
  · intro hr j hj
    by_cases hji : j = i
    · subst hji
      exact (hself.1 hj).elim hown hr
    · exact h.logged j ((hbeside j hji).1 hj)

/-- A DDL is recorded: the session's change is covered by the entry it pushes, or by one there is. -/
theorem record_iff {ddl : CrossingDdl} {answer : SourceAnswer} {conn : ConnId} (h : s.Covered)
    (hi : s.sessions[i]? = some session) (hd : session.destroyed = false)
    (hrec : session.recording = some (ddl, answer)) (hconn : session.conn = some conn) :
    (∀ j, (s.stepped i
        (DuckDBSession.recordDdl s.store.book (session.finishDdl answer) conn ddl answer).1
        (DuckDBSession.recordDdl s.store.book (session.finishDdl answer) conn ddl answer).2).Recorded
          j →
        (DuckDBSession.recordDdl s.store.book (session.finishDdl answer) conn ddl answer).2.grantUndo
          ≠ [] ∨ s.HasLogBeside i) ↔
      Counts s (.session i .record) := by
  obtain ⟨hchanged, hdestroyed, -, hlog⟩ :=
    @DuckDBSession.recordDdl_effect session s.store.book conn ddl answer
  -- the shaping gains entries of this session's connection only
  have hbeside : ∀ j, j ≠ i → (s.stepped i
      (DuckDBSession.recordDdl s.store.book (session.finishDdl answer) conn ddl answer).1
      (DuckDBSession.recordDdl s.store.book (session.finishDdl answer) conn ddl answer).2).Recorded
        j → s.Recorded j := by
    rintro j hji ⟨session₁, hj, hch, hopen⟩
    rw [getElem?_stepped hi, if_neg hji] at hj
    refine ⟨session₁, hj, hch, fun hd₁ => ?_⟩
    obtain ⟨name, c, hc, hname⟩ := hopen hd₁
    refine ⟨name, c, hc, (DuckDBSession.find?_recordDdl hname).resolve_right ?_⟩
    rintro rfl
    exact hji (((h.sound.linked j session₁ hj).owned c hc).symm.trans
      ((h.sound.linked i session hi).owned c hconn))
  have hself := @recorded_stepped_self s i session
    (DuckDBSession.recordDdl s.store.book (session.finishDdl answer) conn ddl answer).2
    (DuckDBSession.recordDdl s.store.book (session.finishDdl answer) conn ddl answer).1 hi
  rw [hchanged, hdestroyed, hd, Bool.or_eq_true] at hself
  rw [hlog, or_assoc, ← hasLog_iff hi]
  constructor
  · intro hall session₁ ddl₁ answer₁ hi' hrec' hch
    rw [hi] at hi'
    cases hi'
    rw [hrec] at hrec'
    cases hrec'
    exact hall i (hself.2 ⟨.inr hch, fun hd' => by cases hd'⟩)
  · intro hc j hj
    by_cases hji : j = i
    · subst hji
      rcases (hself.1 hj).1 with hch | hch
      · exact .inr (h.logged j ⟨session, hi, hch, fun hd' => by rw [hd] at hd'; cases hd'⟩)
      · exact hc session ddl answer hi hrec hch
    · exact .inr (h.logged j (hbeside j hji hj))

/-- A session ends its transaction. -/
theorem ends_iff (h : s.Covered) (hi : s.sessions[i]? = some session)
    (he : DuckDBSession.Ends s.store book session session') :
    (∀ j, (s.stepped i book session').Recorded j →
        session'.grantUndo ≠ [] ∨ s.HasLogBeside i) ↔
      ((∃ j, j ≠ i ∧ s.Recorded j) → s.HasLogBeside i) := by
  have hbeside (j : Nat) (hji : j ≠ i) : (s.stepped i book session').Recorded j ↔ s.Recorded j := by
    refine recorded_stepped hi hji h.sound.linked fun name c hc => ?_
    rw [he.shaping, and_iff_left]
    exact fun hconn => hc ((h.sound.linked i session hi).owned c hconn)
  have hself : ¬ (s.stepped i book session').Recorded i := by
    rw [recorded_stepped_self hi, he.changed]
    exact fun h => by cases h.1
  simp only [he.grantUndo, ne_eq, not_true_eq_false, false_or]
  constructor
  · rintro hall ⟨j, hji, hj⟩
    exact hall j ((hbeside j hji).2 hj)
  · intro hc j hj
    have hji : j ≠ i := by
      rintro rfl
      exact hself hj
    exact hc ⟨j, hji, (hbeside j hji).1 hj⟩

/-- A session is destroyed: what the shaping holds stays open. -/
theorem destroy_iff (h : s.Covered) (hi : s.sessions[i]? = some session)
    (hd : session.destroyed = false) :
    (∀ j, (s.stepped i (session.destroy s.store.book).1 (session.destroy s.store.book).2).Recorded
        j → s.HasLogBeside i) ↔
      Counts s (.session i .destroy) := by
  have hbeside (j : Nat) (hji : j ≠ i) :
      (s.stepped i (session.destroy s.store.book).1 (session.destroy s.store.book).2).Recorded j ↔
        s.Recorded j :=
    recorded_stepped hi hji h.sound.linked fun _ _ _ => Iff.rfl
  have hself : (s.stepped i (session.destroy s.store.book).1
      (session.destroy s.store.book).2).Recorded i ↔ s.Recorded i ∧ s.Holds session := by
    rw [recorded_stepped_self hi]
    constructor
    · rintro ⟨hchanged, hholds⟩
      exact ⟨⟨session, hi, hchanged, fun hd' => by rw [hd] at hd'; cases hd'⟩, hholds rfl⟩
    · rintro ⟨⟨session₁, hi', hchanged, -⟩, hholds⟩
      rw [hi] at hi'
      cases hi'
      exact ⟨hchanged, fun _ => hholds⟩
  constructor
  · rintro hall ⟨j, hj, hholds⟩
    by_cases hji : j = i
    · subst hji
      exact hall j (hself.2 ⟨hj, hholds session rfl hi⟩)
    · exact hall j ((hbeside j hji).2 hj)
  · intro hc j hj
    by_cases hji : j = i
    · subst hji
      obtain ⟨hrecorded, hholds⟩ := hself.1 hj
      refine hc ⟨j, hrecorded, fun session₁ _ hi' => ?_⟩
      rw [hi] at hi'
      cases hi'
      exact hholds
    · exact hc ⟨j, (hbeside j hji).1 hj, fun _ h => absurd h hji⟩

end

/-- **Exactly the steps that count keep every recorded change covered.** -/
theorem Covered.next_iff (h : s.Covered) (hs : s.next bridgeId l = some s') :
    s'.Covered ↔ Counts s l := by
  have hsound := h.sound.next hs
  have hiff : s'.Covered ↔ ∀ i, s'.Recorded i → s'.HasLog :=
    ⟨fun h => h.logged, fun h => ⟨hsound, h⟩⟩
  rw [hiff]
  cases l with
  | owner label =>
    obtain ⟨store', hstore, rfl⟩ := Option.map_eq_some_iff.1 hs
    refine iff_of_true (fun i ⟨session, hi, hchanged, hopen⟩ => ?_) trivial
    refine h.logged i ⟨session, hi, hchanged, fun hd => ?_⟩
    obtain ⟨name, c, hc, hname⟩ := hopen hd
    exact ⟨name, c, hc, next_owner_shaping hstore ▸ hname⟩
  | begin =>
    cases hs
    refine iff_of_true (fun i ⟨session, hi, hchanged, hopen⟩ => ?_) trivial
    rcases getElem?_begin hi with hi | rfl
    · obtain ⟨j, session₁, hj, hne⟩ := h.logged i ⟨session, hi, hchanged, hopen⟩
      exact ⟨j, session₁, List.getElem?_append_left (List.getElem?_eq_some_iff.1 hj).1 ▸ hj, hne⟩
    · cases hchanged
  | session i op =>
    obtain ⟨session, book, session', hi, hd, hstep, rfl⟩ := next_session hs
    change (∀ j, (s.stepped i book session').Recorded j → (s.stepped i book session').HasLog) ↔ _
    have hlinked := h.sound.linked i session hi
    rw [hasLog_stepped hi]
    cases hstep with
    | quiet hop hq =>
      rw [hq.grantUndo, ← hasLog_iff hi, quiet_iff h hi hd hq]
      cases op with
      | run answer =>
        constructor
        · rintro hr session₁ hi' hr'
          rw [hi] at hi'
          cases hi'
          exact hr hr'
        · exact fun hall => hall session hi
      | statement => exact iff_of_true (fun ⟨_, _, _, h, _⟩ => by cases h) trivial
      | ddl => exact iff_of_true (fun ⟨_, _, _, h, _⟩ => by cases h) trivial
      | check => exact iff_of_true (fun ⟨_, _, _, h, _⟩ => by cases h) trivial
      | _ => cases hop
    | record ddl answer conn hrec hconn => exact record_iff h hi hd hrec hconn
    | commit succeeds => exact ends_iff h hi (DuckDBSession.ends_commit hlinked)
    | rollback => exact ends_iff h hi DuckDBSession.ends_rollback
    | destroy =>
      rw [← destroy_iff h hi hd]
      refine forall₂_congr fun j _ => ⟨fun hor => hor.resolve_left fun hne => hne rfl, .inr⟩

/-- An open change that is settled is covered. -/
theorem Covered.count_pos (h : s.Covered) (hsettled : s.Settled) (hu : s.Uncommitted i) :
    0 < s.store.book.uncommittedDdl :=
  h.sound.count_pos_iff.2 (hu.elim (h.logged i) (hsettled i))

end Live

/-- **No policy change during uncommitted DDL**, in every run whose steps count: while a session has
uncommitted DDL, every edit of table or schema settings is refused and changes nothing, unless it
comes between the run of a DDL and its record while no log has an entry. -/
theorem uncommitted_refuses {bridgeId : String} {s₀ s : Live} {i : Nat} {commit : PolicyCommit}
    (hfresh : s₀.Fresh) (hreach : (liveMachine bridgeId).ReachableBy Counts s₀ s)
    (hsettled : s.Settled) (hu : s.Uncommitted i) (ht : commit.touchesTables = true) :
    (∃ e, commitPolicy bridgeId s.store.book commit = .error e) ∧
      s.store.finishCall bridgeId (.policy commit) = s.store := by
  have hcovered : s.Covered := by
    refine hreach.invariant ⟨hfresh.sound, ?_⟩ fun _ _ _ h hc hs => (h.next_iff hs).2 hc
    rintro i ⟨session, hi, -⟩
    rw [hfresh.sessions] at hi
    cases hi
  have hpos := hcovered.count_pos hsettled hu
  cases hcommit : commitPolicy bridgeId s.store.book commit with
  | ok book =>
    obtain ⟨-, hzero, -⟩ := commitPolicy_ok_iff.1 hcommit
    exact absurd (hzero ht) (Nat.ne_of_gt hpos)
  | error e =>
    refine ⟨⟨e, rfl⟩, ?_⟩
    rw [Store.finishCall, hcommit]

namespace Sample

/-- `ALTER TABLE orders ADD COLUMN …`. -/
def addColumn : CrossingDdl := ⟨"main", "orders", .alter .other⟩

/-- The owner lets the target create tables in `main`. -/
def letCreate : PolicyCommit := .create "main" true

end Sample

/-- An `ALTER` that is no `RENAME` leaves the policy open to change. -/
theorem uncommitted_not_refuses :
    ¬ ∀ (bridgeId : String) (s₀ s : Live) (i : Nat) (commit : PolicyCommit), s₀.Fresh →
        (liveMachine bridgeId).ReachableBy Machine.Free s₀ s → s.Uncommitted i →
        commit.touchesTables = true →
        ∃ e, commitPolicy bridgeId s.store.book commit = .error e := by
  intro h
  let ls := LiveLabel.begin :: Sample.runs Sample.addColumn 2
  let s := Sample.afterSteps Sample.withArchive ls
  have hreach : (liveMachine "b").ReachableBy Machine.Free Sample.withArchive s :=
    ⟨ls, Machine.run_of_exec rfl⟩
  have hu : s.Uncommitted 0 := .inl ⟨_, rfl, rfl, fun hd => by cases hd⟩
  obtain ⟨e, he⟩ := h "b" _ s 0 Sample.letCreate ⟨rfl, rfl⟩ hreach hu rfl
  cases he

namespace Sample

/-- `CREATE TABLE new`, and `ADD COLUMN` up to its run on the source. -/
def createThenAdd : List LiveLabel :=
  .begin :: runs ⟨"main", "new", .create .error⟩ 0 ++
    [.session 0 (.ddl addColumn true fun _ => false), .session 0 .check, .session 0 .check,
      .session 0 (.run {})]

end Sample

/-- A `CREATE` closes it, also to the `ADD COLUMN` that follows and is not recorded yet. -/
theorem uncommitted_refuses_create : ∃ e, commitPolicy "b"
    (Sample.afterSteps Sample.withArchive Sample.createThenAdd).store.book Sample.letCreate =
      .error e := by
  let s := Sample.afterSteps Sample.withArchive Sample.createThenAdd
  have hlog : s.HasLog := ⟨0, _, rfl, List.cons_ne_nil _ _⟩
  have hu : s.Uncommitted 0 := .inr ⟨_, _, _, rfl, rfl, rfl⟩
  have hcreates {s : Live} {session : DuckDBSession} (hi : s.sessions[0]? = some session)
      (hp : ∀ ddl, session.pending ≠ some (.checking ddl (.ret false))) :
      Counts s (.session 0 (.run {})) := by
    rintro session₁ hi' ⟨ddl, answer, hp', -⟩
    rw [hi] at hi'
    cases hi'
    exact absurd hp' (hp ddl)
  have hrun : (liveMachine "b").Run Counts Sample.withArchive Sample.createThenAdd s := by
    refine .cons trivial rfl (.cons trivial rfl (.cons (hcreates rfl fun _ h => by cases h) rfl
      (.cons ?_ rfl (.cons trivial rfl (.cons trivial rfl (.cons trivial rfl
        (.single (hcreates rfl fun _ h => by cases h) rfl)))))))
    intro session ddl answer hi hrec hchanged
    cases hi
    cases hrec
    exact .inl fun hnone => by cases hnone
  exact (uncommitted_refuses ⟨rfl, rfl⟩ ⟨_, hrun⟩ (fun _ _ => hlog) hu rfl).1

end VirtualCatalog
