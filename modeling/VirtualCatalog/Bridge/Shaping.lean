import VirtualCatalog.Bridge.Uncommitted

/-!
# Which connection `Describe` reads through

The book keeps one map from joined names to connections: of the sessions that created or altered a
table in a transaction that is still open.  The join forgets where the schema ends, an entry of
another session is overwritten, the end of a session that was not committed forgets nothing, and an
entry is made only when a DDL is recorded.

* `describeThrough` : the connection that `Describe` finds.
* `Traced`, `tracedMachine` : a live bridge with the tables that the DDLs of each open transaction
  created or altered, and those that it recorded; `Traced.of_run` says that every run of a live
  bridge is traced.
* `Traced.Faithful` : `Describe` reads through a connection exactly if the open transaction of that
  connection has created or altered the table.
* `Shaped` : the steps that leave an entry with its session.
* `Traced.RecordsShaped` : what was recorded and what was run agree, as far as tables are granted.
* `shaping_faithful_iff` : in every run of these steps, `Describe` is right exactly if they agree.
-/

namespace VirtualCatalog

/-- The tables that a DDL creates or alters, under the old and the new name. -/
def CrossingDdl.shapes (ddl : CrossingDdl) : List (String × String) :=
  match ddl.statement with
  | .create _ => [(ddl.schema, ddl.table)]
  | .drop => []
  | .alter _ => (ddl.schema, ddl.table) :: ddl.newName.toList.map fun n => (ddl.schema, n)

/-- The tables that `RecordDdl` files under the connection: the new name of a `RENAME` only if it
finds the grant. -/
def CrossingDdl.files (ddl : CrossingDdl) (found : Option SourceGrant) : List (String × String) :=
  match ddl.statement with
  | .create _ => [(ddl.schema, ddl.table)]
  | .drop => []
  | .alter _ => (ddl.schema, ddl.table) ::
      (if found.isSome then ddl.newName.toList.map fun n => (ddl.schema, n) else [])

/-- `Describe` up to its choice of a connection; `none` is a new one, which sees what is
committed. -/
def describeThrough (book : GrantBook) (schema name : String) :
    Except BridgeError (Option ConnId) :=
  match book.tables.findGrant schema name with
  | none => .error ⟨.catalog, "vcatbridge: " ++ quoted schema name ++ " is not granted"⟩
  | some _ => .ok (book.shaping.find? (shapingName schema name))

/-! ### The history of the open transactions -/

/-- A live bridge, and the history of its open transactions. -/
structure Traced where
  live : Live
  /-- The tables that the source created or altered in the transaction of each session. -/
  shaped : Nat → List (String × String) := fun _ => []
  /-- The tables that it recorded. -/
  filed : Nat → List (String × String) := fun _ => []

namespace Traced

/-- The DDL that the source runs for the session number `i`, if its checks have passed. -/
def running (t : Traced) (i : Nat) : Option CrossingDdl :=
  match t.live.sessions[i]?.bind DuckDBSession.pending with
  | some (.checking ddl (.ret _)) => some ddl
  | _ => none

/-- The tables of the DDL that the session number `i` is about to record. -/
def recorded (t : Traced) (i : Nat) : List (String × String) :=
  ((t.live.sessions[i]?.bind DuckDBSession.recording).map fun r =>
    r.1.files (t.live.tables.findGrant r.1.schema r.1.table)).getD []

/-- What the open transactions created or altered, after a step. -/
def shapedAfter (t : Traced) : LiveLabel → Nat → List (String × String)
  | .session i (.run answer) =>
    match answer.result with
    | .ok _ =>
      Function.update t.shaped i (((t.running i).map (·.shapes)).getD [] ++ t.shaped i)
    | .error _ => t.shaped
  | .session i (.commit _) | .session i .rollback | .session i .destroy =>
    Function.update t.shaped i []
  | _ => t.shaped

/-- What they recorded, after a step. -/
def filedAfter (t : Traced) : LiveLabel → Nat → List (String × String)
  | .session i .record => Function.update t.filed i (t.recorded i ++ t.filed i)
  | .session i (.commit _) | .session i .rollback | .session i .destroy =>
    Function.update t.filed i []
  | _ => t.filed

/-- One step. -/
def next (bridgeId : String) (t : Traced) (l : LiveLabel) : Option Traced :=
  (t.live.next bridgeId l).map fun live => ⟨live, t.shapedAfter l, t.filedAfter l⟩

end Traced

/-- A live bridge with its history. -/
def tracedMachine (bridgeId : String) : Machine Traced LiveLabel := ⟨Traced.next bridgeId⟩

namespace Traced

/-- Every run of a live bridge is one with a history. -/
theorem of_run {bridgeId : String} {t : Traced} {s : Live} {ls : List LiveLabel}
    (h : (liveMachine bridgeId).Run Machine.Free t.live ls s) :
    ∃ shaped filed, (tracedMachine bridgeId).Run Machine.Free t ls ⟨s, shaped, filed⟩ := by
  generalize hs₀ : t.live = s₀ at h
  induction h generalizing t with
  | nil s =>
    subst hs₀
    exact ⟨t.shaped, t.filed, .nil _⟩
  | @cons s u v l ls _ hs _ ih =>
    subst hs₀
    obtain ⟨shaped, filed, hrun⟩ := @ih ⟨u, t.shapedAfter l, t.filedAfter l⟩ rfl
    refine ⟨shaped, filed, .cons trivial ?_ hrun⟩
    change (t.live.next bridgeId l).map _ = _
    rw [show t.live.next bridgeId l = some u from hs]
    rfl

variable (t : Traced)

/-- The session is open, and `c` is the connection of its open transaction. -/
def Owns (i : Nat) (c : ConnId) : Prop :=
  ∃ session, t.live.sessions[i]? = some session ∧ session.destroyed = false ∧
    session.conn = some c

/-- The open transaction of the connection `c` has created or altered the table. -/
def Shapes (c : ConnId) (schema table : String) : Prop :=
  ∃ i p, t.Owns i c ∧ p ∈ t.shaped i ∧ tableKey p.1 p.2 = tableKey schema table

/-- `Describe` reads through a connection exactly if its open transaction has created or altered the
table. -/
def Faithful : Prop :=
  ∀ schema table through, describeThrough t.live.store.book schema table = .ok through →
    ∀ c, through = some c ↔ t.Shapes c schema table

/-- Of the granted tables, an open transaction has recorded those that it created or altered. -/
structure RecordsShaped : Prop where
  /-- A granted table has the joined name of a recorded one only if it was created or altered,
  too. -/
  apart : ∀ i c schema table, t.Owns i c → t.live.tables.findGrant schema table ≠ none →
    ∀ q ∈ t.filed i, fold (shapingName q.1 q.2) = fold (shapingName schema table) →
      ∃ p ∈ t.shaped i, tableKey p.1 p.2 = tableKey schema table
  /-- A granted table that was created or altered is recorded, under its joined name. -/
  recorded : ∀ i c schema table, t.Owns i c → t.live.tables.findGrant schema table ≠ none →
    ∀ p ∈ t.shaped i, tableKey p.1 p.2 = tableKey schema table →
      ∃ q ∈ t.filed i, fold (shapingName q.1 q.2) = fold (shapingName schema table)

/-- A bridge no session has used. -/
structure Fresh : Prop where
  live : t.live.Fresh
  shaping : t.live.store.book.shaping = ∅
  shaped : ∀ i, t.shaped i = []
  filed : ∀ i, t.filed i = []

end Traced

/-- The steps that leave an entry with its session: a DDL is recorded under joined names that no
other open transaction has recorded, and no session is destroyed whose open transaction has recorded
a table. -/
def Shaped (t : Traced) : LiveLabel → Prop
  | .session i .record => ∀ p ∈ t.recorded i, ∀ j ≠ i, ∀ q ∈ t.filed j,
      fold (shapingName q.1 q.2) ≠ fold (shapingName p.1 p.2)
  | .session i .destroy => t.filed i = []
  | _ => True

/-! ### What the steps do to the shaping -/

/-- Several tables are filed under one connection. -/
theorem find?_foldl_shape (ps : List (String × String)) (m : CIMap ConnId) (conn : ConnId)
    (name : String) :
    (ps.foldl (fun m p => m.insert (shapingName p.1 p.2) conn) m).find? name =
      if ∃ p ∈ ps, fold name = fold (shapingName p.1 p.2) then some conn else m.find? name := by
  induction ps generalizing m with
  | nil => simp
  | cons p ps ih =>
    rw [List.foldl_cons, ih, CIMap.find?_insert]
    by_cases hps : ∃ q ∈ ps, fold name = fold (shapingName q.1 q.2)
    · rw [if_pos hps, if_pos (hps.imp fun q hq => ⟨List.mem_cons_of_mem _ hq.1, hq.2⟩)]
    · rw [if_neg hps]
      by_cases hp : fold name = fold (shapingName p.1 p.2)
      · rw [if_pos hp, if_pos ⟨p, List.mem_cons_self, hp⟩]
      · rw [if_neg hp, if_neg]
        rintro ⟨q, hq, heq⟩
        rcases List.mem_cons.1 hq with rfl | hq
        · exact hp heq
        · exact hps ⟨q, hq, heq⟩

namespace DuckDBSession

variable {i : Nat} {store : Store} {session session' : DuckDBSession} {op : SessionOp}
  {book : GrantBook}

/-- A recorded DDL files its tables under the connection. -/
theorem shaping_recordDdl (book : GrantBook) (session : DuckDBSession) (conn : ConnId)
    (ddl : CrossingDdl) (answer : SourceAnswer) :
    (recordDdl book session conn ddl answer).1.shaping =
      (ddl.files (book.tables.findGrant ddl.schema ddl.table)).foldl
        (fun m p => m.insert (shapingName p.1 p.2) conn) book.shaping := by
  have found : (book.tables.touch ddl.schema).findGrant ddl.schema ddl.table =
      book.tables.findGrant ddl.schema ddl.table := by
    rw [GrantTables.findGrant_eq, GrantTables.findGrant_eq, GrantTables.grantAt_touch]
  obtain ⟨schema, table, statement⟩ := ddl
  dsimp only at found
  cases statement with
  | create oc => rfl
  | drop =>
    simp only [recordDdl, found]
    cases book.tables.findGrant schema table <;> rfl
  | alter info =>
    cases info with
    | renameTable n =>
      simp only [recordDdl, found]
      cases book.tables.findGrant schema table <;> rfl
    | _ => cases hg : book.tables.findGrant schema table <;> rfl

end DuckDBSession

/-! ### Entries and their sessions -/

namespace Traced

/-- Every entry belongs to a table that an open transaction has recorded, and every such table has
its entry. -/
structure Held (t : Traced) : Prop where
  sound : t.live.Sound
  entries : ∀ name c, t.live.store.book.shaping.find? name = some c ↔
    ∃ i p, t.Owns i c ∧ p ∈ t.filed i ∧ fold name = fold (shapingName p.1 p.2)
  owned : ∀ i, t.filed i ≠ [] → ∃ c, t.Owns i c

variable {bridgeId : String} {t t' : Traced} {i j : Nat} {session session' : DuckDBSession}
  {c : ConnId} {op : SessionOp} {book : GrantBook}

theorem Owns.unique (hi : t.live.sessions[i]? = some session) (h : t.Owns i c) :
    session.destroyed = false ∧ session.conn = some c := by
  obtain ⟨session', hi', h⟩ := h
  rw [hi] at hi'
  rwa [Option.some.inj hi']

/-- The connections after a session made a step. -/
theorem owns_step_iff (hi : t.live.sessions[i]? = some session)
    (hs : t'.live.sessions = t.live.sessions.set i session') :
    t'.Owns j c ↔ j = i ∧ session'.destroyed = false ∧ session'.conn = some c ∨
      j ≠ i ∧ t.Owns j c := by
  unfold Owns
  rw [hs]
  by_cases hj : j = i
  · subst hj
    have hlt := (List.getElem?_eq_some_iff.1 hi).1
    simp [List.getElem?_set_self hlt]
  · simp [List.getElem?_set_ne (Ne.symm hj), hj]

/-- The session's own connection is the only one with its number. -/
theorem Held.not_own (h : t.Held) (hi : t.live.sessions[i]? = some session)
    (hown : t.Owns j c) (hj : j ≠ i) : session.conn ≠ some c := by
  intro hc
  obtain ⟨session', hj', -, hc'⟩ := hown
  have hc : c.session = i := (h.sound.linked i session hi).owned c hc
  have hc' : c.session = j := (h.sound.linked j session' hj').owned c hc'
  exact hj (hc'.symm.trans hc)

/-- A step that leaves the shaping and what is recorded alone, and the connection if something is
recorded. -/
theorem Held.quiet (h : t.Held) (hi : t.live.sessions[i]? = some session)
    (hs : t'.live.sessions = t.live.sessions.set i session') (hsound : t'.live.Sound)
    (hshaping : t'.live.store.book.shaping = t.live.store.book.shaping)
    (hfiled : t'.filed = t.filed)
    (hown : t.filed i ≠ [] → session'.destroyed = session.destroyed ∧
      session'.conn = session.conn) : t'.Held := by
  have howns : ∀ j c, t.filed j ≠ [] → (t'.Owns j c ↔ t.Owns j c) := by
    intro j c hne
    rw [owns_step_iff hi hs]
    by_cases hj : j = i
    · subst hj
      obtain ⟨hd, hc⟩ := hown hne
      rw [hd, hc]
      constructor
      · rintro (⟨-, hd, hc⟩ | ⟨hne, -⟩)
        · exact ⟨session, hi, hd, hc⟩
        · exact absurd rfl hne
      · intro hown
        exact .inl ⟨rfl, hown.unique hi⟩
    · simp [hj]
  refine ⟨hsound, fun name c => ?_, fun j hne => ?_⟩
  · rw [hshaping, h.entries, hfiled]
    constructor
    · rintro ⟨j, p, hown, hp, heq⟩
      exact ⟨j, p, (howns j c (List.ne_nil_of_mem hp)).2 hown, hp, heq⟩
    · rintro ⟨j, p, hown, hp, heq⟩
      exact ⟨j, p, (howns j c (List.ne_nil_of_mem hp)).1 hown, hp, heq⟩
  · rw [hfiled] at hne
    obtain ⟨c, hc⟩ := h.owned j hne
    exact ⟨c, (howns j c hne).2 hc⟩

/-- A commit or a rollback. -/
theorem Held.ended (h : t.Held) (hi : t.live.sessions[i]? = some session)
    (hs : t'.live.sessions = t.live.sessions.set i session') (hsound : t'.live.Sound)
    (hfiled : t'.filed = Function.update t.filed i [])
    (hends : DuckDBSession.Ends t.live.store t'.live.store.book session session') : t'.Held := by
  have howns : ∀ j c, t'.Owns j c ↔ j ≠ i ∧ t.Owns j c := by
    intro j c
    rw [owns_step_iff hi hs, hends.conn]
    simp
  have hother : ∀ j, j ≠ i → t'.filed j = t.filed j := by
    intro j hj
    rw [hfiled, Function.update_of_ne hj]
  refine ⟨hsound, fun name c => ?_, fun j hne => ?_⟩
  · rw [hends.shaping, h.entries]
    constructor
    · rintro ⟨⟨j, p, hown, hp, heq⟩, hne⟩
      have hj : j ≠ i := by
        rintro rfl
        exact hne (hown.unique hi).2
      exact ⟨j, p, (howns j c).2 ⟨hj, hown⟩, by rwa [hother j hj], heq⟩
    · rintro ⟨j, p, hown, hp, heq⟩
      obtain ⟨hj, hown⟩ := (howns j c).1 hown
      rw [hother j hj] at hp
      exact ⟨⟨j, p, hown, hp, heq⟩, h.not_own hi hown hj⟩
  · have hj : j ≠ i := by
      rintro rfl
      rw [hfiled, Function.update_self] at hne
      exact hne rfl
    rw [hother j hj] at hne
    obtain ⟨c, hc⟩ := h.owned j hne
    exact ⟨c, (howns j c).2 ⟨hj, hc⟩⟩

/-- A DDL is recorded under new joined names. -/
theorem Held.record (h : t.Held) (hi : t.live.sessions[i]? = some session)
    (hs : t'.live.sessions = t.live.sessions.set i session') (hsound : t'.live.Sound)
    {ps : List (String × String)} {conn : ConnId}
    (hfiled : t'.filed = Function.update t.filed i (ps ++ t.filed i))
    (hd : session.destroyed = false) (hd' : session'.destroyed = session.destroyed)
    (hc : session.conn = some conn) (hc' : session'.conn = session.conn)
    (hshaping : t'.live.store.book.shaping =
      ps.foldl (fun m p => m.insert (shapingName p.1 p.2) conn) t.live.store.book.shaping)
    (hfree : ∀ p ∈ ps, ∀ j ≠ i, ∀ q ∈ t.filed j,
      fold (shapingName q.1 q.2) ≠ fold (shapingName p.1 p.2)) :
    t'.Held := by
  -- a connection keeps its owner
  have howns : ∀ j c, t'.Owns j c ↔ t.Owns j c := by
    intro j c
    rw [owns_step_iff hi hs]
    by_cases hj : j = i
    · subst hj
      rw [hd', hc']
      constructor
      · rintro (⟨-, hd, hc⟩ | ⟨hne, -⟩)
        · exact ⟨session, hi, hd, hc⟩
        · exact absurd rfl hne
      · intro hown
        exact .inl ⟨rfl, hown.unique hi⟩
    · simp [hj]
  have hown : t.Owns i conn := ⟨session, hi, hd, hc⟩
  have hself : t'.filed i = ps ++ t.filed i := by rw [hfiled, Function.update_self]
  have hother : ∀ j, j ≠ i → t'.filed j = t.filed j := by
    intro j hj
    rw [hfiled, Function.update_of_ne hj]
  refine ⟨hsound, fun name c => ?_, fun j hne => ?_⟩
  · rw [hshaping, find?_foldl_shape]
    constructor
    · intro hfind
      split_ifs at hfind with hmatch
      · obtain ⟨p, hp, heq⟩ := hmatch
        obtain rfl := Option.some.inj hfind
        exact ⟨i, p, (howns i _).2 hown, by rw [hself]; exact List.mem_append_left _ hp, heq⟩
      · obtain ⟨j, p, hown, hp, heq⟩ := (h.entries name c).1 hfind
        refine ⟨j, p, (howns j c).2 hown, ?_, heq⟩
        by_cases hj : j = i
        · subst hj
          rw [hself]
          exact List.mem_append_right _ hp
        · rwa [hother j hj]
    · rintro ⟨j, q, hjown, hq, heq⟩
      rw [howns] at hjown
      by_cases hj : j = i
      · subst hj
        have hconn : conn = c := Option.some.inj (hc.symm.trans (hjown.unique hi).2)
        -- of this session: a new name or an old one
        rw [hself] at hq
        split_ifs with hmatch
        · rw [hconn]
        · refine (h.entries name c).2 ⟨j, q, hjown, ?_, heq⟩
          exact (List.mem_append.1 hq).resolve_left fun hq => hmatch ⟨q, hq, heq⟩
      · rw [hother j hj] at hq
        rw [if_neg]
        · exact (h.entries name c).2 ⟨j, q, hjown, hq, heq⟩
        · -- the new tables have other names than those of `j`
          rintro ⟨p, hp, hpeq⟩
          exact hfree p hp j hj q hq (heq.symm.trans hpeq)
  · by_cases hj : j = i
    · exact ⟨conn, by rw [hj, howns]; exact hown⟩
    · rw [hother j hj] at hne
      obtain ⟨c, hc⟩ := h.owned j hne
      exact ⟨c, (howns j c).2 hc⟩

/-- The owner and a new session change no entry. -/
theorem Held.frame (h : t.Held) (hsound : t'.live.Sound)
    (hshaping : t'.live.store.book.shaping = t.live.store.book.shaping)
    (hfiled : t'.filed = t.filed) (howns : ∀ j c, t'.Owns j c ↔ t.Owns j c) : t'.Held := by
  refine ⟨hsound, fun name c => ?_, fun j hne => ?_⟩
  · rw [hshaping, h.entries, hfiled]
    simp only [howns]
  · rw [hfiled] at hne
    simpa only [howns] using h.owned j hne

theorem owns_begin_iff (store : Store) (shaped filed : Nat → List (String × String)) :
    (Traced.mk ⟨store, t.live.sessions ++ [({} : DuckDBSession)]⟩ shaped filed).Owns j c ↔
      t.Owns j c := by
  unfold Owns
  dsimp only
  constructor
  · rintro ⟨session, hj, hd, hc⟩
    rcases Live.getElem?_begin hj with hj | rfl
    · exact ⟨session, hj, hd, hc⟩
    · cases hc
  · rintro ⟨session, hj, hd, hc⟩
    have hlt := (List.getElem?_eq_some_iff.1 hj).1
    exact ⟨session, by rwa [List.getElem?_append_left hlt], hd, hc⟩

theorem Held.next {l : LiveLabel} (h : t.Held) (hc : Shaped t l)
    (hs : t.next bridgeId l = some t') : t'.Held := by
  obtain ⟨live, hlive, rfl⟩ := Option.map_eq_some_iff.1 hs
  have hsound := h.sound.next hlive
  cases l with
  | owner label =>
    obtain ⟨store, hstore, rfl⟩ := Option.map_eq_some_iff.1 hlive
    exact h.frame hsound (Live.next_owner_shaping hstore) rfl fun j c => Iff.rfl
  | begin =>
    cases hlive
    exact h.frame hsound rfl rfl fun j c => owns_begin_iff _ _ _
  | session i op =>
    obtain ⟨session, book, session', hi, hd, hstep, rfl⟩ := Live.next_session hlive
    cases hstep with
    | quiet hop hq =>
      refine h.quiet hi rfl hsound rfl ?_ fun hne => ⟨hq.destroyed, ?_⟩
      · cases op <;> first | rfl | cases hop
      · -- what is recorded has a connection already
        obtain ⟨c, hown⟩ := h.owned i hne
        refine hq.conn.resolve_right ?_
        rintro ⟨hnone, -⟩
        rw [(hown.unique hi).2] at hnone
        cases hnone
    | record ddl answer conn hrec hconn =>
      have hsnd := DuckDBSession.recordDdl_snd t.live.store.book (session.finishDdl answer) conn
        ddl answer
      have hrecorded : t.recorded i =
          ddl.files (t.live.store.book.tables.findGrant ddl.schema ddl.table) := by
        rw [recorded, hi, Option.bind_some, hrec]
        rfl
      refine h.record hi rfl hsound rfl hd ?_ hconn ?_ ?_ hc
      · rcases hsnd with he | ⟨undo, he⟩ <;> rw [he] <;> rfl
      · rcases hsnd with he | ⟨undo, he⟩ <;> rw [he] <;> rfl
      · rw [hrecorded]
        exact DuckDBSession.shaping_recordDdl _ _ conn ddl answer
    | commit succeeds hp =>
      exact h.ended hi rfl hsound rfl (DuckDBSession.ends_commit (h.sound.linked i session hi))
    | rollback hp => exact h.ended hi rfl hsound rfl DuckDBSession.ends_rollback
    | destroy hp =>
      have hnil : t.filed i = [] := hc
      refine h.quiet hi rfl hsound rfl ?_ fun hne => absurd hnil hne
      change Function.update t.filed i [] = t.filed
      rw [← hnil, Function.update_eq_self]

theorem Fresh.held (h : t.Fresh) : t.Held where
  sound := h.live.sound
  entries name c := by
    rw [h.shaping, CIMap.find?_empty]
    refine iff_of_false nofun ?_
    rintro ⟨i, p, -, hp, -⟩
    rw [h.filed] at hp
    cases hp
  owned i hne := absurd (h.filed i) hne

theorem fold_shapingName_congr {schema table schema' table' : String}
    (h : tableKey schema table = tableKey schema' table') :
    fold (shapingName schema table) = fold (shapingName schema' table') := by
  obtain ⟨hs, ht⟩ := Prod.mk.inj h
  simp only [fold, shapingName, String.toList_append, List.map_append] at hs ht ⊢
  rw [hs, ht]

/-- Two open transactions do not have one connection. -/
theorem Held.owns_inj (h : t.Held) (hi : t.Owns i c) (hj : t.Owns j c) : i = j := by
  obtain ⟨session, hsi, -, hci⟩ := hi
  obtain ⟨session', hsj, -, hcj⟩ := hj
  exact ((h.sound.linked i session hsi).owned c hci).symm.trans
    ((h.sound.linked j session' hsj).owned c hcj)

/-- **`Describe` is right exactly if what was recorded is what was created or altered.** -/
theorem Held.faithful_iff (h : t.Held) : t.Faithful ↔ t.RecordsShaped := by
  -- a granted table is described through the connection that its joined name is filed under
  have hthrough : ∀ schema table, t.live.tables.findGrant schema table ≠ none →
      describeThrough t.live.store.book schema table =
        .ok (t.live.store.book.shaping.find? (shapingName schema table)) := by
    intro schema table hg
    obtain ⟨g, hg⟩ := Option.ne_none_iff_exists'.1 hg
    rw [describeThrough, show t.live.store.book.tables.findGrant schema table = some g from hg]
  constructor
  · intro hfaithful
    refine ⟨fun i c schema table hown hg q hq heq => ?_, fun i c schema table hown hg p hp heq => ?_⟩
    · have hfound := (h.entries (shapingName schema table) c).2 ⟨i, q, hown, hq, heq.symm⟩
      obtain ⟨j, p, hjown, hp, hkey⟩ := (hfaithful _ _ _ (hthrough _ _ hg) c).1 hfound
      obtain rfl := h.owns_inj hown hjown
      exact ⟨p, hp, hkey⟩
    · have hfound := (hfaithful _ _ _ (hthrough _ _ hg) c).2 ⟨i, p, hown, hp, heq⟩
      obtain ⟨j, q, hjown, hq, hname⟩ := (h.entries (shapingName schema table) c).1 hfound
      obtain rfl := h.owns_inj hown hjown
      exact ⟨q, hq, hname.symm⟩
  · intro hrecords schema table through hok c
    have hg : t.live.tables.findGrant schema table ≠ none := by
      intro hnone
      rw [describeThrough, show t.live.store.book.tables.findGrant schema table = none from hnone]
        at hok
      cases hok
    rw [hthrough _ _ hg] at hok
    obtain rfl := Except.ok.inj hok
    rw [h.entries]
    constructor
    · rintro ⟨i, q, hown, hq, heq⟩
      obtain ⟨p, hp, hkey⟩ := hrecords.apart i c schema table hown hg q hq heq.symm
      exact ⟨i, p, hown, hp, hkey⟩
    · rintro ⟨i, p, hown, hp, hkey⟩
      obtain ⟨q, hq, heq⟩ := hrecords.recorded i c schema table hown hg p hp hkey
      exact ⟨i, q, hown, hq, heq.symm⟩

end Traced

/-- **Shaping stays with its session** in every run whose open transactions record different joined
names and whose sessions end their transaction before they are destroyed: exactly while the granted
tables that an open transaction has created or altered are those it has recorded. -/
theorem shaping_faithful_iff {bridgeId : String} {t₀ t : Traced} (hfresh : t₀.Fresh)
    (hreach : (tracedMachine bridgeId).ReachableBy Shaped t₀ t) :
    t.Faithful ↔ t.RecordsShaped :=
  (hreach.invariant hfresh.held fun _ _ _ h hc hs => h.next hc hs).faithful_iff

namespace Sample

/-- `CREATE TABLE "a.b"` in `main`. -/
def createNew : CrossingDdl := ⟨"main", "a.b", .create .error⟩

/-- `CREATE TABLE c` in the schema `a.b`. -/
def createDotted : CrossingDdl := ⟨"a.b", "c", .create .error⟩

/-- A bridge that grants `b.c` in the schema `a`. -/
def withDotted : Live where
  store := { withArchive.store with
    book := { state := { tables := (∅ : GrantTables).set "a" "b.c" openGrant } } }
  sessions := []

/-- A bridge, and the session that has run a DDL there. -/
def tracedRun (s : Live) (ddl : CrossingDdl) : Traced :=
  ((tracedMachine "b").exec { live := s } (.begin :: runs ddl 0)).getD { live := s }

end Sample

/-- The description of `a."b.c"` reads through the transaction that created `"a.b".c`. -/
theorem shaping_not_faithful :
    ¬ ∀ (bridgeId : String) (t₀ t : Traced), t₀.Fresh →
      (tracedMachine bridgeId).ReachableBy Machine.Free t₀ t → t.Faithful := by
  intro h
  have hreach : (tracedMachine "b").ReachableBy Machine.Free { live := Sample.withDotted }
      (Sample.tracedRun Sample.withDotted Sample.createDotted) :=
    ⟨.begin :: Sample.runs Sample.createDotted 0, Machine.run_of_exec rfl⟩
  have hthrough := (h "b" _ _ ⟨⟨rfl, rfl⟩, rfl, fun _ => rfl, fun _ => rfl⟩ hreach "a" "b.c"
    (some ⟨0, 0⟩) rfl ⟨0, 0⟩).1 rfl
  obtain ⟨i, p, ⟨session, hi, -⟩, hp, heq⟩ := hthrough
  cases i with
  | succ i => cases hi
  | zero =>
    have hshaped : (Sample.tracedRun Sample.withDotted Sample.createDotted).shaped 0 =
        [("a.b", "c")] := rfl
    rw [hshaped, List.mem_singleton] at hp
    rw [hp] at heq
    exact absurd heq (by decide)

/-- The creator of a table describes it through its own transaction, dot or no dot. -/
theorem shaping_faithful_create :
    (Sample.tracedRun Sample.withArchive Sample.createNew).Faithful := by
  let t := Sample.tracedRun Sample.withArchive Sample.createNew
  have hrun : (tracedMachine "b").Run Shaped { live := Sample.withArchive }
      (.begin :: Sample.runs Sample.createNew 0) t := by
    refine .cons trivial rfl (.cons trivial rfl (.cons trivial rfl (.single ?_ rfl)))
    intro p _ j _ q hq
    cases hq
  -- the one session has created and recorded one table
  have hone : ∀ i c, t.Owns i c → t.shaped i = [("main", "a.b")] ∧ t.filed i = [("main", "a.b")] := by
    rintro i c ⟨session, hi, -⟩
    cases i with
    | succ i => cases hi
    | zero => exact ⟨rfl, rfl⟩
  refine (shaping_faithful_iff ⟨⟨rfl, rfl⟩, rfl, fun _ => rfl, fun _ => rfl⟩ ⟨_, hrun⟩).2 ⟨?_, ?_⟩
  · intro i c schema table hown hg q hq heq
    rw [(hone i c hown).2] at hq
    obtain rfl := List.mem_singleton.1 hq
    refine ⟨("main", "a.b"), by rw [(hone i c hown).1]; exact List.mem_singleton_self _, ?_⟩
    -- the granted tables are that one and two whose names differ
    obtain ⟨g, htables⟩ : ∃ g, t.live.tables =
        ((((∅ : GrantTables).set "main" "orders" Sample.openGrant).set "main" "archive"
          Sample.openGrant).touch "main").set "main" "a.b" g := ⟨_, rfl⟩
    rw [htables, GrantTables.findGrant_eq, GrantTables.grantAt_set, GrantTables.grantAt_touch,
      GrantTables.grantAt_set, GrantTables.grantAt_set] at hg
    split_ifs at hg with hnew harchive horders
    · exact hnew.symm
    · have hjoined := heq.trans (Traced.fold_shapingName_congr harchive)
      exact absurd hjoined (by decide)
    · have hjoined := heq.trans (Traced.fold_shapingName_congr horders)
      exact absurd hjoined (by decide)
    · exact absurd rfl hg
  · intro i c schema table hown hg p hp heq
    rw [(hone i c hown).1] at hp
    exact ⟨p, by rw [(hone i c hown).2]; exact hp, Traced.fold_shapingName_congr heq⟩

end VirtualCatalog
