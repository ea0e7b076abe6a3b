import VirtualCatalog.Bridge.Session

/-!
# A rolled-back session restores the grants

Each DDL of a session pushes its inverse, and a rollback or a commit that fails applies them newest
first, while other sessions change the grants of other tables.  The inverse of a `RENAME` moves the
grant back, so a grant that lay under the new name is lost.

* `DuckDBSession.Within` : a session whose log and pending DDL are about the tables of `N`.
* `OneTransaction` : the labels of a run in which a session works on `N` and the others do not.
* `Following` : the invariant: rolling the session back restores `N`.
* `rollback_restores` : so it does, if no `RENAME` of the session overwrites a grant.
-/

namespace VirtualCatalog

/-! ### Sessions within a set of tables -/

namespace DuckDBSession

/-- What the session may still undo or record is about tables of `N`. -/
structure Within (N : Set TableKey) (session : DuckDBSession) : Prop where
  undo : ∀ undo ∈ session.grantUndo, undo.names ⊆ N
  pending : ∀ d ∈ session.pending, d.ddl.names ⊆ N

variable {N : Set TableKey} {i : Nat} {store : Store} {session session' : DuckDBSession}
  {op : SessionOp} {book : GrantBook}

theorem Within.local (h : session.Within N) : ∀ undo ∈ session.log, LocalOn N undo := by
  intro undo hu
  obtain ⟨u, hu', rfl⟩ := List.mem_map.1 hu
  exact u.restore_local.mono (h.undo u hu')

/-- **A session within `N` changes the grants of `N` only**, and stays within it. -/
theorem Within.step (h : session.Within N) (hs : session.Stepped i store op book session')
    (hop : ∀ ddl existing folds, op = .ddl ddl existing folds → ddl.names ⊆ N) :
    session'.Within N ∧ ∀ k ∉ N, book.tables.grantAt k = store.book.tables.grantAt k := by
  have emptied : ∀ {s : DuckDBSession}, s.pending = none → s.grantUndo = [] → s.Within N :=
    fun hr hu => ⟨by simp [hu], by simp [hr]⟩
  cases hs with
  | quiet _ hq =>
    refine ⟨⟨by rw [hq.grantUndo]; exact h.undo, fun d hd => ?_⟩, fun _ _ => rfl⟩
    rcases hq.ddl d hd with ⟨d', hd', he⟩ | ⟨-, existing, folds, rfl⟩
    · exact he ▸ h.pending d' hd'
    · exact hop d.ddl existing folds rfl
  | record ddl answer conn hr =>
    have hnames : ddl.names ⊆ N := h.pending _ (DuckDBSession.pending_of_recording hr)
    have hspec := recordDdl_spec store.book (session.finishDdl answer) conn ddl answer
    split at hspec
    · rw [hspec.1, hspec.2.2]
      exact ⟨⟨h.undo, fun _ he => by cases he⟩, fun _ _ => rfl⟩
    next m undo hc =>
      rw [hspec.1, hspec.2.2]
      refine ⟨⟨fun u hu => ?_, fun _ he => by cases he⟩, fun k hk => ?_⟩
      · rcases List.mem_cons.1 hu with rfl | hu
        · exact (grantChange_names hc).trans hnames
        · exact h.undo u hu
      · exact grantChange_frame hc fun hk' => hk (hnames hk')
  | commit succeeds hr =>
    cases hc : session.conn with
    | none =>
      rw [commit_of_conn_none hc]
      exact ⟨h, fun _ _ => rfl⟩
    | some conn =>
      cases succeeds with
      | true =>
        rw [commit_true_tables]
        exact ⟨emptied (by rw [commit, hc]; exact hr) (by rw [commit, hc]; rfl), fun _ _ => rfl⟩
      | false =>
        rw [commit_false hc, grantAt_rollback]
        exact ⟨emptied hr rfl, fun k hk => rollBack_frame h.local hk⟩
  | rollback hr =>
    rw [grantAt_rollback]
    exact ⟨emptied hr rfl, fun k hk => rollBack_frame h.local hk⟩
  | destroy hr => exact ⟨emptied hr rfl, fun _ _ => rfl⟩

end DuckDBSession

/-! ### Following one session -/

/-- The session number `i` keeps its transaction open and works on the tables of `N`; the others
do anything, but not on `N`. -/
def OneTransaction (i : Nat) (N : Set TableKey) : LiveLabel → Prop
  | .owner _ => False
  | .begin => True
  | .session j (.ddl ddl _ _) => if j = i then ddl.names ⊆ N else ddl.names ⊆ Nᶜ
  | .session j (.commit _) | .session j .rollback | .session j .destroy => j ≠ i
  | .session _ _ => True

/-- The session is about to record a `RENAME` only onto a name without a grant. -/
def RenamesToFree (i : Nat) (s : Live) : LiveLabel → Prop
  | .session j .record => j = i → ∀ session ddl answer newName, s.sessions[i]? = some session →
      session.recording = some (ddl, answer) → ddl.newName = some newName →
        s.tables.findGrant ddl.schema newName = none ∨
          tableKey ddl.schema newName = ddl.tableKey
  | _ => True

/-- The other sessions have nothing to undo or to record on `N`. -/
def Apart (i : Nat) (N : Set TableKey) (s : Live) : Prop :=
  ∀ j ≠ i, ∀ session, s.sessions[j]? = some session → session.Within Nᶜ

/-- Rolling back the session would restore the grants `m₀` of `N`. -/
structure Following (i : Nat) (N : Set TableKey) (m₀ : TableKey → Option SourceGrant) (s : Live) :
    Prop where
  sound : s.Sound
  mine : ∃ session, s.sessions[i]? = some session ∧ session.Within N ∧
    Restores N session.log m₀ s.tables.grantAt
  apart : Apart i N s

section

variable {bridgeId : String} {i : Nat} {N : Set TableKey} {m₀ : TableKey → Option SourceGrant}
  {s s' : Live} {l : LiveLabel}

/-- A step of another session. -/
theorem Following.other {j : Nat} {op : SessionOp} (h : Following i N m₀ s) (hj : j ≠ i)
    (hop : ∀ ddl existing folds, op = .ddl ddl existing folds → ddl.names ⊆ Nᶜ)
    (hs : s.next bridgeId (.session j op) = some s') : Following i N m₀ s' := by
  refine ⟨h.sound.next hs, ?_, ?_⟩ <;>
    obtain ⟨session, book, session', hsj, hd, hstep, rfl⟩ := Live.next_session hs <;>
    obtain ⟨hw', hframe⟩ := (h.apart j hj session hsj).step hstep hop
  · obtain ⟨mine, hi, hw, hr⟩ := h.mine
    refine ⟨mine, ?_, hw, hr.frame hw.local fun k hk => hframe k fun hk' => hk' hk⟩
    rw [List.getElem?_set_ne hj, hi]
  · intro j' hj' session₁ hs₁
    rcases Live.getElem?_step hs₁ with ⟨-, rfl⟩ | ⟨-, hs₁⟩
    · exact hw'
    · exact h.apart j' hj' session₁ hs₁

/-- A step of the session itself that does not end its transaction. -/
theorem Following.own {op : SessionOp} (h : Following i N m₀ s)
    (hl : OneTransaction i N (.session i op)) (hf : RenamesToFree i s (.session i op))
    (hs : s.next bridgeId (.session i op) = some s') : Following i N m₀ s' := by
  refine ⟨h.sound.next hs, ?_, ?_⟩ <;>
    obtain ⟨session, book, session', hsi, hd, hstep, rfl⟩ := Live.next_session hs
  · obtain ⟨mine, hi, hw, hr⟩ := h.mine
    rw [hsi] at hi
    cases hi
    have hop : ∀ ddl existing folds, op = .ddl ddl existing folds → ddl.names ⊆ N := by
      rintro ddl existing folds rfl
      simpa [OneTransaction] using hl
    refine ⟨session', ?_, (hw.step hstep hop).1, ?_⟩
    · rw [List.getElem?_set_self (List.getElem?_eq_some_iff.1 hsi).1]
    · cases hstep with
      | quiet _ hq =>
        rw [DuckDBSession.log, hq.grantUndo]
        exact hr
      | record ddl answer conn hrec =>
        have hspec := DuckDBSession.recordDdl_spec s.store.book (session.finishDdl answer) conn ddl
          answer
        change Restores N _ _
          ((DuckDBSession.recordDdl s.store.book (session.finishDdl answer) conn ddl
            answer).1.tables.grantAt)
        split at hspec
        · rw [hspec.1, hspec.2.2]
          exact hr
        next m undo hc =>
          rw [hspec.1, hspec.2.2]
          refine hr.push hw.local fun k _ => ?_
          rw [restore_grantChange hc fun n hn => hf rfl session ddl answer n hsi hrec hn]
      | commit => exact absurd rfl hl
      | rollback => exact absurd rfl hl
      | destroy => exact absurd rfl hl
  · intro j hj session₁ hs₁
    rw [List.getElem?_set_ne (Ne.symm hj)] at hs₁
    exact h.apart j hj session₁ hs₁

theorem Following.next (h : Following i N m₀ s) (hl : OneTransaction i N l)
    (hf : RenamesToFree i s l) (hs : s.next bridgeId l = some s') : Following i N m₀ s' := by
  cases l with
  | owner label => exact hl.elim
  | begin =>
    have hsound := h.sound.next hs
    cases hs
    obtain ⟨mine, hi, hw, hr⟩ := h.mine
    refine ⟨hsound, ⟨mine, ?_, hw, hr⟩, fun j hj session hj' => ?_⟩
    · rw [List.getElem?_append_left (List.getElem?_eq_some_iff.1 hi).1, hi]
    · rcases Live.getElem?_begin hj' with hj' | rfl
      · exact h.apart j hj session hj'
      · exact ⟨fun u hu => (by cases hu), fun _ he => (by cases he)⟩
  | session j op =>
    by_cases hj : j = i
    · subst hj
      exact h.own hl hf hs
    · refine h.other hj ?_ hs
      rintro ddl existing folds rfl
      simpa [OneTransaction, hj] using hl

/-- A rollback, or a commit that fails, gives back what the log restores. -/
theorem Following.ends {op : SessionOp} (h : Following i N m₀ s)
    (hop : op = .rollback ∨ op = .commit false)
    (hs : s.next bridgeId (.session i op) = some s') :
    (∀ k ∈ N, s'.tables.grantAt k = m₀ k) ∧
      ∃ session, s'.sessions[i]? = some session ∧ session.grantUndo = [] := by
  obtain ⟨mine, hi, hw, hr⟩ := h.mine
  obtain ⟨session, book, session', hsi, hd, hstep, rfl⟩ := Live.next_session hs
  rw [hsi] at hi
  cases hi
  have hself : (s.sessions.set i session')[i]? = some session' :=
    List.getElem?_set_self (List.getElem?_eq_some_iff.1 hsi).1
  cases hstep with
  | rollback hrec =>
    refine ⟨fun k hk => ?_, _, hself, rfl⟩
    change (DuckDBSession.rollback s.store.book mine).1.tables.grantAt k = _
    rw [DuckDBSession.grantAt_rollback]
    exact hr k hk
  | commit succeeds hrec =>
    obtain rfl : succeeds = false := by rcases hop with h | h <;> cases h; rfl
    cases hconn : mine.conn with
    | none =>
      -- without a connection there is nothing to undo
      have hnil : mine.grantUndo = [] := by
        by_contra hne
        have := (h.sound.linked i mine hsi).undo hne
        rw [hconn] at this
        cases this
      rw [DuckDBSession.commit_of_conn_none hconn] at hself ⊢
      refine ⟨fun k hk => ?_, _, hself, hnil⟩
      have := hr k hk
      rwa [DuckDBSession.log, hnil] at this
    | some conn =>
      rw [DuckDBSession.commit_false hconn] at hself ⊢
      refine ⟨fun k hk => ?_, _, hself, rfl⟩
      change (DuckDBSession.rollback s.store.book mine).1.tables.grantAt k = _
      rw [DuckDBSession.grantAt_rollback]
      exact hr k hk
  | quiet hq => rcases hop with rfl | rfl <;> cases hq
  | _ => rcases hop with h | h <;> cases h

end

/-- **A rolled-back session restores the grants.**  A session without changes works on the tables
of `N` while the other sessions work elsewhere, and then rolls back or fails to commit: every grant
of `N` is what it was, and the count is that of the other logs. -/
theorem rollback_restores {bridgeId : String} {s₀ s s₁ s₂ : Live} {i : Nat} {N : Set TableKey}
    {session : DuckDBSession} {ls : List LiveLabel} {op : SessionOp} (hfresh : s₀.Fresh)
    (hreach : (liveMachine bridgeId).ReachableBy Machine.Free s₀ s)
    (hi : s.sessions[i]? = some session) (hundo : session.grantUndo = [])
    (hpending : session.pending = none) (hapart : Apart i N s)
    (hrun : (liveMachine bridgeId).Run (fun s l => OneTransaction i N l ∧ RenamesToFree i s l)
      s ls s₁)
    (hop : op = .rollback ∨ op = .commit false)
    (hend : s₁.next bridgeId (.session i op) = some s₂) :
    (∀ schema table, tableKey schema table ∈ N →
      s₂.tables.findGrant schema table = s.tables.findGrant schema table) ∧
      s₂.store.book.uncommittedDdl = s₂.logged ∧
        ∃ session, s₂.sessions[i]? = some session ∧ session.grantUndo = [] := by
  have hsound : s.Sound :=
    hreach.invariant hfresh.sound fun _ _ _ h _ hs => Live.Sound.next h hs
  have hstart : Following i N s.tables.grantAt s := by
    refine ⟨hsound, ⟨session, hi, ⟨by simp [hundo], by simp [hpending]⟩, fun k _ => ?_⟩, hapart⟩
    rw [DuckDBSession.log, hundo]
    rfl
  have hfollow : Following i N s.tables.grantAt s₁ :=
    hrun.invariant hstart fun _ _ _ h hc hs => h.next hc.1 hc.2 hs
  obtain ⟨hgrants, hmine⟩ := hfollow.ends hop hend
  exact ⟨fun schema table hk => hgrants _ hk, (hfollow.sound.next hend).count, hmine⟩

namespace Sample

/-- A grant of select, alter and drop over every row. -/
def openGrant : SourceGrant where
  verbs := {.select, .alter, .drop}
  selectUnrestricted := true

/-- A bridge that grants `orders`, and `archive`, whose table its owner has dropped. -/
def withArchive : Live where
  store :=
    { book := { state := { tables := (tables openGrant).set "main" "archive" openGrant } }
      context := {}
      installed := []
      contexts := [] }
  sessions := []

/-- The tables that the session works on. -/
def renamed : Set TableKey := {k | k = tableKey "main" "orders" ∨ k = tableKey "main" "archive"}

/-- `ALTER TABLE orders RENAME TO newName`. -/
def renameOrders (newName : String) : CrossingDdl := ⟨"main", "orders", .alter (.renameTable newName)⟩

/-- One session runs a DDL that takes `sections` checks, and succeeds. -/
def runs (ddl : CrossingDdl) (sections : Nat) : List LiveLabel :=
  .session 0 (.ddl ddl false fun _ => false) :: List.replicate sections (.session 0 .check) ++
    [.session 0 (.run {}), .session 0 .record]

/-- The state after a list of steps. -/
def afterSteps (s : Live) (ls : List LiveLabel) : Live := ((liveMachine "b").exec s ls).getD s

end Sample

/-- A `RENAME` onto the name of a grant whose table is gone loses that grant on rollback. -/
theorem rollback_not_restores :
    ¬ ∀ (bridgeId : String) (s₀ s s₁ s₂ : Live) (i : Nat) (N : Set TableKey)
      (session : DuckDBSession) (ls : List LiveLabel) (op : SessionOp), s₀.Fresh →
        (liveMachine bridgeId).ReachableBy Machine.Free s₀ s →
        s.sessions[i]? = some session → session.grantUndo = [] → session.pending = none →
        Apart i N s → (liveMachine bridgeId).Run (fun _ l => OneTransaction i N l) s ls s₁ →
        (op = .rollback ∨ op = .commit false) →
        s₁.next bridgeId (.session i op) = some s₂ →
        ∀ schema table, tableKey schema table ∈ N →
          s₂.tables.findGrant schema table = s.tables.findGrant schema table := by
  intro h
  let s := Sample.afterSteps Sample.withArchive [.begin]
  let ls := Sample.runs (Sample.renameOrders "archive") 2
  let s₁ := Sample.afterSteps s ls
  let s₂ := Sample.afterSteps s₁ [.session 0 .rollback]
  have hnames : (Sample.renameOrders "archive").names ⊆ Sample.renamed := by
    rintro k (rfl | ⟨n, hn, rfl⟩)
    · exact .inl rfl
    · cases hn
      exact .inr rfl
  have hrun : (liveMachine "b").Run (fun _ l => OneTransaction 0 Sample.renamed l) s ls s₁ :=
    .cons hnames rfl (.cons trivial rfl (.cons trivial rfl (.cons trivial rfl
      (.single trivial rfl))))
  have hapart : Apart 0 Sample.renamed s := by
    intro j hj session hs
    cases j with
    | zero => exact absurd rfl hj
    | succ j => cases hs
  have := h "b" Sample.withArchive s s₁ s₂ 0 Sample.renamed {} ls .rollback ⟨rfl, rfl⟩
    ⟨[.begin], .single trivial rfl⟩ rfl rfl rfl hapart hrun (.inl rfl) rfl "main" "archive"
    (.inr rfl)
  have hsome : (none : Option SourceGrant).isSome = (some Sample.openGrant).isSome :=
    congrArg Option.isSome this
  cases hsome

/-- A `RENAME` onto a free name is taken back. -/
theorem rollback_restores_rename :
    (Sample.afterSteps Sample.withArchive (.begin :: Sample.runs (Sample.renameOrders "sales") 2 ++
      [.session 0 .rollback])).tables.findGrant "main" "orders" =
        Sample.withArchive.tables.findGrant "main" "orders" := by
  let s := Sample.afterSteps Sample.withArchive [.begin]
  let ls := Sample.runs (Sample.renameOrders "sales") 2
  let s₁ := Sample.afterSteps s ls
  let N := (Sample.renameOrders "sales").names
  have hrun : (liveMachine "b").Run (fun s l => OneTransaction 0 N l ∧ RenamesToFree 0 s l) s ls s₁ := by
    have quiet : ∀ {s : Live} {op : SessionOp}, op = .check ∨ op = .run {} →
        OneTransaction 0 N (.session 0 op) ∧ RenamesToFree 0 s (.session 0 op) := by
      rintro s op (rfl | rfl) <;> exact ⟨trivial, trivial⟩
    refine .cons ⟨subset_rfl, trivial⟩ rfl (.cons (quiet (.inl rfl)) rfl
      (.cons (quiet (.inl rfl)) rfl (.cons (quiet (.inr rfl)) rfl
        (.single ⟨trivial, fun _ => ?_⟩ rfl))))
    intro session ddl answer n hs hr hn
    cases hs
    cases hr
    cases hn
    exact .inl rfl
  have hapart : Apart 0 N s := by
    intro j hj session hs
    cases j with
    | zero => exact absurd rfl hj
    | succ j => cases hs
  exact (@rollback_restores "b" Sample.withArchive s s₁ _ 0 N {} ls .rollback ⟨rfl, rfl⟩
    ⟨[.begin], .single trivial rfl⟩ rfl rfl rfl hapart hrun (.inl rfl) rfl).1 "main" "orders"
    (.inl rfl)

end VirtualCatalog
