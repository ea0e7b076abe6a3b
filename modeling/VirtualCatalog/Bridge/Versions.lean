import VirtualCatalog.Bridge.Rollback

/-!
# The versions of a table and their policies

The sessions of a live bridge share its grants, but each of them sees the tables of the source as
they were when its own transaction there began.  A DDL changes the grants when it is recorded, while
the other sessions still see the tables of before.

* `SourceTransaction` : a session's transaction on the source, which gives it a snapshot.
* `CrossingDdl.effect` : what a DDL changes there.
* `Versions`, `versionsMachine` : the sessions of a live bridge together with the tables they see.
* `Versions.Protected` : the grant under the name of a table is that of the version that is seen,
  for every session and for a read in autocommit.
* `Careful` : a DDL gives no grant to a name under which another version is seen.
* `Guarded` : the grants fit what is seen, now and after any one session has rolled back; kept by a
  commit, a rollback and a recorded DDL.
-/

namespace VirtualCatalog

/-! ### The source -/

/-- A transaction on the source.  Tables are known by their version: one that is created or replaced
is another one, one that is renamed is the same. -/
structure SourceTransaction where
  /-- The tables when it began. -/
  snapshot : TableKey → Option Nat
  /-- What it has changed since. -/
  changes : TableKey → Option (Option Nat) := fun _ => none
  /-- What a DDL that is not recorded yet has changed. -/
  running : TableKey → Option (Option Nat) := fun _ => none

namespace SourceTransaction

variable (tx : SourceTransaction)

/-- The table it sees under a name; in the middle of a DDL it looks at nothing. -/
def view (k : TableKey) : Option Nat := (tx.changes k).getD (tx.snapshot k)

/-- It has changed what is under a name. -/
def touches (k : TableKey) : Bool := (tx.changes k).isSome || (tx.running k).isSome

/-- The DDL is recorded. -/
def recorded : SourceTransaction where
  snapshot := tx.snapshot
  changes k := (tx.running k).or (tx.changes k)

end SourceTransaction

namespace CrossingDdl

/-- What a DDL changes on the source, if it succeeds: a `CREATE` makes the version of this number.
With `IF EXISTS` a `DROP` or `ALTER` of a table that is not there succeeds and changes nothing. -/
def effect (ddl : CrossingDdl) (version : Nat) (tx : SourceTransaction) :
    Option (TableKey → Option (Option Nat)) :=
  match ddl.statement with
  | .create onConflict =>
    if tx.view ddl.tableKey = none ∨ onConflict = .replace then
      some (Function.update (fun _ => none) ddl.tableKey (some (some version)))
    else none
  | .drop =>
    match tx.view ddl.tableKey with
    | some _ => some (Function.update (fun _ => none) ddl.tableKey (some none))
    | none => some fun _ => none
  | .alter (.renameTable newName) =>
    match tx.view ddl.tableKey with
    | some v =>
      if tx.view (VirtualCatalog.tableKey ddl.schema newName) = none ∨
          VirtualCatalog.tableKey ddl.schema newName = ddl.tableKey then
        some (Function.update (Function.update (fun _ => none) ddl.tableKey (some none))
          (VirtualCatalog.tableKey ddl.schema newName) (some (some v)))
      else none
    | none => some fun _ => none
  | .alter _ => some fun _ => none

/-- The names of the tables that a DDL may change. -/
def keys (ddl : CrossingDdl) : List TableKey :=
  ddl.tableKey :: ddl.newName.toList.map (VirtualCatalog.tableKey ddl.schema)

end CrossingDdl

/-! ### The machine -/

/-- The sessions of a live bridge with the source. -/
structure Versions where
  live : Live
  /-- The tables that are committed. -/
  committed : TableKey → Option Nat
  /-- The source transaction of each session that has one. -/
  transactions : Nat → Option SourceTransaction := fun _ => none
  /-- The number of the next version. -/
  versions : Nat
  /-- Ghost: the grant of each version: what the owner's policy had installed for it, and what its
  `CREATE` installs for one that a session makes. -/
  law : Nat → Option SourceGrant

namespace Versions

/-- The grants. -/
abbrev grants (s : Versions) : TableKey → Option SourceGrant := s.live.tables.grantAt

/-- The table under a name: as a session sees it, or one that begins now. -/
def view (s : Versions) : Option Nat → TableKey → Option Nat
  | none => s.committed
  | some i => ((s.transactions i).map SourceTransaction.view).getD s.committed

/-- The source transaction of a session. -/
def withTransaction (s : Versions) (i : Nat) (tx : Option SourceTransaction) : Versions :=
  { s with transactions := Function.update s.transactions i tx }

/-- A session begins its transaction on the source, unless it is in one. -/
def opened (s : Versions) (i : Nat) : Versions :=
  match s.transactions i with
  | some _ => s
  | none => s.withTransaction i (some { snapshot := s.committed })

/-- Another session has changed what is under the name, or has committed such a change since the
transaction began. -/
def conflicts (s : Versions) (i : Nat) (tx : SourceTransaction) (k : TableKey) : Bool :=
  ((List.range s.live.sessions.length).any fun j =>
      j != i && (s.transactions j).any fun other => other.touches k) ||
    s.committed k != tx.snapshot k

/-- The source runs a DDL. -/
def ran (s : Versions) (i : Nat) (ddl : CrossingDdl) (answer : SourceAnswer) : Option Versions :=
  match s.transactions i with
  | none => none
  | some tx =>
    match ddl.effect s.versions tx with
    | none => none
    | some effect =>
      if ddl.keys.any fun k => (effect k).isSome && s.conflicts i tx k then none
      else some
        { s.withTransaction i (some { tx with running := effect }) with
          versions := s.versions + 1
          law := Function.update s.law s.versions (some (createdGrant (answer.key.getD []))) }

/-- A session commits its transaction on the source. -/
def commits (s : Versions) (i : Nat) : Versions :=
  match s.transactions i with
  | none => s
  | some tx =>
    { s.withTransaction i none with committed := fun k => (tx.changes k).getD (s.committed k) }

/-- What an operation of a session does on the source; the bridge has made its step. -/
def source (s : Versions) (i : Nat) : SessionOp → Option Versions
  | .statement => some (s.opened i)
  | .ddl ddl existing _ =>
    if existing = ((s.opened i).view (some i) ddl.tableKey).isSome then some (s.opened i) else none
  | .check => some s
  | .run _ =>
    match (s.live.sessions[i]?).bind DuckDBSession.recording with
    | none => some s
    | some (ddl, answer) => s.ran i ddl answer
  | .record => some (s.withTransaction i ((s.transactions i).map SourceTransaction.recorded))
  | .commit succeeds => some (if succeeds then s.commits i else s.withTransaction i none)
  | .rollback => some (s.withTransaction i none)
  | .destroy => some (s.withTransaction i none)

/-- The bridge after a step. -/
def withLive (s : Versions) (live : Live) : Versions := { s with live }

/-- One step. -/
def next (bridgeId : String) (s : Versions) : LiveLabel → Option Versions
  | .owner _ => none
  | .begin => (s.live.next bridgeId .begin).map s.withLive
  | .session i op =>
    (s.live.next bridgeId (.session i op)).bind fun live => (s.withLive live).source i op

/-! ### Versions under their policies -/

/-- The grants fit the tables that are seen: a table is under its own grant, or under none. -/
def Fits (s : Versions) (m : TableKey → Option SourceGrant) (viewer : Option Nat) : Prop :=
  ∀ k v g, s.view viewer k = some v → m k = some g → s.law v = some g

/-- Whoever looks a table up finds the grant of the version that he sees, or none. -/
def Protected (s : Versions) : Prop :=
  ∀ viewer schema table v g, s.view viewer (tableKey schema table) = some v →
    s.live.tables.findGrant schema table = some g → s.law v = some g

/-- No session has used the bridge yet, and each table has the grant that is installed. -/
structure Start (s : Versions) : Prop where
  fresh : s.live.Fresh
  closed : ∀ i, s.transactions i = none
  installed : ∀ k v, s.committed k = some v → v < s.versions ∧ s.law v = s.grants k

end Versions

/-- The sessions of a live bridge on a source with snapshot isolation. -/
def versionsMachine (bridgeId : String) : Machine Versions LiveLabel := ⟨Versions.next bridgeId⟩

/-- The grant that a recorded DDL gives to a name. -/
def grantGiven (ddl : CrossingDdl) (answer : SourceAnswer) (m : TableKey → Option SourceGrant) :
    Option (TableKey × SourceGrant) :=
  match ddl.statement with
  | .create _ => some (ddl.tableKey, createdGrant (answer.key.getD []))
  | .alter (.renameTable newName) => (m ddl.tableKey).map (tableKey ddl.schema newName, ·)
  | _ => none

/-- What the recording of a DDL must not do. -/
structure CarefulRecord (s : Versions) (i : Nat) (tx : SourceTransaction) (ddl : CrossingDdl)
    (answer : SourceAnswer) : Prop where
  /-- Nobody else sees, under the name that is given a grant, a version with another one. -/
  unseen : ∀ k g, grantGiven ddl answer s.grants = some (k, g) → ∀ viewer, viewer ≠ some i →
    ∀ v, s.view viewer k = some v → s.law v = some g
  /-- A DDL that changed nothing on the source changes no grant. -/
  idle : (∀ k, tx.running k = none) → grantChange ddl answer s.grants = none
  /-- A table without a grant does not come under a name that has one. -/
  ungranted : grantChange ddl answer s.grants = none →
    ∀ k v g, tx.running k = some (some v) → s.grants k = some g → s.law v = some g

/-- No step gives a table that somebody sees a grant that is not its own. -/
def Careful (s : Versions) : LiveLabel → Prop
  | .session i .record => ∀ session tx ddl answer, s.live.sessions[i]? = some session →
      session.recording = some (ddl, answer) → s.transactions i = some tx →
        CarefulRecord s i tx ddl answer
  | _ => True

/-! ### What a DDL changes on the source -/

/-- The changes, one case for each kind. -/
inductive CrossingDdl.Changes (ddl : CrossingDdl) (version : Nat) (tx : SourceTransaction) :
    (TableKey → Option (Option Nat)) → Prop
  | idle (h : ∀ onConflict, ddl.statement ≠ .create onConflict) :
      Changes ddl version tx fun _ => none
  | create (onConflict : OnCreateConflict) (h : ddl.statement = .create onConflict) :
      Changes ddl version tx
        (Function.update (fun _ => none) ddl.tableKey (some (some version)))
  | drop (h : ddl.statement = .drop) :
      Changes ddl version tx (Function.update (fun _ => none) ddl.tableKey (some none))
  | rename (newName : String) (v : Nat) (h : ddl.newName = some newName)
      (hview : tx.view ddl.tableKey = some v)
      (hfree : tx.view (VirtualCatalog.tableKey ddl.schema newName) = none ∨
        VirtualCatalog.tableKey ddl.schema newName = ddl.tableKey) :
      Changes ddl version tx (Function.update (Function.update (fun _ => none) ddl.tableKey
        (some none)) (VirtualCatalog.tableKey ddl.schema newName) (some (some v)))

namespace CrossingDdl

variable {ddl : CrossingDdl} {version : Nat} {tx : SourceTransaction}
  {effect : TableKey → Option (Option Nat)}

theorem changes_of_effect (h : ddl.effect version tx = some effect) :
    ddl.Changes version tx effect := by
  obtain ⟨schema, table, statement⟩ := ddl
  cases statement with
  | create onConflict =>
    simp only [CrossingDdl.effect, Option.ite_none_right_eq_some, Option.some.injEq] at h
    obtain ⟨-, rfl⟩ := h
    exact .create onConflict rfl
  | drop =>
    simp only [CrossingDdl.effect] at h
    split at h
    · cases h
      exact .drop rfl
    · cases h
      exact .idle nofun
  | alter info =>
    cases info with
    | renameTable n =>
      simp only [CrossingDdl.effect] at h
      split at h
      next v hv =>
        split_ifs at h with hfree
        cases h
        exact .rename n v rfl hv hfree
      · cases h
        exact .idle nofun
    | _ =>
      cases h
      exact .idle nofun

theorem mem_keys_of_newName {n : String} (h : ddl.newName = some n) :
    VirtualCatalog.tableKey ddl.schema n ∈ ddl.keys := by
  rw [keys, h]
  exact List.mem_cons_of_mem _ List.mem_cons_self

/-- A DDL changes what is under its own names. -/
theorem Changes.keys (h : ddl.Changes version tx effect) {k : TableKey}
    (hk : (effect k).isSome = true) : k ∈ ddl.keys := by
  cases h with
  | idle => cases hk
  | create =>
    by_cases hkey : k = ddl.tableKey
    · exact hkey ▸ List.mem_cons_self
    · rw [Function.update_of_ne hkey] at hk
      cases hk
  | drop =>
    by_cases hkey : k = ddl.tableKey
    · exact hkey ▸ List.mem_cons_self
    · rw [Function.update_of_ne hkey] at hk
      cases hk
  | rename n v hn =>
    by_cases hnew : k = VirtualCatalog.tableKey ddl.schema n
    · exact hnew ▸ mem_keys_of_newName hn
    · rw [Function.update_of_ne hnew] at hk
      by_cases hkey : k = ddl.tableKey
      · exact hkey ▸ List.mem_cons_self
      · rw [Function.update_of_ne hkey] at hk
        cases hk

end CrossingDdl

/-! ### What it records -/

namespace CrossingDdl

variable {ddl : CrossingDdl} {version : Nat} {tx : SourceTransaction}
  {effect : TableKey → Option (Option Nat)} {answer : SourceAnswer}
  {m m' : TableKey → Option SourceGrant} {undo : GrantUndo} {k : TableKey} {g : SourceGrant}

theorem newName_of_create {onConflict : OnCreateConflict} (h : ddl.statement = .create onConflict) :
    ddl.newName = none := by
  rw [newName, h]

theorem newName_of_drop (h : ddl.statement = .drop) : ddl.newName = none := by
  rw [newName, h]

theorem statement_of_newName {n : String} (h : ddl.newName = some n) :
    ddl.statement = .alter (.renameTable n) := by
  obtain ⟨schema, table, statement⟩ := ddl
  cases statement with
  | alter info =>
    cases info with
    | renameTable n' =>
      cases h
      rfl
    | _ => cases h
  | _ => cases h

/-- What lies under a name afterwards is the new version, or the table that comes there. -/
theorem Changes.cases_some {v : Nat} (h : ddl.Changes version tx effect)
    (hk : effect k = some (some v)) :
    (∃ onConflict, ddl.statement = .create onConflict) ∧ k = ddl.tableKey ∧ v = version ∨
      ∃ n, ddl.newName = some n ∧ k = VirtualCatalog.tableKey ddl.schema n ∧
        tx.view ddl.tableKey = some v := by
  cases h with
  | idle => cases hk
  | create onConflict hs =>
    by_cases hkey : k = ddl.tableKey
    · subst hkey
      rw [Function.update_self] at hk
      cases hk
      exact .inl ⟨⟨onConflict, hs⟩, rfl, rfl⟩
    · rw [Function.update_of_ne hkey] at hk
      cases hk
  | drop =>
    by_cases hkey : k = ddl.tableKey
    · subst hkey
      rw [Function.update_self] at hk
      cases hk
    · rw [Function.update_of_ne hkey] at hk
      cases hk
  | rename n w hn hview =>
    by_cases hnew : k = VirtualCatalog.tableKey ddl.schema n
    · subst hnew
      rw [Function.update_self] at hk
      cases hk
      exact .inr ⟨n, hn, rfl, hview⟩
    · rw [Function.update_of_ne hnew] at hk
      by_cases hkey : k = ddl.tableKey
      · subst hkey
        rw [Function.update_self] at hk
        cases hk
      · rw [Function.update_of_ne hkey] at hk
        cases hk

/-- A name is left empty by a `DROP`, or by a `RENAME` to another one. -/
theorem Changes.cases_none (h : ddl.Changes version tx effect) (hk : effect k = some none) :
    k = ddl.tableKey ∧ (ddl.statement = .drop ∨
      ∃ n, ddl.newName = some n ∧ k ≠ VirtualCatalog.tableKey ddl.schema n) := by
  cases h with
  | idle => cases hk
  | create onConflict hs =>
    by_cases hkey : k = ddl.tableKey
    · subst hkey
      rw [Function.update_self] at hk
      cases hk
    · rw [Function.update_of_ne hkey] at hk
      cases hk
  | drop hs =>
    by_cases hkey : k = ddl.tableKey
    · exact ⟨hkey, .inl hs⟩
    · rw [Function.update_of_ne hkey] at hk
      cases hk
  | rename n w hn =>
    by_cases hnew : k = VirtualCatalog.tableKey ddl.schema n
    · subst hnew
      rw [Function.update_self] at hk
      cases hk
    · rw [Function.update_of_ne hnew] at hk
      by_cases hkey : k = ddl.tableKey
      · exact ⟨hkey, .inr ⟨n, hn, hnew⟩⟩
      · rw [Function.update_of_ne hkey] at hk
        cases hk

/-- A DDL that changes something changes all that it names, and a `RENAME` comes to a free name. -/
theorem Changes.active (h : ddl.Changes version tx effect) (hactive : ¬ ∀ k, effect k = none) :
    (∀ k ∈ ddl.names, (effect k).isSome = true) ∧ ∀ n, ddl.newName = some n →
      tx.view (VirtualCatalog.tableKey ddl.schema n) = none ∨
        VirtualCatalog.tableKey ddl.schema n = ddl.tableKey := by
  cases h with
  | idle => exact absurd (fun _ => rfl) hactive
  | create onConflict hs =>
    have hn := newName_of_create hs
    refine ⟨?_, fun n hn' => ?_⟩
    · rintro k (rfl | ⟨n, hn', -⟩)
      · rw [Function.update_self]
        rfl
      · rw [hn] at hn'
        cases hn'
    · rw [hn] at hn'
      cases hn'
  | drop hs =>
    have hn := newName_of_drop hs
    refine ⟨?_, fun n hn' => ?_⟩
    · rintro k (rfl | ⟨n, hn', -⟩)
      · rw [Function.update_self]
        rfl
      · rw [hn] at hn'
        cases hn'
    · rw [hn] at hn'
      cases hn'
  | rename n w hn _ hfree =>
    refine ⟨fun k hk => ?_, fun n' hn' => ?_⟩
    · by_cases hnew : k = VirtualCatalog.tableKey ddl.schema n
      · rw [hnew, Function.update_self]
        rfl
      · rcases hk with rfl | ⟨n', hn', rfl⟩
        · rw [Function.update_of_ne hnew, Function.update_self]
          rfl
        · rw [hn] at hn'
          cases hn'
          exact absurd rfl hnew
    · rw [hn] at hn'
      cases hn'
      exact hfree

/-- A DDL takes the grant away from a name that it leaves empty. -/
theorem Changes.taken (h : ddl.Changes version tx effect) (hk : effect k = some none) :
    (grantChange ddl answer m = none → m k = none) ∧
      ∀ m' undo, grantChange ddl answer m = some (m', undo) → m' k = none := by
  obtain ⟨rfl, hkind⟩ := h.cases_none hk
  constructor
  · intro hnone
    rcases grantChange_eq_none hnone with ⟨info, hs, hn⟩ | ⟨-, hg⟩
    · rcases hkind with hs' | ⟨n, hn', -⟩
      · rw [hs] at hs'
        cases hs'
      · rw [hn] at hn'
        cases hn'
    · exact hg
  · intro m' undo hchange
    rcases grantChange_eq_some hchange with ⟨⟨oc, hs⟩, -, -⟩ | ⟨-, g, -, rfl, -⟩ |
      ⟨n, g, hn, -, rfl, -⟩
    · rcases hkind with hs' | ⟨n, hn, -⟩
      · rw [hs] at hs'
        cases hs'
      · rw [newName_of_create hs] at hn
        cases hn
    · exact Function.update_self ..
    · rcases hkind with hs' | ⟨n', hn', hne⟩
      · rw [newName_of_drop hs'] at hn
        cases hn
      · rw [hn] at hn'
        cases hn'
        rw [Function.update_of_ne hne, Function.update_self]

/-- A table that a DDL brings under a name comes with its grant: that of a `CREATE`, or the one that
it had. -/
theorem Changes.granted {v : Nat} (h : ddl.Changes version tx effect)
    (hk : effect k = some (some v)) (hchange : grantChange ddl answer m = some (m', undo)) (hg : m' k = some g) :
    v = version ∧ g = createdGrant (answer.key.getD []) ∨
      tx.view ddl.tableKey = some v ∧ m ddl.tableKey = some g := by
  rcases h.cases_some hk with ⟨⟨oc, hs⟩, rfl, rfl⟩ | ⟨n, hn, rfl, hview⟩
  · left
    rcases grantChange_eq_some hchange with ⟨-, rfl, -⟩ | ⟨hs', -⟩ | ⟨n, g', hn, -⟩
    · rw [Function.update_self] at hg
      cases hg
      exact ⟨rfl, rfl⟩
    · rw [hs] at hs'
      cases hs'
    · rw [newName_of_create hs] at hn
      cases hn
  · right
    refine ⟨hview, ?_⟩
    rcases grantChange_eq_some hchange with ⟨⟨oc, hs⟩, -⟩ | ⟨hs, -⟩ | ⟨n', g', hn', hg', rfl, -⟩
    · rw [newName_of_create hs] at hn
      cases hn
    · rw [newName_of_drop hs] at hn
      cases hn
    · rw [hn] at hn'
      cases hn'
      rw [Function.update_self] at hg
      rw [hg', hg]

/-- A name is given a grant that it did not have. -/
theorem given_of_grantChange (h : grantChange ddl answer m = some (m', undo)) (hk : m' k = some g) :
    m k = some g ∨ grantGiven ddl answer m = some (k, g) := by
  rcases grantChange_eq_some h with ⟨⟨oc, hs⟩, rfl, -⟩ | ⟨-, g', -, rfl, -⟩ |
    ⟨n, g', hn, hg, rfl, -⟩
  · by_cases hkey : k = ddl.tableKey
    · subst hkey
      rw [Function.update_self] at hk
      cases hk
      right
      rw [grantGiven, hs]
    · rw [Function.update_of_ne hkey] at hk
      exact .inl hk
  · by_cases hkey : k = ddl.tableKey
    · subst hkey
      rw [Function.update_self] at hk
      cases hk
    · rw [Function.update_of_ne hkey] at hk
      exact .inl hk
  · by_cases hnew : k = VirtualCatalog.tableKey ddl.schema n
    · subst hnew
      rw [Function.update_self] at hk
      cases hk
      right
      rw [grantGiven, statement_of_newName hn]
      dsimp only
      rw [hg]
      rfl
    · rw [Function.update_of_ne hnew] at hk
      by_cases hkey : k = ddl.tableKey
      · subst hkey
        rw [Function.update_self] at hk
        cases hk
      · rw [Function.update_of_ne hkey] at hk
        exact .inl hk

end CrossingDdl

/-- A DDL that changes a grant changes all that it names on the source. -/
theorem CarefulRecord.active {s : Versions} {i : Nat} {tx : SourceTransaction}
    {ddl : CrossingDdl} {answer : SourceAnswer} {m' : TableKey → Option SourceGrant}
    {undo : GrantUndo} {version : Nat} (hcareful : CarefulRecord s i tx ddl answer)
    (hchanges : ddl.Changes version tx tx.running)
    (hchange : grantChange ddl answer s.grants = some (m', undo)) :
    (∀ k ∈ ddl.names, (tx.running k).isSome = true) ∧ ∀ n, ddl.newName = some n →
      tx.view (tableKey ddl.schema n) = none ∨ tableKey ddl.schema n = ddl.tableKey := by
  refine hchanges.active fun hidle => ?_
  rw [hcareful.idle hidle] at hchange
  cases hchange

/-- What the session sees once its DDL is recorded. -/
theorem SourceTransaction.view_recorded (tx : SourceTransaction) (k : TableKey) :
    tx.recorded.view k = (tx.running k).getD (tx.view k) := by
  rw [view, recorded, view]
  dsimp only
  cases tx.running k <;> rfl

theorem SourceTransaction.touches_recorded (tx : SourceTransaction) (k : TableKey) :
    tx.recorded.touches k = tx.touches k := by
  rw [touches, touches, recorded]
  dsimp only
  cases tx.running k <;> simp

/-! ### What a rollback leaves -/

/-- The names that the entries of a log are about. -/
def undoNames (log : List GrantUndo) : Set TableKey := {k | ∃ undo ∈ log, k ∈ undo.names}

theorem local_undoNames (log : List GrantUndo) :
    ∀ undo ∈ log.map GrantUndo.restore, LocalOn (undoNames log) undo := by
  intro undo hu
  obtain ⟨u, hmem, rfl⟩ := List.mem_map.1 hu
  exact u.restore_local.mono fun k hk => ⟨u, hmem, hk⟩

theorem undoNames_cons (undo : GrantUndo) (log : List GrantUndo) :
    undoNames (undo :: log) = undo.names ∪ undoNames log := by
  ext k
  simp [undoNames]

/-- What the grants become when a session with this log rolls back. -/
def rolledBack (log : List GrantUndo) (m : TableKey → Option SourceGrant) :
    TableKey → Option SourceGrant := rollBack (log.map GrantUndo.restore) m

theorem rolledBack_frame {log : List GrantUndo} {m : TableKey → Option SourceGrant} {k : TableKey}
    (hk : k ∉ undoNames log) : rolledBack log m k = m k :=
  rollBack_frame (local_undoNames log) hk

theorem rolledBack_congr {log : List GrantUndo} {m m' : TableKey → Option SourceGrant}
    (hm : ∀ k ∈ undoNames log, m k = m' k) {k : TableKey} (hk : k ∈ undoNames log) :
    rolledBack log m k = rolledBack log m' k :=
  rollBack_congr (local_undoNames log) hm k hk

/-- The entry of a DDL takes its change back, but for a grant that a `RENAME` overwrote. -/
theorem restore_grantChange_or {ddl : CrossingDdl} {answer : SourceAnswer}
    {m m' : TableKey → Option SourceGrant} {undo : GrantUndo}
    (h : grantChange ddl answer m = some (m', undo)) (k : TableKey) :
    undo.restore m' k = m k ∨ undo.restore m' k = none ∧
      ∃ n, ddl.newName = some n ∧ k = tableKey ddl.schema n ∧ k ≠ ddl.tableKey := by
  by_cases hfree : ∀ n, ddl.newName = some n →
      m (tableKey ddl.schema n) = none ∨ tableKey ddl.schema n = ddl.tableKey
  · rw [restore_grantChange h hfree]
    exact .inl rfl
  · push Not at hfree
    obtain ⟨n, hn, hsome, hne⟩ := hfree
    rcases grantChange_eq_some h with ⟨⟨oc, hs⟩, -, -⟩ | ⟨hs, -⟩ | ⟨n', g, hn', hg, rfl, rfl⟩
    · rw [CrossingDdl.newName, hs] at hn
      cases hn
    · rw [CrossingDdl.newName, hs] at hn
      cases hn
    · obtain rfl : n' = n := Option.some.inj (hn'.symm.trans hn)
      simp only [GrantUndo.restore, Function.update_self]
      rw [← CrossingDdl.tableKey]
      by_cases hk : k = ddl.tableKey
      · subst hk
        exact .inl ((Function.update_self ..).trans hg.symm)
      · rw [Function.update_of_ne hk]
        by_cases hkn : k = tableKey ddl.schema n'
        · subst hkn
          exact .inr ⟨Function.update_self .., n', hn', rfl, hk⟩
        · left
          rw [Function.update_of_ne hkn, Function.update_of_ne hkn, Function.update_of_ne hk]

/-! ### The grants that are seen -/

section

variable {view view' : Option Nat → TableKey → Option Nat} {law law' : Nat → Option SourceGrant}
  {m m' : TableKey → Option SourceGrant} {log log' : Nat → List GrantUndo} {i : Nat}

/-- The grants that lie here now and that would after one session has rolled back: a viewer finds
the grant of the version that he sees. -/
structure Guarded (view : Option Nat → TableKey → Option Nat) (law : Nat → Option SourceGrant)
    (m : TableKey → Option SourceGrant) (log : Nat → List GrantUndo) : Prop where
  fits : ∀ viewer k v g, view viewer k = some v → m k = some g → law v = some g
  undone : ∀ i viewer, viewer ≠ some i → ∀ k v g, view viewer k = some v →
    rolledBack (log i) m k = some g → law v = some g
  /-- Where a session has taken a table away, it has taken the grant away. -/
  gone : ∀ i, ∀ k ∈ undoNames (log i), view (some i) k = none → m k = none

namespace Guarded

/-- Versions that nobody sees have any grant. -/
theorem withLaw (h : Guarded view law m log)
    (hlaw : ∀ viewer k v, view viewer k = some v → law' v = law v) : Guarded view law' m log where
  fits w k v g hv hg := (hlaw w k v hv).trans (h.fits w k v g hv hg)
  undone j w hw k v g hv hg := (hlaw w k v hv).trans (h.undone j w hw k v g hv hg)
  gone := h.gone

/-- A session without entries. -/
theorem undone_of_nil {j : Nat} (hnil : log j = [])
    (hfits : ∀ viewer k v g, view viewer k = some v → m k = some g → law v = some g)
    {viewer : Option Nat} {k : TableKey} {v : Nat} {g : SourceGrant}
    (hv : view viewer k = some v) (hg : rolledBack (log j) m k = some g) : law v = some g := by
  rw [hnil] at hg
  exact hfits viewer k v g hv hg

/-- A session ends its transaction: what it saw itself, all see, or none. -/
theorem commit {C : TableKey → Prop} (h : Guarded view law m log) (hi : log' i = [])
    (hlog : ∀ j ≠ i, log' j = log j)
    (hview : ∀ w k, view' w k = view w k ∨ view' w k = view none k ∧ w = some i ∨
      C k ∧ view' w k = view (some i) k)
    (hC : ∀ k, C k → ∀ j ≠ i, k ∉ undoNames (log j)) : Guarded view' law m log' := by
  have hfits : ∀ w k v g, view' w k = some v → m k = some g → law v = some g := by
    intro w k v g hv hg
    rcases hview w k with he | ⟨he, -⟩ | ⟨-, he⟩ <;> rw [he] at hv <;> exact h.fits _ k v g hv hg
  refine ⟨hfits, fun j w hw k v g hv hg => ?_, fun j k hk hnone => ?_⟩
  · by_cases hj : j = i
    · exact undone_of_nil (hj ▸ hi) hfits hv hg
    · rw [hlog j hj] at hg
      rcases hview w k with he | ⟨he, -⟩ | ⟨hc, he⟩ <;> rw [he] at hv
      · exact h.undone j w hw k v g hv hg
      · exact h.undone j none nofun k v g hv hg
      · rw [rolledBack_frame (hC k hc j hj)] at hg
        exact h.fits _ k v g hv hg
  · by_cases hj : j = i
    · rw [hj, hi] at hk
      obtain ⟨undo, hmem, -⟩ := hk
      cases hmem
    · rw [hlog j hj] at hk
      rcases hview (some j) k with he | ⟨-, he⟩ | ⟨hc, -⟩
      · exact h.gone j k hk (he ▸ hnone)
      · exact absurd (Option.some.inj he) hj
      · exact absurd hk (hC k hc j hj)

/-- A session rolls back. -/
theorem rollback (h : Guarded view law m log) (hi : log' i = []) (hlog : ∀ j ≠ i, log' j = log j)
    (hview : ∀ w ≠ some i, view' w = view w) (hviewi : view' (some i) = view none)
    (hapart : ∀ j ≠ i, ∀ k ∈ undoNames (log j), k ∉ undoNames (log i)) :
    Guarded view' law (rolledBack (log i) m) log' := by
  have hseen : ∀ w, ∃ w', w' ≠ some i ∧ view' w = view w' ∧ ∀ j ≠ i, w ≠ some j → w' ≠ some j := by
    intro w
    by_cases hw : w = some i
    · exact ⟨none, nofun, hw ▸ hviewi, fun _ _ _ => nofun⟩
    · exact ⟨w, hw, hview w hw, fun _ _ h => h⟩
  have hfits : ∀ w k v g, view' w k = some v → rolledBack (log i) m k = some g →
      law v = some g := by
    intro w k v g hv hg
    obtain ⟨w', hw', he, -⟩ := hseen w
    exact h.undone i w' hw' k v g (he ▸ hv) hg
  refine ⟨hfits, fun j w hw k v g hv hg => ?_, fun j k hk hnone => ?_⟩
  · by_cases hj : j = i
    · exact undone_of_nil (hj ▸ hi) hfits hv hg
    · rw [hlog j hj] at hg
      by_cases hk : k ∈ undoNames (log j)
      · have hsame : ∀ k ∈ undoNames (log j), rolledBack (log i) m k = m k := fun k hk =>
          rolledBack_frame (hapart j hj k hk)
        rw [rolledBack_congr hsame hk] at hg
        obtain ⟨w', -, he, hne⟩ := hseen w
        exact h.undone j w' (hne j hj hw) k v g (he ▸ hv) hg
      · rw [rolledBack_frame hk] at hg
        exact hfits w k v g hv hg
  · by_cases hj : j = i
    · rw [hj, hi] at hk
      obtain ⟨undo, hmem, -⟩ := hk
      cases hmem
    · rw [hlog j hj] at hk
      rw [hview (some j) fun he => hj (Option.some.inj he)] at hnone
      rw [rolledBack_frame (hapart j hj k hk)]
      exact h.gone j k hk hnone

/-- A DDL is recorded: what it changes concerns no other log, the others see nothing else under
the names it gives grants to, and rolling back gives no grant that it did not give before. -/
theorem change {A : Set TableKey} (h : Guarded view law m log) (hlog : ∀ j ≠ i, log' j = log j)
    (hview : ∀ w ≠ some i, view' w = view w) (hframe : ∀ k ∉ A, m' k = m k)
    (hothers : ∀ k g, m' k = some g → m k = some g ∨
      ∀ w ≠ some i, ∀ v, view w k = some v → law v = some g)
    (hown : ∀ k v g, view' (some i) k = some v → m' k = some g → law v = some g)
    (hgone : ∀ k ∈ undoNames (log' i), view' (some i) k = none → m' k = none)
    (hundone : ∀ k g, rolledBack (log' i) m' k = some g → rolledBack (log i) m k = some g)
    (hapart : ∀ j ≠ i, ∀ k ∈ undoNames (log j), k ∉ A ∧ view' (some i) k = view (some i) k) :
    Guarded view' law m' log' := by
  have hfits : ∀ w k v g, view' w k = some v → m' k = some g → law v = some g := by
    intro w k v g hv hg
    by_cases hw : w = some i
    · subst hw
      exact hown k v g hv hg
    · rw [hview w hw] at hv
      rcases hothers k g hg with hold | hseen
      · exact h.fits w k v g hv hold
      · exact hseen w hw v hv
  refine ⟨hfits, fun j w hw k v g hv hg => ?_, fun j k hk hnone => ?_⟩
  · by_cases hj : j = i
    · subst hj
      rw [hview w hw] at hv
      exact h.undone j w hw k v g hv (hundone k g hg)
    · rw [hlog j hj] at hg
      by_cases hk : k ∈ undoNames (log j)
      · rw [rolledBack_congr (fun k hk => hframe k (hapart j hj k hk).1) hk] at hg
        by_cases hwi : w = some i
        · subst hwi
          rw [(hapart j hj k hk).2] at hv
          exact h.undone j _ hw k v g hv hg
        · rw [hview w hwi] at hv
          exact h.undone j w hw k v g hv hg
      · rw [rolledBack_frame hk] at hg
        exact hfits w k v g hv hg
  · by_cases hj : j = i
    · subst hj
      exact hgone k hk hnone
    · rw [hlog j hj] at hk
      rw [hview (some j) fun he => hj (Option.some.inj he)] at hnone
      rw [hframe k (hapart j hj k hk).1]
      exact h.gone j k hk hnone

end Guarded

end

end VirtualCatalog
