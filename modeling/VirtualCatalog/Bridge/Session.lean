import VirtualCatalog.Bridge.Statement
import VirtualCatalog.Machine.Undo
import Mathlib.Algebra.Order.BigOperators.Group.List
import Mathlib.Algebra.Order.Group.Nat
import Mathlib.Algebra.Ring.Nat

/-!
# Sessions of the target on a live bridge

A session runs its statements on one source connection and changes the shared grant book at once
when it runs a DDL: `recordDdl` pushes the inverse of each change on the session's undo log, a commit
forgets the log and a rollback applies it.

* `CrossingDdl`, `SourceAnswer` : a DDL and what the source answers to it.
* `GrantUndo` : an entry of the log; `GrantUndo.restore` is what it does to the grants by key.
* `recordDdl`, `commit`, `rollback`, `destroy` : the operations of a session on the book.
* `Live`, `liveMachine` : any number of sessions beside the owner's calls, one step at a time.  A
  DDL is two steps, since the book is not locked while the source runs it.
-/

namespace VirtualCatalog

/-! ### DDL -/

/-- `OnCreateConflict`. -/
inductive OnCreateConflict where
  | error
  | ignore
  | replace
deriving DecidableEq

/-- What an `ALTER` does, as far as the bridge looks at it. -/
inductive AlterInfo where
  /-- Not an `ALTER TABLE`. -/
  | notTable
  | renameTable (newName : String)
  | renameColumn (column : String)
  | removeColumn (column : String)
  | alterColumnType (column : String)
  /-- Any other `ALTER TABLE`. -/
  | other
deriving DecidableEq

/-- The statement of a DDL. -/
inductive DdlStatement where
  | create (onConflict : OnCreateConflict)
  | alter (info : AlterInfo)
  | drop
deriving DecidableEq

/-- `CrossingDdl`. -/
structure CrossingDdl where
  schema : String
  table : String
  statement : DdlStatement

/-- What the source answers to a DDL. -/
structure SourceAnswer where
  /-- The checks of the statement's own text, and the statement itself. -/
  result : Except BridgeError Unit := .ok ()
  /-- The key of the table under the name afterwards; none if it is not a table. -/
  key : Option (List String) := none
  /-- The statement changed the source. -/
  changed : Bool := true

namespace CrossingDdl

variable (ddl : CrossingDdl)

/-- The table a DDL is about. -/
def tableKey : TableKey := VirtualCatalog.tableKey ddl.schema ddl.table

/-- The new name of a `RENAME`. -/
def newName : Option String :=
  match ddl.statement with
  | .alter (.renameTable n) => some n
  | _ => none

/-- The tables a DDL names. -/
def names : Set TableKey :=
  { k | k = ddl.tableKey ∨ ∃ n ∈ ddl.newName, k = VirtualCatalog.tableKey ddl.schema n }

end CrossingDdl

/-- The column that `ThrowIfAlterOrphansPolicy` looks for. -/
def AlterInfo.column : AlterInfo → Option String
  | renameColumn c | removeColumn c | alterColumnType c => some c
  | _ => none

/-- A predicate has a reference that ends in the column. -/
def mentions (column : String) (e : Expr) : Bool :=
  e.leaves.any fun
    | .columnRef p => ciEq p.name column
    | _ => false

/-- `ThrowIfAlterOrphansPolicy`. -/
def throwIfAlterOrphansPolicy (ddl : CrossingDdl) (info : AlterInfo) : Stmt Unit :=
  match info.column with
  | none => .ret ()
  | some column =>
    .sect ⟨.ddlGrant, [], []⟩ fun s =>
      match s.book.tables.findGrant ddl.schema ddl.table with
      | none => .ret ()
      | some g =>
        .ofExcept (throwIf
          (g.key.any (ciEq · column) ∨ crossingVerbs.any fun v =>
            (g.usingPredicates v).any (mentions column) ||
              (g.checkPredicates v).any (mentions column))
          ⟨.io, "vcatbridge: '" ++ column ++ "' is the key or a policy column of " ++
            quoted ddl.schema ddl.table⟩)

/-- `CreateWouldCreate`: whether a `CREATE` on the source makes a table; `existing` says that its
name is taken. -/
def createWouldCreate (ddl : CrossingDdl) (onConflict : OnCreateConflict) (existing : Bool) :
    Stmt Bool :=
  if existing = false then .ret true
  else
    match onConflict with
    | .ignore => .ret false
    | .replace =>
      .sect ⟨.ddlGrant, [], []⟩ fun s =>
        match s.book.tables.findGrant ddl.schema ddl.table with
        | none => .throw (noPermission ("'" ++ ddl.table ++ "'") .drop)
        | some _ => .ret true
    | .error => .ret true

/-- `Ddl` up to the run on the source: whether there is something to record. -/
def checkDdl (ddl : CrossingDdl) (existing : Bool) (folds : Expr → Bool) : Stmt Bool :=
  match ddl.statement with
  | .create onConflict => createWouldCreate ddl onConflict existing
  | .alter info =>
    (alter folds ddl.schema ddl.table).bind fun _ =>
      (throwIfAlterOrphansPolicy ddl info).bind fun _ => .ret true
  | .drop => .ret true

/-! ### The undo log -/

/-- An entry of `grant_undo`. -/
inductive GrantUndo where
  /-- Of a `CREATE`, with the grant it replaced. -/
  | created (schema table : String) (replaced : Option SourceGrant)
  | dropped (schema table : String) (grant : SourceGrant)
  | renamed (schema oldName newName : String)

namespace GrantUndo

/-- The tables an entry is about. -/
def names : GrantUndo → Set TableKey
  | created s t _ => {k | k = tableKey s t}
  | dropped s t _ => {k | k = tableKey s t}
  | renamed s o n => {k | k = tableKey s o ∨ k = tableKey s n}

/-- Undo one change. -/
def apply (T : GrantTables) : GrantUndo → GrantTables
  | created s t (some g) => T.set s t g
  | created s t none => T.remove s t
  | dropped s t g => T.set s t g
  | renamed s o n =>
    match T.findGrant s n with
    | none => T.touch s
    | some g => (T.remove s n).set s o g

/-- What it does to the grants by key. -/
def restore (undo : GrantUndo) (m : TableKey → Option SourceGrant) :
    TableKey → Option SourceGrant :=
  match undo with
  | created s t replaced => Function.update m (tableKey s t) replaced
  | dropped s t g => Function.update m (tableKey s t) (some g)
  | renamed s o n =>
    match m (tableKey s n) with
    | none => m
    | some g => Function.update (Function.update m (tableKey s n) none) (tableKey s o) (some g)

theorem grantAt_apply (undo : GrantUndo) (T : GrantTables) :
    (undo.apply T).grantAt = undo.restore T.grantAt := by
  funext k
  cases undo with
  | created s t replaced =>
    cases replaced <;>
      simp [apply, restore, GrantTables.grantAt_set, GrantTables.grantAt_remove, Function.update_apply]
  | dropped s t g => simp [apply, restore, GrantTables.grantAt_set, Function.update_apply]
  | renamed s o n =>
    rw [apply, restore, GrantTables.findGrant_eq]
    cases T.grantAt (tableKey s n) with
    | none => exact T.grantAt_touch s k
    | some g =>
      simp only [GrantTables.grantAt_set, GrantTables.grantAt_remove, Function.update_apply]

theorem restore_local (undo : GrantUndo) : LocalOn undo.names undo.restore := by
  cases undo with
  | created s t replaced =>
    constructor
    · intro m k hk
      rw [restore, Function.update_of_ne hk]
    · rintro m m' - k rfl
      simp [restore]
  | dropped s t g =>
    constructor
    · intro m k hk
      rw [restore, Function.update_of_ne hk]
    · rintro m m' - k rfl
      simp [restore]
  | renamed s o n =>
    constructor
    · intro m k hk
      obtain ⟨ho, hn⟩ := not_or.1 hk
      rw [restore]
      cases m (tableKey s n) with
      | none => rfl
      | some g => exact (Function.update_of_ne ho _ _).trans (Function.update_of_ne hn _ _)
    · intro m m' hm k hk
      rw [restore, restore, hm _ (.inr rfl)]
      cases m' (tableKey s n) with
      | none => exact hm k hk
      | some g => simp only [Function.update_apply, hm k hk]

end GrantUndo

/-! ### Operations of a session on the book -/

/-- The key of `shaping`. -/
def shapingName (schema table : String) : String := schema ++ "." ++ table

namespace GrantBook

/-- The book with other grants. -/
def withTables (book : GrantBook) (T : GrantTables) : GrantBook :=
  { book with state := { book.state with tables := T } }

/-- `shaping[schema.table] = conn`. -/
def shape (book : GrantBook) (schema table : String) (conn : ConnId) : GrantBook :=
  { book with shaping := book.shaping.insert (shapingName schema table) conn }

variable (book : GrantBook) (T : GrantTables) (schema table : String) (conn : ConnId)

@[simp] theorem withTables_tables : (book.withTables T).tables = T := rfl

@[simp] theorem withTables_shaping : (book.withTables T).shaping = book.shaping := rfl

@[simp] theorem withTables_uncommittedDdl :
    (book.withTables T).uncommittedDdl = book.uncommittedDdl := rfl

theorem find?_shape {name : String} {c : ConnId}
    (h : (book.shape schema table conn).shaping.find? name = some c) :
    book.shaping.find? name = some c ∨ c = conn := by
  rw [shape, CIMap.find?_insert] at h
  split_ifs at h
  · exact .inr (Option.some.inj h).symm
  · exact .inl h

@[simp] theorem shape_tables : (book.shape schema table conn).tables = book.tables := rfl

@[simp] theorem shape_uncommittedDdl :
    (book.shape schema table conn).uncommittedDdl = book.uncommittedDdl := rfl

end GrantBook

/-- A DDL in the middle of `Ddl`. -/
inductive PendingDdl where
  /-- Its checks still wait for the lock of the book. -/
  | checking (ddl : CrossingDdl) (check : Stmt Bool)
  /-- It ran on the source and is to be recorded. -/
  | ran (ddl : CrossingDdl) (answer : SourceAnswer)

/-- The DDL itself. -/
def PendingDdl.ddl : PendingDdl → CrossingDdl
  | checking ddl _ => ddl
  | ran ddl _ => ddl

/-- `DuckDBSession`. -/
structure DuckDBSession where
  conn : Option ConnId := none
  /-- Newest first. -/
  grantUndo : List GrantUndo := []
  /-- How many connections it opened. -/
  opened : Nat := 0
  /-- A DDL that is not finished. -/
  pending : Option PendingDdl := none
  /-- A DDL of the open transaction, one that is recorded or leaves nothing to record, changed the
  source. -/
  changed : Bool := false
  /-- The session is destroyed; the shaping of the book may still hold its connection. -/
  destroyed : Bool := false

namespace DuckDBSession

/-- `Shared`, in the session number `i`. -/
def shared (i : Nat) (session : DuckDBSession) : DuckDBSession :=
  match session.conn with
  | some _ => session
  | none => { session with conn := some ⟨i, session.opened⟩, opened := session.opened + 1 }

variable (book : GrantBook) (session : DuckDBSession)

/-- A DDL that ran on the source and is not recorded yet. -/
def recording : Option (CrossingDdl × SourceAnswer) :=
  match session.pending with
  | some (.ran ddl answer) => some (ddl, answer)
  | _ => none

theorem pending_of_recording {session : DuckDBSession} {ddl : CrossingDdl} {answer : SourceAnswer}
    (h : session.recording = some (ddl, answer)) : session.pending = some (.ran ddl answer) := by
  rw [recording] at h
  split at h
  next hp => cases h; exact hp
  next => cases h

/-- The session once its DDL is to be recorded. -/
def finishDdl (answer : SourceAnswer) : DuckDBSession :=
  { session with pending := none, changed := session.changed || answer.changed }

/-- The session once the source has answered its DDL. -/
def runDdl (ddl : CrossingDdl) (creates : Bool) (answer : SourceAnswer) : DuckDBSession :=
  match answer.result with
  | .ok _ =>
    if creates then { session with pending := some (.ran ddl answer) }
    else session.finishDdl answer
  | .error _ => { session with pending := none }

/-- `ForgetShaping`. -/
def forgetShaping : GrantBook :=
  match session.conn with
  | none => book
  | some c => { book with shaping := book.shaping.keepValues (· ≠ c) }

/-- `PushGrantUndo`. -/
def pushGrantUndo (undo : GrantUndo) : GrantBook × DuckDBSession :=
  ({ book with uncommittedDdl := book.uncommittedDdl + 1 },
    { session with grantUndo := undo :: session.grantUndo })

@[simp] theorem pushGrantUndo_tables (undo : GrantUndo) :
    (pushGrantUndo book session undo).1.tables = book.tables := rfl

@[simp] theorem pushGrantUndo_shaping (undo : GrantUndo) :
    (pushGrantUndo book session undo).1.shaping = book.shaping := rfl

@[simp] theorem pushGrantUndo_uncommittedDdl (undo : GrantUndo) :
    (pushGrantUndo book session undo).1.uncommittedDdl = book.uncommittedDdl + 1 := rfl

@[simp] theorem pushGrantUndo_snd (undo : GrantUndo) : (pushGrantUndo book session undo).2 =
    { session with grantUndo := undo :: session.grantUndo } := rfl

/-- `ForgetGrantUndo`. -/
def forgetGrantUndo : GrantBook × DuckDBSession :=
  ({ book with uncommittedDdl := book.uncommittedDdl - session.grantUndo.length },
    { session with grantUndo := [] })

/-- `UndoGrants`. -/
def undoGrants : GrantBook × DuckDBSession :=
  forgetGrantUndo
    (book.withTables (session.grantUndo.foldl (fun T undo => undo.apply T) book.tables)) session

/-- What the log restores, newest first. -/
def log : List ((TableKey → Option SourceGrant) → TableKey → Option SourceGrant) :=
  session.grantUndo.map GrantUndo.restore

@[simp] theorem shared_grantUndo (i : Nat) : (session.shared i).grantUndo = session.grantUndo := by
  rw [shared]; split <;> rfl

@[simp] theorem shared_changed (i : Nat) : (session.shared i).changed = session.changed := by
  rw [shared]; split <;> rfl

@[simp] theorem shared_destroyed (i : Nat) : (session.shared i).destroyed = session.destroyed := by
  rw [shared]; split <;> rfl

@[simp] theorem shared_pending (i : Nat) : (session.shared i).pending = session.pending := by
  rw [shared]; split <;> rfl

@[simp] theorem isSome_shared_conn (i : Nat) : (session.shared i).conn.isSome = true := by
  rw [shared]; split <;> simp [*]

@[simp] theorem runDdl_grantUndo (ddl : CrossingDdl) (creates : Bool) (answer : SourceAnswer) :
    (session.runDdl ddl creates answer).grantUndo = session.grantUndo := by
  rw [runDdl]
  cases answer.result <;> cases creates <;> rfl

@[simp] theorem runDdl_conn (ddl : CrossingDdl) (creates : Bool) (answer : SourceAnswer) :
    (session.runDdl ddl creates answer).conn = session.conn := by
  rw [runDdl]
  cases answer.result <;> cases creates <;> rfl

@[simp] theorem forgetShaping_tables : (forgetShaping book session).tables = book.tables := by
  rw [forgetShaping]; split <;> rfl

@[simp] theorem forgetShaping_uncommittedDdl :
    (forgetShaping book session).uncommittedDdl = book.uncommittedDdl := by
  rw [forgetShaping]; split <;> rfl

/-- Undoing the grants is rolling the log back. -/
theorem grantAt_undoGrants :
    (undoGrants book session).1.tables.grantAt = rollBack session.log book.tables.grantAt := by
  change GrantTables.grantAt (session.grantUndo.foldl (fun T undo => undo.apply T) book.tables) = _
  rw [log]
  generalize book.tables = T
  induction session.grantUndo generalizing T with
  | nil => rfl
  | cons undo undos ih =>
    rw [List.foldl_cons, ih, List.map_cons, rollBack_cons, GrantUndo.grantAt_apply]

end DuckDBSession

/-- The grant of a table that the target created. -/
def createdGrant (key : List String) : SourceGrant :=
  crossingVerbs.foldl
    (fun g v => if (v = .update ∨ v = .delete) ∧ g.key = [] then g else g.allow v)
    { discoveredKey := key, key := key }

namespace DuckDBSession

/-- `RecordDdl`. -/
def recordDdl (book : GrantBook) (session : DuckDBSession) (conn : ConnId) (ddl : CrossingDdl)
    (answer : SourceAnswer) : GrantBook × DuckDBSession :=
  let schema := ddl.schema
  let table := ddl.table
  let T := book.tables.touch schema
  let found := T.findGrant schema table
  match ddl.statement with
  | .create _ =>
    -- the grant that it replaces, if there is one, goes into the undo
    let grant := createdGrant (answer.key.getD [])
    pushGrantUndo ((book.withTables (T.set schema table grant)).shape schema table conn) session
      (.created schema table found)
  | .drop =>
    match found with
    -- a table without a grant: nothing to undo, so nothing is counted
    | none => (book.withTables T, session)
    | some g =>
      pushGrantUndo (book.withTables (T.remove schema table)) session (.dropped schema table g)
  | .alter info =>
    let shaped := (book.withTables T).shape schema table conn
    match info, found with
    | .renameTable newName, some g =>
      pushGrantUndo ((shaped.withTables ((T.remove schema table).set schema newName g)).shape schema
        newName conn) session (.renamed schema table newName)
    -- only a `RENAME` of a granted table moves a grant
    | _, _ => (shaped, session)

/-- `Commit`; `succeeds` says whether the source's own commit does. -/
def commit (book : GrantBook) (session : DuckDBSession) (succeeds : Bool) :
    GrantBook × DuckDBSession :=
  match session.conn with
  | none => (book, session)
  | some _ =>
    let (book, session) :=
      if succeeds then forgetGrantUndo book session else undoGrants book session
    (forgetShaping book session, { session with conn := none, changed := false })

/-- `Rollback`. -/
def rollback (book : GrantBook) (session : DuckDBSession) : GrantBook × DuckDBSession :=
  let (book, session) := undoGrants book session
  (forgetShaping book session, { session with conn := none, changed := false })

@[simp] theorem grantAt_rollback (book : GrantBook) (session : DuckDBSession) :
    (rollback book session).1.tables.grantAt = rollBack session.log book.tables.grantAt := by
  rw [← grantAt_undoGrants]
  exact congrArg GrantTables.grantAt (forgetShaping_tables _ _)

theorem commit_of_conn_none {book : GrantBook} {session : DuckDBSession} {succeeds : Bool}
    (h : session.conn = none) : commit book session succeeds = (book, session) := by
  rw [commit, h]

/-- A commit that fails rolls back. -/
theorem commit_false {book : GrantBook} {session : DuckDBSession} {conn : ConnId}
    (h : session.conn = some conn) : commit book session false = rollback book session := by
  rw [commit, h]
  rfl

@[simp] theorem commit_true_tables (book : GrantBook) (session : DuckDBSession) :
    (commit book session true).1.tables = book.tables := by
  rw [commit]
  split
  · rfl
  · exact forgetShaping_tables _ _

/-- `~DuckDBSession`. -/
def destroy (book : GrantBook) (session : DuckDBSession) : GrantBook × DuckDBSession :=
  let (book, session) := forgetGrantUndo book session
  (book, { session with destroyed := true })

end DuckDBSession

/-! ### The machine -/

/-- What a session does next. -/
inductive SessionOp where
  /-- A statement other than a DDL. -/
  | statement
  /-- A DDL begins; `existing` says that the source has a table of its name, and `folds` which
  predicates fold to `TRUE` there. -/
  | ddl (ddl : CrossingDdl) (existing : Bool) (folds : Expr → Bool)
  /-- The next lock section of its checks. -/
  | check
  /-- The source runs the DDL, if its checks have passed. -/
  | run (answer : SourceAnswer)
  /-- `RecordDdl` of the DDL that ran. -/
  | record
  | commit (succeeds : Bool)
  | rollback
  | destroy

/-- The operation leaves the book and the log alone. -/
def SessionOp.isQuiet : SessionOp → Bool
  | statement | ddl .. | check | run _ => true
  | _ => false

/-- One operation of the session number `i`.  A session does nothing else in the middle of a
DDL. -/
def DuckDBSession.step (i : Nat) (store : Store) (session : DuckDBSession) (op : SessionOp) :
    Option (GrantBook × DuckDBSession) :=
  match session.pending with
  | none =>
    match op with
    | .statement => some (store.book, session.shared i)
    | .ddl ddl existing folds =>
      some (store.book,
        -- the checks come first, each section of theirs under a lock of its own
        { session.shared i with pending := some (.checking ddl (checkDdl ddl existing folds)) })
    | .commit succeeds => some (session.commit store.book succeeds)
    | .rollback => some (session.rollback store.book)
    | .destroy => some (session.destroy store.book)
    | _ => none
  | some (.checking ddl (.sect _ check)) =>
    match op with
    | .check => some (store.book, { session with pending := some (.checking ddl (check store)) })
    | _ => none
  | some (.checking ddl (.ret creates)) =>
    match op with
    | .run answer => some (store.book, session.runDdl ddl creates answer)
    | _ => none
  | some (.checking _ (.throw _)) =>
    match op with
    -- a check raised: the DDL is over before the source sees it
    | .run _ => some (store.book, { session with pending := none })
    | _ => none
  | some (.ran ddl answer) =>
    -- between the run on the source and this section the grants are as before
    match op, session.conn with
    | .record, some conn => some (recordDdl store.book (session.finishDdl answer) conn ddl answer)
    | _, _ => none

/-- The owner's store and the sessions there ever were. -/
structure Live where
  store : Store
  sessions : List DuckDBSession

/-- A step of the owner or of a session. -/
inductive LiveLabel where
  | owner (label : OwnerLabel)
  /-- A new session. -/
  | begin
  | session (i : Nat) (op : SessionOp)

namespace Live

/-- One step. -/
def next (bridgeId : String) (s : Live) : LiveLabel → Option Live
  | .owner label => (s.store.next bridgeId label).map fun store => { s with store := store }
  | .begin => some { s with sessions := s.sessions ++ [{}] }
  | .session i op =>
    match s.sessions[i]? with
    | none => none
    | some session =>
      if session.destroyed then none
      else
        (session.step i s.store op).map fun r =>
          { store := { s.store with book := r.1 }, sessions := s.sessions.set i r.2 }

/-- The live grants. -/
abbrev tables (s : Live) : GrantTables := s.store.book.tables

end Live

/-- A live bridge. -/
def liveMachine (bridgeId : String) : Machine Live LiveLabel := ⟨Live.next bridgeId⟩

/-! ### What the operations do to the grants by key -/

/-- What a recorded DDL changes, with the entry of the log. -/
def grantChange (ddl : CrossingDdl) (answer : SourceAnswer) (m : TableKey → Option SourceGrant) :
    Option ((TableKey → Option SourceGrant) × GrantUndo) :=
  match ddl.statement, m ddl.tableKey with
  | .create _, found =>
    some (Function.update m ddl.tableKey (some (createdGrant (answer.key.getD []))),
      .created ddl.schema ddl.table found)
  | .drop, some g => some (Function.update m ddl.tableKey none, .dropped ddl.schema ddl.table g)
  | .alter (.renameTable n), some g =>
    some (Function.update (Function.update m ddl.tableKey none) (tableKey ddl.schema n) (some g),
      .renamed ddl.schema ddl.table n)
  | _, _ => none

/-- A DDL without an entry is a `DROP` or `RENAME` of a table without a grant, or another `ALTER`. -/
theorem grantChange_eq_none {ddl : CrossingDdl} {answer : SourceAnswer}
    {m : TableKey → Option SourceGrant} (h : grantChange ddl answer m = none) :
    (∃ info, ddl.statement = .alter info ∧ ddl.newName = none) ∨
      (ddl.statement = .drop ∨ ddl.newName.isSome = true) ∧ m ddl.tableKey = none := by
  obtain ⟨schema, table, statement⟩ := ddl
  rw [grantChange] at h
  cases statement with
  | create oc => cases h
  | drop =>
    cases hm : m (tableKey schema table) with
    | none => exact .inr ⟨.inl rfl, hm⟩
    | some g => simp [CrossingDdl.tableKey, hm] at h
  | alter info =>
    cases info with
    | renameTable n =>
      cases hm : m (tableKey schema table) with
      | none => exact .inr ⟨.inr rfl, hm⟩
      | some g => simp [CrossingDdl.tableKey, hm] at h
    | _ => exact .inl ⟨_, rfl, rfl⟩

/-- The three kinds of changes. -/
theorem grantChange_eq_some {ddl : CrossingDdl} {answer : SourceAnswer}
    {m m' : TableKey → Option SourceGrant} {undo : GrantUndo}
    (h : grantChange ddl answer m = some (m', undo)) :
    ((∃ oc, ddl.statement = .create oc) ∧
      m' = Function.update m ddl.tableKey (some (createdGrant (answer.key.getD []))) ∧
      undo = .created ddl.schema ddl.table (m ddl.tableKey)) ∨
    (ddl.statement = .drop ∧ ∃ g, m ddl.tableKey = some g ∧
      m' = Function.update m ddl.tableKey none ∧ undo = .dropped ddl.schema ddl.table g) ∨
    ∃ n g, ddl.newName = some n ∧ m ddl.tableKey = some g ∧
      m' = Function.update (Function.update m ddl.tableKey none) (tableKey ddl.schema n) (some g) ∧
      undo = .renamed ddl.schema ddl.table n := by
  obtain ⟨schema, table, statement⟩ := ddl
  rw [grantChange] at h
  cases statement with
  | create oc =>
    obtain ⟨rfl, rfl⟩ := Prod.mk.inj (Option.some.inj h)
    exact .inl ⟨⟨oc, rfl⟩, rfl, rfl⟩
  | drop =>
    cases hm : m (tableKey schema table) with
    | none => simp [CrossingDdl.tableKey, hm] at h
    | some g =>
      simp only [CrossingDdl.tableKey, hm, Option.some.injEq, Prod.mk.injEq] at h
      exact .inr (.inl ⟨rfl, g, hm, h.1.symm, h.2.symm⟩)
  | alter info =>
    cases info with
    | renameTable n =>
      cases hm : m (tableKey schema table) with
      | none => simp [CrossingDdl.tableKey, hm] at h
      | some g =>
        simp only [CrossingDdl.tableKey, hm, Option.some.injEq, Prod.mk.injEq] at h
        exact .inr (.inr ⟨n, g, rfl, hm, h.1.symm, h.2.symm⟩)
    | _ => simp at h

/-- The entry of a DDL names what the DDL names. -/
theorem grantChange_names {ddl : CrossingDdl} {answer : SourceAnswer}
    {m m' : TableKey → Option SourceGrant} {undo : GrantUndo}
    (h : grantChange ddl answer m = some (m', undo)) : undo.names ⊆ ddl.names := by
  rcases grantChange_eq_some h with ⟨-, -, rfl⟩ | ⟨-, g, -, -, rfl⟩ | ⟨n, g, hn, -, -, rfl⟩
  · rintro k rfl
    exact .inl rfl
  · rintro k rfl
    exact .inl rfl
  · rintro k (rfl | rfl)
    · exact .inl rfl
    · exact .inr ⟨n, hn, rfl⟩

/-- A DDL changes the grants of what it names. -/
theorem grantChange_frame {ddl : CrossingDdl} {answer : SourceAnswer}
    {m m' : TableKey → Option SourceGrant} {undo : GrantUndo}
    (h : grantChange ddl answer m = some (m', undo)) {k : TableKey} (hk : k ∉ ddl.names) :
    m' k = m k := by
  have ht : k ≠ ddl.tableKey := fun h => hk (.inl h)
  rcases grantChange_eq_some h with ⟨-, rfl, -⟩ | ⟨-, g, -, rfl, -⟩ | ⟨n, g, hn, -, rfl, -⟩
  · exact Function.update_of_ne ht _ _
  · exact Function.update_of_ne ht _ _
  · have hn : k ≠ tableKey ddl.schema n := fun h => hk (.inr ⟨n, hn, h⟩)
    rw [Function.update_of_ne hn, Function.update_of_ne ht]

/-- The entry takes the change back, unless a `RENAME` overwrote a grant under its new name. -/
theorem restore_grantChange {ddl : CrossingDdl} {answer : SourceAnswer}
    {m m' : TableKey → Option SourceGrant} {undo : GrantUndo}
    (h : grantChange ddl answer m = some (m', undo))
    (hfree : ∀ n, ddl.newName = some n →
      m (tableKey ddl.schema n) = none ∨ tableKey ddl.schema n = ddl.tableKey) :
    undo.restore m' = m := by
  funext k
  rcases grantChange_eq_some h with ⟨-, rfl, rfl⟩ | ⟨-, g, hg, rfl, rfl⟩ | ⟨n, g, hn, hg, rfl, rfl⟩
  · simp [GrantUndo.restore, CrossingDdl.tableKey]
  · rw [CrossingDdl.tableKey] at hg
    simp [GrantUndo.restore, CrossingDdl.tableKey, ← hg]
  · simp only [GrantUndo.restore, Function.update_self]
    by_cases hk : k = ddl.tableKey
    · subst hk
      exact (Function.update_self _ _ _).trans hg.symm
    · rw [← CrossingDdl.tableKey, Function.update_of_ne hk]
      by_cases hkn : k = tableKey ddl.schema n
      · subst hkn
        rw [Function.update_self]
        exact ((hfree n hn).resolve_right hk).symm
      · rw [Function.update_of_ne hkn, Function.update_of_ne hkn, Function.update_of_ne hk]

namespace DuckDBSession

variable {book : GrantBook} {session : DuckDBSession}

/-- **`recordDdl` makes the change of the DDL** and logs it, or only shapes. -/
theorem recordDdl_spec (book : GrantBook) (session : DuckDBSession) (conn : ConnId)
    (ddl : CrossingDdl) (answer : SourceAnswer) :
    match grantChange ddl answer book.tables.grantAt with
    | none =>
      (recordDdl book session conn ddl answer).1.tables.grantAt = book.tables.grantAt ∧
        (recordDdl book session conn ddl answer).1.uncommittedDdl = book.uncommittedDdl ∧
          (recordDdl book session conn ddl answer).2 = session
    | some (m, undo) =>
      (recordDdl book session conn ddl answer).1.tables.grantAt = m ∧
        (recordDdl book session conn ddl answer).1.uncommittedDdl = book.uncommittedDdl + 1 ∧
          (recordDdl book session conn ddl answer).2 =
            { session with grantUndo := undo :: session.grantUndo } := by
  obtain ⟨schema, table, statement⟩ := ddl
  -- touching the schema, which every branch starts with, changes no grant
  have touched : (book.tables.touch schema).grantAt = book.tables.grantAt :=
    funext (GrantTables.grantAt_touch _ _)
  have found : (book.tables.touch schema).findGrant schema table =
      book.tables.grantAt (tableKey schema table) := by
    rw [GrantTables.findGrant_eq, touched]
  have updated : ∀ g, ((book.tables.touch schema).set schema table g).grantAt =
      Function.update book.tables.grantAt (tableKey schema table) (some g) := by
    intro g
    funext k
    rw [GrantTables.grantAt_set, touched, Function.update_apply]
  have removed : ((book.tables.touch schema).remove schema table).grantAt =
      Function.update book.tables.grantAt (tableKey schema table) none := by
    funext k
    rw [GrantTables.grantAt_remove, touched, Function.update_apply]
  cases statement with
  | create oc =>
    simp only [grantChange, recordDdl, CrossingDdl.tableKey, found]
    exact ⟨updated _, rfl, rfl⟩
  | drop =>
    cases hf : book.tables.grantAt (tableKey schema table) with
    | none =>
      simp only [grantChange, recordDdl, CrossingDdl.tableKey, found, hf]
      exact ⟨touched, rfl, trivial⟩
    | some g =>
      simp only [grantChange, recordDdl, CrossingDdl.tableKey, found, hf]
      exact ⟨removed, rfl, rfl⟩
  | alter info =>
    cases info with
    | renameTable n =>
      cases hf : book.tables.grantAt (tableKey schema table) with
      | none =>
        simp only [grantChange, recordDdl, CrossingDdl.tableKey, found, hf]
        exact ⟨touched, rfl, trivial⟩
      | some g =>
        simp only [grantChange, recordDdl, CrossingDdl.tableKey, found, hf]
        refine ⟨?_, rfl, rfl⟩
        funext k
        change (((book.tables.touch schema).remove schema table).set schema n g).grantAt k = _
        rw [GrantTables.grantAt_set, removed, Function.update_apply, Function.update_apply,
          Function.update_apply]
    -- an `ALTER` that is no `RENAME` only shapes
    | _ => exact ⟨touched, rfl, rfl⟩

end DuckDBSession

/-- The source answers with a change to a DDL that is not recorded, a `CREATE TABLE IF NOT EXISTS`
whose name was found taken. -/
def DuckDBSession.RunsUnrecorded (session : DuckDBSession) (op : SessionOp) : Prop :=
  ∃ ddl answer, session.pending = some (.checking ddl (.ret false)) ∧ op = .run answer ∧
    answer.result = .ok () ∧ answer.changed = true

/-- An operation that is the session's own affair: at most it opens its connection, and goes on with
its DDL. -/
structure DuckDBSession.Quiet (i : Nat) (op : SessionOp) (session session' : DuckDBSession) : Prop where
  grantUndo : session'.grantUndo = session.grantUndo
  changed : session'.changed = true ↔ session.changed = true ∨ session.RunsUnrecorded op
  destroyed : session'.destroyed = session.destroyed
  conn : session'.conn = session.conn ∨ session.conn = none ∧ ∃ c, session'.conn = some c ∧ c.session = i
  ddl : ∀ d ∈ session'.pending, (∃ d' ∈ session.pending, d'.ddl = d.ddl) ∨
    session'.conn.isSome = true ∧ ∃ existing folds, op = .ddl d.ddl existing folds

namespace DuckDBSession

variable {i : Nat} {op : SessionOp} {session : DuckDBSession}

theorem conn_shared : (session.shared i).conn = session.conn ∨
    session.conn = none ∧ ∃ c, (session.shared i).conn = some c ∧ c.session = i := by
  rw [shared]
  cases hc : session.conn with
  | none => exact .inr ⟨rfl, _, rfl, rfl⟩
  | some c => exact .inl hc

theorem quiet_shared (h : ¬ session.RunsUnrecorded op) : session.Quiet i op (session.shared i) where
  grantUndo := shared_grantUndo _ _
  changed := by simp [h]
  destroyed := shared_destroyed _ _
  conn := conn_shared
  ddl d hd := .inl ⟨d, by simpa using hd, rfl⟩

/-- The DDL goes on, or it ends. -/
theorem quiet_pending {pending : Option PendingDdl} (hn : ¬ session.RunsUnrecorded op)
    (h : ∀ d ∈ pending, ∃ d' ∈ session.pending, d'.ddl = d.ddl) :
    session.Quiet i op { session with pending := pending } where
  grantUndo := rfl
  changed := by simp [hn]
  destroyed := rfl
  conn := .inl rfl
  ddl d hd := .inl (h d hd)

/-- The source answers a DDL. -/
theorem quiet_run {ddl : CrossingDdl} {creates : Bool} {answer : SourceAnswer}
    (h : session.pending = some (.checking ddl (.ret creates))) :
    session.Quiet i (.run answer) (session.runDdl ddl creates answer) := by
  have hruns : session.RunsUnrecorded (.run answer) ↔
      creates = false ∧ answer.result = .ok () ∧ answer.changed = true := by
    constructor
    · rintro ⟨ddl', answer', hp, ha, hresult, hchanged⟩
      rw [h] at hp
      cases hp
      cases ha
      exact ⟨rfl, hresult, hchanged⟩
    · rintro ⟨rfl, hresult, hchanged⟩
      exact ⟨ddl, answer, h, rfl, hresult, hchanged⟩
  rw [runDdl]
  cases hresult : answer.result with
  | error e =>
    exact quiet_pending (by simp [hruns, hresult]) fun d hd => by cases hd
  | ok u =>
    cases creates with
    | true =>
      refine quiet_pending (by simp [hruns]) fun d hd => ⟨_, h, ?_⟩
      cases hd
      rfl
    | false =>
      refine ⟨rfl, ?_, rfl, .inl rfl, fun d hd => by cases hd⟩
      simp [hruns, hresult, finishDdl]

end DuckDBSession

/-- The operations of a session, one case for each kind. -/
inductive DuckDBSession.Stepped (i : Nat) (store : Store) (session : DuckDBSession) :
    SessionOp → GrantBook → DuckDBSession → Prop
  | quiet {op : SessionOp} {session' : DuckDBSession} (hop : op.isQuiet = true)
      (h : session.Quiet i op session') : Stepped i store session op store.book session'
  | record (ddl : CrossingDdl) (answer : SourceAnswer) (conn : ConnId)
      (h : session.recording = some (ddl, answer)) (hc : session.conn = some conn) :
      Stepped i store session .record
        (recordDdl store.book (session.finishDdl answer) conn ddl answer).1
        (recordDdl store.book (session.finishDdl answer) conn ddl answer).2
  | commit (succeeds : Bool) (h : session.pending = none) :
      Stepped i store session (.commit succeeds) (session.commit store.book succeeds).1
        (session.commit store.book succeeds).2
  | rollback (h : session.pending = none) :
      Stepped i store session .rollback (session.rollback store.book).1
        (session.rollback store.book).2
  | destroy (h : session.pending = none) :
      Stepped i store session .destroy (session.destroy store.book).1
        (session.destroy store.book).2

theorem DuckDBSession.stepped {i : Nat} {store : Store} {session : DuckDBSession} {op : SessionOp}
    {r : GrantBook × DuckDBSession} (h : session.step i store op = some r) :
    session.Stepped i store op r.1 r.2 := by
  cases hp : session.pending with
  | none =>
    cases op with
    | statement =>
      simp only [step, hp, Option.some.injEq] at h
      subst h
      exact .quiet rfl (quiet_shared fun ⟨_, _, hp', _⟩ => by rw [hp] at hp'; cases hp')
    | ddl ddl existing folds =>
      simp only [step, hp, Option.some.injEq] at h
      subst h
      refine .quiet rfl ⟨shared_grantUndo _ _, ?_, shared_destroyed _ _, conn_shared, fun d hd => ?_⟩
      · simp [RunsUnrecorded]
      · cases hd
        exact .inr ⟨isSome_shared_conn _ _, existing, folds, rfl⟩
    | commit succeeds =>
      simp only [step, hp, Option.some.injEq] at h
      subst h
      exact .commit succeeds hp
    | rollback =>
      simp only [step, hp, Option.some.injEq] at h
      subst h
      exact .rollback hp
    | destroy =>
      simp only [step, hp, Option.some.injEq] at h
      subst h
      exact .destroy hp
    | _ => simp [step, hp] at h
  -- what is pending decides which operation may come
  | some d =>
    cases d with
    | checking ddl check =>
      cases check with
      | sect t k =>
        cases op with
        | check =>
          simp only [step, hp, Option.some.injEq] at h
          subst h
          refine .quiet rfl (quiet_pending (by simp [RunsUnrecorded]) fun d hd => ⟨_, hp, ?_⟩)
          cases hd
          rfl
        | _ => simp [step, hp] at h
      | ret creates =>
        cases op with
        | run answer =>
          simp only [step, hp, Option.some.injEq] at h
          subst h
          exact .quiet rfl (quiet_run hp)
        | _ => simp [step, hp] at h
      | throw e =>
        cases op with
        | run answer =>
          simp only [step, hp, Option.some.injEq] at h
          subst h
          -- a check that throws ends the DDL
          exact .quiet rfl (quiet_pending (by simp [RunsUnrecorded, hp]) fun d hd => by cases hd)
        | _ => simp [step, hp] at h
    | ran ddl answer =>
      have hrec : session.recording = some (ddl, answer) := by rw [recording, hp]
      cases hc : session.conn with
      | none => cases op <;> simp [step, hp, hc] at h
      | some conn =>
        cases op with
        | record =>
          simp only [step, hp, hc, Option.some.injEq] at h
          subst h
          exact .record ddl answer conn hrec hc
        | _ => simp [step, hp] at h

/-- What an operation does to the grants and to the log. -/
inductive DuckDBSession.Logs (session : DuckDBSession) (m : TableKey → Option SourceGrant) :
    SessionOp → (TableKey → Option SourceGrant) → List GrantUndo → Prop
  | keep (op : SessionOp) : Logs session m op m session.grantUndo
  | forget (op : SessionOp) : Logs session m op m []
  | undo (op : SessionOp) : Logs session m op (rollBack session.log m) []
  | change {ddl : CrossingDdl} {answer : SourceAnswer} {m' : TableKey → Option SourceGrant}
      {undo : GrantUndo} (h : session.recording = some (ddl, answer))
      (hc : grantChange ddl answer m = some (m', undo)) :
      Logs session m .record m' (undo :: session.grantUndo)

/-- **Every operation leaves the log with its grants**, ends both, or logs a change. -/
theorem DuckDBSession.Stepped.logs {i : Nat} {store : Store} {session session' : DuckDBSession}
    {op : SessionOp} {book : GrantBook} (h : session.Stepped i store op book session') :
    session.Logs store.book.tables.grantAt op book.tables.grantAt session'.grantUndo := by
  cases h with
  | quiet _ hq => rw [hq.grantUndo]; exact .keep _
  | record ddl answer conn hrec =>
    have hspec := recordDdl_spec store.book (session.finishDdl answer) conn ddl answer
    split at hspec
    · rw [hspec.1, hspec.2.2]
      exact .keep _
    next hc =>
      rw [hspec.1, hspec.2.2]
      exact .change hrec hc
  | commit succeeds =>
    cases hc : session.conn with
    | none => rw [commit_of_conn_none hc]; exact .keep _
    | some conn =>
      cases succeeds with
      | true =>
        rw [commit_true_tables, DuckDBSession.commit, hc]
        exact .forget _
      | false =>
        rw [commit_false hc, grantAt_rollback]
        exact .undo _
  | rollback => rw [grantAt_rollback]; exact .undo _
  | destroy => exact .forget _

namespace Live

/-- A step of a session that is there, on the store; nothing else changes. -/
theorem next_session {bridgeId : String} {s s' : Live} {i : Nat} {op : SessionOp}
    (h : s.next bridgeId (.session i op) = some s') :
    ∃ session book session', s.sessions[i]? = some session ∧ session.destroyed = false ∧
      session.Stepped i s.store op book session' ∧
        s' = { store := { s.store with book := book }, sessions := s.sessions.set i session' } := by
  rw [next] at h
  cases hi : s.sessions[i]? with
  | none => rw [hi] at h; cases h
  | some session =>
    rw [hi] at h
    dsimp only at h
    split_ifs at h with hd
    obtain ⟨r, hr, rfl⟩ := Option.map_eq_some_iff.1 h
    exact ⟨session, r.1, r.2, rfl, by simpa using hd, DuckDBSession.stepped hr, rfl⟩

end Live

/-! ### The count of uncommitted DDL -/

theorem sum_map_set {α : Type} (f : α → Nat) {l : List α} {i : Nat} {a : α} (h : l[i]? = some a)
    (b : α) : ((l.set i b).map f).sum + f a = (l.map f).sum + f b := by
  induction l generalizing i with
  | nil => cases h
  | cons c l ih =>
    cases i with
    | zero =>
      cases h
      simp only [List.set_cons_zero, List.map_cons, List.sum_cons]
      omega
    | succ i =>
      have := ih h
      simp only [List.set_cons_succ, List.map_cons, List.sum_cons]
      omega

namespace DuckDBSession

variable {i : Nat} {store : Store} {session session' : DuckDBSession} {op : SessionOp}
  {book : GrantBook}

/-- A recorded DDL adds an entry to the log or leaves it as it is. -/
theorem recordDdl_snd (book : GrantBook) (session : DuckDBSession) (conn : ConnId) (ddl : CrossingDdl)
    (answer : SourceAnswer) :
    (recordDdl book session conn ddl answer).2 = session ∨
      ∃ undo, (recordDdl book session conn ddl answer).2 =
        { session with grantUndo := undo :: session.grantUndo } := by
  have h := recordDdl_spec book session conn ddl answer
  split at h
  · exact .inl h.2.2
  · exact .inr ⟨_, h.2.2⟩

/-- The count goes up and down with the length of the log. -/
theorem Stepped.count (h : session.Stepped i store op book session')
    (hle : session.grantUndo.length ≤ store.book.uncommittedDdl) :
    book.uncommittedDdl + session.grantUndo.length =
      store.book.uncommittedDdl + session'.grantUndo.length := by
  cases h with
  | quiet _ hq => rw [hq.grantUndo]
  | record ddl answer conn =>
    have h := recordDdl_spec store.book (session.finishDdl answer) conn ddl answer
    split at h
    · rw [h.2.1, h.2.2]
      rfl
    · rw [h.2.1, h.2.2, List.length_cons]
      change _ + session.grantUndo.length = _ + (session.grantUndo.length + 1)
      omega
  | commit succeeds =>
    rw [DuckDBSession.commit]
    split
    · rfl
    · cases succeeds <;> simp [undoGrants, forgetGrantUndo] <;> omega
  | rollback => simp [DuckDBSession.rollback, undoGrants, forgetGrantUndo]; omega
  | destroy => simp [DuckDBSession.destroy, forgetGrantUndo]; omega

/-- Only `~DuckDBSession` destroys. -/
theorem Stepped.destroyed (h : session.Stepped i store op book session')
    (hd : session.destroyed = false) (hd' : session'.destroyed = true) : op = .destroy := by
  cases h with
  | destroy => rfl
  | quiet _ hq => rw [hq.destroyed, hd] at hd'; cases hd'
  | record ddl answer conn =>
    rcases recordDdl_snd store.book (session.finishDdl answer) conn ddl answer with
      he | ⟨undo, he⟩ <;> rw [he] at hd' <;> simp [finishDdl, hd] at hd'
  | commit succeeds =>
    rw [DuckDBSession.commit] at hd'
    split at hd'
    · simp [hd] at hd'
    · cases succeeds <;> simp [forgetGrantUndo, undoGrants, hd] at hd'
  | rollback => simp [DuckDBSession.rollback, forgetGrantUndo, undoGrants, hd] at hd'

/-- What a session that holds something needs. -/
structure Linked (i : Nat) (session : DuckDBSession) : Prop where
  undo : session.grantUndo ≠ [] → session.conn.isSome = true
  pending : session.pending.isSome = true → session.conn.isSome = true
  changed : session.changed = true → session.conn.isSome = true
  owned : ∀ c ∈ session.conn, c.session = i
  destroyed : session.destroyed = true → session.grantUndo = [] ∧ session.pending = none

theorem Linked.quiet (h : session.Linked i) (hd : session.destroyed = false)
    (hq : session.Quiet i op session') : session'.Linked i := by
  have hconn : session.conn.isSome = true → session'.conn.isSome = true := by
    rcases hq.conn with hc | ⟨-, c, hc, -⟩ <;> rw [hc]
    · exact id
    · exact fun _ => rfl
  refine ⟨fun hu => hconn (h.undo (hq.grantUndo ▸ hu)), fun hp => ?_, fun hc => hconn ?_,
    fun c hc => ?_, fun hd' => ?_⟩
  · obtain ⟨d, hd⟩ := Option.isSome_iff_exists.1 hp
    rcases hq.ddl d hd with ⟨d', hd', -⟩ | ⟨hc, -⟩
    · exact hconn (h.pending (Option.isSome_iff_exists.2 ⟨d', hd'⟩))
    · exact hc
  · rcases hq.changed.1 hc with hc | ⟨ddl, answer, hp, -⟩
    · exact h.changed hc
    · exact h.pending (by rw [hp]; rfl)
  · rcases hq.conn with hc' | ⟨-, c', hc', howned⟩
    · exact h.owned c (hc' ▸ hc)
    · rw [hc'] at hc
      cases hc
      exact howned
  · rw [hq.destroyed, hd] at hd'
    cases hd'

/-- The end of a transaction leaves nothing to link. -/
theorem Linked.ended (hr : session.pending = none) (hd : session.destroyed = false) :
    Linked i { session with conn := none, grantUndo := [], changed := false } where
  undo hu := absurd rfl hu
  pending hr' := by simp [hr] at hr'
  changed hc := by cases hc
  owned c hc := by cases hc
  destroyed hd' := by simp [hd] at hd'

theorem Linked.step (h : session.Linked i) (hd : session.destroyed = false)
    (hs : session.Stepped i store op book session') : session'.Linked i := by
  cases hs with
  | quiet _ hq => exact h.quiet hd hq
  | record ddl answer conn hr hc =>
    have hsome : session.conn.isSome = true := by rw [hc]; rfl
    rcases recordDdl_snd store.book (session.finishDdl answer) conn ddl answer with
      he | ⟨undo, he⟩ <;> rw [he]
    · exact ⟨fun _ => hsome, fun _ => hsome, fun _ => hsome, h.owned,
        fun hd' => by simp [finishDdl, hd] at hd'⟩
    · exact ⟨fun _ => hsome, fun _ => hsome, fun _ => hsome, h.owned,
        fun hd' => by simp [finishDdl, hd] at hd'⟩
  | commit succeeds hr =>
    rw [DuckDBSession.commit]
    split
    · exact h
    · cases succeeds <;> exact ended hr hd
  | rollback hr => exact ended hr hd
  | destroy hr =>
    exact ⟨fun hu => absurd rfl hu, h.pending, h.changed, h.owned, fun _ => ⟨rfl, hr⟩⟩

end DuckDBSession

namespace Live

variable {bridgeId : String} {s s' : Live} {l : LiveLabel}

/-- A session after another one began. -/
theorem getElem?_begin {sessions : List DuckDBSession} {i : Nat} {session : DuckDBSession}
    (h : (sessions ++ [({} : DuckDBSession)])[i]? = some session) :
    sessions[i]? = some session ∨ session = {} := by
  rw [List.getElem?_append] at h
  split_ifs at h
  · exact .inl h
  · exact .inr (by simpa using List.mem_of_getElem? h)

/-- A session after one of them made a step. -/
theorem getElem?_step {sessions : List DuckDBSession} {i j : Nat} {session' session : DuckDBSession}
    (h : (sessions.set i session')[j]? = some session) :
    j = i ∧ session = session' ∨ j ≠ i ∧ sessions[j]? = some session := by
  rw [List.getElem?_set] at h
  split_ifs at h with hij hlt
  · exact .inl ⟨hij.symm, (Option.some.inj h).symm⟩
  · exact .inr ⟨Ne.symm hij, h⟩

/-- The entries of all logs. -/
def logged (s : Live) : Nat := (s.sessions.map fun session => session.grantUndo.length).sum

/-- What holds of every live bridge: the count is that of the entries, and every session is
linked. -/
structure Sound (s : Live) : Prop where
  count : s.store.book.uncommittedDdl = s.logged
  linked : ∀ i (session : DuckDBSession), s.sessions[i]? = some session → session.Linked i

/-- A bridge no session has used. -/
structure Fresh (s : Live) : Prop where
  sessions : s.sessions = []
  count : s.store.book.uncommittedDdl = 0

theorem Fresh.sound (h : s.Fresh) : s.Sound where
  count := by rw [h.count, logged, h.sessions]; rfl
  linked i session hi := by rw [h.sessions] at hi; cases hi

theorem length_le_logged {i : Nat} {session : DuckDBSession} (h : s.sessions[i]? = some session) :
    session.grantUndo.length ≤ s.logged :=
  List.le_sum_of_mem (List.mem_map.2 ⟨session, List.mem_of_getElem? h, rfl⟩)

/-- The owner's calls do not touch the count. -/
theorem next_owner_count {store' : Store} {label : OwnerLabel}
    (h : s.store.next bridgeId label = some store') :
    store'.book.uncommittedDdl = s.store.book.uncommittedDdl := by
  cases Store.next_effect h with
  | quiet hbook => rw [hbook]
  | policy commit hbook =>
    obtain ⟨-, -, state, -, -, hb⟩ := commitPolicy_ok_iff.1 hbook
    rw [hb]
  | context hbook => rw [hbook]

/-- **Every step keeps a bridge sound.** -/
theorem Sound.next (h : s.Sound) (hs : s.next bridgeId l = some s') : s'.Sound := by
  cases l with
  | owner label =>
    obtain ⟨store', hstore, rfl⟩ := Option.map_eq_some_iff.1 hs
    exact ⟨(next_owner_count hstore).trans h.count, h.linked⟩
  | begin =>
    cases hs
    refine ⟨by simpa [logged] using h.count, fun i session hi => ?_⟩
    rcases getElem?_begin hi with hi | rfl
    · exact h.linked i session hi
    · exact @DuckDBSession.Linked.ended i {} rfl rfl
  | session i op =>
    obtain ⟨session, book, session', hi, hd, hstep, rfl⟩ := next_session hs
    have hlen := length_le_logged hi
    have hcount := hstep.count (h.count ▸ hlen)
    constructor
    · have hset := sum_map_set (fun session => session.grantUndo.length) hi session'
      change book.uncommittedDdl = _
      have := h.count
      simp only [logged] at *
      omega
    · intro j session₁ hj
      rcases getElem?_step hj with ⟨rfl, rfl⟩ | ⟨-, hj⟩
      · exact (h.linked j session hi).step hd hstep
      · exact h.linked j session₁ hj

end Live

end VirtualCatalog
