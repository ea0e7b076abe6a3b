import VirtualCatalog.Bridge.Session

/-!
# `CREATE OR REPLACE TABLE` from the target

A `CREATE TABLE` of the target runs on the source when the schema allows `create`.  What it does
there depends on the grant, on the source's own catalog and on the conflict clause.

* `CreateTableInfo`, `checkCreate` : the statement, and the checks of its text.
* `SourceCatalog`, `Source` : the tables and views of the source, and what it makes of a statement.
* `Crossing` : what runs before `Ddl`, and what it asks for.
* `TargetState.tryCreateExtensionTable`, `TargetState.tryDropExtensionEntry` : the two statements.
* `ReplaceNeedsDrop` : a replacement is a `DROP` followed by a `CREATE`.
* `replaceNeedsDrop_iff` : exactly where it is not one: at a grant without `drop`.
-/

namespace VirtualCatalog

/-! ### The text of a `CREATE TABLE` -/

/-- A default, as `IsConstant` looks at it. -/
inductive DefaultExpression where
  | constant (v : Value)
  | cast (child : DefaultExpression)
  | other

/-- `IsConstant`. -/
def DefaultExpression.isConstant : DefaultExpression → Bool
  | constant _ => true
  | cast child => child.isConstant
  | other => false

/-- `ColumnDefinition`. -/
structure ColumnDefinition where
  name : String
  generated : Bool := false
  /-- The default with its text. -/
  defaultValue : Option (DefaultExpression × String) := none

/-- A constraint of a table. -/
inductive TableConstraint where
  | notNull
  | check
  | unique (isPrimaryKey : Bool) (columns : List String)
  | foreignKey
deriving DecidableEq

/-- `CreateTableInfo`. -/
structure CreateTableInfo where
  schema : String
  table : String
  columns : List ColumnDefinition := []
  constraints : List TableConstraint := []

/-- `ThrowUnlessConstantDefault`. -/
def throwUnlessConstantDefault (expr : DefaultExpression) (text : String) :
    Except BridgeError Unit :=
  throwIf (expr.isConstant = false)
    ⟨.permission, "vcatbridge: a default from the target must be a constant, not '" ++ text ++ "'"⟩

/-- `ThrowIfColumnRunsOnSource`. -/
def throwIfColumnRunsOnSource (column : ColumnDefinition) : Except BridgeError Unit := do
  throwIf (column.generated = true)
    ⟨.permission, "vcatbridge: a table from the target cannot declare a generated column ('" ++
      column.name ++ "')"⟩
  match column.defaultValue with
  | none => return ()
  | some (expr, text) => throwUnlessConstantDefault expr text

/-- `ThrowIfCreateDeclaresForeignKey`. -/
def throwIfCreateDeclaresForeignKey (info : CreateTableInfo) : Except BridgeError Unit :=
  throwIf (.foreignKey ∈ info.constraints)
    ⟨.permission, "vcatbridge: a table created from the target cannot declare a foreign key"⟩

/-- `ThrowIfDdlCarriesExpression`, of a `CREATE TABLE`. -/
def throwIfCreateCarriesExpression (info : CreateTableInfo) : Except BridgeError Unit := do
  info.columns.forM throwIfColumnRunsOnSource
  throwIf (.check ∈ info.constraints)
    ⟨.permission, "vcatbridge: a table created from the target cannot declare a CHECK constraint"⟩

/-- The checks of the text of a `CREATE TABLE`. -/
def checkCreate (info : CreateTableInfo) : Except BridgeError Unit := do
  throwIfCreateDeclaresForeignKey info
  throwIfCreateCarriesExpression info

/-- `DiscoverKeyColumns`: the columns of the first primary key. -/
def discoverKeyColumns (constraints : List TableConstraint) : List String :=
  (constraints.findSome? fun
    | .unique true columns => some columns
    | _ => none).getD []

/-! ### The catalog of the source -/

/-- A table of the source with its own key, or a view. -/
inductive SourceObject where
  | table (key : List String)
  | view
deriving DecidableEq

/-- The tables and views of the source's schemas, by folded names. -/
abbrev SourceCatalog := TableKey → Option SourceObject

namespace SourceCatalog

/-- `entry->type == CatalogType::TABLE_ENTRY`, with its key. -/
def keyOf (C : SourceCatalog) (k : TableKey) : Option (List String) :=
  match C k with
  | some (.table key) => some key
  | _ => none

end SourceCatalog

/-- What the source makes of a statement that the bridge runs on it: it refuses, or it has these
tables and views afterwards. -/
structure Source where
  create : SourceCatalog → CreateTableInfo → OnCreateConflict → Except BridgeError SourceCatalog
  drop : SourceCatalog → String → String → Except BridgeError SourceCatalog

/-- To the source, replacing the table is dropping it and then creating it. -/
def Source.Replaces (source : Source) (C : SourceCatalog) (info : CreateTableInfo) : Prop :=
  ∀ C', source.create C info .replace = .ok C' ↔
    ∃ dropped, source.drop C info.schema info.table = .ok dropped ∧
      source.create dropped info .error = .ok C'

/-! ### The two statements -/

/-- What runs between a statement of the target and `Ddl`: it finds the tables a bridge serves and
checks the ordinary verbs. -/
structure Crossing where
  /-- `ServesTable`. -/
  servesTable : GrantBook → String → String → Bool
  /-- The check before `Ddl`. -/
  check : GrantBook → CrossingDdl → Except BridgeError Unit
  serves_iff : ∀ book schema table,
    servesTable book schema table = true ↔ (book.tables.findGrant schema table).isSome = true
  create_ok : ∀ book schema table onConflict, check book ⟨schema, table, .create onConflict⟩ = .ok () ↔
    book.state.createSchemas.contains schema = true
  drop_ok : ∀ book schema table, check book ⟨schema, table, .drop⟩ = .ok () ↔
    ∃ g, book.tables.findGrant schema table = some g ∧ g.has .drop = true

/-- The ordinary verb checks, and nothing else. -/
def Crossing.ordinary : Crossing where
  servesTable book schema table := (book.tables.findGrant schema table).isSome
  check book ddl :=
    match ddl.statement with
    | .create _ => throwIf (book.state.createSchemas.contains ddl.schema = false)
        (noPermission ("'" ++ ddl.schema ++ "'") .create)
    | .alter _ => .ok ()
    | .drop => throwIf ((book.tables.findGrant ddl.schema ddl.table).any (·.has .drop) = false)
        (noPermission ("'" ++ ddl.table ++ "'") .drop)
  serves_iff _ _ _ := Iff.rfl
  create_ok _ _ _ _ := by rw [throwIf_eq_ok, Bool.not_eq_false]
  drop_ok _ _ _ := by rw [throwIf_eq_ok, Bool.not_eq_false, Option.any_eq_true]

/-- What a DDL of the target reads and changes: the store, its session, the source's catalog. -/
structure TargetState where
  store : Store
  session : DuckDBSession := {}
  catalog : SourceCatalog

namespace TargetState

/-- The grants by key. -/
def grantAt (s : TargetState) : TableKey → Option SourceGrant := s.store.book.tables.grantAt

/-- The rest of `Ddl` once the source has run the statement: `RecordDdl`, if it creates something.
`i` is the number of the session. -/
def record (s : TargetState) (i : Nat) (ddl : CrossingDdl) (creates : Bool)
    (catalog : SourceCatalog) : TargetState :=
  let session := s.session.shared i
  if creates then
    let answer : SourceAnswer := { key := catalog.keyOf ddl.tableKey }
    let (book, session) := (session.finishDdl answer).recordDdl s.store.book
      (session.conn.getD ⟨i, session.opened⟩) ddl answer
    { store := { s.store with book := book }, session := session, catalog := catalog }
  else { s with session := session, catalog := catalog }

/-- `DuckDBSession::Ddl`, of a `CREATE TABLE` or a `DROP TABLE`: `text` are the checks of the
statement's text, and `run` is the statement on the source. -/
def ddl (s : TargetState) (i : Nat) (ddl : CrossingDdl) (text : Except BridgeError Unit)
    (run : SourceCatalog → Except BridgeError SourceCatalog) : Except BridgeError TargetState := do
  text
  let creates ← (checkDdl ddl (s.catalog ddl.tableKey).isSome fun _ => false).run s.store
  let catalog ← run s.catalog
  return s.record i ddl creates catalog

variable (crossing : Crossing) (source : Source) (i : Nat) (info : CreateTableInfo)
  (s : TargetState)

/-- `TryCreateExtensionTable`: none if it is not handled and the target makes a table of its own. -/
def tryCreateExtensionTable (onConflict : OnCreateConflict) :
    Option (Except BridgeError TargetState) :=
  if s.store.book.state.createSchemas.contains info.schema then
    let ddl : CrossingDdl := ⟨info.schema, info.table, .create onConflict⟩
    some do
      crossing.check s.store.book ddl
      s.ddl i ddl (checkCreate info) fun C => source.create C info onConflict
  else none

/-- `TryDropExtensionEntry`: none if no bridge serves the table. -/
def tryDropExtensionEntry (schema table : String) : Option (Except BridgeError TargetState) :=
  if crossing.servesTable s.store.book schema table then
    let ddl : CrossingDdl := ⟨schema, table, .drop⟩
    some do
      crossing.check s.store.book ddl
      s.ddl i ddl (.ok ()) fun C => source.drop C schema table
  else none

/-- `CREATE OR REPLACE TABLE`. -/
def createOrReplace : Option (Except BridgeError TargetState) :=
  s.tryCreateExtensionTable crossing source i info .replace

/-- `DROP TABLE` followed by `CREATE TABLE`. -/
def dropThenCreate : Option (Except BridgeError TargetState) :=
  match s.tryDropExtensionEntry crossing source i info.schema info.table with
  | some (.ok t) => t.tryCreateExtensionTable crossing source i info .error
  | r => r

end TargetState

/-! ### What a statement leaves -/

theorem createSchemas_recordDdl (book : GrantBook) (session : DuckDBSession) (conn : ConnId)
    (ddl : CrossingDdl) (answer : SourceAnswer) :
    (session.recordDdl book conn ddl answer).1.state.createSchemas = book.state.createSchemas := by
  obtain ⟨schema, table, statement⟩ := ddl
  cases statement with
  | create onConflict => rfl
  | drop =>
    rw [DuckDBSession.recordDdl]
    dsimp only
    split <;> rfl
  | alter alter =>
    rw [DuckDBSession.recordDdl]
    dsimp only
    split <;> rfl

section

variable {s : TargetState} {i : Nat} {ddl : CrossingDdl} {creates : Bool} {C : SourceCatalog}

@[simp] theorem record_catalog : (s.record i ddl creates C).catalog = C := by
  cases creates <;> rfl

@[simp] theorem record_createSchemas :
    (s.record i ddl creates C).store.book.state.createSchemas =
      s.store.book.state.createSchemas := by
  cases creates with
  | false => rfl
  | true => exact createSchemas_recordDdl _ _ _ _ _

theorem record_grantAt_create {schema table : String} {onConflict : OnCreateConflict} :
    (s.record i ⟨schema, table, .create onConflict⟩ true C).grantAt =
      Function.update s.grantAt (tableKey schema table)
        (some (createdGrant ((C.keyOf (tableKey schema table)).getD []))) := by
  let answer : SourceAnswer := { key := C.keyOf (tableKey schema table) }
  exact (DuckDBSession.recordDdl_spec s.store.book ((s.session.shared i).finishDdl answer)
    ((s.session.shared i).conn.getD ⟨i, (s.session.shared i).opened⟩)
    ⟨schema, table, .create onConflict⟩ answer).1

theorem record_grantAt_drop {schema table : String} :
    (s.record i ⟨schema, table, .drop⟩ true C).grantAt =
      Function.update s.grantAt (tableKey schema table) none := by
  let answer : SourceAnswer := { key := C.keyOf (tableKey schema table) }
  have h := DuckDBSession.recordDdl_spec s.store.book ((s.session.shared i).finishDdl answer)
    ((s.session.shared i).conn.getD ⟨i, (s.session.shared i).opened⟩) ⟨schema, table, .drop⟩ answer
  cases hg : s.grantAt (tableKey schema table) with
  | none =>
    rw [grantChange, CrossingDdl.tableKey, show s.store.book.tables.grantAt _ = none from hg] at h
    rw [← hg, Function.update_eq_self]
    exact h.1
  | some g =>
    rw [grantChange, CrossingDdl.tableKey, show s.store.book.tables.grantAt _ = some g from hg] at h
    exact h.1

end

/-! ### When the statements succeed -/

/-- The statement ran on the source. -/
def Succeeds (r : Option (Except BridgeError TargetState)) : Prop := ∃ t, r = some (.ok t)

section

variable {crossing : Crossing} {source : Source} {i : Nat} {info : CreateTableInfo}
  {s t : TargetState} {onConflict : OnCreateConflict}

theorem ddl_eq_ok {ddl : CrossingDdl} {text : Except BridgeError Unit}
    {run : SourceCatalog → Except BridgeError SourceCatalog} :
    s.ddl i ddl text run = .ok t ↔ text = .ok () ∧
      ∃ creates, (checkDdl ddl (s.catalog ddl.tableKey).isSome fun _ => false).run s.store =
          .ok creates ∧
        ∃ C, run s.catalog = .ok C ∧ s.record i ddl creates C = t := by
  simp only [TargetState.ddl, bind_eq_ok_iff, pure, Except.pure, Except.ok.injEq]
  constructor
  · rintro ⟨u, hu, h⟩
    exact ⟨hu, h⟩
  · rintro ⟨hu, h⟩
    exact ⟨(), hu, h⟩

/-- **A `CREATE TABLE` that the source runs**: the schema allows it, its text is fine, and the source
makes the table. -/
theorem tryCreate_eq_ok :
    s.tryCreateExtensionTable crossing source i info onConflict = some (.ok t) ↔
      s.store.book.state.createSchemas.contains info.schema = true ∧ checkCreate info = .ok () ∧
        ∃ creates, (createWouldCreate ⟨info.schema, info.table, .create onConflict⟩ onConflict
            (s.catalog (tableKey info.schema info.table)).isSome).run s.store = .ok creates ∧
          ∃ C, source.create s.catalog info onConflict = .ok C ∧
            s.record i ⟨info.schema, info.table, .create onConflict⟩ creates C = t := by
  rw [TargetState.tryCreateExtensionTable]
  split_ifs with hc
  · have hcheck := (crossing.create_ok s.store.book info.schema info.table onConflict).2 hc
    simp only [hcheck, Option.some.injEq, hc, true_and]
    exact @ddl_eq_ok i s t ⟨info.schema, info.table, .create onConflict⟩ (checkCreate info)
      fun C => source.create C info onConflict
  · simp [hc]

/-- **A `DROP TABLE` that the source runs**: the grant allows it. -/
theorem tryDrop_eq_ok {schema table : String} :
    s.tryDropExtensionEntry crossing source i schema table = some (.ok t) ↔
      (∃ g, s.grantAt (tableKey schema table) = some g ∧ g.has .drop = true) ∧
        ∃ C, source.drop s.catalog schema table = .ok C ∧
          s.record i ⟨schema, table, .drop⟩ true C = t := by
  have hdrop := crossing.drop_ok s.store.book schema table
  have hserves := crossing.serves_iff s.store.book schema table
  rw [GrantTables.findGrant_eq] at hdrop hserves
  rw [TargetState.tryDropExtensionEntry]
  split_ifs with hs
  · rw [TargetState.grantAt, ← hdrop]
    simp only [Option.some.injEq, bind_eq_ok_iff]
    constructor
    · rintro ⟨u, hcheck, h⟩
      obtain ⟨-, creates, hcreates, C, hC, ht⟩ := ddl_eq_ok.1 h
      cases hcreates
      exact ⟨hcheck, C, hC, ht⟩
    · rintro ⟨hcheck, C, hC, ht⟩
      exact ⟨(), hcheck, ddl_eq_ok.2 ⟨rfl, true, rfl, C, hC, ht⟩⟩
  · simp only [false_iff, not_and]
    rintro ⟨g, hg, -⟩
    exact absurd (hserves.2 (by rw [show s.store.book.tables.grantAt _ = some g from hg]; rfl)) hs

/-- Where the name is free or the source itself refuses a taken one, the schema's `create` decides. -/
theorem tryCreate_recorded
    (h : s.catalog (tableKey info.schema info.table) = none ∨ onConflict = .error) :
    s.tryCreateExtensionTable crossing source i info onConflict = some (.ok t) ↔
      s.store.book.state.createSchemas.contains info.schema = true ∧ checkCreate info = .ok () ∧
        ∃ C, source.create s.catalog info onConflict = .ok C ∧
          s.record i ⟨info.schema, info.table, .create onConflict⟩ true C = t := by
  have hcreates : createWouldCreate ⟨info.schema, info.table, .create onConflict⟩ onConflict
      (s.catalog (tableKey info.schema info.table)).isSome = .ret true := by
    unfold createWouldCreate
    rcases h with h | rfl
    · rw [h]
      rfl
    · split_ifs <;> rfl
  rw [tryCreate_eq_ok, hcreates]
  constructor
  · rintro ⟨hc, htext, creates, hcreates, h⟩
    cases hcreates
    exact ⟨hc, htext, h⟩
  · rintro ⟨hc, htext, h⟩
    exact ⟨hc, htext, true, rfl, h⟩

/-- On a name that is taken, `CREATE OR REPLACE` only looks for a grant. -/
theorem createOrReplace_eq_ok (h : (s.catalog (tableKey info.schema info.table)).isSome = true) :
    s.createOrReplace crossing source i info = some (.ok t) ↔
      s.store.book.state.createSchemas.contains info.schema = true ∧ checkCreate info = .ok () ∧
        (s.grantAt (tableKey info.schema info.table)).isSome = true ∧
          ∃ C, source.create s.catalog info .replace = .ok C ∧
            s.record i ⟨info.schema, info.table, .create .replace⟩ true C = t := by
  rw [TargetState.createOrReplace, tryCreate_eq_ok, h]
  have hrun : ∀ creates, (createWouldCreate ⟨info.schema, info.table, .create .replace⟩ .replace
      true).run s.store = .ok creates ↔
        creates = true ∧ (s.grantAt (tableKey info.schema info.table)).isSome = true := by
    intro creates
    rw [createWouldCreate, if_neg Bool.true_eq_false.mp]
    dsimp only
    rw [Prog.run, GrantTables.findGrant_eq, TargetState.grantAt]
    cases s.store.book.tables.grantAt (tableKey info.schema info.table) with
    | none => simp [Prog.run]
    | some g => simp [Prog.run, eq_comm]
  constructor
  · rintro ⟨hc, htext, creates, hcreates, C, hC, ht⟩
    obtain ⟨rfl, hg⟩ := (hrun creates).1 hcreates
    exact ⟨hc, htext, hg, C, hC, ht⟩
  · rintro ⟨hc, htext, hg, C, hC, ht⟩
    exact ⟨hc, htext, true, (hrun true).2 ⟨rfl, hg⟩, C, hC, ht⟩

/-- `DROP` followed by `CREATE` asks for `drop`. -/
theorem dropThenCreate_eq_ok :
    s.dropThenCreate crossing source i info = some (.ok t) ↔
      (∃ g, s.grantAt (tableKey info.schema info.table) = some g ∧ g.has .drop = true) ∧
        s.store.book.state.createSchemas.contains info.schema = true ∧ checkCreate info = .ok () ∧
          ∃ dropped, source.drop s.catalog info.schema info.table = .ok dropped ∧
            ∃ C, source.create dropped info .error = .ok C ∧
              (s.record i ⟨info.schema, info.table, .drop⟩ true dropped).record i
                ⟨info.schema, info.table, .create .error⟩ true C = t := by
  have hdrop : ∀ u,
      s.tryDropExtensionEntry crossing source i info.schema info.table = some (.ok u) ↔ _ :=
    fun u => tryDrop_eq_ok
  rw [TargetState.dropThenCreate]
  split
  next u hu =>
    obtain ⟨hg, dropped, hdropped, rfl⟩ := (hdrop u).1 hu
    rw [tryCreate_recorded (.inr rfl), record_createSchemas, record_catalog]
    simp only [hg, true_and, hdropped, Except.ok.injEq, exists_eq_left']
  next hr =>
    constructor
    · intro ht
      exact absurd ht (hr t)
    · rintro ⟨hg, -, -, dropped, hdropped, -⟩
      exact absurd ((hdrop _).2 ⟨hg, dropped, hdropped, rfl⟩) (hr _)

end

/-! ### The statement as steps of a session -/

section

variable {bridgeId : String} {i : Nat} {store : Store} {sessions : List DuckDBSession}
  {session session' : DuckDBSession} {book : GrantBook} {op : SessionOp}

theorem reachable_step (hi : i < sessions.length) (hd : session.destroyed = false)
    (h : session.step i store op = some (book, session')) :
    (liveMachine bridgeId).ReachableBy Machine.Free ⟨store, sessions.set i session⟩
      ⟨{ store with book := book }, sessions.set i session'⟩ := by
  refine ⟨[.session i op], .single trivial ?_⟩
  simp only [liveMachine, Live.next]
  rw [List.getElem?_set_self hi]
  simp [hd, h]

/-- The lock sections of the checks, with nothing between them. -/
theorem reachable_check (hi : i < sessions.length) (hd : session.destroyed = false)
    (ddl : CrossingDdl) (check : Stmt Bool) :
    (liveMachine bridgeId).ReachableBy Machine.Free
      ⟨store, sessions.set i { session with pending := some (.checking ddl check) }⟩
      ⟨store, sessions.set i
        { session with pending := some (.checking ddl (.ofExcept (check.run store))) }⟩ := by
  induction check with
  | ret creates => exact .refl _
  | throw e => exact .refl _
  | sect moment k ih =>
    exact (@reachable_step bridgeId i store sessions
      { session with pending := some (.checking ddl (.sect moment k)) } _ _ .check hi hd rfl).trans
        (ih store)

theorem step_record {ddl : CrossingDdl} {answer : SourceAnswer} {conn : ConnId}
    (h : session.conn = some conn) (other : ConnId) :
    DuckDBSession.step i store { session with pending := some (.ran ddl answer) } .record =
      some ((session.finishDdl answer).recordDdl store.book (session.conn.getD other) ddl answer) := by
  obtain ⟨_, grantUndo, opened, pending, changed, destroyed⟩ := session
  cases h
  rfl

end

/-- **A DDL is a run of the session** in which nobody else moves. -/
theorem TargetState.ddl_reachable {bridgeId : String} {i : Nat} {s t : TargetState}
    {sessions : List DuckDBSession} {ddl : CrossingDdl} {text : Except BridgeError Unit}
    {run : SourceCatalog → Except BridgeError SourceCatalog}
    (hi : i < sessions.length) (hp : s.session.pending = none) (hd : s.session.destroyed = false)
    (h : s.ddl i ddl text run = .ok t) :
    (liveMachine bridgeId).ReachableBy Machine.Free ⟨s.store, sessions.set i s.session⟩
      ⟨t.store, sessions.set i t.session⟩ := by
  obtain ⟨-, creates, hcreates, C, -, rfl⟩ := ddl_eq_ok.1 h
  let existing := (s.catalog ddl.tableKey).isSome
  let check := checkDdl ddl existing fun _ => false
  let answer : SourceAnswer := { key := C.keyOf ddl.tableKey }
  have hshared : (s.session.shared i).destroyed = false := by
    rw [DuckDBSession.shared_destroyed, hd]
  have hbegin : s.session.step i s.store (.ddl ddl existing fun _ => false) =
      some (s.store.book, { s.session.shared i with pending := some (.checking ddl check) }) := by
    unfold DuckDBSession.step
    rw [hp]
  have hchecked := @reachable_check bridgeId i s.store sessions (s.session.shared i) hi hshared ddl
    check
  rw [hcreates] at hchecked
  refine (reachable_step hi hd hbegin).trans (hchecked.trans ?_)
  -- the source answers, and the session records what it created
  let answer : SourceAnswer := { key := C.keyOf ddl.tableKey }
  cases creates with
  | false =>
    have hrun : (s.record i ddl false C).session = { s.session.shared i with pending := none } := by
      show s.session.shared i = _
      rw [← s.session.shared_pending i] at hp
      rw [← hp]
    rw [hrun]
    refine @reachable_step bridgeId i s.store sessions
      { s.session.shared i with pending := some (.checking ddl (.ret false)) } _ _
      (.run { answer with changed := false }) hi hshared ?_
    simp [DuckDBSession.step, DuckDBSession.runDdl, DuckDBSession.finishDdl, answer]
  | true =>
    obtain ⟨conn, hconn⟩ := Option.isSome_iff_exists.1 (s.session.isSome_shared_conn i)
    have hran := @reachable_step bridgeId i s.store sessions
      { s.session.shared i with pending := some (.checking ddl (.ret true)) } _ _ (.run answer) hi
      hshared rfl
    have hrecord : DuckDBSession.step i s.store
        { s.session.shared i with pending := some (.ran ddl answer) } .record =
          some ((s.record i ddl true C).store.book, (s.record i ddl true C).session) :=
      step_record hconn _
    exact hran.trans (reachable_step hi hshared hrecord)

/-! ### Replacing asks for `drop` -/

/-- `CREATE OR REPLACE TABLE` asks for what it does: `drop` where it replaces a table of the source,
and the schema's `create` alone on a free name. -/
structure ReplaceNeedsDrop (crossing : Crossing) (source : Source) (i : Nat)
    (info : CreateTableInfo) (s : TargetState) : Prop where
  /-- A table of the source is replaced only if its grant allows `drop`. -/
  allowed : ∀ key t, s.catalog (tableKey info.schema info.table) = some (.table key) →
    s.createOrReplace crossing source i info = some (.ok t) →
      ∃ g, s.grantAt (tableKey info.schema info.table) = some g ∧ g.has .drop = true
  /-- It succeeds when `DROP TABLE` followed by `CREATE TABLE` does. -/
  succeeds : ∀ key, s.catalog (tableKey info.schema info.table) = some (.table key) →
    source.Replaces s.catalog info →
      (Succeeds (s.createOrReplace crossing source i info) ↔
        Succeeds (s.dropThenCreate crossing source i info))
  /-- It leaves the tables and the grants that the two leave. -/
  outcome : ∀ key t u, s.catalog (tableKey info.schema info.table) = some (.table key) →
    source.Replaces s.catalog info → s.createOrReplace crossing source i info = some (.ok t) →
      s.dropThenCreate crossing source i info = some (.ok u) →
        t.catalog = u.catalog ∧ t.grantAt = u.grantAt
  /-- On a free name no grant is asked for: the text is checked, and the source does the rest. -/
  free : s.catalog (tableKey info.schema info.table) = none →
    (Succeeds (s.createOrReplace crossing source i info) ↔
      s.store.book.state.createSchemas.contains info.schema = true ∧ checkCreate info = .ok () ∧
        ∃ C, source.create s.catalog info .replace = .ok C)

/-- The name is that of a table of the source whose grant lacks `drop`, and nothing else stops the
statement. -/
def ReplacesWithoutDrop (source : Source) (info : CreateTableInfo) (s : TargetState) : Prop :=
  (∃ key, s.catalog (tableKey info.schema info.table) = some (.table key)) ∧
    (∃ g, s.grantAt (tableKey info.schema info.table) = some g ∧ g.has .drop = false) ∧
      s.store.book.state.createSchemas.contains info.schema = true ∧ checkCreate info = .ok () ∧
        ∃ C, source.create s.catalog info .replace = .ok C

section

variable {crossing : Crossing} {source : Source} {i : Nat} {info : CreateTableInfo}
  {s t u : TargetState} {key : List String}

theorem succeeds_free (h : s.catalog (tableKey info.schema info.table) = none) :
    Succeeds (s.createOrReplace crossing source i info) ↔
      s.store.book.state.createSchemas.contains info.schema = true ∧ checkCreate info = .ok () ∧
        ∃ C, source.create s.catalog info .replace = .ok C := by
  rw [Succeeds, TargetState.createOrReplace]
  constructor
  · rintro ⟨t, ht⟩
    obtain ⟨hc, htext, C, hC, -⟩ := (tryCreate_recorded (.inl h)).1 ht
    exact ⟨hc, htext, C, hC⟩
  · rintro ⟨hc, htext, C, hC⟩
    exact ⟨_, (tryCreate_recorded (.inl h)).2 ⟨hc, htext, C, hC, rfl⟩⟩

/-- Both leave the new table, and the grant of a table that the target made. -/
theorem outcome_eq (h : s.catalog (tableKey info.schema info.table) = some (.table key))
    (hsource : source.Replaces s.catalog info)
    (ht : s.createOrReplace crossing source i info = some (.ok t))
    (hu : s.dropThenCreate crossing source i info = some (.ok u)) :
    t.catalog = u.catalog ∧ t.grantAt = u.grantAt := by
  obtain ⟨-, -, -, C, hC, rfl⟩ := (createOrReplace_eq_ok (by rw [h]; rfl)).1 ht
  obtain ⟨-, -, -, dropped, hdropped, C', hC', rfl⟩ := dropThenCreate_eq_ok.1 hu
  obtain rfl : C = C' := by
    have := (hsource C').2 ⟨dropped, hdropped, hC'⟩
    rw [hC] at this
    exact Except.ok.inj this
  simp only [record_catalog, record_grantAt_create, record_grantAt_drop, Function.update_idem,
    and_self]

/-- **`CREATE OR REPLACE TABLE` asks for `drop`**, except at a grant that lacks it. -/
theorem replaceNeedsDrop_iff :
    ReplaceNeedsDrop crossing source i info s ↔ ¬ ReplacesWithoutDrop source info s := by
  constructor
  · rintro hneeds ⟨⟨key, hkey⟩, ⟨g, hg, hdrop⟩, hc, htext, C, hC⟩
    have hrun := (@createOrReplace_eq_ok crossing source i info s _ (by rw [hkey]; rfl)).2
      ⟨hc, htext, by rw [hg]; rfl, C, hC, rfl⟩
    obtain ⟨g', hg', hdrop'⟩ := hneeds.allowed key _ hkey hrun
    rw [hg] at hg'
    cases hg'
    rw [hdrop] at hdrop'
    cases hdrop'
  · intro hno
    -- what a grant must have for the statement to replace a table
    have hdrop : ∀ key t, s.catalog (tableKey info.schema info.table) = some (.table key) →
        s.createOrReplace crossing source i info = some (.ok t) →
          ∃ g, s.grantAt (tableKey info.schema info.table) = some g ∧ g.has .drop = true := by
      intro key t hkey ht
      obtain ⟨hc, htext, hsome, C, hC, -⟩ := (createOrReplace_eq_ok (by rw [hkey]; rfl)).1 ht
      obtain ⟨g, hg⟩ := Option.isSome_iff_exists.1 hsome
      refine ⟨g, hg, ?_⟩
      by_contra hd
      exact hno ⟨⟨key, hkey⟩, ⟨g, hg, Bool.not_eq_true _ ▸ hd⟩, hc, htext, C, hC⟩
    refine ⟨hdrop, fun key hkey hsource => ⟨?_, ?_⟩, fun key t u => outcome_eq, succeeds_free⟩
    · rintro ⟨t, ht⟩
      obtain ⟨hc, htext, -, C, hC, -⟩ := (createOrReplace_eq_ok (by rw [hkey]; rfl)).1 ht
      obtain ⟨dropped, hdropped, hcreated⟩ := (hsource C).1 hC
      exact ⟨_, dropThenCreate_eq_ok.2
        ⟨hdrop key t hkey ht, hc, htext, dropped, hdropped, C, hcreated, rfl⟩⟩
    · rintro ⟨u, hu⟩
      obtain ⟨⟨g, hg, -⟩, hc, htext, dropped, hdropped, C, hcreated, -⟩ :=
        dropThenCreate_eq_ok.1 hu
      exact ⟨_, (createOrReplace_eq_ok (by rw [hkey]; rfl)).2
        ⟨hc, htext, by rw [hg]; rfl, C, (hsource C).2 ⟨dropped, hdropped, hcreated⟩, rfl⟩⟩

end

namespace Sample

/-- A source that runs every `CREATE OR REPLACE TABLE` and every `DROP TABLE`. -/
def source : Source where
  create C info _ := .ok (Function.update C (tableKey info.schema info.table)
    (some (.table (discoverKeyColumns info.constraints))))
  drop C schema table := .ok (Function.update C (tableKey schema table) none)

/-- To it, a replacement is a `DROP` and a `CREATE`. -/
theorem replaces_source (C : SourceCatalog) (info : CreateTableInfo) : source.Replaces C info := by
  intro C'
  simp [source, Function.update_idem]

end Sample

/-- A guest that may create tables in `main` and read `people` replaces `people`, which it may not
drop. -/
theorem not_replaceNeedsDrop : ¬ ∀ (crossing : Crossing) (source : Source) (i : Nat)
    (info : CreateTableInfo) (s : TargetState), source.Replaces s.catalog info →
      ReplaceNeedsDrop crossing source i info s := by
  intro h
  let people : SourceGrant := { verbs := {.select} }
  let s : TargetState :=
    { store :=
        { book := { state := { tables := GrantTables.set ∅ "main" "people" people
                               createSchemas := CISet.ofList ["main"] } }
          context := {}, installed := [], contexts := [] }
      catalog := fun _ => some (.table []) }
  exact replaceNeedsDrop_iff.1 (h .ordinary Sample.source 0 { schema := "main", table := "people" } s
    (Sample.replaces_source _ _)) ⟨⟨[], rfl⟩, ⟨people, rfl, rfl⟩, rfl, rfl, _, rfl⟩

end VirtualCatalog
