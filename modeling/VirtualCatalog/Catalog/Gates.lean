import VirtualCatalog.Bridge.CreateTable
import VirtualCatalog.Bridge.PredicateFold
import VirtualCatalog.Provider.SchemaEntries

/-!
# Which statements a table takes

A statement on a table of a bridge or provider catalog meets the attach mode of the catalog, and the
gates of whatever the table is: DuckDB's own table has none, a provider's table is refused what its
provider has no UDF or no key for, a bridged table is refused what its grant does not allow, and an
update or delete without a key.

* `TableStatement` : the statements on a table, by their verb.
* `CrossingGate`, `CrossingGate.Documented` : what `crossing` refuses before it hands a statement to the source.
* `ProviderEntry.gate`, `BridgedTable.gate` : the gates.
* `ServedTable.Works` : some statement of the verb passes them all.
* `exists_gate_iff` : for which verbs a statement passes the gates.
-/

namespace VirtualCatalog

/-! ### Statements -/

/-- What an `ALTER TABLE` does. -/
inductive AlterTable where
  | addColumn
  | removeColumn (column : String)
  | renameColumn (column : String)
  | renameTable (newName : String)
  | alterColumnType (column : String)
  | other

/-- What a bridge looks at of it. -/
def AlterTable.info : AlterTable → AlterInfo
  | removeColumn column => .removeColumn column
  | renameColumn column => .renameColumn column
  | renameTable newName => .renameTable newName
  | alterColumnType column => .alterColumnType column
  | _ => .other

/-- What the gates look at of an `INSERT`, `UPDATE` or `DELETE`. -/
structure WriteStatement where
  /-- It has a `RETURNING` clause. -/
  returning : Bool := false
  readsRows : Bool := false
  setColumns : List String := []
  built : CrossingWriteStatement := ⟨"seam", [], [], none⟩

/-- A statement on a table. -/
inductive TableStatement where
  | select
  | insert (w : WriteStatement)
  | update (w : WriteStatement)
  | delete (w : WriteStatement)
  | createOrReplace
  /-- An `ALTER TABLE` with its text. -/
  | alter (change : AlterTable) (text : String)
  | drop

/-- A statement of a verb without any clause. -/
def TableStatement.plain : CrossingVerb → TableStatement
  | .select => .select
  | .insert => .insert {}
  | .update => .update {}
  | .delete => .delete {}
  | .create => .createOrReplace
  | .alter => .alter .addColumn ""
  | .drop => .drop

/-- The verb of a statement. -/
def TableStatement.verb : TableStatement → CrossingVerb
  | select => .select
  | insert _ => .insert
  | update _ => .update
  | delete _ => .delete
  | createOrReplace => .create
  | alter _ _ => .alter
  | drop => .drop

/-! ### Provider tables -/

namespace Provider

/-- The UDF of a verb. -/
def opOf : CrossingVerb → Option Op
  | .insert => some .insert
  | .update => some .update
  | .delete => some .delete
  | .alter => some .alter
  | _ => none

namespace ProviderEntry

variable {T : Type} (e : ProviderEntry T)

/-- What `PlanInsert`, `PlanDelete` and `PlanUpdate` check: `what` is the statement, `place` the
preposition of its message, and a keyed statement needs a key. -/
def planWrite (op : Op) (what place : String) (keyed : Bool) (w : WriteStatement) :
    Except BridgeError Unit := do
  throwIf (w.returning = true) ⟨.binder,
    "RETURNING clause is not supported for " ++ what ++ " " ++ place ++ " provider tables"⟩
  throwIf (e.table.provider.udf op = "") ⟨.permission,
    "Provider table '" ++ e.name ++ "' does not support " ++ what⟩
  throwIf (keyed = true ∧ e.table.primaryKeys = []) ⟨.binder,
    "Provider table '" ++ e.name ++ "' has no primary key declared; " ++ what ++ " requires one"⟩

/-- `PlanInsert`. -/
def planInsert (w : WriteStatement) : Except BridgeError Unit :=
  e.planWrite .insert "INSERT" "into" false w

/-- `PlanDelete`. -/
def planDelete (w : WriteStatement) : Except BridgeError Unit :=
  e.planWrite .delete "DELETE" "from" true w

/-- `PlanUpdate`. -/
def planUpdate (w : WriteStatement) : Except BridgeError Unit :=
  e.planWrite .update "UPDATE" "on" true w

/-- The switch of `TryAlterExtensionEntry` has a case for it. -/
def altersColumns : AlterTable → Bool
  | .addColumn | .removeColumn _ | .renameColumn _ => true
  | _ => false

/-- What `TryAlterExtensionEntry` checks. -/
def checkAlter (change : AlterTable) (text : String) : Except BridgeError Unit := do
  throwIf (e.table.provider.udf .alter = "") ⟨.permission,
    "Provider table '" ++ e.name ++ "' does not support ALTER"⟩
  throwIf (altersColumns change = false) ⟨.binder, "ALTER TABLE " ++ text ++
    " on provider-managed tables is not supported (only ADD COLUMN, DROP COLUMN, RENAME COLUMN)"⟩

/-- `ThrowIfExtensionOwnedOnDrop`. -/
def throwIfExtensionOwnedOnDrop : Except BridgeError Unit :=
  .error ⟨.binder, "Table '" ++ e.name ++ "' is provider-managed; modify the backing store and " ++
    "call vcatprovider_invalidate_tables() instead of DROP TABLE"⟩

/-- The gates of a provider's table.  A `CREATE` is left to the wrapped schema, which makes a table
of its own. -/
def gate : TableStatement → Except BridgeError Unit
  | .select => .ok ()
  | .insert w => e.planInsert w
  | .update w => e.planUpdate w
  | .delete w => e.planDelete w
  | .createOrReplace => .ok ()
  | .alter change text => e.checkAlter change text
  | .drop => e.throwIfExtensionOwnedOnDrop

end ProviderEntry

end Provider

/-! ### Bridged tables -/

/-- `CrossingTable`, up to its columns. -/
structure CrossingTable where
  verbs : List CrossingVerb
  key : List String

/-- `Describe` of a granted table. -/
def SourceGrant.described (g : SourceGrant) : CrossingTable := ⟨crossingVerbs.filter g.has, g.key⟩

/-- `Allows`. -/
def CrossingTable.allows (described : CrossingTable) (verb : CrossingVerb) : Bool :=
  decide (verb ∈ described.verbs)

@[simp] theorem described_allows {g : SourceGrant} {v : CrossingVerb} :
    g.described.allows v = g.has v := by
  rw [CrossingTable.allows, SourceGrant.described, Bool.eq_iff_iff, decide_eq_true_iff,
    List.mem_filter]
  exact and_iff_right (mem_crossingVerbs v)

/-- The statements on a described table that `crossing` lets through, by the name of the table. -/
structure CrossingGate where
  check : String → CrossingTable → TableStatement → Except BridgeError Unit

/-- A statement of the verb is allowed, and has the key that it needs. -/
def CrossingTable.Admits (described : CrossingTable) (v : CrossingVerb) : Prop :=
  described.allows v = true ∧ (v = .update ∨ v = .delete → described.key ≠ [])

/-- `crossing` refuses a statement of a verb that `Describe` does not return, and an update or delete on
a table without a key; a statement without clauses is refused for nothing else. -/
structure CrossingGate.Documented (C : CrossingGate) : Prop where
  refuses : ∀ name described st, C.check name described st = .ok () →
    described.Admits st.verb
  passes : ∀ name described v, described.Admits v →
    C.check name described (TableStatement.plain v) = .ok ()

/-- A granted table in a store whose predicates have the names of the context. -/
structure BridgedTable where
  schema : String
  name : String
  store : Store
  grant : SourceGrant
  /-- `PredicateFoldsToTrue` on the source. -/
  folds : Expr → Bool
  granted : store.book.tables.findGrant schema name = some grant
  closed : Closed store

section Gates

variable (C : CrossingGate)

namespace BridgedTable

variable (t : BridgedTable)

/-- What `crossing` checks before it hands a statement to the source. -/
def crossingCheck (st : TableStatement) : Except BridgeError Unit :=
  C.check t.name t.grant.described st

/-- The target of a write. -/
def target (verb : CrossingVerb) (w : WriteStatement) : CrossingWriteTarget where
  catalog := ""
  schema := t.schema
  table := t.name
  verb := verb
  keyColumns := t.grant.key
  setColumns := w.setColumns
  readsRows := w.readsRows

/-- Whether the source lets a program through. -/
def outcome {α : Type} (p : Stmt α) : Except BridgeError Unit := (p.run t.store).map fun _ => ()

/-- `Write` behind the fence. -/
def writeGate (st : TableStatement) (w : WriteStatement) : Except BridgeError Unit := do
  t.crossingCheck C st
  t.outcome (write (t.target st.verb w) none w.built)

/-- `Ddl`, up to the run on the source. -/
def ddlGate (statement : DdlStatement) : Except BridgeError Unit :=
  t.outcome (checkDdl ⟨t.schema, t.name, statement⟩ true t.folds)

/-- The gates of a bridged table, for statements without the clauses that `crossing` takes of no
table.  A `CREATE` is left to the wrapped schema unless the schema of the bridge allows it. -/
def gate : TableStatement → Except BridgeError Unit
  | .select => do
    t.crossingCheck C .select
    t.outcome (read [[⟨t.schema, t.name, []⟩]])
  | .insert w => t.writeGate C (.insert w) w
  | .update w => t.writeGate C (.update w) w
  | .delete w => t.writeGate C (.delete w) w
  | .createOrReplace =>
    if t.store.book.state.createSchemas.contains t.schema then t.ddlGate (.create .replace)
    else .ok ()
  | .alter change text => do
    t.crossingCheck C (.alter change text)
    t.ddlGate (.alter change.info)
  | .drop => do
    t.crossingCheck C .drop
    t.ddlGate .drop

end BridgedTable

/-! ### Every table -/

/-- A table of a bridge or provider catalog. -/
inductive ServedTable (T : Type) where
  | native (entry : CatalogEntry)
  | provider (entry : Provider.ProviderEntry T)
  | bridged (table : BridgedTable)

namespace ServedTable

variable {T : Type}

/-- The gates of a table. -/
def gate : ServedTable T → TableStatement → Except BridgeError Unit
  | native _, _ => .ok ()
  | provider entry, st => entry.gate st
  | bridged table, st => table.gate C st

/-- Some statement of the verb passes the gates. -/
def Passes (t : ServedTable T) (v : CrossingVerb) : Prop :=
  ∃ st : TableStatement, st.verb = v ∧ t.gate C st = .ok ()

/-- Some statement of the verb passes the gates and the attach mode: the engine refuses every
statement but a `SELECT` on a catalog that is attached `READ_ONLY`. -/
def Works (readOnly : Bool) (t : ServedTable T) (v : CrossingVerb) : Prop :=
  (readOnly = false ∨ v = .select) ∧ t.Passes C v

end ServedTable

end Gates

/-! ### Which verbs pass -/

namespace Provider.ProviderEntry

variable {T : Type} {e : ProviderEntry T}

theorem planWrite_eq_ok {op : Op} {what place : String} {keyed : Bool} {w : WriteStatement} :
    e.planWrite op what place keyed w = .ok () ↔ w.returning = false ∧
      e.table.provider.udf op ≠ "" ∧ (keyed = true → e.table.primaryKeys ≠ []) := by
  rw [planWrite]
  simp only [bind_eq_ok_iff, throwIf_eq_ok, exists_const, Bool.not_eq_true, not_and]

theorem checkAlter_eq_ok {change : AlterTable} {text : String} :
    e.checkAlter change text = .ok () ↔
      e.table.provider.udf .alter ≠ "" ∧ altersColumns change = true := by
  rw [checkAlter]
  simp only [bind_eq_ok_iff, throwIf_eq_ok, exists_const, Bool.not_eq_false]

/-- The verbs that a provider's table takes: reads, and writes that there is a UDF for; an update or
delete needs a key. -/
def Takes (e : ProviderEntry T) : CrossingVerb → Prop
  | .select => True
  | .insert => e.table.provider.udf .insert ≠ ""
  | .update => e.table.provider.udf .update ≠ "" ∧ e.table.primaryKeys ≠ []
  | .delete => e.table.provider.udf .delete ≠ "" ∧ e.table.primaryKeys ≠ []
  | .create => True
  | .alter => e.table.provider.udf .alter ≠ ""
  | .drop => False

theorem exists_gate_iff (v : CrossingVerb) :
    (∃ st : TableStatement, st.verb = v ∧ e.gate st = .ok ()) ↔ e.Takes v := by
  constructor
  · rintro ⟨st, rfl, hst⟩
    cases st with
    | select => trivial
    | insert w => exact (planWrite_eq_ok.1 hst).2.1
    | update w =>
      obtain ⟨-, hudf, hkey⟩ := planWrite_eq_ok.1 hst
      exact ⟨hudf, hkey rfl⟩
    | delete w =>
      obtain ⟨-, hudf, hkey⟩ := planWrite_eq_ok.1 hst
      exact ⟨hudf, hkey rfl⟩
    | createOrReplace => trivial
    | alter change text => exact (checkAlter_eq_ok.1 hst).1
    | drop => cases hst
  · intro h
    cases v with
    | select => exact ⟨.select, rfl, rfl⟩
    | insert => exact ⟨.insert {}, rfl, planWrite_eq_ok.2 ⟨rfl, h, fun hk => (by cases hk)⟩⟩
    | update => exact ⟨.update {}, rfl, planWrite_eq_ok.2 ⟨rfl, h.1, fun _ => h.2⟩⟩
    | delete => exact ⟨.delete {}, rfl, planWrite_eq_ok.2 ⟨rfl, h.1, fun _ => h.2⟩⟩
    | create => exact ⟨.createOrReplace, rfl, rfl⟩
    | alter => exact ⟨.alter .addColumn "", rfl, checkAlter_eq_ok.2 ⟨h, rfl⟩⟩
    | drop => exact h.elim

end Provider.ProviderEntry

namespace BridgedTable

variable {C : CrossingGate} {t : BridgedTable}

/-- The verb is granted, and has the key that it needs. -/
theorem admits_iff {v : CrossingVerb} : t.grant.described.Admits v ↔
    t.grant.has v = true ∧ (v = .update ∨ v = .delete → t.grant.key ≠ []) := by
  rw [CrossingTable.Admits, described_allows]
  rfl

theorem grants_eq (v : CrossingVerb) :
    t.store.book.grants t.schema t.name v = t.grant.has v := by
  rw [GrantBook.grants, t.granted, Option.any_some]

/-- A statement that looks up one predicate fills it. -/
theorem filledBy_lookup {l : Lookup} {p : Expr} (h : t.store.book.lookup l = some p) :
    FilledBy t.store.context.values p := t.closed.lookup h

/-- A read of the table passes if select is granted. -/
theorem read_eq_ok : (∃ plans, (read [[⟨t.schema, t.name, []⟩]]).run t.store = .ok plans) ↔
    t.grant.has .select = true := by
  obtain ⟨f, hf⟩ := exists_fillOption
    (p := t.store.book.lookup (CrossingFloor.lookup ⟨t.schema, t.name, []⟩))
    fun e he => filledBy_lookup he
  have hgrants := t.grants_eq .select
  simp only [read, readFragments, resolveFloors, resolveFloor, Prog.run, Prog.run_bind]
  cases hselect : t.grant.has .select with
  | false =>
    rw [hselect] at hgrants
    simp [hgrants, Prog.run, Except.bind]
  | true =>
    rw [hselect] at hgrants
    simp [hgrants, hf, Prog.run, Prog.run_bind, Except.bind]

/-- A write passes behind the fence, unless it reads its rows and select is not granted. -/
theorem write_eq_ok {v : CrossingVerb} {w : WriteStatement} :
    (∃ r, (write (t.target v w) none w.built).run t.store = .ok r) ↔
      ((t.target v w).readsItsRows = true → t.grant.has .select = true) := by
  have husing : ∀ e, t.store.book.lookup (t.target v w).usingLookup = some e →
      FilledBy t.store.context.values e := fun e he => filledBy_lookup he
  have hcheck : ∀ e, t.store.book.lookup (t.target v w).checkLookup = some e →
      FilledBy t.store.context.values e := fun e he => filledBy_lookup he
  have hvisible : ∀ e, t.store.book.lookup (t.target v w).visibleLookup = some e →
      FilledBy t.store.context.values e := fun e he => filledBy_lookup he
  have hnone : ∀ e, (none : Option Expr) = some e → FilledBy t.store.context.values e := by
    intro e he
    cases he
  obtain ⟨shaped, hshaped⟩ := finishShape_succeeds (t.target v w) w.built husing hcheck hnone
  obtain ⟨shaped', hshaped'⟩ := finishShape_succeeds (t.target v w) w.built husing hcheck hvisible
  have hgrants : t.store.book.grants (t.target v w).schema (t.target v w).table .select =
    t.grant.has .select := t.grants_eq .select
  simp only [write, policyShaper, shape, Prog.run, Prog.run_bind]
  cases hreads : (t.target v w).readsItsRows with
  | false => simp [hshaped, Prog.run, Except.bind]
  | true =>
    cases hselect : t.grant.has .select with
    | false =>
      rw [hselect] at hgrants
      simp [hgrants, Prog.run, Except.bind]
    | true =>
      rw [hselect] at hgrants
      simp [hgrants, hshaped', Prog.run, Except.bind]

/-- Alter and select are granted, and the USING predicates of both fold to `TRUE`. -/
def Alterable (t : BridgedTable) : Prop :=
  ∀ v ∈ [CrossingVerb.alter, .select], t.grant.has v = true ∧
    ∀ p, t.grant.usingPredicates v = some p →
      ∃ e, fillContext t.store.context.values p = .ok e ∧ t.folds e = true

/-- The check of an `ALTER` passes if the whole table is visible. -/
theorem alter_eq_ok :
    (VirtualCatalog.alter t.folds t.schema t.name).run t.store = .ok () ↔ t.Alterable := by
  have hholds : ∀ v, holdsEverywhere t.folds t.store.context.values (some t.grant) v = .ok true ↔
      t.grant.has v = true ∧ ∀ p, t.grant.usingPredicates v = some p →
        ∃ e, fillContext t.store.context.values p = .ok e ∧ t.folds e = true := by
    intro v
    rw [holdsEverywhere_ok_iff]
    constructor
    · rintro ⟨g, hg, h⟩
      cases hg
      exact h
    · intro h
      exact ⟨_, rfl, h⟩
  rw [VirtualCatalog.alter]
  simp only [Prog.run, Prog.run_ofExcept, t.granted, bind_eq_ok_iff, throwIf_eq_ok, exists_const,
    Bool.not_eq_false]
  rw [Alterable, List.forall_mem_cons, List.forall_mem_singleton, ← hholds, ← hholds]
  constructor
  · rintro ⟨alters, halters, rfl, selects, hselects, rfl⟩
    exact ⟨halters, hselects⟩
  · rintro ⟨halters, hselects⟩
    exact ⟨true, halters, rfl, true, hselects, rfl⟩

/-- The verbs that a bridged table takes: the granted ones, an update or delete if it has a key, an
`ALTER` if the whole table is visible. -/
def Takes (t : BridgedTable) : CrossingVerb → Prop
  | .create => True
  | .alter => t.Alterable
  | .update => t.grant.has .update = true ∧ t.grant.key ≠ []
  | .delete => t.grant.has .delete = true ∧ t.grant.key ≠ []
  | v => t.grant.has v = true

theorem outcome_eq_ok {α : Type} {p : Stmt α} :
    t.outcome p = .ok () ↔ ∃ a, p.run t.store = .ok a := by
  rw [outcome]
  cases p.run t.store with
  | error x =>
    constructor
    · intro h
      cases h
    · rintro ⟨a, h⟩
      cases h
  | ok a => exact ⟨fun _ => ⟨a, rfl⟩, fun _ => rfl⟩

theorem checked_eq_ok {st : TableStatement} {x : Except BridgeError Unit} :
    (do t.crossingCheck C st; x) = .ok () ↔ t.crossingCheck C st = .ok () ∧ x = .ok () := by
  rw [bind_eq_ok_iff]
  constructor
  · rintro ⟨u, hu, hx⟩
    exact ⟨hu, hx⟩
  · rintro ⟨hu, hx⟩
    exact ⟨(), hu, hx⟩

/-- A statement that `crossing` lets through. -/
theorem has_of_crossingCheck (hC : C.Documented) {st : TableStatement}
    (h : t.crossingCheck C st = .ok ()) : t.grant.has st.verb = true ∧
      (st.verb = .update ∨ st.verb = .delete → t.grant.key ≠ []) :=
  admits_iff.1 (hC.refuses _ _ _ h)

/-- A write without clauses passes if the verb is granted, and has the key that it needs. -/
theorem writeGate_plain (hC : C.Documented) {v : CrossingVerb} (h : t.grant.has v = true)
    (hkey : v = .update ∨ v = .delete → t.grant.key ≠ [])
    (hverb : (TableStatement.plain v).verb = v)
    (hreads : (t.target v {}).readsItsRows = false) :
    t.writeGate C (TableStatement.plain v) {} = .ok () := by
  rw [writeGate, checked_eq_ok, hverb, outcome_eq_ok]
  refine ⟨hC.passes _ _ _ (admits_iff.2 ⟨h, hkey⟩), write_eq_ok.2 fun hr => ?_⟩
  rw [hreads] at hr
  cases hr

theorem ddlGate_alter_eq_ok {info : AlterInfo} (h : t.ddlGate (.alter info) = .ok ()) :
    t.Alterable := by
  obtain ⟨b, hb⟩ := outcome_eq_ok.1 h
  rw [checkDdl] at hb
  dsimp only at hb
  rw [Prog.run_bind] at hb
  obtain ⟨u, hu, -⟩ := bind_eq_ok hb
  exact alter_eq_ok.1 hu

/-- An `ALTER` that touches no column passes over a visible table. -/
theorem ddlGate_addColumn (h : t.Alterable) :
    t.ddlGate (.alter AlterTable.addColumn.info) = .ok () := by
  refine outcome_eq_ok.2 ⟨true, ?_⟩
  rw [checkDdl]
  dsimp only
  rw [Prog.run_bind, alter_eq_ok.2 h]
  rfl

theorem ddlGate_replace : t.ddlGate (.create .replace) = .ok () := by
  refine outcome_eq_ok.2 ⟨true, ?_⟩
  simp [checkDdl, createWouldCreate, Prog.run, t.granted]

/-- A statement of the verb passes the gates of a bridged table exactly if the table takes it. -/
theorem exists_gate_iff (hC : C.Documented) (v : CrossingVerb) :
    (∃ st : TableStatement, st.verb = v ∧ t.gate C st = .ok ()) ↔ t.Takes v := by
  constructor
  · rintro ⟨st, rfl, hst⟩
    cases st with
    | select => exact (has_of_crossingCheck hC (checked_eq_ok.1 hst).1).1
    | insert w => exact (has_of_crossingCheck hC (checked_eq_ok.1 hst).1).1
    | update w =>
      obtain ⟨hverb, hkey⟩ := has_of_crossingCheck hC (checked_eq_ok.1 hst).1
      exact ⟨hverb, hkey (.inl rfl)⟩
    | delete w =>
      obtain ⟨hverb, hkey⟩ := has_of_crossingCheck hC (checked_eq_ok.1 hst).1
      exact ⟨hverb, hkey (.inr rfl)⟩
    | createOrReplace => trivial
    | alter change text => exact ddlGate_alter_eq_ok (checked_eq_ok.1 hst).2
    | drop => exact (has_of_crossingCheck hC (checked_eq_ok.1 hst).1).1
  · intro h
    have hpass : ∀ v, t.grant.has v = true → (v = .update ∨ v = .delete → t.grant.key ≠ []) →
        t.crossingCheck C (TableStatement.plain v) = .ok () := fun v hv hkey =>
      hC.passes _ _ _ (admits_iff.2 ⟨hv, hkey⟩)
    cases v with
    | select =>
      exact ⟨.select, rfl, checked_eq_ok.2
        ⟨hpass .select h (by simp), outcome_eq_ok.2 (read_eq_ok.2 h)⟩⟩
    | insert => exact ⟨.insert {}, rfl, writeGate_plain hC h (by simp) rfl rfl⟩
    | update => exact ⟨.update {}, rfl, writeGate_plain hC h.1 (fun _ => h.2) rfl rfl⟩
    | delete => exact ⟨.delete {}, rfl, writeGate_plain hC h.1 (fun _ => h.2) rfl rfl⟩
    | create =>
      refine ⟨.createOrReplace, rfl, ?_⟩
      rw [gate]
      split_ifs
      · exact ddlGate_replace
      · rfl
    | alter =>
      have hverb := (h .alter List.mem_cons_self).1
      exact ⟨.alter .addColumn "", rfl, checked_eq_ok.2
        ⟨hpass .alter hverb (by simp), ddlGate_addColumn h⟩⟩
    | drop =>
      exact ⟨.drop, rfl, checked_eq_ok.2
        ⟨hpass .drop h (by simp), outcome_eq_ok.2 ⟨true, rfl⟩⟩⟩

end BridgedTable

namespace ServedTable

variable {T : Type}

/-- The verbs that a table takes. -/
def Takes : ServedTable T → CrossingVerb → Prop
  | native _, _ => True
  | provider entry, v => entry.Takes v
  | bridged table, v => table.Takes v

/-- **A statement of a verb passes the gates** of a table exactly if the table takes the verb. -/
theorem passes_iff {C : CrossingGate} (hC : C.Documented) {t : ServedTable T} {v : CrossingVerb} :
    t.Passes C v ↔ t.Takes v := by
  cases t with
  | native entry =>
    refine ⟨fun _ => trivial, fun _ => ?_⟩
    cases v with
    | select => exact ⟨.select, rfl, rfl⟩
    | insert => exact ⟨.insert {}, rfl, rfl⟩
    | update => exact ⟨.update {}, rfl, rfl⟩
    | delete => exact ⟨.delete {}, rfl, rfl⟩
    | create => exact ⟨.createOrReplace, rfl, rfl⟩
    | alter => exact ⟨.alter .addColumn "", rfl, rfl⟩
    | drop => exact ⟨.drop, rfl, rfl⟩
  | provider entry => exact Provider.ProviderEntry.exists_gate_iff v
  | bridged table => exact BridgedTable.exists_gate_iff hC v

end ServedTable

end VirtualCatalog
