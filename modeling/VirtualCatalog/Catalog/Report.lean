import VirtualCatalog.Catalog.Gates

/-!
# Reported verbs and verbs that work

`table_permissions` goes through the schemas of a catalog.  Where each of them is a wrapper of the
extension it is asked of, the wrappers report their own rows; elsewhere entries are classified by
their type, and a `READ_ONLY` attach narrows the rows to `select`.

* `BridgeSchema`, `SchemaWrapper` : a schema of a bridge, of a provider.
* `AttachedCatalog.collectCatalogPermissions` : the two paths.
* `SchemaWrapper.Has`, `CatalogSchema.Yields` : the tables of a schema.
* `SchemaWrapper.hasVerbs` : a table has rows in the report, and they all have its verbs.
* `ServedTable.Accurate`, `AccurateByType` : when the report of a verb is right.
* `reported_iff_works_iff` : it is right exactly then.
-/

namespace VirtualCatalog

open Provider

/-! ### The report -/

/-- `BridgeSchemaEntry`, in a store whose predicates have the names of the context. -/
structure BridgeSchema where
  name : String
  native : NativeSchema
  store : Store
  closed : Closed store
  /-- `CrossingAttach::Tables`. -/
  tables : List String
  /-- `CrossingAttach::Described` finds the table on the source. -/
  describes : String → Bool
  /-- `PredicateFoldsToTrue` on a table of the source. -/
  folds : String → Expr → Bool

namespace BridgeSchema

variable (b : BridgeSchema)

/-- `CrossingAttach::Described`: what `Describe` says of the grant. -/
def described (n : String) : Option CrossingTable :=
  if b.describes n then (b.store.book.tables.findGrant b.name n).map (·.described) else none

/-- The row of a described table. -/
def row (n : String) (described : CrossingTable) : TablePermissionRow :=
  ⟨b.name, n, "crossing", described.key,
    (crossingVerbs.filter described.allows).map CrossingVerb.name⟩

/-- One pass of the loop of `CollectExtensionPermissions`. -/
def visit (tableFilter : Option String) (acc : Collected) (n : String) : Collected :=
  if acc.skips tableFilter n then acc
  else
    match b.described n with
    | none => acc
    | some described => acc.push (b.row n described)

/-- `CollectPermissions`. -/
def collectPermissions (tableFilter : Option String) : List TablePermissionRow :=
  (b.tables.foldl (b.visit tableFilter)
    (collectNativeSchemaPermissions b.name tableFilter b.native.entries b.native.entries {})).out

end BridgeSchema

/-- A wrapper of this extension. -/
inductive SchemaWrapper (T : Type) where
  /-- With the schema calls that fail. -/
  | provider (d : SchemaTables T) (s : ProviderSchemaEntry T)
      (fails : String → Option ProviderError)
  | bridge (b : BridgeSchema)

namespace SchemaWrapper

variable {T : Type}

/-- The name of the schema. -/
def name : SchemaWrapper T → String
  | provider _ s _ => s.name
  | bridge b => b.name

/-- `CollectPermissions`. -/
def collectPermissions (tableFilter : Option String) :
    SchemaWrapper T → Except ProviderError (List TablePermissionRow)
  | provider d s fails => (s.collectPermissions (d.udf fails) d.native d.tables tableFilter).1
  | bridge b => .ok (b.collectPermissions tableFilter)

end SchemaWrapper

/-- A schema, as `ScanSchemas` yields it. -/
structure CatalogSchema (T : Type) where
  name : String
  /-- What its `Scan` yields. -/
  scan : CatalogType → List CatalogEntry
  /-- The wrapper that it is, unless it is DuckDB's own schema or of the other extension. -/
  wrapper : Option (SchemaWrapper T)
  named : ∀ w ∈ wrapper, w.name = name

/-- A catalog. -/
structure AttachedCatalog (T : Type) where
  readOnly : Bool
  schemas : List (CatalogSchema T)
  nodup : schemas.Pairwise fun s s' => s.name ≠ s'.name

namespace AttachedCatalog

variable {T : Type} (c : AttachedCatalog T) (schemaFilter tableFilter : Option String)

/-- The schemas that pass the filter. -/
def passing : List (CatalogSchema T) :=
  c.schemas.filter fun s => passesFilter schemaFilter s.name

/-- The rows of some wrappers. -/
def collectWrappers : List (SchemaWrapper T) → Except ProviderError (List TablePermissionRow)
  | [] => .ok []
  | w :: ws => do
    let rows ← w.collectPermissions tableFilter
    let rest ← collectWrappers ws
    return rows ++ rest

/-- `TryCollectPermissionsThroughSchemaWrappers`: none if some schema is no wrapper. -/
def tryCollectPermissionsThroughSchemaWrappers :
    Option (Except ProviderError (List TablePermissionRow)) :=
  if (c.passing schemaFilter).all (·.wrapper.isSome) then
    some (collectWrappers tableFilter ((c.passing schemaFilter).filterMap (·.wrapper)))
  else none

/-- The rows of a schema, classified by the types of its entries. -/
def collectSchema (s : CatalogSchema T) : List TablePermissionRow :=
  (collectNativeSchemaPermissions s.name tableFilter (s.scan .table) (s.scan .view) {}).out

/-- `CollectCatalogPermissionsHonoringReadOnlyAttach`. -/
def collectCatalogPermissionsHonoringReadOnlyAttach : List TablePermissionRow :=
  let rows := (c.passing schemaFilter).flatMap (collectSchema tableFilter)
  if c.readOnly then
    rows.map fun row => { row with verbs := if row.verbs.isEmpty then row.verbs else ["select"] }
  else rows

/-- `CollectCatalogPermissions`. -/
def collectCatalogPermissions : Except ProviderError (List TablePermissionRow) :=
  match c.tryCollectPermissionsThroughSchemaWrappers schemaFilter tableFilter with
  | some rows => rows
  | none => .ok (c.collectCatalogPermissionsHonoringReadOnlyAttach schemaFilter tableFilter)

end AttachedCatalog

/-! ### The tables of a catalog -/

/-- The name of a table. -/
def ServedTable.name {T : Type} : ServedTable T → String
  | native entry => entry.name
  | provider entry => entry.name
  | bridged table => table.name

/-- The tables of a schema: those that SQL created, and those of the extension whose name none of
them takes. -/
def SchemaWrapper.Has {T : Type} : SchemaWrapper T → ServedTable T → Prop
  | provider d _ _, .native entry => entry ∈ d.native.entries ∧ entry.type = .table
  | provider d _ _, .provider entry =>
    entry.name ∈ d.shown ∧ d.tables.provider = some entry.table.provider
  | bridge b, .native entry => entry ∈ b.native.entries ∧ entry.type = .table
  | bridge b, .bridged t => t.name ∈ b.tables ∧ b.native.names.contains t.name = false ∧
      b.describes t.name = true ∧ t.schema = b.name ∧ t.store = b.store ∧ t.folds = b.folds t.name
  | _, _ => False

/-- A scan for tables of the schema yields this one, and no view has its name. -/
def CatalogSchema.Yields {T : Type} (s : CatalogSchema T) (t : ServedTable T) : Prop :=
  (∃ e ∈ s.scan .table, fold e.name = fold t.name) ∧
    ∀ type, ∀ e ∈ s.scan type, fold e.name = fold t.name → e.type = .table

/-- The rows report the verb for the table. -/
def Reports (rows : List TablePermissionRow) (schema name : String) (v : CrossingVerb) : Prop :=
  ∃ row ∈ rows, row.schema = schema ∧ fold row.name = fold name ∧ v.name ∈ row.verbs

namespace ServedTable

variable {T : Type}

/-- The verbs that a wrapper reports of a table. -/
def verbs : ServedTable T → List String
  | native _ => nativeVerbs
  | provider entry => ProviderSchemaEntry.providerVerbs entry.table.provider
  | bridged table => (crossingVerbs.filter table.grant.described.allows).map CrossingVerb.name

/-- What they are. -/
def Listed : ServedTable T → CrossingVerb → Prop
  | native _, v => v ≠ .create ∧ v ≠ .drop
  | provider entry, v => v = .select ∨ ∃ op, opOf v = some op ∧ entry.table.provider.udf op ≠ ""
  | bridged table, v => table.grant.has v = true

/-- When the report of a verb is right on a catalog that is not attached `READ_ONLY`. -/
def Sound : ServedTable T → CrossingVerb → Prop
  | native _, v => v ≠ .create ∧ v ≠ .drop
  | provider entry, v => v ≠ .create ∧ (v = .update → entry.table.provider.udf .update ≠ "" →
      entry.table.primaryKeys ≠ []) ∧ (v = .delete → entry.table.provider.udf .delete ≠ "" →
        entry.table.primaryKeys ≠ [])
  | bridged table, v => (v = .create → table.grant.has .create = true) ∧
      (v = .alter → table.grant.has .alter = true → table.Alterable) ∧
      (v = .update ∨ v = .delete → table.grant.has v = true → table.grant.key ≠ [])

/-- When a wrapper's report of a verb is right: on a `READ_ONLY` attach only where no other verb
than select is reported. -/
def Accurate (readOnly : Bool) (t : ServedTable T) (v : CrossingVerb) : Prop :=
  if readOnly = true then v = .select ∨ ¬ t.Listed v else t.Sound v

/-- When the report of a verb is right that goes by the type of the entry: a reported verb has to be
one that the table takes, and any other one that it does not. -/
def AccurateByType (readOnly : Bool) (t : ServedTable T) (v : CrossingVerb) : Prop :=
  if readOnly = true then v = .select → t.Takes .select
  else if v = .create ∨ v = .drop then ¬ t.Takes v
  else t.Takes v

end ServedTable

/-! ### The names of the verbs -/

theorem name_injective {v v' : CrossingVerb} (h : v.name = v'.name) : v = v' := by
  revert h
  cases v <;> cases v' <;> decide

theorem mem_nativeVerbs {v : CrossingVerb} : v.name ∈ nativeVerbs ↔ v ≠ .create ∧ v ≠ .drop := by
  cases v <;> decide

theorem mem_providerVerbs {info : ProviderInfo} {v : CrossingVerb} :
    v.name ∈ ProviderSchemaEntry.providerVerbs info ↔
      v = .select ∨ ∃ op, opOf v = some op ∧ info.udf op ≠ "" := by
  rw [ProviderSchemaEntry.providerVerbs]
  cases v <;> simp [CrossingVerb.name, opOf]

theorem ServedTable.mem_verbs {T : Type} {t : ServedTable T} {v : CrossingVerb} :
    v.name ∈ t.verbs ↔ t.Listed v := by
  cases t with
  | native entry => exact mem_nativeVerbs
  | provider entry => exact mem_providerVerbs
  | bridged table =>
    rw [ServedTable.verbs, ServedTable.Listed, List.mem_map, ← described_allows]
    constructor
    · rintro ⟨v', hv', hname⟩
      rw [← name_injective hname]
      exact (List.mem_filter.1 hv').2
    · intro h
      exact ⟨v, List.mem_filter.2 ⟨mem_crossingVerbs v, h⟩, rfl⟩

/-! ### What the loops collect -/

/-- The rows of a name are there, and all have these verbs. -/
structure HasVerbs (rows : List TablePermissionRow) (schema name : String) (verbs : List String) :
    Prop where
  row : ∃ row ∈ rows, row.schema = schema ∧ fold row.name = fold name
  verbs : ∀ row ∈ rows, row.schema = schema → fold row.name = fold name → row.verbs = verbs

/-- The rows of one schema among those of a catalog. -/
theorem HasVerbs.of_schema {rows rows' : List TablePermissionRow} {schema name : String}
    {verbs : List String} (h : HasVerbs rows schema name verbs) (hsub : ∀ row ∈ rows, row ∈ rows')
    (hschema : ∀ row ∈ rows', row.schema = schema → row ∈ rows) :
    HasVerbs rows' schema name verbs := by
  obtain ⟨row, hrow, hname⟩ := h.row
  exact ⟨⟨row, hsub row hrow, hname⟩, fun row' hrow' hs => h.verbs row' (hschema row' hrow' hs) hs⟩

theorem HasVerbs.reports_iff {rows : List TablePermissionRow} {schema name : String}
    {verbs : List String} (h : HasVerbs rows schema name verbs) {v : CrossingVerb} :
    Reports rows schema name v ↔ v.name ∈ verbs := by
  constructor
  · rintro ⟨row, hrow, hschema, hname, hv⟩
    rw [← h.verbs row hrow hschema hname]
    exact hv
  · intro hv
    obtain ⟨row, hrow, hschema, hname⟩ := h.row
    refine ⟨row, hrow, hschema, hname, ?_⟩
    rw [h.verbs row hrow hschema hname]
    exact hv

/-- A loop over some entries that collects a row for each of them that has one, unless its name does
not pass the filter or has a row. -/
theorem exists_rows {α : Type} {tableFilter : Option String} {name : α → String}
    {row : α → Option TablePermissionRow} {visit : Collected → α → Collected}
    (hvisit : ∀ acc a, visit acc a =
      if acc.skips tableFilter (name a) then acc else (row a).elim acc acc.push)
    (hname : ∀ a r, row a = some r → r.name = name a) (entries : List α) (acc : Collected) :
    ∃ more, (entries.foldl visit acc).out = acc.out ++ more ∧
      (∀ r ∈ more, passesFilter tableFilter r.name = true ∧ acc.seen.contains r.name = false ∧
        ∃ a ∈ entries, row a = some r) ∧
      ∀ a ∈ entries, passesFilter tableFilter (name a) = true →
        acc.seen.contains (name a) = false → (row a).isSome = true →
          ∃ r ∈ more, fold r.name = fold (name a) := by
  induction entries generalizing acc with
  | nil =>
    exact ⟨[], (List.append_nil _).symm, fun r hr => (by cases hr), fun a ha => (by cases ha)⟩
  | cons a entries ih =>
    rw [List.foldl_cons, hvisit]
    by_cases hskip : acc.skips tableFilter (name a) = true
    · rw [if_pos hskip]
      obtain ⟨more, hout, hmore, hall⟩ := ih acc
      refine ⟨more, hout, fun r hr => ?_, fun a' ha' hp hseen hrow => ?_⟩
      · obtain ⟨hp, hseen, a', ha', hrow⟩ := hmore r hr
        exact ⟨hp, hseen, a', List.mem_cons_of_mem _ ha', hrow⟩
      · rcases List.mem_cons.1 ha' with rfl | ha'
        · rw [Collected.skips, hp, hseen] at hskip
          cases hskip
        · exact hall a' ha' hp hseen hrow
    · obtain ⟨hpA, hseenA⟩ : passesFilter tableFilter (name a) = true ∧
          acc.seen.contains (name a) = false := by
        rw [Collected.skips, Bool.or_eq_true, not_or, Bool.not_eq_true', Bool.not_eq_false] at hskip
        exact ⟨hskip.1, Bool.of_not_eq_true hskip.2⟩
      rw [if_neg hskip]
      cases hrowA : row a with
      | none =>
        obtain ⟨more, hout, hmore, hall⟩ := ih acc
        refine ⟨more, hout, fun r hr => ?_, fun a' ha' hp hseen hrow => ?_⟩
        · obtain ⟨hp, hseen, a', ha', hrow⟩ := hmore r hr
          exact ⟨hp, hseen, a', List.mem_cons_of_mem _ ha', hrow⟩
        · rcases List.mem_cons.1 ha' with rfl | ha'
          · rw [hrowA] at hrow
            cases hrow
          · exact hall a' ha' hp hseen hrow
      | some r =>
        have hr := hname a r hrowA
        obtain ⟨more, hout, hmore, hall⟩ := ih (acc.push r)
        refine ⟨r :: more, ?_, ?_, ?_⟩
        · rw [Option.elim_some, hout, Collected.push, List.append_assoc]
          rfl
        · refine List.forall_mem_cons.2
            ⟨⟨hr ▸ hpA, hr ▸ hseenA, a, List.mem_cons_self, hrowA⟩, ?_⟩
          intro r' hr'
          obtain ⟨hp, hseen, a', ha', hrow⟩ := hmore r' hr'
          rw [Collected.contains_push, Bool.or_eq_false_iff] at hseen
          exact ⟨hp, hseen.2, a', List.mem_cons_of_mem _ ha', hrow⟩
        · intro a' ha' hp hseen hrow
          -- a later entry of the same name finds this row
          by_cases hsame : fold (name a') = fold r.name
          · exact ⟨r, List.mem_cons_self, hsame.symm⟩
          · rcases List.mem_cons.1 ha' with rfl | ha'
            · exact absurd (congrArg fold hr.symm) hsame
            · have hfresh : (acc.push r).seen.contains (name a') = false := by
                rw [Collected.contains_push, hseen, Bool.or_false, ciEq, decide_eq_false hsame]
              obtain ⟨r', hr', hfold⟩ := hall a' ha' hp hfresh hrow
              exact ⟨r', List.mem_cons_of_mem _ hr', hfold⟩

/-! ### One schema -/

section

variable {schemaName name : String} {tableFilter : Option String} {native : NativeSchema}
  {more : List TablePermissionRow} {verbs : List String}

/-- The rows of the entries that SQL created in a schema. -/
def NativeSchema.rows (native : NativeSchema) (schemaName : String) (tableFilter : Option String) :
    List TablePermissionRow :=
  (native.entries.filter fun e => passesFilter tableFilter e.name).map (nativeRow schemaName)

theorem nativeRow_schema (entry : CatalogEntry) :
    (nativeRow schemaName entry).schema = schemaName := by
  rw [nativeRow]
  split <;> rfl

theorem nativeRow_verbs {entry : CatalogEntry} (h : entry.type = .table) :
    (nativeRow schemaName entry).verbs = nativeVerbs := by
  rw [nativeRow, h]

theorem NativeSchema.mem_rows {row : TablePermissionRow}
    (h : row ∈ native.rows schemaName tableFilter) :
    ∃ e ∈ native.entries, passesFilter tableFilter e.name = true ∧
      nativeRow schemaName e = row := by
  obtain ⟨e, he, rfl⟩ := List.mem_map.1 h
  obtain ⟨hmem, hp⟩ := List.mem_filter.1 he
  exact ⟨e, hmem, hp, rfl⟩

theorem NativeSchema.contains_of_mem {e : CatalogEntry} (h : e ∈ native.entries)
    (hname : fold name = fold e.name) : native.names.contains name = true := by
  rw [NativeSchema.contains_names, List.any_eq_true]
  exact ⟨e, h, ciEq_iff.2 hname⟩

/-- Names that differ in a list tell its elements apart. -/
theorem eq_of_pairwise_ne {α β : Type} {f : α → β} {l : List α} {a a' : α}
    (hl : l.Pairwise fun x y => f x ≠ f y) (ha : a ∈ l) (ha' : a' ∈ l) (h : f a = f a') : a = a' :=
  List.inj_on_of_nodup_map (List.pairwise_map.2 hl) ha ha' h

/-- A table that SQL created is reported as such, by whatever else has a row. -/
theorem hasVerbs_native {entry : CatalogEntry} (hentry : entry ∈ native.entries)
    (htype : entry.type = .table) (hpasses : passesFilter tableFilter entry.name = true)
    (hmore : ∀ row ∈ more, native.names.contains row.name = false) :
    HasVerbs (native.rows schemaName tableFilter ++ more) schemaName entry.name nativeVerbs := by
  refine ⟨⟨nativeRow schemaName entry, ?_, nativeRow_schema entry, by rw [nativeRow_name]⟩, ?_⟩
  · exact List.mem_append_left _ (List.mem_map.2 ⟨entry, List.mem_filter.2 ⟨hentry, hpasses⟩, rfl⟩)
  · intro row hrow _ hname
    rcases List.mem_append.1 hrow with hrow | hrow
    · obtain ⟨e, he, -, rfl⟩ := NativeSchema.mem_rows hrow
      rw [nativeRow_name] at hname
      rw [eq_of_pairwise_ne native.nodup he hentry hname, nativeRow_verbs htype]
    · have hnot := hmore row hrow
      rw [NativeSchema.contains_of_mem hentry hname] at hnot
      cases hnot

/-- A table of the extension is reported by its own rows. -/
theorem hasVerbs_more (hname : native.names.contains name = false)
    (hrow : ∃ row ∈ more, row.schema = schemaName ∧ fold row.name = fold name)
    (hverbs : ∀ row ∈ more, fold row.name = fold name → row.verbs = verbs) :
    HasVerbs (native.rows schemaName tableFilter ++ more) schemaName name verbs := by
  obtain ⟨row, hmem, hschema, hfold⟩ := hrow
  refine ⟨⟨row, List.mem_append_right _ hmem, hschema, hfold⟩, ?_⟩
  intro row' hrow' _ hfold'
  rcases List.mem_append.1 hrow' with hrow' | hrow'
  · obtain ⟨e, he, -, rfl⟩ := NativeSchema.mem_rows hrow'
    rw [nativeRow_name] at hfold'
    rw [NativeSchema.contains_of_mem he hfold'.symm] at hname
    cases hname
  · exact hverbs row' hrow' hfold'

end

/-- What a bridge collects: after the rows of the entries that SQL created, a row for each name of a
table that is described. -/
theorem BridgeSchema.collectPermissions_spec (b : BridgeSchema) (tableFilter : Option String) :
    ∃ more, b.collectPermissions tableFilter = b.native.rows b.name tableFilter ++ more ∧
      (∀ row ∈ more, b.native.names.contains row.name = false ∧
        ∃ described, b.described row.name = some described ∧ row = b.row row.name described) ∧
      ∀ n ∈ b.tables, passesFilter tableFilter n = true → b.native.names.contains n = false →
        (b.described n).isSome = true → ∃ row ∈ more, fold row.name = fold n := by
  obtain ⟨hnative, hseen⟩ := collectNative_rows b.name tableFilter b.native.nodup
  have hvisit : ∀ acc n, b.visit tableFilter acc n = if acc.skips tableFilter (id n) then acc
      else ((b.described n).map (b.row n)).elim acc acc.push := by
    intro acc n
    rw [BridgeSchema.visit]
    cases b.described n <;> rfl
  obtain ⟨more, hout, hmore, hall⟩ := exists_rows hvisit (by
    intro n row hrow
    obtain ⟨described, -, rfl⟩ := Option.map_eq_some_iff.1 hrow
    rfl) b.tables
    (collectNativeSchemaPermissions b.name tableFilter b.native.entries b.native.entries {})
  refine ⟨more, ?_, fun row hrow => ?_, fun n hn hp hfresh hdescribed => ?_⟩
  · rw [BridgeSchema.collectPermissions, hout, hnative]
    rfl
  · obtain ⟨hp, hunseen, n, -, hn⟩ := hmore row hrow
    obtain ⟨described, hdescribed, rfl⟩ := Option.map_eq_some_iff.1 hn
    refine ⟨?_, described, hdescribed, rfl⟩
    -- an entry of this name would have passed the filter, too
    rw [hseen, List.any_eq_false] at hunseen
    rw [NativeSchema.contains_names, List.any_eq_false]
    intro e he heq
    refine hunseen e he ?_
    rw [← passesFilter_congr (ciEq_iff.1 heq), hp, heq]
    rfl
  · refine hall n hn hp ?_ (by rw [Option.isSome_map]; exact hdescribed)
    rw [hseen, List.any_eq_false]
    intro e he heq
    rw [NativeSchema.contains_names, List.any_eq_false] at hfresh
    rw [Bool.and_eq_true] at heq
    exact hfresh e he heq.2

namespace SchemaWrapper

variable {T : Type} {w : SchemaWrapper T} {tableFilter : Option String}
  {rows : List TablePermissionRow} {t : ServedTable T}

/-- The rows of a wrapper are of its schema. -/
theorem schema_of_mem (hrows : w.collectPermissions tableFilter = .ok rows)
    {row : TablePermissionRow} (hrow : row ∈ rows) : row.schema = w.name := by
  cases w with
  | provider d s fails =>
    obtain ⟨listed, rfl, -, hlisted⟩ := (d.collectPermissions_spec s tableFilter fails).2 rows hrows
    rcases List.mem_append.1 hrow with hrow | hrow
    · obtain ⟨e, -, rfl⟩ := List.mem_map.1 hrow
      exact nativeRow_schema e
    · exact (hlisted row hrow).1
  | bridge b =>
    obtain ⟨more, hout, hmore, -⟩ := b.collectPermissions_spec tableFilter
    cases hrows
    rw [hout] at hrow
    rcases List.mem_append.1 hrow with hrow | hrow
    · obtain ⟨e, -, rfl⟩ := List.mem_map.1 hrow
      exact nativeRow_schema e
    · obtain ⟨-, described, -, hrow⟩ := hmore row hrow
      rw [hrow]
      rfl

/-- **The rows of a table** in the report of its schema. -/
theorem hasVerbs (hrows : w.collectPermissions tableFilter = .ok rows) (ht : w.Has t)
    (hpasses : passesFilter tableFilter t.name = true) :
    HasVerbs rows w.name t.name t.verbs := by
  cases w with
  | provider d s fails =>
    obtain ⟨listed, rfl, hnames, hlisted⟩ :=
      (d.collectPermissions_spec s tableFilter fails).2 rows hrows
    cases t with
    | native entry =>
      -- a row of the report is a provider's table, so none has the name of a native one
      refine hasVerbs_native ht.1 ht.2 hpasses fun row hrow => ?_
      have hname := List.mem_map_of_mem (f := TablePermissionRow.name) hrow
      rw [hnames] at hname
      exact (SchemaTables.mem_shown.1 (List.mem_filter.1 hname).1).2.1
    | provider entry =>
      obtain ⟨hshown, hinfo⟩ := ht
      refine hasVerbs_more (SchemaTables.mem_shown.1 hshown).2.1 ?_ fun row hrow _ => ?_
      · have hmem := List.mem_filter.2 ⟨hshown, hpasses⟩
        rw [← hnames] at hmem
        obtain ⟨row, hrow, hname⟩ := List.mem_map.1 hmem
        exact ⟨row, hrow, (hlisted row hrow).1, congrArg fold hname⟩
      · obtain ⟨-, info, hinfo', hverbs⟩ := hlisted row hrow
        rw [hinfo] at hinfo'
        cases hinfo'
        exact hverbs
    | bridged table => exact ht.elim
  | bridge b =>
    obtain ⟨more, hout, hmore, hall⟩ := b.collectPermissions_spec tableFilter
    cases hrows
    rw [hout]
    cases t with
    | native entry => exact hasVerbs_native ht.1 ht.2 hpasses fun row hrow => (hmore row hrow).1
    | provider entry => exact ht.elim
    | bridged table =>
      obtain ⟨hmem, hname, hdescribes, hschema, hstore, -⟩ := ht
      -- the grants of the bridge decide what a row says, by the folded name
      have hdescribed : ∀ n, fold n = fold table.name → ∀ described,
          b.described n = some described → described = table.grant.described := by
        intro n hn described h
        rw [BridgeSchema.described] at h
        split_ifs at h
        have hgranted := table.granted
        rw [hstore, hschema, GrantTables.findGrant_eq, tableKey, ← hn,
          ← tableKey, ← GrantTables.findGrant_eq] at hgranted
        rw [hgranted] at h
        cases h
        rfl
      have hsome : b.described table.name = some table.grant.described := by
        rw [BridgeSchema.described, if_pos hdescribes, ← hschema, ← hstore, table.granted]
        rfl
      refine hasVerbs_more hname ?_ fun row hrow hfold => ?_
      · obtain ⟨row, hrow, hfold⟩ := hall table.name hmem hpasses hname (by rw [hsome]; rfl)
        obtain ⟨-, described, -, heq⟩ := hmore row hrow
        exact ⟨row, hrow, congrArg TablePermissionRow.schema heq, hfold⟩
      · obtain ⟨-, described, hrowDescribed, heq⟩ := hmore row hrow
        rw [heq, hdescribed row.name hfold described hrowDescribed]
        rfl

end SchemaWrapper

/-! ### When a report is right -/

namespace ServedTable

variable {T : Type} {C : CrossingGate} {t : ServedTable T} {v : CrossingVerb} {readOnly : Bool}

/-- Every listed table is reported with select, and takes it, if it is not one of a bridge that does
not grant it. -/
theorem listed_select_iff : t.Listed .select ↔ t.Takes .select := by
  cases t with
  | native entry => exact ⟨fun _ => trivial, fun _ => ⟨by decide, by decide⟩⟩
  | provider entry => exact ⟨fun _ => trivial, fun _ => .inl rfl⟩
  | bridged table => exact Iff.rfl

theorem listed_iff_takes_iff : (t.Listed v ↔ t.Takes v) ↔ t.Sound v := by
  cases t with
  | native entry => exact ⟨fun h => h.2 trivial, fun h => ⟨fun _ => trivial, fun _ => h⟩⟩
  | provider entry =>
    rw [Listed, Takes, Sound]
    cases v <;> simp [opOf, ProviderEntry.Takes]
  | bridged table =>
    rw [Listed, Takes, Sound]
    cases v with
    | alter =>
      have hverb : table.Alterable → table.grant.has .alter = true :=
        fun h => (h .alter List.mem_cons_self).1
      constructor
      · intro h
        exact ⟨fun hv => (by cases hv), fun _ hlisted => h.1 hlisted, by simp⟩
      · intro h
        exact ⟨h.2.1 rfl, hverb⟩
    | create => simp [BridgedTable.Takes]
    | _ => simp [BridgedTable.Takes]

/-- A wrapper's report of a verb is right exactly if it is accurate. -/
theorem accurate_iff (hC : C.Documented) :
    (t.Listed v ↔ t.Works C readOnly v) ↔ t.Accurate readOnly v := by
  rw [Works, Accurate, passes_iff hC]
  cases readOnly with
  | false =>
    rw [if_neg (by decide), ← listed_iff_takes_iff]
    simp
  | true =>
    rw [if_pos rfl]
    by_cases hv : v = .select
    · subst hv
      simp [listed_select_iff]
    · simp [hv]

theorem accurateByType_iff (hC : C.Documented) :
    ((v ≠ .create ∧ v ≠ .drop ∧ (readOnly = true → v = .select)) ↔ t.Works C readOnly v) ↔
      t.AccurateByType readOnly v := by
  rw [Works, AccurateByType, passes_iff hC]
  cases readOnly with
  | false =>
    by_cases hv : v = .create ∨ v = .drop
    · have hnot : ¬ (v ≠ .create ∧ v ≠ .drop) := fun h => hv.elim h.1 h.2
      simp [hv, hnot]
    · have hboth := not_or.1 hv
      simp [hboth]
  | true =>
    by_cases hv : v = .select
    · subst hv
      simp
    · simp [hv]

end ServedTable

/-! ### A catalog -/

namespace AttachedCatalog

variable {T : Type} {c : AttachedCatalog T} {schemaFilter tableFilter : Option String}
  {s : CatalogSchema T} {t : ServedTable T}

/-- Every schema that is asked for is a wrapper of the extension that is asked. -/
def Wrapped (c : AttachedCatalog T) (schemaFilter : Option String) : Prop :=
  ∀ s ∈ c.passing schemaFilter, s.wrapper.isSome = true

instance (c : AttachedCatalog T) (schemaFilter : Option String) :
    Decidable (c.Wrapped schemaFilter) :=
  inferInstanceAs (Decidable (∀ s ∈ c.passing schemaFilter, s.wrapper.isSome = true))

theorem mem_collectWrappers {ws : List (SchemaWrapper T)} {rows : List TablePermissionRow}
    (h : collectWrappers tableFilter ws = .ok rows) :
    (∀ w ∈ ws, ∃ rs, w.collectPermissions tableFilter = .ok rs ∧ ∀ row ∈ rs, row ∈ rows) ∧
      ∀ row ∈ rows, ∃ w ∈ ws, ∃ rs, w.collectPermissions tableFilter = .ok rs ∧ row ∈ rs := by
  induction ws generalizing rows with
  | nil =>
    cases h
    exact ⟨fun w hw => (by cases hw), fun row hrow => (by cases hrow)⟩
  | cons w ws ih =>
    obtain ⟨rs, hrs, h⟩ := bind_eq_ok h
    obtain ⟨rest, hrest, h⟩ := bind_eq_ok h
    cases h
    obtain ⟨hall, hmem⟩ := ih hrest
    refine ⟨List.forall_mem_cons.2 ⟨⟨rs, hrs, fun row => List.mem_append_left _⟩, ?_⟩, ?_⟩
    · intro w' hw'
      obtain ⟨rs', hrs', hsub⟩ := hall w' hw'
      exact ⟨rs', hrs', fun row hrow => List.mem_append_right _ (hsub row hrow)⟩
    · intro row hrow
      rcases List.mem_append.1 hrow with hrow | hrow
      · exact ⟨w, List.mem_cons_self, rs, hrs, hrow⟩
      · obtain ⟨w', hw', hfrom⟩ := hmem row hrow
        exact ⟨w', List.mem_cons_of_mem _ hw', hfrom⟩

theorem eq_of_name {s' : CatalogSchema T} (hs : s ∈ c.schemas) (hs' : s' ∈ c.schemas)
    (h : s.name = s'.name) : s = s' :=
  eq_of_pairwise_ne c.nodup hs hs' h

/-- Wrappers report the verbs of a table. -/
theorem hasVerbs_wrapped {rows : List TablePermissionRow} (hwrapped : c.Wrapped schemaFilter)
    (hrows : c.collectCatalogPermissions schemaFilter tableFilter = .ok rows)
    (hs : s ∈ c.schemas) (hschema : passesFilter schemaFilter s.name = true)
    {w : SchemaWrapper T} (hw : s.wrapper = some w) (ht : w.Has t)
    (htable : passesFilter tableFilter t.name = true) :
    HasVerbs rows s.name t.name t.verbs := by
  rw [collectCatalogPermissions, tryCollectPermissionsThroughSchemaWrappers,
    if_pos (List.all_eq_true.2 hwrapped)] at hrows
  obtain ⟨hall, hmem⟩ := mem_collectWrappers hrows
  have hpassing : s ∈ c.passing schemaFilter := List.mem_filter.2 ⟨hs, hschema⟩
  obtain ⟨rs, hrs, hsub⟩ := hall w (List.mem_filterMap.2 ⟨s, hpassing, hw⟩)
  have hname := s.named w hw
  rw [← hname]
  refine (SchemaWrapper.hasVerbs hrs ht htable).of_schema hsub fun row hrow heq => ?_
  -- the row is of this schema, so the wrapper it comes from is the one of this schema
  obtain ⟨w', hw', rs', hrs', hrow'⟩ := hmem row hrow
  obtain ⟨s', hs', hw''⟩ := List.mem_filterMap.1 hw'
  have hnames : s'.name = s.name := by
    rw [← s'.named w' hw'', ← SchemaWrapper.schema_of_mem hrs' hrow', heq, hname]
  have hsame := eq_of_name (List.mem_filter.1 hs').1 hs hnames
  rw [hsame, hw] at hw''
  cases hw''
  rw [hrs] at hrs'
  cases hrs'
  exact hrow'

/-- The rows of a schema that go by type: each is of an entry, and each entry that passes the filter
has one of its name. -/
theorem collectSchema_spec (tableFilter : Option String) (s : CatalogSchema T) :
    (∀ row ∈ collectSchema tableFilter s,
      ∃ e ∈ s.scan .table ++ s.scan .view, nativeRow s.name e = row) ∧
    ∀ e ∈ s.scan .table ++ s.scan .view, passesFilter tableFilter e.name = true →
      ∃ row ∈ collectSchema tableFilter s, fold row.name = fold e.name := by
  have hvisit : ∀ acc (e : CatalogEntry), Collected.visit s.name tableFilter acc e =
      if acc.skips tableFilter e.name then acc
      else (some (nativeRow s.name e)).elim acc acc.push := fun _ _ => rfl
  obtain ⟨more, hout, hmore, hall⟩ := exists_rows hvisit (fun e row h => by
    cases h
    exact nativeRow_name e) (s.scan .table ++ s.scan .view) {}
  have hcollect : collectSchema tableFilter s = more := by
    rw [collectSchema, collectNativeSchemaPermissions, ← List.foldl_append]
    exact hout
  rw [hcollect]
  refine ⟨fun row hrow => ?_, fun e he hp => hall e he hp rfl rfl⟩
  obtain ⟨-, -, e, he, heq⟩ := hmore row hrow
  exact ⟨e, he, Option.some.inj heq⟩

theorem schema_of_mem {row : TablePermissionRow} (h : row ∈ collectSchema tableFilter s) :
    row.schema = s.name := by
  obtain ⟨e, -, rfl⟩ := (collectSchema_spec tableFilter s).1 row h
  exact nativeRow_schema e

/-- Entries are reported by their types. -/
theorem hasVerbs_collectSchema (hyields : s.Yields t)
    (htable : passesFilter tableFilter t.name = true) :
    HasVerbs (collectSchema tableFilter s) s.name t.name nativeVerbs := by
  obtain ⟨hrows, hall⟩ := collectSchema_spec tableFilter s
  obtain ⟨⟨e, he, hname⟩, htypes⟩ := hyields
  refine ⟨?_, fun row hrow _ hfold => ?_⟩
  · obtain ⟨row, hrow, hfold⟩ := hall e (List.mem_append_left _ he)
      (by rw [passesFilter_congr hname, htable])
    exact ⟨row, hrow, schema_of_mem hrow, hfold.trans hname⟩
  · obtain ⟨e', he', rfl⟩ := hrows row hrow
    rw [nativeRow_name] at hfold
    exact nativeRow_verbs
      ((List.mem_append.1 he').elim (htypes .table e' · hfold) (htypes .view e' · hfold))

/-- What is reported of an entry that goes by its type. -/
theorem hasVerbs_byType {rows : List TablePermissionRow} (hwrapped : ¬ c.Wrapped schemaFilter)
    (hrows : c.collectCatalogPermissions schemaFilter tableFilter = .ok rows)
    (hs : s ∈ c.schemas) (hschema : passesFilter schemaFilter s.name = true)
    (hyields : s.Yields t) (htable : passesFilter tableFilter t.name = true) :
    HasVerbs rows s.name t.name (if c.readOnly = true then ["select"] else nativeVerbs) := by
  rw [collectCatalogPermissions, tryCollectPermissionsThroughSchemaWrappers,
    if_neg (fun h => hwrapped (List.all_eq_true.1 h))] at hrows
  cases hrows
  have hverbs := hasVerbs_collectSchema hyields htable
  have hpassing : s ∈ c.passing schemaFilter := List.mem_filter.2 ⟨hs, hschema⟩
  have hall : HasVerbs ((c.passing schemaFilter).flatMap (collectSchema tableFilter)) s.name t.name
      nativeVerbs := by
    refine hverbs.of_schema (fun row hrow => List.mem_flatMap.2 ⟨s, hpassing, hrow⟩) ?_
    intro row hrow heq
    obtain ⟨s', hs', hrow'⟩ := List.mem_flatMap.1 hrow
    have hsame := eq_of_name (List.mem_filter.1 hs').1 hs ((schema_of_mem hrow').symm.trans heq)
    rw [← hsame]
    exact hrow'
  rw [collectCatalogPermissionsHonoringReadOnlyAttach]
  split_ifs
  · obtain ⟨row, hrow, hname⟩ := hall.row
    refine ⟨⟨_, List.mem_map.2 ⟨row, hrow, rfl⟩, hname⟩, fun row' hrow' hs' hname' => ?_⟩
    obtain ⟨row, hrow, rfl⟩ := List.mem_map.1 hrow'
    dsimp only
    rw [hall.verbs row hrow hs' hname']
    rfl
  · exact hall

/-- The verbs that are reported by type. -/
theorem mem_byType {readOnly : Bool} {v : CrossingVerb} :
    v.name ∈ (if readOnly = true then ["select"] else nativeVerbs) ↔
      v ≠ .create ∧ v ≠ .drop ∧ (readOnly = true → v = .select) := by
  cases readOnly <;> cases v <;> decide

/-- A wrapper's report of a verb is right exactly where it is accurate. -/
theorem reports_iff_wrapped {C : CrossingGate} (hC : C.Documented) {rows : List TablePermissionRow} (hwrapped : c.Wrapped schemaFilter)
    (hrows : c.collectCatalogPermissions schemaFilter tableFilter = .ok rows)
    (hs : s ∈ c.schemas) (hschema : passesFilter schemaFilter s.name = true)
    {w : SchemaWrapper T} (hw : s.wrapper = some w) (ht : w.Has t)
    (htable : passesFilter tableFilter t.name = true) (v : CrossingVerb) :
    (Reports rows s.name t.name v ↔ t.Works C c.readOnly v) ↔ t.Accurate c.readOnly v := by
  rw [(hasVerbs_wrapped hwrapped hrows hs hschema hw ht htable).reports_iff,
    ServedTable.mem_verbs, ServedTable.accurate_iff hC]

/-- **The reported verbs are the verbs that work** exactly where the report is accurate, on both
collection paths; and the one that goes by type reports nothing but select of a `READ_ONLY`
attach. -/
theorem reported_iff_works_iff {C : CrossingGate} (hC : C.Documented) {rows : List TablePermissionRow}
    (hrows : c.collectCatalogPermissions schemaFilter tableFilter = .ok rows) :
    (∀ s ∈ c.schemas, passesFilter schemaFilter s.name = true → ∀ t : ServedTable T,
      passesFilter tableFilter t.name = true → ∀ v,
        (c.Wrapped schemaFilter → (∃ w, s.wrapper = some w ∧ w.Has t) →
          ((Reports rows s.name t.name v ↔ t.Works C c.readOnly v) ↔ t.Accurate c.readOnly v)) ∧
        (¬ c.Wrapped schemaFilter → s.Yields t →
          ((Reports rows s.name t.name v ↔ t.Works C c.readOnly v) ↔
            t.AccurateByType c.readOnly v))) ∧
    (¬ c.Wrapped schemaFilter → c.readOnly = true → ∀ row ∈ rows, ∀ verb ∈ row.verbs,
      verb = "select") := by
  refine ⟨fun s hs hschema t htable v => ⟨?_, ?_⟩, ?_⟩
  · rintro hwrapped ⟨w, hw, ht⟩
    exact reports_iff_wrapped hC hwrapped hrows hs hschema hw ht htable v
  · intro hwrapped hyields
    rw [(hasVerbs_byType hwrapped hrows hs hschema hyields htable).reports_iff, mem_byType]
    exact ServedTable.accurateByType_iff hC
  · intro hwrapped hreadOnly row hrow verb hverb
    rw [collectCatalogPermissions, tryCollectPermissionsThroughSchemaWrappers,
      if_neg (fun h => hwrapped (List.all_eq_true.1 h))] at hrows
    cases hrows
    rw [collectCatalogPermissionsHonoringReadOnlyAttach, if_pos hreadOnly] at hrow
    obtain ⟨row', -, rfl⟩ := List.mem_map.1 hrow
    dsimp only at hverb
    split_ifs at hverb with hempty
    · rw [List.isEmpty_iff.1 hempty] at hverb
      cases hverb
    · exact List.mem_singleton.1 hverb

namespace Sample

/-- A `crossing` that checks the verb and the key. -/
def crossing : CrossingGate where
  check name described st :=
    if described.allows st.verb = false then
      .error ⟨.permission,
        "crossing: '" ++ name ++ "' does not have '" ++ st.verb.name ++ "' permission"⟩
    else if (st.verb = .update ∨ st.verb = .delete) ∧ described.key = [] then
      .error ⟨.binder, "crossing: '" ++ name ++ "' has no key"⟩
    else .ok ()

theorem crossing_documented : crossing.Documented where
  refuses name described st h := by
    dsimp only [crossing] at h
    split_ifs at h with hallows hkey
    exact ⟨by simpa using hallows, fun hverb hnil => hkey ⟨hverb, hnil⟩⟩
  passes name described v h := by
    have hverb : (TableStatement.plain v).verb = v := by cases v <;> rfl
    dsimp only [crossing]
    rw [hverb, h.1, if_neg (by decide), if_neg fun hkey => h.2 hkey.1 hkey.2]

/-- A provider that inserts, and lists one table with a key. -/
def inserting : ProviderInfo := ⟨fun op => if op = .insert then "insert_udf" else ""⟩

/-- Its schema. -/
def insertingSchema : SchemaWrapper Unit :=
  .provider ⟨Provider.Sample.gone.native, ⟨some inserting, 0, ["orders"]⟩,
      fun _ => some ⟨[("id", ())], ["id"]⟩⟩
    Provider.Sample.fresh fun _ => none

/-- It, attached with this mode. -/
def attached (readOnly : Bool) : AttachedCatalog Unit where
  readOnly := readOnly
  schemas := [⟨"main", fun _ => [], some insertingSchema, fun w hw => by cases hw; rfl⟩]
  nodup := List.pairwise_singleton _ _

/-- The listed table. -/
def orders : ServedTable Unit :=
  .provider ⟨0, "orders", ⟨"main.orders", [("id", ())], ["id"], inserting⟩⟩

/-- Its row. -/
def ordersRow : TablePermissionRow := ⟨"main", "orders", "provider", ["id"], ["select", "insert"]⟩

theorem orders_row (readOnly : Bool) :
    (attached readOnly).collectCatalogPermissions none none = .ok [ordersRow] := by
  cases readOnly <;> rfl

theorem attached_wrapped (readOnly : Bool) : (attached readOnly).Wrapped none := by
  cases readOnly <;> decide

theorem has_orders : insertingSchema.Has orders :=
  ⟨SchemaTables.mem_shown.2 ⟨rfl, rfl, by decide⟩, rfl⟩

end Sample

/-- The insert that is reported of a `READ_ONLY` attach does not work there. -/
theorem reported_iff_works_iff_orders :
    (Reports [Sample.ordersRow] "main" "orders" .insert ↔
        Sample.orders.Works Sample.crossing true .insert) ↔
      Sample.orders.Accurate true .insert :=
  ((reported_iff_works_iff Sample.crossing_documented (Sample.orders_row true)).1 _ List.mem_cons_self rfl Sample.orders rfl
    .insert).1 (Sample.attached_wrapped true) ⟨_, rfl, Sample.has_orders⟩

/-- A `READ_ONLY` attach reports an insert. -/
theorem not_reported_iff_works : ¬ ∀ (c : AttachedCatalog Unit) (rows : List TablePermissionRow),
    c.Wrapped none → c.collectCatalogPermissions none none = .ok rows →
      ∀ s ∈ c.schemas, ∀ w, s.wrapper = some w → ∀ t : ServedTable Unit, w.Has t → ∀ v,
        (Reports rows s.name t.name v ↔ t.Works Sample.crossing c.readOnly v) := by
  intro h
  have hworks := h (Sample.attached true) _ (Sample.attached_wrapped true) (Sample.orders_row true)
    _ List.mem_cons_self _ rfl Sample.orders Sample.has_orders .insert
  have hinsert := (hworks.1 ⟨_, List.mem_cons_self, rfl, rfl, by decide⟩).1
  rcases hinsert with hmode | hverb
  · cases hmode
  · cases hverb

end AttachedCatalog

end VirtualCatalog
