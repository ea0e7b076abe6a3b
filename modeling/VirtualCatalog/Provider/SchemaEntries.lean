import VirtualCatalog.Catalog.Permissions
import VirtualCatalog.Machine.Basic
import VirtualCatalog.Provider.KeyedWrite

/-!
# The entries of a provider schema

A provider schema shows the tables and views that SQL created, and the tables that its provider
lists.  A provider table's entry is made when it is first asked for: the schema UDF answers with its
columns and its key, or with `NULL`, and the entry is kept until the list changes.  `LookupEntry`,
`Scan` and `CollectPermissions` each go through both kinds of tables in their own way.

* `ProviderSchemaEntry` : the wrapper of a schema with its cache of entries.
* `lookupEntry`, `scan`, `collectPermissions` : the three enumerations.
* `schemaCalls` : any number of such calls, one after the other, while the tables stay as they are.
* `Agree` : a scan yields each name once, it yields what lookups find, and the permissions list its
  names.
* `Provided` : no listed table is without an entry and a schema.
* `schemaCalls_agree_iff` : the calls agree, in every order, exactly then.
-/

namespace VirtualCatalog

namespace Provider

/-! ### The model -/

/-- `ProviderTableCatalogEntry`. -/
structure ProviderEntry (T : Type) where
  address : Nat
  name : String
  table : ProviderTable T

/-- The columns and the key that a schema message declares. -/
structure DecodedSchema (T : Type) where
  columns : List (String × T)
  primaryKeys : List String

/-- What the schema UDF answers for a qualified name during a call, decoded; `none` is `NULL`. -/
abbrev SchemaUdf (T : Type) := String → Except ProviderError (Option (DecodedSchema T))

/-- `VirtualCatalogProvider::ProviderTables`. -/
structure ListedTables where
  provider : Option ProviderInfo
  epoch : Nat
  names : List String

/-- `VirtualCatalogProviderSchemaEntry`. -/
structure ProviderSchemaEntry (T : Type) where
  name : String
  cachedEpoch : Nat := 0
  providerCache : CIMap (ProviderEntry T) := ∅
  retiredProviderEntries : List (ProviderEntry T) := []
  /-- How many entries were made. -/
  made : Nat := 0
  /-- An entry is filed under its name. -/
  filed : ∀ k e, providerCache.find? k = some e → fold e.name = fold k := by intro k e h; cases h

/-- An entry that the schema yields. -/
inductive SchemaTable (T : Type) where
  | native (entry : CatalogEntry)
  | provider (entry : ProviderEntry T)

/-- The name of an entry. -/
def SchemaTable.name {T : Type} : SchemaTable T → String
  | native entry => entry.name
  | provider entry => entry.name

namespace ProviderSchemaEntry

variable {T : Type}

/-- `RetireProviderCache`. -/
def retireProviderCache (s : ProviderSchemaEntry T) : ProviderSchemaEntry T :=
  { s with
    providerCache := ∅
    retiredProviderEntries := s.retiredProviderEntries ++ s.providerCache.toList.map Prod.snd
    filed := fun _ _ h => by cases h }

/-- `RefreshedTables`, once the tables are read. -/
def refreshedTables (s : ProviderSchemaEntry T) (tables : ListedTables) : ProviderSchemaEntry T :=
  if tables.epoch ≠ s.cachedEpoch then { s.retireProviderCache with cachedEpoch := tables.epoch }
  else s

/-- The entry that is made for a table with this schema. -/
def entryFor (s : ProviderSchemaEntry T) (info : ProviderInfo) (entryName : String)
    (decoded : DecodedSchema T) : ProviderEntry T :=
  ⟨s.made, entryName,
    ⟨qualifiedName s.name entryName, decoded.columns, decoded.primaryKeys, info⟩⟩

/-- `provider_cache[entry_name] = entry`. -/
def fill (s : ProviderSchemaEntry T) (e : ProviderEntry T) : ProviderSchemaEntry T :=
  { s with
    providerCache := s.providerCache.insert e.name e
    made := s.made + 1
    filed := by
      intro k e' h
      rw [CIMap.find?_insert] at h
      split_ifs at h with hk
      · cases h
        exact hk.symm
      · exact s.filed k e' h }

variable (udf : SchemaUdf T)

/-- `GetOrQueryProviderEntry`. -/
def getOrQueryProviderEntry (info : ProviderInfo) (s : ProviderSchemaEntry T) (entryName : String) :
    Except ProviderError (Option (ProviderEntry T)) × ProviderSchemaEntry T :=
  match s.providerCache.find? entryName with
  | some e => (.ok (some e), s)
  | none =>
    match udf (qualifiedName s.name entryName) with
    | .error x => (.error x, s)
    | .ok none => (.ok none, s)
    | .ok (some decoded) =>
      let e := s.entryFor info entryName decoded
      (.ok (some e), s.fill e)

/-- `LookupExtensionEntry`. -/
def lookupExtensionEntry (tables : ListedTables) (s : ProviderSchemaEntry T) (entryName : String) :
    Except ProviderError (Option (ProviderEntry T)) × ProviderSchemaEntry T :=
  let s := s.refreshedTables tables
  match tables.provider, tables.names.find? (ciEq · entryName) with
  | some info, some n => s.getOrQueryProviderEntry udf info n
  | _, _ => (.ok none, s)

/-- The loop of `ScanExtensionEntries`: the entries it calls back with. -/
def scanNames (info : ProviderInfo) :
    CISet → List String → ProviderSchemaEntry T →
      Except ProviderError (List (ProviderEntry T)) × ProviderSchemaEntry T
  | _, [], s => (.ok [], s)
  | seen, n :: names, s =>
    if seen.contains n then scanNames info seen names s
    else
      match s.getOrQueryProviderEntry udf info n with
      | (.error x, s) => (.error x, s)
      | (.ok none, s) => scanNames info seen names s
      | (.ok (some e), s) =>
        let (r, s) := scanNames info (seen.add n) names s
        (r.map (e :: ·), s)

/-- `ScanExtensionEntries`. -/
def scanExtensionEntries (tables : ListedTables) (seen : CISet) (s : ProviderSchemaEntry T) :
    Except ProviderError (List (ProviderEntry T)) × ProviderSchemaEntry T :=
  let s := s.refreshedTables tables
  match tables.provider with
  | none => (.ok [], s)
  | some info => s.scanNames udf info seen tables.names

/-- The verbs of every table of a provider. -/
def providerVerbs (info : ProviderInfo) : List String :=
  ["select"] ++ (if info.udf .insert ≠ "" then ["insert"] else []) ++
    (if info.udf .update ≠ "" then ["update"] else []) ++
    (if info.udf .delete ≠ "" then ["delete"] else []) ++
    (if info.udf .alter ≠ "" then ["alter"] else [])

/-- The row of a listed table, with the key of its entry if it has one. -/
def providerRow (info : ProviderInfo) (schemaName n : String) (entry : Option (ProviderEntry T)) :
    TablePermissionRow :=
  ⟨schemaName, n, "provider", (entry.map (·.table.primaryKeys)).getD [], providerVerbs info⟩

/-- The loop of `CollectExtensionPermissions`. -/
def collectNames (info : ProviderInfo) (tableFilter : Option String) :
    List String → Collected → ProviderSchemaEntry T →
      Except ProviderError Collected × ProviderSchemaEntry T
  | [], acc, s => (.ok acc, s)
  | n :: names, acc, s =>
    if acc.skips tableFilter n then collectNames info tableFilter names acc s
    else
      match s.getOrQueryProviderEntry udf info n with
      | (.error x, s) => (.error x, s)
      | (.ok entry, s) =>
        collectNames info tableFilter names (acc.push (providerRow info s.name n entry)) s

/-- `CollectExtensionPermissions`. -/
def collectExtensionPermissions (tables : ListedTables) (tableFilter : Option String)
    (acc : Collected) (s : ProviderSchemaEntry T) :
    Except ProviderError Collected × ProviderSchemaEntry T :=
  let s := s.refreshedTables tables
  match tables.provider with
  | none => (.ok acc, s)
  | some info => s.collectNames udf info tableFilter tables.names acc

/-- `LookupEntry` of a table or view: an entry that SQL created wins. -/
def lookupEntry (native : NativeSchema) (tables : ListedTables) (s : ProviderSchemaEntry T)
    (name : String) : Except ProviderError (Option (SchemaTable T)) × ProviderSchemaEntry T :=
  match native.lookupEntry name with
  | some e => (.ok (some (.native e)), s)
  | none =>
    let (r, s) := s.lookupExtensionEntry udf tables name
    (r.map (Option.map .provider), s)

/-- `Scan` for tables or for views, with or without a context. -/
def scan (native : NativeSchema) (tables : ListedTables) (s : ProviderSchemaEntry T) :
    Except ProviderError (List (SchemaTable T)) × ProviderSchemaEntry T :=
  let (r, s) := s.scanExtensionEntries udf tables native.names
  (r.map fun es => native.entries.map .native ++ es.map .provider, s)

/-- `CollectPermissions`. -/
def collectPermissions (native : NativeSchema) (tables : ListedTables) (s : ProviderSchemaEntry T)
    (tableFilter : Option String) :
    Except ProviderError (List TablePermissionRow) × ProviderSchemaEntry T :=
  let acc := collectNativeSchemaPermissions s.name tableFilter native.entries native.entries {}
  let (r, s) := s.collectExtensionPermissions udf tables tableFilter acc
  (r.map (·.out), s)

end ProviderSchemaEntry

/-- The tables of a schema while they stay as they are: what SQL created, what the provider lists,
and what the schema UDF answers for each qualified name, unless it fails. -/
structure SchemaTables (T : Type) where
  native : NativeSchema
  tables : ListedTables
  schemaOf : String → Option (DecodedSchema T)

/-- A call, with the qualified names that the schema UDF fails for during it. -/
inductive SchemaCall where
  | lookup (name : String) (fails : String → Option ProviderError)
  | scan (fails : String → Option ProviderError)
  | permissions (tableFilter : Option String) (fails : String → Option ProviderError)

/-- What a call returned. -/
inductive CallResult (T : Type) where
  | found (name : String) (entry : Option (SchemaTable T))
  | scanned (entries : List (SchemaTable T))
  | collected (tableFilter : Option String) (rows : List TablePermissionRow)

section

variable {T : Type}

/-- The schema UDF during a call. -/
def SchemaTables.udf (d : SchemaTables T) (fails : String → Option ProviderError) : SchemaUdf T :=
  fun q =>
    match fails q with
    | some x => .error x
    | none => .ok (d.schemaOf q)

/-- Perform a call. -/
def SchemaTables.perform (d : SchemaTables T) (s : ProviderSchemaEntry T) :
    SchemaCall → Except ProviderError (CallResult T) × ProviderSchemaEntry T
  | .lookup name fails =>
    let (r, s) := s.lookupEntry (d.udf fails) d.native d.tables name
    (r.map (.found name), s)
  | .scan fails =>
    let (r, s) := s.scan (d.udf fails) d.native d.tables
    (r.map .scanned, s)
  | .permissions tableFilter fails =>
    let (r, s) := s.collectPermissions (d.udf fails) d.native d.tables tableFilter
    (r.map (.collected tableFilter), s)

/-- The wrapper of a schema, and what the calls so far returned. -/
structure Called (T : Type) where
  schema : ProviderSchemaEntry T
  returned : List (CallResult T) := []

/-- A call returned or raised. -/
def Called.after (c : Called T) :
    Except ProviderError (CallResult T) × ProviderSchemaEntry T → Called T
  | (.ok r, schema) => ⟨schema, r :: c.returned⟩
  | (.error _, schema) => ⟨schema, c.returned⟩

/-- The calls, one after the other: each holds the lock of the schema. -/
def schemaCalls (d : SchemaTables T) : Machine (Called T) SchemaCall where
  next c call := some (c.after (d.perform c.schema call))

/-- The calls that returned agree. -/
structure Agree (native : NativeSchema) (returned : List (CallResult T)) : Prop where
  /-- A scan yields each name at most once up to case. -/
  once : ∀ es, .scanned es ∈ returned → (es.map fun e => fold e.name).Nodup
  /-- It yields every entry that SQL created. -/
  native : ∀ es, .scanned es ∈ returned → ∀ e ∈ native.entries, .native e ∈ es
  /-- It yields exactly what a lookup finds. -/
  found : ∀ es name entry, .scanned es ∈ returned → .found name entry ∈ returned →
    ∀ e, entry = some e ↔ e ∈ es ∧ fold e.name = fold name
  /-- The permissions list exactly the names that it yields. -/
  listed : ∀ es tableFilter rows, .scanned es ∈ returned → .collected tableFilter rows ∈ returned →
    rows.map (fun row => fold row.name) =
      (es.filter fun e => passesFilter tableFilter e.name).map fun e => fold e.name

/-- The listed tables that no entry before them takes the name of. -/
def SchemaTables.shown (d : SchemaTables T) : List String :=
  if d.tables.provider.isSome then scanExtensionEntries d.native.names d.tables.names else []

/-- A listed table has an entry, or the schema UDF has a schema for it. -/
def SchemaTables.Serves (d : SchemaTables T) (s : ProviderSchemaEntry T) (n : String) : Prop :=
  s.providerCache.contains n = true ∨ (d.schemaOf (qualifiedName s.name n)).isSome

/-- Every listed table that no entry before it takes the name of has an entry that is still good, or
a schema. -/
def SchemaTables.Provided (d : SchemaTables T) (s : ProviderSchemaEntry T) : Prop :=
  ∀ n ∈ d.shown, d.Serves (s.refreshedTables d.tables) n

/-! ### What is shown -/

/-- No two of the names that a scan takes are equal up to case. -/
theorem pairwise_scanExtensionEntries (seen : CISet) (names : List String) :
    (scanExtensionEntries seen names).Pairwise fun n n' => fold n ≠ fold n' := by
  induction names generalizing seen with
  | nil => exact .nil
  | cons n names ih =>
    rw [VirtualCatalog.Provider.scanExtensionEntries]
    split_ifs with hseen
    · exact ih seen
    · refine List.pairwise_cons.2 ⟨fun n' hn' heq => ?_, ih _⟩
      have hout := (mem_scanExtensionEntries.1 hn').1
      rw [CISet.add, CIMap.contains_insert, decide_eq_true heq.symm] at hout
      cases hout

variable {d : SchemaTables T} {s s' : ProviderSchemaEntry T} {info : ProviderInfo}
  {fails : String → Option ProviderError} {n : String}

theorem SchemaTables.mem_shown : n ∈ d.shown ↔ d.tables.provider.isSome = true ∧
    d.native.names.contains n = false ∧ d.tables.names.find? (ciEq · n) = some n := by
  rw [SchemaTables.shown]
  split_ifs with h
  · rw [mem_scanExtensionEntries]
    exact ⟨fun hn => ⟨h, hn⟩, fun hn => hn.2⟩
  · exact ⟨nofun, fun hn => absurd hn.1 h⟩

/-- A listed name that SQL has not taken is shown, in the spelling that is listed first. -/
theorem SchemaTables.mem_shown_of_find? {name : String} (hinfo : d.tables.provider = some info)
    (hnative : d.native.names.contains name = false)
    (hfind : d.tables.names.find? (ciEq · name) = some n) : n ∈ d.shown ∧ fold n = fold name := by
  have hmatch := List.find?_some hfind
  have hn : fold n = fold name := ciEq_iff.1 hmatch
  refine ⟨SchemaTables.mem_shown.2 ⟨by rw [hinfo]; rfl, ?_, ?_⟩, hn⟩
  · rw [CIMap.contains_congr _ hn]
    exact hnative
  · simpa only [ciEq, hn] using hfind

/-! ### The cache -/

namespace ProviderSchemaEntry

/-- Every entry is still there. -/
structure Extends (s s' : ProviderSchemaEntry T) : Prop where
  name : s'.name = s.name
  cachedEpoch : s'.cachedEpoch = s.cachedEpoch
  kept : ∀ k e, s.providerCache.find? k = some e → s'.providerCache.find? k = some e

@[refl] theorem Extends.refl (s : ProviderSchemaEntry T) : s.Extends s := ⟨rfl, rfl, fun _ _ h => h⟩

theorem Extends.trans {s'' : ProviderSchemaEntry T} (h : s.Extends s') (h' : s'.Extends s'') :
    s.Extends s'' :=
  ⟨h'.name.trans h.name, h'.cachedEpoch.trans h.cachedEpoch,
    fun k e hk => h'.kept k e (h.kept k e hk)⟩

theorem Extends.contains (h : s.Extends s') (hn : s.providerCache.contains n = true) :
    s'.providerCache.contains n = true := by
  obtain ⟨e, he⟩ := CIMap.contains_iff.1 hn
  exact CIMap.contains_iff.2 ⟨e, h.kept n e he⟩

theorem Extends.serves (h : s.Extends s') (hn : d.Serves s n) : d.Serves s' n := by
  rw [SchemaTables.Serves, h.name]
  exact hn.imp_left h.contains

/-- A table without an entry gets one. -/
theorem extends_fill {e : ProviderEntry T} (h : s.providerCache.find? e.name = none) :
    s.Extends (s.fill e) := by
  refine ⟨rfl, rfl, fun k e' hk => ?_⟩
  show (s.providerCache.insert e.name e).find? k = some e'
  rw [CIMap.find?_insert, if_neg]
  · exact hk
  · intro hfold
    rw [CIMap.find?_congr _ hfold, h] at hk
    cases hk

@[simp] theorem refreshedTables_name (tables : ListedTables) :
    (s.refreshedTables tables).name = s.name := by
  rw [refreshedTables]
  split_ifs <;> rfl

@[simp] theorem refreshedTables_cachedEpoch (tables : ListedTables) :
    (s.refreshedTables tables).cachedEpoch = tables.epoch := by
  rw [refreshedTables]
  split_ifs with h
  · rfl
  · exact (not_not.1 h).symm

theorem refreshedTables_eq_self {tables : ListedTables} (h : s.cachedEpoch = tables.epoch) :
    s.refreshedTables tables = s := by
  rw [refreshedTables, if_neg (not_not.2 h.symm)]

/-- **One table**: what is answered is in the cache afterwards, where everything else still is; and
a table with an entry or a schema has an entry then. -/
theorem getOrQueryProviderEntry_spec (d : SchemaTables T) (s : ProviderSchemaEntry T)
    (info : ProviderInfo) (fails : String → Option ProviderError) (n : String) :
    s.Extends (s.getOrQueryProviderEntry (d.udf fails) info n).2 ∧
    ∀ x, (s.getOrQueryProviderEntry (d.udf fails) info n).1 = .ok x →
      (s.getOrQueryProviderEntry (d.udf fails) info n).2.providerCache.find? n = x ∧
      (d.Serves s n → x.isSome = true) := by
  rw [getOrQueryProviderEntry]
  cases hcache : s.providerCache.find? n with
  | some e =>
    refine ⟨.refl s, fun x hx => ?_⟩
    cases hx
    exact ⟨hcache, fun _ => rfl⟩
  | none =>
    cases hudf : d.udf fails (qualifiedName s.name n) with
    | error x => exact ⟨.refl s, nofun⟩
    | ok decoded =>
      have hschema : d.schemaOf (qualifiedName s.name n) = decoded := by
        rw [SchemaTables.udf] at hudf
        cases hfails : fails (qualifiedName s.name n) with
        | some x => rw [hfails] at hudf; cases hudf
        | none => rw [hfails] at hudf; exact Except.ok.inj hudf
      cases decoded with
      | none =>
        refine ⟨.refl s, fun x hx => ?_⟩
        cases hx
        refine ⟨hcache, fun hserves => ?_⟩
        rw [SchemaTables.Serves, CIMap.contains, hcache, hschema] at hserves
        exact hserves.elim id id
      | some decoded =>
        refine ⟨extends_fill (e := s.entryFor info n decoded) hcache, fun x hx => ?_⟩
        cases hx
        refine ⟨?_, fun _ => rfl⟩
        show (s.providerCache.insert n _).find? n = _
        rw [CIMap.find?_insert, if_pos rfl]

/-- Without a failure a table is answered for. -/
theorem exists_getOrQueryProviderEntry (s : ProviderSchemaEntry T) (info : ProviderInfo)
    (n : String) :
    ∃ x, (s.getOrQueryProviderEntry (d.udf fun _ => none) info n).1 = .ok x := by
  rw [getOrQueryProviderEntry]
  cases s.providerCache.find? n with
  | some e => exact ⟨_, rfl⟩
  | none =>
    have hudf : d.udf (fun _ => none) (qualifiedName s.name n) =
      .ok (d.schemaOf (qualifiedName s.name n)) := rfl
    rw [hudf]
    cases d.schemaOf (qualifiedName s.name n) with
    | none => exact ⟨_, rfl⟩
    | some decoded => exact ⟨_, rfl⟩

/-! ### The loops -/

/-- **A scan** yields the entries of the tables that no entry before them takes the name of, if each
of these has an entry or a schema. -/
theorem scanNames_spec (d : SchemaTables T) (s : ProviderSchemaEntry T) (info : ProviderInfo)
    (fails : String → Option ProviderError) (seen : CISet) (names : List String) :
    s.Extends (s.scanNames (d.udf fails) info seen names).2 ∧
    ∀ es, (s.scanNames (d.udf fails) info seen names).1 = .ok es →
      (∀ n ∈ VirtualCatalog.Provider.scanExtensionEntries seen names, d.Serves s n) →
        es.map some = (VirtualCatalog.Provider.scanExtensionEntries seen names).map
          (s.scanNames (d.udf fails) info seen names).2.providerCache.find? := by
  induction names generalizing seen s with
  | nil =>
    refine ⟨.refl s, fun es hes _ => ?_⟩
    cases hes
    rfl
  | cons n names ih =>
    rw [scanNames, VirtualCatalog.Provider.scanExtensionEntries]
    split_ifs with hseen
    · exact ih s seen
    · obtain ⟨hext, hok⟩ :=
        getOrQueryProviderEntry_spec d s info fails n
      rcases hget : s.getOrQueryProviderEntry (d.udf fails) info n with ⟨r, s'⟩
      rw [hget] at hext hok
      cases r with
      | error x => exact ⟨hext, fun es hes => by cases hes⟩
      | ok x =>
        obtain ⟨hfound, hsome⟩ := hok x rfl
        cases x with
        | none =>
          -- the name is not taken: a later one that is equal up to case may yield an entry
          obtain ⟨hrest, -⟩ := ih s' seen
          refine ⟨hext.trans hrest, fun es _ hserves => ?_⟩
          cases hsome (hserves n List.mem_cons_self)
        | some e =>
          obtain ⟨hrest, hes⟩ := ih s' (seen.add n)
          refine ⟨hext.trans hrest, fun es hmap hserves => ?_⟩
          dsimp only at hmap ⊢
          rcases hscan : s'.scanNames (d.udf fails) info (seen.add n) names with ⟨r, s''⟩
          rw [hscan] at hmap hes hrest
          cases r with
          | error x => cases hmap
          | ok es' =>
            cases hmap
            rw [List.map_cons, List.map_cons, hrest.kept n e hfound]
            rw [hes es' rfl fun n' hn' => hext.serves (hserves n' (List.mem_cons_of_mem _ hn'))]

/-- **The permissions** have a row for each listed name that passes the filter and that no entry
before takes, whether it has a schema or not. -/
theorem collectNames_spec (d : SchemaTables T) (s : ProviderSchemaEntry T) (info : ProviderInfo)
    (fails : String → Option ProviderError) {tableFilter : Option String} (names : List String)
    (seen : CISet) {acc : Collected}
    (h : ∀ n, passesFilter tableFilter n = true → acc.seen.contains n = seen.contains n) :
    s.Extends (s.collectNames (d.udf fails) info tableFilter names acc).2 ∧
    ∀ acc', (s.collectNames (d.udf fails) info tableFilter names acc).1 = .ok acc' →
      ∃ rows, acc'.out = acc.out ++ rows ∧
        rows.map (·.name) = (VirtualCatalog.Provider.scanExtensionEntries seen names).filter
          (passesFilter tableFilter) ∧
        ∀ row ∈ rows, row.schema = s.name ∧ row.verbs = providerVerbs info := by
  induction names generalizing seen s acc with
  | nil =>
    refine ⟨.refl s, fun acc' hacc => ?_⟩
    cases hacc
    exact ⟨[], (List.append_nil _).symm, rfl, fun row hrow => (by cases hrow)⟩
  | cons n names ih =>
    rw [collectNames, VirtualCatalog.Provider.scanExtensionEntries, Collected.skips]
    cases hp : passesFilter tableFilter n with
    | false =>
      -- no name that passes the filter is equal to this one
      have hadd : ∀ n', passesFilter tableFilter n' = true →
          acc.seen.contains n' = (seen.add n).contains n' := by
        intro n' hn'
        have hne : ¬ fold n' = fold n := by
          intro heq
          rw [passesFilter_congr heq, hp] at hn'
          cases hn'
        rw [CISet.add, CIMap.contains_insert, decide_eq_false hne, Bool.false_or, h n' hn']
      rw [if_pos (by rfl)]
      split_ifs with hseen
      · exact ih s seen h
      · rw [List.filter_cons, if_neg (by rw [hp]; decide)]
        exact ih s (seen.add n) hadd
    | true =>
      rw [h n hp, Bool.not_true, Bool.false_or]
      split_ifs with hseen
      · exact ih s seen h
      · obtain ⟨hext, -⟩ :=
          getOrQueryProviderEntry_spec d s info fails n
        rcases hget : s.getOrQueryProviderEntry (d.udf fails) info n with ⟨r, s'⟩
        rw [hget] at hext
        cases r with
        | error x => exact ⟨hext, fun acc' hacc => by cases hacc⟩
        | ok x =>
          have hpush : ∀ n', passesFilter tableFilter n' = true →
              (acc.push (providerRow info s'.name n x)).seen.contains n' =
                (seen.add n).contains n' := by
            intro n' hn'
            rw [Collected.contains_push, CISet.add, CIMap.contains_insert, h n' hn']
            rfl
          obtain ⟨hrest, hout⟩ := ih s' (seen.add n) hpush
          refine ⟨hext.trans hrest, fun acc' hacc => ?_⟩
          obtain ⟨rows, hrows, hnames, hverbs⟩ := hout acc' hacc
          refine ⟨providerRow info s'.name n x :: rows, ?_, ?_, List.forall_mem_cons.2 ⟨?_, ?_⟩⟩
          · rw [hrows, Collected.push, List.append_assoc, List.singleton_append]
          · rw [List.filter_cons, if_pos hp, List.map_cons, hnames]
            rfl
          · exact ⟨hext.name, rfl⟩
          · rw [← hext.name]
            exact hverbs

theorem exists_scanNames (info : ProviderInfo) (seen : CISet) (names : List String)
    (s : ProviderSchemaEntry T) :
    ∃ es, (s.scanNames (d.udf fun _ => none) info seen names).1 = .ok es := by
  induction names generalizing seen s with
  | nil => exact ⟨[], rfl⟩
  | cons n names ih =>
    rw [scanNames]
    split_ifs with hseen
    · exact ih seen s
    · obtain ⟨x, hx⟩ := exists_getOrQueryProviderEntry (d := d) s info n
      rcases hget : s.getOrQueryProviderEntry (d.udf fun _ => none) info n with ⟨r, s'⟩
      rw [hget] at hx
      cases hx
      cases x with
      | none => exact ih seen s'
      | some e =>
        obtain ⟨es, hes⟩ := ih (seen.add n) s'
        exact ⟨e :: es, by dsimp only; rw [hes]; rfl⟩

theorem exists_collectNames (info : ProviderInfo) (tableFilter : Option String)
    (names : List String) (acc : Collected) (s : ProviderSchemaEntry T) :
    ∃ acc', (s.collectNames (d.udf fun _ => none) info tableFilter names acc).1 = .ok acc' := by
  induction names generalizing acc s with
  | nil => exact ⟨acc, rfl⟩
  | cons n names ih =>
    rw [collectNames]
    split_ifs with hskip
    · exact ih acc s
    · obtain ⟨x, hx⟩ := exists_getOrQueryProviderEntry (d := d) s info n
      rcases hget : s.getOrQueryProviderEntry (d.udf fun _ => none) info n with ⟨r, s'⟩
      rw [hget] at hx
      cases hx
      exact ih _ s'

end ProviderSchemaEntry

/-! ### What the calls return -/

/-- The entries of the schema, as far as they are made. -/
def SchemaTables.entries (d : SchemaTables T) (s : ProviderSchemaEntry T) : List (SchemaTable T) :=
  d.native.entries.map .native ++ (d.shown.filterMap s.providerCache.find?).map .provider

/-- What a call returned is still so. -/
def CallResult.Holds (d : SchemaTables T) (s : ProviderSchemaEntry T) : CallResult T → Prop
  | found name entry => (∀ e, entry = some e ↔ e ∈ d.entries s ∧ fold e.name = fold name) ∧
      ∀ n ∈ d.shown, fold n = fold name → s.providerCache.contains n = true
  | scanned es => es = d.entries s ∧ ∀ n ∈ d.shown, s.providerCache.contains n = true
  | collected tableFilter rows => rows.map (·.name) =
      (d.native.entries.map (·.name) ++ d.shown).filter (passesFilter tableFilter)

theorem SchemaTables.mem_entries {e : SchemaTable T} : e ∈ d.entries s ↔
    (∃ e' ∈ d.native.entries, e = .native e') ∨
      ∃ n ∈ d.shown, ∃ e', s.providerCache.find? n = some e' ∧ e = .provider e' := by
  rw [SchemaTables.entries, List.mem_append, List.mem_map, List.mem_map]
  refine or_congr ⟨?_, ?_⟩ ⟨?_, ?_⟩
  · rintro ⟨e', he', rfl⟩
    exact ⟨e', he', rfl⟩
  · rintro ⟨e', he', rfl⟩
    exact ⟨e', he', rfl⟩
  · rintro ⟨e', he', rfl⟩
    obtain ⟨n, hn, hfind⟩ := List.mem_filterMap.1 he'
    exact ⟨n, hn, e', hfind, rfl⟩
  · rintro ⟨n, hn, e', hfind, rfl⟩
    exact ⟨e', List.mem_filterMap.2 ⟨n, hn, hfind⟩, rfl⟩

/-- What was returned stays so while the cache only grows. -/
theorem CallResult.Holds.extend {r : CallResult T} (h : r.Holds d s) (hext : s.Extends s') :
    r.Holds d s' := by
  -- a table with an entry keeps it
  have same : ∀ n, s.providerCache.contains n = true →
      s'.providerCache.find? n = s.providerCache.find? n := by
    intro n hn
    obtain ⟨e, he⟩ := CIMap.contains_iff.1 hn
    rw [he, hext.kept n e he]
  cases r with
  | found name entry =>
    obtain ⟨hentry, hcached⟩ := h
    refine ⟨fun e => (hentry e).trans (and_congr_left fun hname => ?_),
      fun n hn hfold => hext.contains (hcached n hn hfold)⟩
    rw [SchemaTables.mem_entries, SchemaTables.mem_entries]
    refine or_congr_right ⟨?_, ?_⟩
    · rintro ⟨n, hn, e', he', rfl⟩
      exact ⟨n, hn, e', hext.kept n e' he', rfl⟩
    · rintro ⟨n, hn, e', he', rfl⟩
      have hfold : fold n = fold name := (s'.filed n e' he').symm.trans hname
      exact ⟨n, hn, e', (same n (hcached n hn hfold)).symm.trans he', rfl⟩
  | scanned es =>
    obtain ⟨rfl, hcached⟩ := h
    refine ⟨?_, fun n hn => hext.contains (hcached n hn)⟩
    rw [SchemaTables.entries, SchemaTables.entries,
      List.filterMap_congr fun n hn => same n (hcached n hn)]
  | collected tableFilter rows => exact h

/-- A name that is neither SQL's nor listed finds nothing. -/
theorem CallResult.holds_found_none {name : String} (hnative : d.native.names.contains name = false)
    (hshown : ∀ n ∈ d.shown, fold n ≠ fold name) : (CallResult.found name none).Holds d s := by
  refine ⟨fun e => ⟨fun h => (by cases h), ?_⟩, fun n hn hfold => absurd hfold (hshown n hn)⟩
  rintro ⟨he, hname⟩
  rcases SchemaTables.mem_entries.1 he with ⟨e', he', rfl⟩ | ⟨n, hn, e', he', rfl⟩
  · rw [NativeSchema.contains_names, List.any_eq_false] at hnative
    exact absurd (ciEq_iff.2 (Eq.symm hname)) (hnative e' he')
  · exact absurd ((s.filed n e' he').symm.trans hname) (hshown n hn)

/-- A listed name finds its entry. -/
theorem CallResult.holds_found_provider {name : String} {e : ProviderEntry T} (hn : n ∈ d.shown)
    (hfold : fold n = fold name) (he : s.providerCache.find? n = some e) :
    (CallResult.found name (some (.provider e))).Holds d s := by
  -- the one name that is shown under this spelling
  have only : ∀ n' ∈ d.shown, fold n' = fold n → n' = n := by
    intro n' hn' heq
    have hfind := (SchemaTables.mem_shown.1 hn').2.2
    have hfind' := (SchemaTables.mem_shown.1 hn).2.2
    simp only [ciEq, heq] at hfind hfind'
    exact Option.some.inj (hfind.symm.trans hfind')
  refine ⟨fun e' => ⟨?_, ?_⟩, fun n' hn' hfold' => ?_⟩
  · rintro h
    cases h
    exact ⟨SchemaTables.mem_entries.2 (.inr ⟨n, hn, e, he, rfl⟩), (s.filed n e he).trans hfold⟩
  · rintro ⟨he', hname⟩
    rcases SchemaTables.mem_entries.1 he' with ⟨e'', he'', rfl⟩ | ⟨n', hn', e'', he'', rfl⟩
    · have hnative := (SchemaTables.mem_shown.1 hn).2.1
      rw [NativeSchema.contains_names, List.any_eq_false] at hnative
      exact absurd (ciEq_iff.2 (hfold.trans (Eq.symm hname))) (hnative e'' he'')
    · have hn'' := only n' hn' ((s.filed n' e'' he'').symm.trans (hname.trans hfold.symm))
      rw [hn'', he] at he''
      cases he''
      rfl
  · rw [only n' hn' (hfold'.trans hfold.symm)]
    exact CIMap.contains_iff.2 ⟨e, he⟩

/-- A name that SQL has taken finds its entry. -/
theorem CallResult.holds_found_native {name : String} {e : CatalogEntry}
    (h : d.native.lookupEntry name = some e) :
    (CallResult.found name (some (.native e))).Holds d s := by
  have he := List.mem_of_find?_eq_some h
  have hmatch := List.find?_some h
  have hfold : fold e.name = fold name := ciEq_iff.1 hmatch
  -- no listed table is shown under this name
  have hnone : ∀ n ∈ d.shown, fold n ≠ fold name := by
    intro n hn heq
    have hnative := (SchemaTables.mem_shown.1 hn).2.1
    rw [NativeSchema.contains_names, List.any_eq_false] at hnative
    exact hnative e he (ciEq_iff.2 (heq.trans hfold.symm))
  refine ⟨fun e' => ⟨?_, ?_⟩, fun n hn heq => absurd heq (hnone n hn)⟩
  · rintro h
    cases h
    exact ⟨SchemaTables.mem_entries.2 (.inl ⟨e, he, rfl⟩), hfold⟩
  · rintro ⟨he', hname⟩
    rcases SchemaTables.mem_entries.1 he' with ⟨e'', he'', rfl⟩ | ⟨n, hn, e'', he'', rfl⟩
    · have heq : e = e'' := List.inj_on_of_nodup_map (List.pairwise_map.2 d.native.nodup) he he''
        (hfold.trans (Eq.symm hname))
      rw [heq]
    · exact absurd ((s.filed n e'' he'').symm.trans hname) (hnone n hn)

/-! ### Every call -/

/-- The schema once its tables are read. -/
def SchemaTables.current (d : SchemaTables T) (s : ProviderSchemaEntry T) : ProviderSchemaEntry T :=
  s.refreshedTables d.tables

theorem SchemaTables.current_of_extends (h : (d.current s).Extends s') : d.current s' = s' :=
  ProviderSchemaEntry.refreshedTables_eq_self
    (h.cachedEpoch.trans (ProviderSchemaEntry.refreshedTables_cachedEpoch _))

/-- What a call leaves of the schema, and what it returned. -/
def SchemaTables.Answers (d : SchemaTables T) (s s' : ProviderSchemaEntry T)
    (r : Except ProviderError (CallResult T)) : Prop :=
  (d.current s).Extends (d.current s') ∧ ∀ o, r = .ok o → o.Holds d (d.current s')

theorem map_filterMap_of_map_some {α β : Type} {f : α → Option β} {l : List β} {ks : List α}
    (h : l.map some = ks.map f) : l = ks.filterMap f ∧ ∀ k ∈ ks, (f k).isSome = true := by
  induction ks generalizing l with
  | nil => exact ⟨List.map_eq_nil_iff.1 h, nofun⟩
  | cons k ks ih =>
    cases l with
    | nil => cases h
    | cons b l =>
      obtain ⟨hb, hl⟩ := List.cons.inj h
      obtain ⟨rfl, hks⟩ := ih hl
      refine ⟨(List.filterMap_cons_some hb.symm).symm, List.forall_mem_cons.2 ⟨?_, hks⟩⟩
      rw [← hb]
      rfl

/-- No listed table is shown under a name that is not listed. -/
theorem SchemaTables.not_shown {name : String}
    (h : d.tables.provider = none ∨ d.tables.names.find? (ciEq · name) = none) :
    ∀ n ∈ d.shown, fold n ≠ fold name := by
  intro n hn heq
  obtain ⟨hsome, -, hfirst⟩ := SchemaTables.mem_shown.1 hn
  rcases h with hinfo | hfind
  · rw [hinfo] at hsome
    cases hsome
  · simp only [ciEq, heq] at hfirst hfind
    rw [hfind] at hfirst
    cases hfirst

/-- A lookup of a name that SQL has not taken. -/
theorem SchemaTables.lookupExtensionEntry_spec (h : d.Provided s) {name : String}
    (fails : String → Option ProviderError)
    (hnative : d.native.names.contains name = false) :
    (d.current s).Extends (s.lookupExtensionEntry (d.udf fails) d.tables name).2 ∧
    ∀ x, (s.lookupExtensionEntry (d.udf fails) d.tables name).1 = .ok x →
      (CallResult.found name (x.map .provider)).Holds d
        (s.lookupExtensionEntry (d.udf fails) d.tables name).2 := by
  rw [ProviderSchemaEntry.lookupExtensionEntry]
  cases hinfo : d.tables.provider with
  | none =>
    refine ⟨.refl _, fun x hx => ?_⟩
    cases hx
    exact CallResult.holds_found_none hnative (SchemaTables.not_shown (.inl hinfo))
  | some info =>
    cases hfind : d.tables.names.find? (ciEq · name) with
    | none =>
      refine ⟨.refl _, fun x hx => ?_⟩
      cases hx
      exact CallResult.holds_found_none hnative (SchemaTables.not_shown (.inr hfind))
    | some n =>
      obtain ⟨hn, hfold⟩ := SchemaTables.mem_shown_of_find? hinfo hnative hfind
      obtain ⟨hext, hok⟩ := ProviderSchemaEntry.getOrQueryProviderEntry_spec d
        (d.current s) info fails n
      refine ⟨hext, fun x hx => ?_⟩
      obtain ⟨hfound, hsome⟩ := hok x hx
      obtain ⟨e, rfl⟩ := Option.isSome_iff_exists.1 (hsome (h n hn))
      exact CallResult.holds_found_provider hn hfold hfound

/-- A lookup. -/
theorem SchemaTables.answers_lookup (h : d.Provided s) (name : String) :
    d.Answers s (d.perform s (.lookup name fails)).2 (d.perform s (.lookup name fails)).1 := by
  rw [perform, ProviderSchemaEntry.lookupEntry]
  cases hnative : d.native.lookupEntry name with
  | some e =>
    refine ⟨.refl _, fun o ho => ?_⟩
    cases ho
    exact CallResult.holds_found_native hnative
  | none =>
    have hcontains : d.native.names.contains name = false := by
      rw [NativeSchema.contains_names, List.any_eq_false]
      intro e he heq
      exact List.find?_eq_none.1 hnative e he (ciEq_iff.2 (ciEq_iff.1 heq).symm)
    obtain ⟨hext, hok⟩ := SchemaTables.lookupExtensionEntry_spec h fails hcontains
    rcases hlookup : s.lookupExtensionEntry (d.udf fails) d.tables name with ⟨r, s'⟩
    rw [hlookup] at hext hok
    rw [Answers]
    dsimp only
    rw [SchemaTables.current_of_extends hext]
    refine ⟨hext, fun o ho => ?_⟩
    cases r with
    | error x => cases ho
    | ok x =>
      cases ho
      exact hok x rfl

/-- A scan. -/
theorem SchemaTables.answers_scan (h : d.Provided s) :
    d.Answers s (d.perform s (.scan fails)).2 (d.perform s (.scan fails)).1 := by
  have hspec : (d.current s).Extends
      (s.scanExtensionEntries (d.udf fails) d.tables d.native.names).2 ∧
    ∀ es, (s.scanExtensionEntries (d.udf fails) d.tables d.native.names).1 = .ok es →
      es.map some = d.shown.map
        (s.scanExtensionEntries (d.udf fails) d.tables d.native.names).2.providerCache.find? := by
    rw [ProviderSchemaEntry.scanExtensionEntries]
    cases hinfo : d.tables.provider with
    | none =>
      refine ⟨.refl _, fun es hes => ?_⟩
      cases hes
      rw [shown, hinfo]
      rfl
    | some info =>
      obtain ⟨hext, hes⟩ := ProviderSchemaEntry.scanNames_spec d (d.current s) info fails
        d.native.names d.tables.names
      have hshown : d.shown = scanExtensionEntries d.native.names d.tables.names := by
        rw [shown, hinfo]
        rfl
      rw [hshown]
      exact ⟨hext, fun es hok => hes es hok fun n hn => h n (hshown.symm ▸ hn)⟩
  obtain ⟨hext, hok⟩ := hspec
  rw [perform, ProviderSchemaEntry.scan]
  rcases hscan : s.scanExtensionEntries (d.udf fails) d.tables d.native.names with ⟨r, s'⟩
  rw [hscan] at hext hok
  rw [Answers]
  dsimp only
  rw [SchemaTables.current_of_extends hext]
  refine ⟨hext, fun o ho => ?_⟩
  cases r with
  | error x => cases ho
  | ok es =>
    cases ho
    obtain ⟨hes, hcached⟩ := map_filterMap_of_map_some (hok es rfl)
    exact ⟨by rw [hes, entries], hcached⟩

/-- The permissions, which ask for no schema to be there: the rows of what SQL created, and those of
the shown tables. -/
theorem SchemaTables.collectPermissions_spec (d : SchemaTables T) (s : ProviderSchemaEntry T)
    (tableFilter : Option String) (fails : String → Option ProviderError) :
    (d.current s).Extends (s.collectPermissions (d.udf fails) d.native d.tables tableFilter).2 ∧
    ∀ rows, (s.collectPermissions (d.udf fails) d.native d.tables tableFilter).1 = .ok rows →
      ∃ listed, rows = (d.native.entries.filter fun e => passesFilter tableFilter e.name).map
          (nativeRow s.name) ++ listed ∧
        listed.map (·.name) = d.shown.filter (passesFilter tableFilter) ∧
        ∀ row ∈ listed, row.schema = s.name ∧
          ∃ info, d.tables.provider = some info ∧
            row.verbs = ProviderSchemaEntry.providerVerbs info := by
  obtain ⟨hout, hseen⟩ := collectNative_rows s.name tableFilter d.native.nodup
  rw [ProviderSchemaEntry.collectPermissions, ProviderSchemaEntry.collectExtensionPermissions]
  revert hout hseen
  generalize collectNativeSchemaPermissions s.name tableFilter d.native.entries d.native.entries {}
    = acc
  intro hout hseen
  cases hinfo : d.tables.provider with
  | none =>
    refine ⟨.refl _, fun rows hrows => ?_⟩
    cases hrows
    refine ⟨[], hout.trans (List.append_nil _).symm, ?_, fun row hrow => (by cases hrow)⟩
    rw [shown, hinfo]
    rfl
  | some info =>
    have hfresh : ∀ n, passesFilter tableFilter n = true →
        acc.seen.contains n = d.native.names.contains n := by
      intro n hn
      rw [hseen, NativeSchema.contains_names]
      refine List.any_congr rfl fun e => ?_
      cases heq : ciEq n e.name with
      | false => exact Bool.and_false _
      | true => rw [← passesFilter_congr (ciEq_iff.1 heq), hn, Bool.and_true]
    obtain ⟨hext, hacc⟩ := ProviderSchemaEntry.collectNames_spec d (d.current s) info fails
      d.tables.names d.native.names hfresh
    dsimp only
    rcases hcollect : (s.refreshedTables d.tables).collectNames (d.udf fails) info tableFilter
      d.tables.names acc with ⟨r, s'⟩
    rw [current, hcollect] at hext hacc
    refine ⟨hext, fun rows hrows => ?_⟩
    cases r with
    | error x => cases hrows
    | ok acc' =>
      cases hrows
      obtain ⟨listed, hlisted, hnames, hverbs⟩ := hacc acc' rfl
      refine ⟨listed, hlisted.trans (by rw [hout]), ?_, fun row hrow => ?_⟩
      · rw [hnames, shown, hinfo]
        rfl
      · obtain ⟨hschema, hverb⟩ := hverbs row hrow
        exact ⟨hschema.trans (ProviderSchemaEntry.refreshedTables_name _), info, rfl, hverb⟩

theorem SchemaTables.answers_permissions (d : SchemaTables T) (s : ProviderSchemaEntry T)
    (tableFilter : Option String) (fails : String → Option ProviderError) :
    d.Answers s (d.perform s (.permissions tableFilter fails)).2
      (d.perform s (.permissions tableFilter fails)).1 := by
  obtain ⟨hext, hok⟩ := d.collectPermissions_spec s tableFilter fails
  rw [perform]
  rcases hcollect : s.collectPermissions (d.udf fails) d.native d.tables tableFilter with ⟨r, s'⟩
  rw [hcollect] at hext hok
  rw [Answers]
  dsimp only
  rw [SchemaTables.current_of_extends hext]
  refine ⟨hext, fun o ho => ?_⟩
  cases r with
  | error x => cases ho
  | ok rows =>
    cases ho
    obtain ⟨listed, hrows, hnames, -⟩ := hok rows rfl
    show rows.map (·.name) = _
    rw [hrows, List.map_append, List.map_map, hnames, List.filter_append, List.filter_map]
    congr 1
    exact List.map_congr_left fun e _ => nativeRow_name e

/-- **Every call** keeps the entries, and what it returns holds. -/
theorem SchemaTables.perform_spec (h : d.Provided s) (call : SchemaCall) :
    d.Answers s (d.perform s call).2 (d.perform s call).1 := by
  cases call with
  | lookup name fails => exact SchemaTables.answers_lookup h name
  | scan fails => exact SchemaTables.answers_scan h
  | permissions tableFilter fails => exact d.answers_permissions s tableFilter fails

/-- The invariant of the calls. -/
structure Called.Ok (d : SchemaTables T) (c : Called T) : Prop where
  provided : d.Provided c.schema
  holds : ∀ o ∈ c.returned, o.Holds d (d.current c.schema)

/-- A call keeps it. -/
theorem Called.Ok.step {c c' : Called T} {call : SchemaCall} (h : c.Ok d)
    (hs : (schemaCalls d).next c call = some c') : c'.Ok d := by
  obtain ⟨hext, hok⟩ := SchemaTables.perform_spec h.provided call
  have hprovided : d.Provided (d.perform c.schema call).2 := fun n hn =>
    hext.serves (h.provided n hn)
  have hholds : ∀ o ∈ c.returned, o.Holds d (d.current (d.perform c.schema call).2) := fun o ho =>
    (h.holds o ho).extend hext
  obtain rfl := Option.some.inj hs
  rcases hperform : d.perform c.schema call with ⟨r, schema⟩
  rw [hperform] at hok hprovided hholds
  cases r with
  | error x => exact ⟨hprovided, hholds⟩
  | ok o => exact ⟨hprovided, List.forall_mem_cons.2 ⟨hok o rfl, hholds⟩⟩

/-! ### Agreement -/

/-- The names of the entries when every shown table has one. -/
theorem SchemaTables.map_name_entries
    (h : ∀ n ∈ d.shown, s.providerCache.contains n = true) :
    (d.entries s).map (fun e => fold e.name) =
      (d.native.entries.map (·.name) ++ d.shown).map fold := by
  have hprovider : ∀ ns : List String, (∀ n ∈ ns, s.providerCache.contains n = true) →
      (ns.filterMap s.providerCache.find?).map (fun e => fold e.name) = ns.map fold := by
    intro ns hns
    induction ns with
    | nil => rfl
    | cons n ns ih =>
      obtain ⟨hn, hns⟩ := List.forall_mem_cons.1 hns
      obtain ⟨e, he⟩ := CIMap.contains_iff.1 hn
      rw [List.filterMap_cons_some he, List.map_cons, List.map_cons, ih hns, s.filed n e he]
  rw [entries, List.map_append, List.map_append, List.map_map, List.map_map, List.map_map,
    ← hprovider d.shown h]
  rfl

/-- The names that a schema shows are different. -/
theorem SchemaTables.nodup_names (d : SchemaTables T) :
    ((d.native.entries.map (·.name) ++ d.shown).map fold).Nodup := by
  have hshown : d.shown.Pairwise fun n n' => fold n ≠ fold n' := by
    rw [shown]
    split_ifs
    · exact pairwise_scanExtensionEntries _ _
    · exact .nil
  rw [List.map_append, List.map_map]
  refine List.nodup_append'.2 ⟨List.pairwise_map.2 d.native.nodup, List.pairwise_map.2 hshown, ?_⟩
  intro f hf hf'
  obtain ⟨e, he, rfl⟩ := List.mem_map.1 hf
  obtain ⟨n, hn, heq⟩ := List.mem_map.1 hf'
  have hnative := (SchemaTables.mem_shown.1 hn).2.1
  rw [NativeSchema.contains_names, List.any_eq_false] at hnative
  exact hnative e he (ciEq_iff.2 heq)

/-- Names that are equal up to case pass the same filter. -/
theorem map_filter_passesFilter {α β : Type} {f : α → String} {g : β → String} {as : List α}
    {bs : List β} (tableFilter : Option String)
    (h : as.map (fun a => fold (f a)) = bs.map fun b => fold (g b)) :
    (as.filter fun a => passesFilter tableFilter (f a)).map (fun a => fold (f a)) =
      (bs.filter fun b => passesFilter tableFilter (g b)).map fun b => fold (g b) := by
  have hmap := congrArg
    (List.filter fun k => tableFilter.all fun t => decide (k = fold t)) h
  rw [List.filter_map, List.filter_map] at hmap
  exact hmap

/-- Calls whose results hold agree. -/
theorem agree_of_holds {returned : List (CallResult T)} (h : ∀ o ∈ returned, o.Holds d s) :
    Agree d.native returned := by
  refine ⟨fun es hes => ?_, fun es hes e he => ?_, fun es name entry hes hentry => ?_,
    fun es tableFilter rows hes hrows => ?_⟩
  · obtain ⟨rfl, hcached⟩ := h _ hes
    rw [SchemaTables.map_name_entries hcached]
    exact d.nodup_names
  · obtain ⟨rfl, -⟩ := h _ hes
    exact SchemaTables.mem_entries.2 (.inl ⟨e, he, rfl⟩)
  · obtain ⟨rfl, -⟩ := h _ hes
    exact (h _ hentry).1
  · obtain ⟨rfl, hcached⟩ := h _ hes
    have hmap := SchemaTables.map_name_entries hcached
    have hfilter := map_filter_passesFilter (g := id) tableFilter hmap
    rw [hfilter]
    have hnames : rows.map (·.name) = _ := h _ hrows
    show rows.map (fold ∘ (·.name)) = _
    rw [← List.map_map, hnames]
    rfl

/-! ### A listed table without a schema -/

/-- No schema call fails. -/
def wellAnswered : String → Option ProviderError := fun _ => none

theorem SchemaTables.perform_scan (s : ProviderSchemaEntry T) :
    ∃ es, (d.perform s (.scan wellAnswered)).1 = .ok (.scanned es) := by
  have hscan : ∃ es, (s.scanExtensionEntries (d.udf wellAnswered) d.tables
      d.native.names).1 = .ok es := by
    rw [ProviderSchemaEntry.scanExtensionEntries]
    cases d.tables.provider with
    | none => exact ⟨[], rfl⟩
    | some info => exact ProviderSchemaEntry.exists_scanNames _ _ _ _
  obtain ⟨es, hes⟩ := hscan
  refine ⟨d.native.entries.map .native ++ es.map .provider, ?_⟩
  rw [perform, ProviderSchemaEntry.scan]
  dsimp only
  rw [hes]
  rfl

theorem SchemaTables.perform_permissions (s : ProviderSchemaEntry T)
    (tableFilter : Option String) :
    ∃ rows, (d.perform s (.permissions tableFilter wellAnswered)).1 =
      .ok (.collected tableFilter rows) := by
  have hcollect : ∀ acc, ∃ acc', (s.collectExtensionPermissions (d.udf wellAnswered) d.tables
      tableFilter acc).1 = .ok acc' := by
    intro acc
    rw [ProviderSchemaEntry.collectExtensionPermissions]
    cases d.tables.provider with
    | none => exact ⟨acc, rfl⟩
    | some info => exact ProviderSchemaEntry.exists_collectNames _ _ _ _ _
  rw [perform, ProviderSchemaEntry.collectPermissions]
  dsimp only
  obtain ⟨acc', hacc⟩ := hcollect
    (collectNativeSchemaPermissions s.name tableFilter d.native.entries d.native.entries {})
  exact ⟨acc'.out, by rw [hacc]; rfl⟩

/-- A shown table without an entry and a schema is not found. -/
theorem SchemaTables.perform_lookup (hn : n ∈ d.shown) (h : ¬ d.Serves (d.current s) n) :
    (d.perform s (.lookup n wellAnswered)).1 = .ok (.found n none) := by
  obtain ⟨hinfo, hnative, hfind⟩ := SchemaTables.mem_shown.1 hn
  obtain ⟨info, hinfo⟩ := Option.isSome_iff_exists.1 hinfo
  obtain ⟨hcache, hschema⟩ := not_or.1 h
  have hcache : (s.refreshedTables d.tables).providerCache.find? n = none :=
    Option.not_isSome_iff_eq_none.1 hcache
  have hudf : d.udf wellAnswered (qualifiedName (s.refreshedTables d.tables).name n) = .ok none :=
    congrArg Except.ok (Option.not_isSome_iff_eq_none.1 hschema)
  rw [perform, ProviderSchemaEntry.lookupEntry, NativeSchema.lookupEntry_eq_none hnative,
    ProviderSchemaEntry.lookupExtensionEntry, hinfo, hfind]
  dsimp only
  rw [ProviderSchemaEntry.getOrQueryProviderEntry, hcache]
  dsimp only
  rw [hudf]
  rfl

/-- What was returned before a call is kept with it. -/
theorem Called.after_ok {c : Called T} {r : CallResult T}
    {p : Except ProviderError (CallResult T) × ProviderSchemaEntry T} (h : p.1 = .ok r) :
    (c.after p).returned = r :: c.returned := by
  obtain ⟨p, schema⟩ := p
  cases h
  rfl

/-- **A listed table without a schema** has a row, but a lookup does not find it; and a scan either
does not yield it or yields an entry of its name. -/
theorem exists_not_agree (hn : n ∈ d.shown) (h : ¬ d.Serves (d.current s) n) :
    ∃ ls c, (schemaCalls d).Run Machine.Free ⟨s, []⟩ ls c ∧ ¬ Agree d.native c.returned := by
  have hlookup := SchemaTables.perform_lookup hn h
  generalize hc₁ : (⟨s, []⟩ : Called T).after (d.perform s (.lookup n wellAnswered)) = c₁
  obtain ⟨es, hscan⟩ := d.perform_scan c₁.schema
  generalize hc₂ : c₁.after (d.perform c₁.schema (.scan wellAnswered)) = c₂
  obtain ⟨rows, hrows⟩ := d.perform_permissions c₂.schema (some n)
  generalize hc₃ : c₂.after (d.perform c₂.schema (.permissions (some n) wellAnswered)) = c₃
  have hreturned : c₃.returned =
      [.collected (some n) rows, .scanned es, .found n none] := by
    rw [← hc₃, Called.after_ok hrows, ← hc₂, Called.after_ok hscan, ← hc₁, Called.after_ok hlookup]
  refine ⟨[_, _, _], c₃, .cons trivial (congrArg some hc₁) (.cons trivial (congrArg some hc₂)
    (.cons trivial (congrArg some hc₃) (.nil _))), fun hagree => ?_⟩
  rw [hreturned] at hagree
  -- the row is there, so a scan that agrees with it yields an entry of this name
  have hnames : rows.map (·.name) =
      (d.native.entries.map (·.name) ++ d.shown).filter (passesFilter (some n)) :=
    (d.answers_permissions c₂.schema (some n) wellAnswered).2 _ hrows
  have hmem : n ∈ rows.map (·.name) := by
    rw [hnames]
    exact List.mem_filter.2 ⟨List.mem_append_right _ hn, ciEq_self n⟩
  obtain ⟨row, hrow, rfl⟩ := List.mem_map.1 hmem
  have hlisted := hagree.listed es _ rows (.tail _ (.head _)) (.head _)
  have hfold : fold row.name ∈ rows.map fun row => fold row.name :=
    List.mem_map.2 ⟨row, hrow, rfl⟩
  rw [hlisted] at hfold
  obtain ⟨e, he, hname⟩ := List.mem_map.1 hfold
  -- but then a lookup should have found it
  cases (hagree.found es row.name none (.tail _ (.head _)) (.tail _ (.tail _ (.head _))) e).2
    ⟨(List.mem_filter.1 he).1, hname⟩

/-- **The three enumerations agree**, in every order of calls with whatever schema calls fail,
exactly if every listed table that no entry before it takes the name of has an entry or a schema. -/
theorem schemaCalls_agree_iff (d : SchemaTables T) (s : ProviderSchemaEntry T) :
    (∀ ls c, (schemaCalls d).Run Machine.Free ⟨s, []⟩ ls c → Agree d.native c.returned) ↔
      d.Provided s := by
  constructor
  · intro h n hn
    by_contra hserves
    obtain ⟨ls, c, hrun, hnot⟩ := exists_not_agree hn hserves
    exact hnot (h ls c hrun)
  · intro h ls c hrun
    have hok : c.Ok d := hrun.invariant ⟨h, nofun⟩ fun _ _ _ hok _ hs => hok.step hs
    exact agree_of_holds hok.holds

end

namespace Sample

/-- A provider that lists a table it has no schema for. -/
def gone : SchemaTables Unit where
  native := ⟨[], .nil⟩
  tables := ⟨some ⟨fun _ => "udf"⟩, 0, ["gone"]⟩
  schemaOf := fun _ => none

/-- A schema that was not looked at. -/
def fresh : ProviderSchemaEntry Unit := { name := "main" }

end Sample

/-- The permissions list a table that is not there. -/
theorem not_schemaCalls_agree : ¬ ∀ ls c,
    (schemaCalls Sample.gone).Run Machine.Free ⟨Sample.fresh, []⟩ ls c →
      Agree Sample.gone.native c.returned := by
  intro h
  have hshown : "gone" ∈ Sample.gone.shown := SchemaTables.mem_shown.2 ⟨rfl, rfl, by decide⟩
  obtain ⟨ls, c, hrun, hnot⟩ := exists_not_agree (s := Sample.fresh) hshown
    (not_or.2 ⟨by decide, by decide⟩)
  exact hnot (h ls c hrun)

end Provider

end VirtualCatalog
