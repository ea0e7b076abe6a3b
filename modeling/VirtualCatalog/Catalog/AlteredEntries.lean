import VirtualCatalog.Catalog.Gates
import VirtualCatalog.Json.Text
import VirtualCatalog.Machine.Basic

/-!
# Entries of tables that are altered

The wrapper of a provider's schema caches an entry for each table and hands out raw pointers to
them.  An `ALTER TABLE` runs in the provider without the lock of the wrapper, while other threads
look tables up; then it retires the entry of its table.

* `tryAlterExtensionEntry`, `evict` : the two halves of `TryAlterExtensionEntry`.
* `doAlter` : what the provider gets; `alter_reaches_provider` : the change as it was written.
* `altering` : the machine of a wrapper whose calls and `ALTER`s interleave.
* `ProviderSchemaEntry.Sound` : each entry is owned once; `Follows` : what any step keeps.
* `altered_entries` : no entry is ever freed, and after an `ALTER` of a table only entries that were
  made after it are handed out.
-/

namespace VirtualCatalog

namespace Provider

/-! ### An alteration -/

/-- `AlterTableInfo`, by its type. -/
inductive ProviderAlter where
  | addColumn (name type : String)
  | removeColumn (name : String)
  | renameColumn (oldName newName : String)
  | other

/-- The kind of the change and its details, if it is one for a provider. -/
def ProviderAlter.change : ProviderAlter → Option (String × Json)
  | addColumn name type =>
    some ("add_column", .object [("name", .string name), ("type", .string type)])
  | removeColumn name => some ("drop_column", .object [("name", .string name)])
  | renameColumn oldName newName =>
    some ("rename_column", .object [("old_name", .string oldName), ("new_name", .string newName)])
  | other => none

/-- A call of the alter UDF. -/
structure AlterCall where
  udf : String
  name : String
  kind : String
  details : List Char

/-- The call for a change of a provider's table; `text` is the statement's. -/
def alterCall (info : ProviderInfo) (qualified tableName : String) (alter : ProviderAlter)
    (text : String) : Except BridgeError AlterCall := do
  throwIf (info.udf .alter = "")
    ⟨.permission, "Provider table '" ++ tableName ++ "' does not support ALTER"⟩
  match alter.change with
  | none => .error ⟨.binder, "ALTER TABLE " ++ text ++ " on provider-managed tables is not " ++
      "supported (only ADD COLUMN, DROP COLUMN, RENAME COLUMN)"⟩
  | some (kind, details) => .ok ⟨info.udf .alter, qualified, kind, details.text⟩

namespace ProviderSchemaEntry

variable {T : Type}

/-- `TryAlterExtensionEntry` up to the call of the UDF; none if no provider has the table. -/
def tryAlterExtensionEntry (tables : ListedTables) (tableName : String) (alter : ProviderAlter)
    (text : String) (s : ProviderSchemaEntry T) :
    Except BridgeError (Option AlterCall) × ProviderSchemaEntry T :=
  let s := s.refreshedTables tables
  match tables.provider, tables.names.find? (ciEq · tableName) with
  | some info, some _ =>
    ((alterCall info (qualifiedName s.name tableName) tableName alter text).map some, s)
  | _, _ => (.ok none, s)

/-- The rest of it: the entry of the table is retired. -/
def evict (s : ProviderSchemaEntry T) (tableName : String) : ProviderSchemaEntry T :=
  match s.providerCache.find? tableName with
  | none => s
  | some e =>
    { s with
      retiredProviderEntries := s.retiredProviderEntries ++ [e]
      providerCache := s.providerCache.erase tableName
      filed := by
        intro k e' h
        rw [CIMap.find?_erase] at h
        split_ifs at h
        exact s.filed k e' h }

end ProviderSchemaEntry

namespace Sample

/-- A provider of one table. -/
def oneTable : ListedTables where
  provider := some ⟨fun _ => "udf"⟩
  epoch := 1
  names := ["orders"]

end Sample

/-- A wrapper among threads. -/
structure AlteredSchema (T : Type) where
  schema : ProviderSchemaEntry T
  /-- What `TablesForSchema` returns. -/
  tables : ListedTables
  /-- The tables of the `ALTER`s that the provider has carried out and that have not retired their
  entry. -/
  running : List String := []
  /-- The tables of those that have returned, each with the number of entries made before. -/
  altered : List (String × Nat) := []

/-- The steps; `udf` is what the schema UDF answers during a call. -/
inductive AlteredSchema.Label (T : Type) where
  /-- The provider or what it lists changes. -/
  | list (tables : ListedTables)
  | lookup (name : String) (udf : SchemaUdf T)
  /-- A scan, after entries with the names `seen`. -/
  | scan (seen : CISet) (udf : SchemaUdf T)
  | permissions (native : NativeSchema) (tableFilter : Option String) (udf : SchemaUdf T)
  /-- An `ALTER` up to the end of its UDF, which may raise. -/
  | alter (name : String) (alter : ProviderAlter) (text : String) (raised : Bool)
  /-- The rest of it. -/
  | evict (name : String)

namespace AlteredSchema

variable {T : Type}

/-- One step. -/
def next (s : AlteredSchema T) : Label T → Option (AlteredSchema T)
  | .list tables => some { s with tables }
  | .lookup name udf => some { s with
      schema := (s.schema.lookupExtensionEntry udf s.tables name).2 }
  | .scan seen udf => some { s with
      schema := (s.schema.scanExtensionEntries udf s.tables seen).2 }
  | .permissions native tableFilter udf => some { s with
      schema := (s.schema.collectPermissions udf native s.tables tableFilter).2 }
  | .alter name change text raised =>
    let (r, schema) := s.schema.tryAlterExtensionEntry s.tables name change text
    -- the eviction follows only if the provider's `ALTER` did not raise
    match r, raised with
    | .ok (some _), false => some { s with schema, running := name :: s.running }
    | _, _ => some { s with schema }
  | .evict name =>
    if name ∈ s.running then
      some { s with
        schema := s.schema.evict name
        running := s.running.erase name
        altered := (name, s.schema.made) :: s.altered }
    else none

/-- The machine of a wrapper. -/
def altering : Machine (AlteredSchema T) (Label T) := ⟨next⟩

end AlteredSchema

/-! ### What is owned -/

namespace ProviderSchemaEntry

variable {T : Type} {s s' s'' : ProviderSchemaEntry T}

/-- The wrapper owns the entry. -/
def Owns (s : ProviderSchemaEntry T) (e : ProviderEntry T) : Prop :=
  (∃ k, s.providerCache.find? k = some e) ∨ e ∈ s.retiredProviderEntries

/-- Each entry is owned once. -/
structure Sound (s : ProviderSchemaEntry T) : Prop where
  bound : ∀ e, s.Owns e → e.address < s.made
  cached : ∀ k k' e e', s.providerCache.find? k = some e → s.providerCache.find? k' = some e' →
    e.address = e'.address → fold k = fold k'
  apart : ∀ k e, s.providerCache.find? k = some e → ∀ e' ∈ s.retiredProviderEntries,
    e.address ≠ e'.address
  retired : (s.retiredProviderEntries.map (·.address)).Nodup

/-- What any step keeps. -/
structure Follows (s s' : ProviderSchemaEntry T) : Prop where
  sound : s.Sound → s'.Sound
  made : s.made ≤ s'.made
  owned : ∀ e, s.Owns e → s'.Owns e
  /-- An entry in the cache was there or is new. -/
  fresh : ∀ k e, s'.providerCache.find? k = some e →
    s.providerCache.find? k = some e ∨ s.made ≤ e.address

/-- What a call keeps once the tables are read. -/
structure Grows (s s' : ProviderSchemaEntry T) : Prop extends s.Follows s' where
  kept : ∀ k e, s.providerCache.find? k = some e → s'.providerCache.find? k = some e

@[refl] theorem Follows.refl (s : ProviderSchemaEntry T) : s.Follows s :=
  ⟨id, Nat.le_refl _, fun _ h => h, fun _ _ h => .inl h⟩

theorem Follows.trans (h : s.Follows s') (h' : s'.Follows s'') : s.Follows s'' := by
  refine ⟨fun hs => h'.sound (h.sound hs), h.made.trans h'.made,
    fun e he => h'.owned e (h.owned e he), fun k e he => ?_⟩
  rcases h'.fresh k e he with he | hnew
  · exact h.fresh k e he
  · exact .inr (h.made.trans hnew)

@[refl] theorem Grows.refl (s : ProviderSchemaEntry T) : s.Grows s :=
  ⟨.refl s, fun _ _ h => h⟩

theorem Grows.trans (h : s.Grows s') (h' : s'.Grows s'') : s.Grows s'' :=
  ⟨h.toFollows.trans h'.toFollows, fun k e he => h'.kept k e (h.kept k e he)⟩

/-- A table without an entry gets one. -/
theorem grows_fill {e : ProviderEntry T} (haddress : e.address = s.made)
    (h : s.providerCache.find? e.name = none) : s.Grows (s.fill e) := by
  have hfind : ∀ k, (s.fill e).providerCache.find? k =
      if fold k = fold e.name then some e else s.providerCache.find? k :=
    fun k => CIMap.find?_insert _ _ _ _
  have hkept : ∀ k e', s.providerCache.find? k = some e' →
      (s.fill e).providerCache.find? k = some e' := by
    intro k e' hk
    rw [hfind, if_neg]
    · exact hk
    · intro hfold
      rw [CIMap.find?_congr _ hfold, h] at hk
      cases hk
  refine ⟨⟨fun hs => ⟨?_, ?_, ?_, hs.retired⟩, Nat.le_succ _, ?_, ?_⟩, hkept⟩
  · rintro e' (⟨k, hk⟩ | hretired)
    · rw [hfind] at hk
      split_ifs at hk with hfold
      · cases hk
        exact haddress ▸ Nat.lt_succ_self _
      · exact Nat.lt_succ_of_lt (hs.bound e' (.inl ⟨k, hk⟩))
    · exact Nat.lt_succ_of_lt (hs.bound e' (.inr hretired))
  · -- only the new entry has the new address
    intro k k' e₁ e₂ hk hk' heq
    rw [hfind] at hk hk'
    split_ifs at hk with hfold <;> split_ifs at hk' with hfold'
    · exact hfold.trans hfold'.symm
    · cases hk
      exact absurd (heq.symm.trans haddress) (Nat.ne_of_lt (hs.bound e₂ (.inl ⟨k', hk'⟩)))
    · cases hk'
      exact absurd (heq.trans haddress) (Nat.ne_of_lt (hs.bound e₁ (.inl ⟨k, hk⟩)))
    · exact hs.cached k k' e₁ e₂ hk hk' heq
  · intro k e₁ hk e₂ he₂
    rw [hfind] at hk
    split_ifs at hk with hfold
    · cases hk
      rw [haddress]
      exact Nat.ne_of_gt (hs.bound e₂ (.inr he₂))
    · exact hs.apart k e₁ hk e₂ he₂
  · rintro e' (⟨k, hk⟩ | hretired)
    · exact .inl ⟨k, hkept k e' hk⟩
    · exact .inr hretired
  · intro k e' hk
    rw [hfind] at hk
    split_ifs at hk with hfold
    · cases hk
      exact .inr (Nat.le_of_eq haddress.symm)
    · exact .inl hk

/-- The entries of the cache have different addresses. -/
theorem Sound.nodup_cache (h : s.Sound) :
    ((s.providerCache.toList.map Prod.snd).map (·.address)).Nodup := by
  have hkeys : s.providerCache.slots.entries.Pairwise fun a b => a.1 ≠ b.1 :=
    List.pairwise_map.1 s.providerCache.slots.nodupKeys
  rw [List.map_map, CIMap.toList, List.map_map]
  refine List.pairwise_map.2 (hkeys.imp_of_mem fun {a b} ha hb hne heq => hne ?_)
  have hfind : ∀ c ∈ s.providerCache.slots.entries,
      s.providerCache.find? c.2.1.1 = some c.2.2 := fun c hc =>
    CIMap.find?_of_mem_toList (List.mem_map.2 ⟨c, hc, rfl⟩)
  have hfold := h.cached _ _ _ _ (hfind a ha) (hfind b hb) heq
  rwa [a.2.1.2, b.2.1.2] at hfold

/-- Reading the tables keeps what is owned. -/
theorem follows_refreshedTables (s : ProviderSchemaEntry T) (tables : ListedTables) :
    s.Follows (s.refreshedTables tables) := by
  unfold refreshedTables
  split_ifs
  · have hcache : ∀ e, e ∈ s.providerCache.toList.map Prod.snd ↔
        ∃ k, s.providerCache.find? k = some e := by
      intro e
      rw [List.mem_map]
      constructor
      · rintro ⟨⟨k, e⟩, he, rfl⟩
        exact ⟨k, CIMap.find?_of_mem_toList he⟩
      · rintro ⟨k, hk⟩
        obtain ⟨k', -, he⟩ := CIMap.mem_toList_of_slot hk
        exact ⟨(k', e), he, rfl⟩
    refine ⟨fun hs => ⟨?_, ?_, ?_, ?_⟩, Nat.le_refl _, ?_, ?_⟩
    · rintro e (⟨k, hk⟩ | hretired)
      · cases hk
      · rcases List.mem_append.1 hretired with hretired | hcached
        · exact hs.bound e (.inr hretired)
        · exact hs.bound e (.inl ((hcache e).1 hcached))
    · intro k k' e e' hk
      cases hk
    · intro k e hk
      cases hk
    · show ((s.retiredProviderEntries ++ s.providerCache.toList.map Prod.snd).map _).Nodup
      rw [List.map_append, List.nodup_append]
      refine ⟨hs.retired, hs.nodup_cache, ?_⟩
      rintro a ha b hb rfl
      obtain ⟨e', he', rfl⟩ := List.mem_map.1 ha
      obtain ⟨e, he, heq⟩ := List.mem_map.1 hb
      obtain ⟨k, hk⟩ := (hcache e).1 he
      exact hs.apart k e hk e' he' heq
    · rintro e (⟨k, hk⟩ | hretired)
      · exact .inr (List.mem_append_right _ ((hcache e).2 ⟨k, hk⟩))
      · exact .inr (List.mem_append_left _ hretired)
    · intro k e hk
      cases hk
  · exact .refl s

/-- Retiring an entry keeps what is owned, and the table has none. -/
theorem follows_evict (s : ProviderSchemaEntry T) (tableName : String) :
    s.Follows (s.evict tableName) ∧ (s.evict tableName).made = s.made ∧
      ∀ k, fold k = fold tableName → (s.evict tableName).providerCache.find? k = none := by
  unfold evict
  split
  next hnone => exact ⟨.refl s, rfl, fun k hk => (CIMap.find?_congr _ hk).trans hnone⟩
  next e he =>
    have hsub : ∀ k e', (s.providerCache.erase tableName).find? k = some e' →
        s.providerCache.find? k = some e' ∧ fold k ≠ fold tableName := by
      intro k e' hk
      rw [CIMap.find?_erase] at hk
      split_ifs at hk with hfold
      exact ⟨hk, hfold⟩
    refine ⟨⟨fun hs => ⟨?_, ?_, ?_, ?_⟩, Nat.le_refl _, ?_, fun k e' hk => .inl (hsub k e' hk).1⟩,
      rfl, fun k hk => ?_⟩
    · rintro e' (⟨k, hk⟩ | hretired)
      · exact hs.bound e' (.inl ⟨k, (hsub k e' hk).1⟩)
      · rcases List.mem_append.1 hretired with hretired | hlast
        · exact hs.bound e' (.inr hretired)
        · obtain rfl := List.mem_singleton.1 hlast
          exact hs.bound e' (.inl ⟨tableName, he⟩)
    · intro k k' e₁ e₂ hk hk'
      exact hs.cached k k' e₁ e₂ (hsub k e₁ hk).1 (hsub k' e₂ hk').1
    · intro k e₁ hk e₂ hretired heq
      rcases List.mem_append.1 hretired with hretired | hlast
      · exact hs.apart k e₁ (hsub k e₁ hk).1 e₂ hretired heq
      · obtain rfl := List.mem_singleton.1 hlast
        exact (hsub k e₁ hk).2 (hs.cached k tableName e₁ e₂ (hsub k e₁ hk).1 he heq)
    · show ((s.retiredProviderEntries ++ [e]).map _).Nodup
      rw [List.map_append, List.nodup_append]
      refine ⟨hs.retired, List.nodup_singleton _, ?_⟩
      rintro a ha b hb rfl
      obtain ⟨e', he', rfl⟩ := List.mem_map.1 ha
      exact hs.apart tableName e he e' he' (List.mem_singleton.1 hb).symm
    · rintro e' (⟨k, hk⟩ | hretired)
      · by_cases hfold : fold k = fold tableName
        · rw [CIMap.find?_congr _ hfold, he] at hk
          cases hk
          exact .inr (List.mem_append_right _ (List.mem_singleton_self e))
        · refine .inl ⟨k, ?_⟩
          show (s.providerCache.erase tableName).find? k = _
          rw [CIMap.find?_erase, if_neg hfold]
          exact hk
      · exact .inr (List.mem_append_left _ hretired)
    · show (s.providerCache.erase tableName).find? k = none
      rw [CIMap.find?_erase, if_pos hk]

/-! ### What a call hands out -/

variable (udf : SchemaUdf T) (info : ProviderInfo)

/-- One table: what is handed out is in the cache. -/
theorem grows_getOrQueryProviderEntry (s : ProviderSchemaEntry T) (n : String) :
    s.Grows (s.getOrQueryProviderEntry udf info n).2 ∧
      ∀ e, (s.getOrQueryProviderEntry udf info n).1 = .ok (some e) →
        (s.getOrQueryProviderEntry udf info n).2.providerCache.find? n = some e := by
  unfold getOrQueryProviderEntry
  split
  next e he => exact ⟨.refl s, fun e' he' => by cases he'; exact he⟩
  next hnone =>
    split
    · exact ⟨.refl s, fun e he => by cases he⟩
    · exact ⟨.refl s, fun e he => by cases he⟩
    next decoded _ =>
      refine ⟨grows_fill rfl hnone, fun e he => ?_⟩
      cases he
      show (s.providerCache.insert n _).find? n = _
      rw [CIMap.find?_insert, if_pos rfl]

/-- A scan: what it hands out is in the cache at its end. -/
theorem grows_scanNames (seen : CISet) (names : List String) (s : ProviderSchemaEntry T) :
    s.Grows (s.scanNames udf info seen names).2 ∧
      ∀ es, (s.scanNames udf info seen names).1 = .ok es → ∀ e ∈ es,
        ∃ k, (s.scanNames udf info seen names).2.providerCache.find? k = some e := by
  induction names generalizing seen s with
  | nil =>
    refine ⟨.refl s, fun es hes e he => ?_⟩
    cases hes
    cases he
  | cons n names ih =>
    rw [scanNames]
    split_ifs
    · exact ih seen s
    · obtain ⟨hgrows, hcached⟩ := grows_getOrQueryProviderEntry udf info s n
      rcases hget : s.getOrQueryProviderEntry udf info n with ⟨r, s'⟩
      rw [hget] at hgrows hcached
      rcases r with x | _ | e
      · exact ⟨hgrows, fun es hes => by cases hes⟩
      · obtain ⟨hrest, hes⟩ := ih seen s'
        exact ⟨hgrows.trans hrest, hes⟩
      · obtain ⟨hrest, hes⟩ := ih (seen.add n) s'
        refine ⟨hgrows.trans hrest, fun es hmap => ?_⟩
        dsimp only at hmap ⊢
        rcases hscan : s'.scanNames udf info (seen.add n) names with ⟨r, s''⟩
        rw [hscan] at hrest hes hmap
        cases r with
        | error x => cases hmap
        | ok es' =>
          cases hmap
          exact List.forall_mem_cons.2 ⟨⟨n, hrest.kept n e (hcached e rfl)⟩, hes es' rfl⟩

/-- The permissions. -/
theorem grows_collectNames (tableFilter : Option String) (names : List String) (acc : Collected)
    (s : ProviderSchemaEntry T) : s.Grows (s.collectNames udf info tableFilter names acc).2 := by
  induction names generalizing acc s with
  | nil => exact .refl s
  | cons n names ih =>
    rw [collectNames]
    split_ifs
    · exact ih acc s
    · obtain ⟨hgrows, -⟩ := grows_getOrQueryProviderEntry udf info s n
      rcases hget : s.getOrQueryProviderEntry udf info n with ⟨r, s'⟩
      rw [hget] at hgrows
      cases r with
      | error x => exact hgrows
      | ok entry => exact hgrows.trans (ih _ s')

/-- A lookup hands out an entry of its cache. -/
theorem follows_lookupExtensionEntry (s : ProviderSchemaEntry T) (tables : ListedTables)
    (udf : SchemaUdf T) (name : String) :
    s.Follows (s.lookupExtensionEntry udf tables name).2 ∧
      ∀ e, (s.lookupExtensionEntry udf tables name).1 = .ok (some e) →
        ∃ k, (s.lookupExtensionEntry udf tables name).2.providerCache.find? k = some e := by
  have hrefreshed := follows_refreshedTables s tables
  unfold lookupExtensionEntry
  dsimp only
  split
  next info n _ _ =>
    obtain ⟨hgrows, hcached⟩ := grows_getOrQueryProviderEntry udf info (s.refreshedTables tables) n
    exact ⟨hrefreshed.trans hgrows.toFollows, fun e he => ⟨n, hcached e he⟩⟩
  next => exact ⟨hrefreshed, fun e he => by cases he⟩

/-- A scan hands out entries of its cache. -/
theorem follows_scanExtensionEntries (s : ProviderSchemaEntry T) (tables : ListedTables)
    (udf : SchemaUdf T) (seen : CISet) :
    s.Follows (s.scanExtensionEntries udf tables seen).2 ∧
      ∀ es, (s.scanExtensionEntries udf tables seen).1 = .ok es → ∀ e ∈ es,
        ∃ k, (s.scanExtensionEntries udf tables seen).2.providerCache.find? k = some e := by
  have hrefreshed := follows_refreshedTables s tables
  unfold scanExtensionEntries
  dsimp only
  split
  · refine ⟨hrefreshed, fun es hes e he => ?_⟩
    cases hes
    cases he
  next info _ =>
    obtain ⟨hgrows, hcached⟩ :=
      grows_scanNames udf info seen tables.names (s.refreshedTables tables)
    exact ⟨hrefreshed.trans hgrows.toFollows, hcached⟩

theorem follows_collectPermissions (s : ProviderSchemaEntry T) (native : NativeSchema)
    (tables : ListedTables) (tableFilter : Option String) (udf : SchemaUdf T) :
    s.Follows (s.collectPermissions udf native tables tableFilter).2 := by
  have hrefreshed := follows_refreshedTables s tables
  unfold collectPermissions collectExtensionPermissions
  dsimp only
  split
  · exact hrefreshed
  · exact hrefreshed.trans (grows_collectNames _ _ _ _ _ _).toFollows

theorem follows_tryAlterExtensionEntry (s : ProviderSchemaEntry T) (tables : ListedTables)
    (tableName : String) (alter : ProviderAlter) (text : String) :
    s.Follows (s.tryAlterExtensionEntry tables tableName alter text).2 := by
  unfold tryAlterExtensionEntry
  dsimp only
  split <;> exact follows_refreshedTables s tables

end ProviderSchemaEntry

/-! ### Runs -/

namespace AlteredSchema

variable {T : Type} {s s' : AlteredSchema T}

/-- The entry was made after each `ALTER` of its table that has returned. -/
def MadeAfter (s : AlteredSchema T) (e : ProviderEntry T) : Prop :=
  ∀ a ∈ s.altered, fold a.1 = fold e.name → a.2 ≤ e.address

/-- The invariant. -/
structure Ok (s : AlteredSchema T) : Prop where
  sound : s.schema.Sound
  marks : ∀ a ∈ s.altered, a.2 ≤ s.schema.made
  cached : ∀ k e, s.schema.providerCache.find? k = some e → s.MadeAfter e

/-- A step keeps the entries. -/
theorem follows_next {l : Label T} (h : s.next l = some s') : s.schema.Follows s'.schema := by
  cases l with
  | list tables =>
    cases h
    exact .refl _
  | lookup name udf =>
    cases h
    exact (ProviderSchemaEntry.follows_lookupExtensionEntry _ _ _ _).1
  | scan seen udf =>
    cases h
    exact (ProviderSchemaEntry.follows_scanExtensionEntries _ _ _ _).1
  | permissions native tableFilter udf =>
    cases h
    exact ProviderSchemaEntry.follows_collectPermissions _ _ _ _ _
  | alter name change text raised =>
    have hfollows := ProviderSchemaEntry.follows_tryAlterExtensionEntry s.schema s.tables name
      change text
    unfold next at h
    dsimp only at h
    split at h <;> cases h <;> exact hfollows
  | evict name =>
    unfold next at h
    dsimp only at h
    split_ifs at h
    cases h
    exact (ProviderSchemaEntry.follows_evict s.schema name).1

/-- What a call hands out of a cache that the invariant's grew to was made after the `ALTER`s. -/
theorem Ok.madeAfter (h : s.Ok) {schema : ProviderSchemaEntry T}
    (hfollows : s.schema.Follows schema) {k : String} {e : ProviderEntry T}
    (he : schema.providerCache.find? k = some e) : s.MadeAfter e := by
  rcases hfollows.fresh k e he with hold | hnew
  · exact h.cached k e hold
  · exact fun a ha _ => (h.marks a ha).trans hnew

/-- A step that lets no `ALTER` return keeps the invariant. -/
theorem Ok.of_altered (h : s.Ok) (hfollows : s.schema.Follows s'.schema)
    (haltered : s'.altered = s.altered) : s'.Ok := by
  refine ⟨hfollows.sound h.sound, fun a ha => ?_, fun k e he a ha => ?_⟩
  · rw [haltered] at ha
    exact (h.marks a ha).trans hfollows.made
  · rw [haltered] at ha
    exact h.madeAfter hfollows he a ha

/-- Each step keeps the invariant. -/
theorem Ok.next {l : Label T} (h : s.Ok) (hs : s.next l = some s') : s'.Ok := by
  have hfollows := follows_next hs
  cases l with
  | list tables =>
    cases hs
    exact h.of_altered hfollows rfl
  | lookup name udf =>
    cases hs
    exact h.of_altered hfollows rfl
  | scan seen udf =>
    cases hs
    exact h.of_altered hfollows rfl
  | permissions native tableFilter udf =>
    cases hs
    exact h.of_altered hfollows rfl
  | alter name change text raised =>
    refine h.of_altered hfollows ?_
    unfold AlteredSchema.next at hs
    dsimp only at hs
    split at hs <;> cases hs <;> rfl
  | evict name =>
    unfold AlteredSchema.next at hs
    dsimp only at hs
    split_ifs at hs
    cases hs
    obtain ⟨-, hmade, hnone⟩ := ProviderSchemaEntry.follows_evict s.schema name
    refine ⟨hfollows.sound h.sound, fun a ha => ?_, fun k e he a ha hname => ?_⟩
    · show a.2 ≤ (s.schema.evict name).made
      rw [hmade]
      rcases List.mem_cons.1 ha with rfl | ha
      · exact Nat.le_refl _
      · exact h.marks a ha
    · rcases List.mem_cons.1 ha with rfl | ha
      · -- the table has no entry
        have hfold : fold k = fold name :=
          ((s.schema.evict name).filed k e he).symm.trans hname.symm
        have hcached := hnone k hfold
        rw [he] at hcached
        cases hcached
      · exact h.madeAfter hfollows he a ha hname

/-- A wrapper before any call. -/
theorem ok_start (name : String) (tables : ListedTables) :
    (⟨{ name }, tables, [], []⟩ : AlteredSchema T).Ok := by
  refine ⟨⟨?_, ?_, ?_, .nil⟩, ?_, ?_⟩
  · rintro e (⟨k, hk⟩ | hretired)
    · cases hk
    · cases hretired
  · intro k k' e e' hk
    cases hk
  · intro k e hk
    cases hk
  · intro a ha
    cases ha
  · intro k e hk
    cases hk

end AlteredSchema

/-- **No entry is ever freed, and none is stale after its `ALTER`**: whatever calls and `ALTER`s of
any threads interleave, whatever the provider lists and answers meanwhile and whichever calls raise,
the wrapper owns each entry that it ever owned, once; and a lookup or a scan hands out entries that
it owns, of which each was made, from a schema that was asked for, after every `ALTER` of its table
that has returned, however that spelled the name. -/
theorem altered_entries {T : Type} {name : String} {listed : ListedTables}
    {ls : List (AlteredSchema.Label T)} {s : AlteredSchema T}
    (hrun : AlteredSchema.altering.Run Machine.Free ⟨{ name }, listed, [], []⟩ ls s) :
    s.schema.Sound ∧
      (∀ ls' s', AlteredSchema.altering.Run Machine.Free s ls' s' →
        ∀ e, s.schema.Owns e → s'.schema.Owns e) ∧
      (∀ n udf e, (s.schema.lookupExtensionEntry udf s.tables n).1 = .ok (some e) →
        (s.schema.lookupExtensionEntry udf s.tables n).2.Owns e ∧ s.MadeAfter e) ∧
      ∀ seen udf es, (s.schema.scanExtensionEntries udf s.tables seen).1 = .ok es → ∀ e ∈ es,
        (s.schema.scanExtensionEntries udf s.tables seen).2.Owns e ∧ s.MadeAfter e := by
  have h : s.Ok := hrun.invariant (AlteredSchema.ok_start name listed) fun _ _ _ hok _ hs =>
    hok.next hs
  refine ⟨h.sound, fun ls' s' hrun' => ?_, fun n udf e he => ?_, fun seen udf es hes e he => ?_⟩
  · exact (hrun'.relate (fun s => .refl s.schema) (fun _ _ _ h h' => h.trans h')
      fun _ _ _ _ hs => AlteredSchema.follows_next hs).owned
  · obtain ⟨hfollows, hcached⟩ :=
      ProviderSchemaEntry.follows_lookupExtensionEntry s.schema s.tables udf n
    obtain ⟨k, hk⟩ := hcached e he
    exact ⟨.inl ⟨k, hk⟩, h.madeAfter hfollows hk⟩
  · obtain ⟨hfollows, hcached⟩ :=
      ProviderSchemaEntry.follows_scanExtensionEntries s.schema s.tables udf seen
    obtain ⟨k, hk⟩ := hcached es hes e he
    exact ⟨.inl ⟨k, hk⟩, h.madeAfter hfollows hk⟩

namespace Sample

/-- The table has these columns. -/
def columnsAre (columns : List String) : SchemaUdf Unit := fun _ =>
  .ok (some ⟨columns.map (·, ()), []⟩)

/-- A table is looked up and altered, under another spelling. -/
def alteredOrders : List (AlteredSchema.Label Unit) :=
  [.lookup "orders" (columnsAre ["id"]),
    .alter "ORDERS" (.addColumn "note" "VARCHAR") "ADD COLUMN" false, .evict "ORDERS"]

end Sample

/-- The lookup after the `ALTER` finds an entry that is not the first. -/
theorem altered_entries_orders :
    ∃ s e, AlteredSchema.altering.Run Machine.Free ⟨{ name := "main" }, Sample.oneTable, [], []⟩
        Sample.alteredOrders s ∧
      (s.schema.lookupExtensionEntry (Sample.columnsAre ["id", "note"]) s.tables
        "orders").1 = .ok (some e) ∧ 1 ≤ e.address := by
  obtain ⟨s, e, hexec, haltered, he, hname⟩ : ∃ s e, AlteredSchema.altering.exec
      ⟨{ name := "main" }, Sample.oneTable, [], []⟩ Sample.alteredOrders = some s ∧
      s.altered = [("ORDERS", 1)] ∧
      (s.schema.lookupExtensionEntry (Sample.columnsAre ["id", "note"]) s.tables
        "orders").1 = .ok (some e) ∧ fold e.name = fold "ORDERS" :=
    ⟨_, _, rfl, rfl, rfl, by decide⟩
  have hrun := Machine.run_of_exec hexec
  obtain ⟨-, hafter⟩ := (altered_entries hrun).2.2.1 "orders" _ e he
  exact ⟨s, e, hrun, he,
    hafter ("ORDERS", 1) (haltered ▸ List.mem_singleton_self _) hname.symm⟩

end Provider

end VirtualCatalog
