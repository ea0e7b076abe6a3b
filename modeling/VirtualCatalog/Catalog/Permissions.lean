import VirtualCatalog.Bridge.CreateTable

/-!
# Reported permissions

`table_permissions` reports a row for each table and view of a catalog: its kind, its key and the
verbs that it accepts.  Entries that DuckDB itself keeps are classified by their type.

* `CatalogEntry` : a table or view of a schema, as a scan yields it.
* `NativeSchema` : the entries that SQL created in a schema.
* `collectNativeSchemaPermissions` : the rows of the entries that two scans yield.
* `collectNative_rows` : the rows of a schema that holds each name once.
-/

namespace VirtualCatalog

/-- `CatalogType`, of the entries that tables and views share a set with. -/
inductive CatalogType where
  | table
  | view
deriving DecidableEq

/-- A table or view, as a scan yields it; no two entries have one address. -/
structure CatalogEntry where
  address : Nat
  name : String
  type : CatalogType
  constraints : List TableConstraint := []

/-- What SQL created in the wrapped schema, as the transaction sees it. -/
structure NativeSchema where
  entries : List CatalogEntry
  nodup : entries.Pairwise fun e e' => fold e.name ≠ fold e'.name

/-- `LookupEntry` of the wrapped schema. -/
def NativeSchema.lookupEntry (native : NativeSchema) (name : String) : Option CatalogEntry :=
  native.entries.find? fun e => ciEq e.name name

/-- `CollectNativeNames`. -/
def NativeSchema.names (native : NativeSchema) : CISet :=
  CISet.ofList (native.entries.map (·.name))

/-- `TablePermissionRow`. -/
structure TablePermissionRow where
  schema : String
  name : String
  kind : String
  primaryKey : List String
  verbs : List String
deriving DecidableEq

/-- `NativeTablePrimaryKey`, which reads the constraints like `DiscoverKeyColumns`. -/
def nativeTablePrimaryKey (entry : CatalogEntry) : List String :=
  discoverKeyColumns entry.constraints

/-- The verbs of a table that DuckDB keeps. -/
def nativeVerbs : List String := ["select", "insert", "update", "delete", "alter"]

/-- The row of an entry that DuckDB keeps. -/
def nativeRow (schemaName : String) (entry : CatalogEntry) : TablePermissionRow :=
  match entry.type with
  | .view => ⟨schemaName, entry.name, "native_view", [], ["select"]⟩
  | .table => ⟨schemaName, entry.name, "native_table", nativeTablePrimaryKey entry, nativeVerbs⟩

/-- The name passes the filter, if there is one. -/
def passesFilter (tableFilter : Option String) (name : String) : Bool :=
  tableFilter.all (ciEq name ·)

/-- The names that have a row, and the rows. -/
structure Collected where
  seen : CISet := ∅
  out : List TablePermissionRow := []

/-- Another row. -/
def Collected.push (acc : Collected) (row : TablePermissionRow) : Collected :=
  ⟨acc.seen.add row.name, acc.out ++ [row]⟩

/-- The name gets no row: it does not pass the filter, or has one. -/
def Collected.skips (acc : Collected) (tableFilter : Option String) (name : String) : Bool :=
  !passesFilter tableFilter name || acc.seen.contains name

/-- The callback of `CollectNativeSchemaPermissions`. -/
def Collected.visit (schemaName : String) (tableFilter : Option String) (acc : Collected)
    (entry : CatalogEntry) : Collected :=
  if acc.skips tableFilter entry.name then acc else acc.push (nativeRow schemaName entry)

/-- `CollectNativeSchemaPermissions`, where the scan for tables yields `tables` and the one for
views `views`. -/
def collectNativeSchemaPermissions (schemaName : String) (tableFilter : Option String)
    (tables views : List CatalogEntry) (acc : Collected) : Collected :=
  views.foldl (Collected.visit schemaName tableFilter)
    (tables.foldl (Collected.visit schemaName tableFilter) acc)

theorem NativeSchema.contains_names {native : NativeSchema} {n : String} :
    native.names.contains n = native.entries.any fun e => ciEq n e.name := by
  rw [NativeSchema.names, CISet.contains_ofList, List.any_map]
  rfl

theorem NativeSchema.lookupEntry_eq_none {native : NativeSchema} {n : String}
    (h : native.names.contains n = false) : native.lookupEntry n = none := by
  rw [NativeSchema.contains_names, List.any_eq_false] at h
  refine List.find?_eq_none.2 fun e he heq => h e he ?_
  rw [ciEq_iff] at heq ⊢
  exact heq.symm

/-! ### The rows -/

section

variable {schemaName : String} {tableFilter : Option String} {acc : Collected}
  {entries : List CatalogEntry}

@[simp] theorem nativeRow_name (entry : CatalogEntry) :
    (nativeRow schemaName entry).name = entry.name := by
  rw [nativeRow]
  split <;> rfl

theorem passesFilter_congr {n n' : String} (h : fold n = fold n') :
    passesFilter tableFilter n = passesFilter tableFilter n' := by
  rw [passesFilter, passesFilter]
  cases tableFilter with
  | none => rfl
  | some f => simp only [Option.all_some, ciEq, h]

theorem Collected.contains_push (row : TablePermissionRow) (n : String) :
    (acc.push row).seen.contains n = (ciEq n row.name || acc.seen.contains n) :=
  CIMap.contains_insert _ _ _ _

/-- Entries that pass the filter and were seen before add nothing. -/
theorem foldl_visit_seen
    (h : ∀ e ∈ entries, passesFilter tableFilter e.name = true → acc.seen.contains e.name = true) :
    entries.foldl (Collected.visit schemaName tableFilter) acc = acc := by
  induction entries with
  | nil => rfl
  | cons e entries ih =>
    obtain ⟨he, hrest⟩ := List.forall_mem_cons.1 h
    have hskip : acc.skips tableFilter e.name = true := by
      rw [Collected.skips]
      cases hp : passesFilter tableFilter e.name with
      | false => rfl
      | true => rw [he hp]; rfl
    rw [List.foldl_cons, Collected.visit, if_pos hskip]
    exact ih hrest

/-- Entries with different names that were not seen before have a row each. -/
theorem foldl_visit_fresh (schemaName : String) (tableFilter : Option String) (acc : Collected)
    (hnodup : entries.Pairwise fun e e' => fold e.name ≠ fold e'.name)
    (hfresh : ∀ e ∈ entries, acc.seen.contains e.name = false) :
    (entries.foldl (Collected.visit schemaName tableFilter) acc).out =
      acc.out ++ (entries.filter fun e => passesFilter tableFilter e.name).map
        (nativeRow schemaName) ∧
    ∀ n, (entries.foldl (Collected.visit schemaName tableFilter) acc).seen.contains n =
      (acc.seen.contains n ||
        entries.any fun e => passesFilter tableFilter e.name && ciEq n e.name) := by
  induction entries generalizing acc with
  | nil => exact ⟨(List.append_nil _).symm, fun n => (Bool.or_false _).symm⟩
  | cons e entries ih =>
    obtain ⟨hhead, htail⟩ := List.pairwise_cons.1 hnodup
    obtain ⟨he, hrest⟩ := List.forall_mem_cons.1 hfresh
    rw [List.foldl_cons, Collected.visit, Collected.skips, he, Bool.or_false]
    by_cases hp : passesFilter tableFilter e.name = true
    · have hfresh' : ∀ e' ∈ entries,
          (acc.push (nativeRow schemaName e)).seen.contains e'.name = false := by
        intro e' he'
        rw [Collected.contains_push, nativeRow_name, hrest e' he', Bool.or_false, ciEq,
          decide_eq_false (hhead e' he').symm]
      obtain ⟨hout, hseen⟩ := ih _ htail hfresh'
      rw [if_neg (by rw [hp]; decide)]
      refine ⟨?_, fun n => ?_⟩
      · rw [hout, List.filter_cons, if_pos hp, List.map_cons, ← List.singleton_append,
          ← List.append_assoc]
        rfl
      · rw [hseen n, List.any_cons, hp, Bool.true_and, Collected.contains_push, nativeRow_name,
          Bool.or_assoc, Bool.or_left_comm]
    · obtain ⟨hout, hseen⟩ := ih acc htail hrest
      rw [if_pos (by rw [Bool.of_not_eq_true hp]; rfl)]
      refine ⟨?_, fun n => ?_⟩
      · rw [hout, List.filter_cons, if_neg hp]
      · rw [hseen n, List.any_cons, Bool.of_not_eq_true hp, Bool.false_and, Bool.false_or]

/-- **The rows of a schema** that holds each name once: one for each entry that passes the filter,
although tables and views share one set and both scans yield it. -/
theorem collectNative_rows (schemaName : String) (tableFilter : Option String)
    (hnodup : entries.Pairwise fun e e' => fold e.name ≠ fold e'.name) :
    (collectNativeSchemaPermissions schemaName tableFilter entries entries {}).out =
      (entries.filter fun e => passesFilter tableFilter e.name).map (nativeRow schemaName) ∧
    ∀ n,
      (collectNativeSchemaPermissions schemaName tableFilter entries entries {}).seen.contains n =
        entries.any fun e => passesFilter tableFilter e.name && ciEq n e.name := by
  obtain ⟨hout, hseen⟩ := foldl_visit_fresh schemaName tableFilter {} hnodup fun e _ => rfl
  rw [collectNativeSchemaPermissions, foldl_visit_seen]
  · refine ⟨hout.trans (List.nil_append _), fun n => ?_⟩
    rw [hseen n]
    exact Bool.false_or _
  · intro e he hp
    rw [hseen, Bool.or_eq_true, List.any_eq_true]
    exact .inr ⟨e, he, by rw [hp, ciEq_self, Bool.and_self]⟩

end

end VirtualCatalog
