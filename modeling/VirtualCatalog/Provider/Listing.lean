import Mathlib.Data.List.Induction
import VirtualCatalog.Machine.Fallible
import VirtualCatalog.Names.CaseInsensitive
import VirtualCatalog.Names.Separators

/-!
# Names between a catalog and its Python providers

Python serves one catalog with a provider for each schema (`CatalogProviders`).  `doList` joins
what they list into one text, `refreshProviderNames` cuts that text into schemas and tables, the
catalog shows them next to what SQL created, and every call the extension makes for a table
carries a joined name, which `CatalogProviders.split` cuts once more.

* `refreshProviderNames_ok_iff` : which texts a list call is accepted with, and as what.
* `lookupEntry_of_mem_shown`, `mem_shown_of_lookupEntry` : what the catalog shows is what it finds.
* `RoutesBack` : every listed table is shown as listed, and each call for it reaches its provider.
* `routesBack_iff` : this is so, or the list is refused, exactly for the names of `RoutableNames`
  and for the texts with a piece that is no qualified name.
-/

namespace VirtualCatalog

namespace Provider

/-- The operations of a provider; the extension knows a UDF for each. -/
inductive Op where
  | list
  | schema
  | scan
  | insert
  | update
  | delete
  | alter
deriving DecidableEq, Repr

/-- `_OPTIONAL_OPS`. -/
def Op.optional : List Op := [.insert, .update, .delete, .alter]

/-- `_ALL_OPS`. -/
def Op.all : List Op := [.list, .schema, .scan, .insert, .update, .delete, .alter]

/-- The UDFs of a catalog; an empty name stands for an operation that is not implemented. -/
structure ProviderInfo where
  udf : Op → String

/-- Only the optional operations are looked up before they are called. -/
def ProviderInfo.calls (info : ProviderInfo) (op : Op) : Bool :=
  !Op.optional.contains op || info.udf op != ""

/-- The exceptions of the provider side. -/
inductive ProviderError where
  | invalidInput (message : String)
  | io (message : String)
  | constraint (message : String)
  | internal (message : String)
  | outOfRange (message : String)
  | udf (message : String)
deriving DecidableEq

/-! ### Joined names -/

/-- `schema.table`. -/
def qualifiedName (schema table : String) : String := schema ++ "." ++ table

@[simp] theorem toList_qualifiedName (schema table : String) :
    (qualifiedName schema table).toList = schema.toList ++ '.' :: table.toList := by
  simp [qualifiedName]

/-- `str.rpartition(".")` without the separator. -/
def rpartition (name : String) : String × String :=
  match Separators.cutLast '.' name.toList with
  | none => ("", name)
  | some (before, after) => (String.ofList before, String.ofList after)

/-- Whatever the name is, no separator is left in the last part. -/
theorem not_mem_rpartition (name : String) : '.' ∉ (rpartition name).2.toList := by
  unfold rpartition
  cases h : Separators.cutLast '.' name.toList with
  | none => exact Separators.cutLast_eq_none.1 h
  | some p =>
    obtain ⟨before, after⟩ := p
    simpa using (Separators.cutLast_eq_some.1 h).2

theorem rpartition_qualifiedName {schema table : String} (h : '.' ∉ table.toList) :
    rpartition (qualifiedName schema table) = (schema, table) := by
  have hcut : Separators.cutLast '.' (qualifiedName schema table).toList =
      some (schema.toList, table.toList) :=
    Separators.cutLast_eq_some.2 ⟨toList_qualifiedName _ _, h⟩
  unfold rpartition
  rw [hcut]
  simp

/-! ### The Python side -/

variable {P : Type*}

/-- `_CatalogProviders`: the provider of each schema, and what each lists. -/
structure CatalogProviders (P : Type*) where
  /-- `self.providers`, a dictionary. -/
  providers : AList fun _ : String => P
  /-- `Provider.list_tables`. -/
  listTables : P → List String

namespace CatalogProviders

/-- The tables `_do_list` reports, each with the schema of its provider. -/
def reported (c : CatalogProviders P) : List (String × String) :=
  c.providers.entries.flatMap fun e => (c.listTables e.2).map (e.1, ·)

/-- `_do_list`. -/
def doList (c : CatalogProviders P) : String :=
  "|".intercalate (c.reported.map fun e => qualifiedName e.1 e.2)

/-- `_split`: the provider a qualified name belongs to, and the name of its table there;
`none` is `TableNotFound`. -/
def split (c : CatalogProviders P) (name : String) : Option (P × String) :=
  (c.providers.lookup (rpartition name).1).map (·, (rpartition name).2)

theorem mem_reported {c : CatalogProviders P} {schema table : String} :
    (schema, table) ∈ c.reported ↔
      ∃ p, c.providers.lookup schema = some p ∧ table ∈ c.listTables p := by
  simp only [reported, List.mem_flatMap, List.mem_map, Prod.mk.injEq]
  constructor
  · rintro ⟨⟨s, p⟩, he, t, ht, rfl, rfl⟩
    exact ⟨p, AList.mem_lookup_iff.2 he, ht⟩
  · rintro ⟨p, hp, ht⟩
    exact ⟨⟨schema, p⟩, AList.mem_lookup_iff.1 hp, table, ht, rfl, rfl⟩

theorem toList_doList (c : CatalogProviders P) :
    c.doList.toList =
      ['|'].intercalate (c.reported.map fun e => (qualifiedName e.1 e.2).toList) := by
  simp [doList, String.toList_intercalate, Function.comp_def]

theorem split_qualifiedName {c : CatalogProviders P} {schema table : String}
    (h : '.' ∉ table.toList) :
    c.split (qualifiedName schema table) = (c.providers.lookup schema).map (·, table) := by
  rw [split, rpartition_qualifiedName h]

/-- What `_split` hands to a provider is free of the separator. -/
theorem not_mem_of_split {c : CatalogProviders P} {name table : String} {p : P}
    (h : c.split name = some (p, table)) : '.' ∉ table.toList := by
  obtain ⟨_, _, heq⟩ := Option.map_eq_some_iff.1 h
  obtain ⟨_, rfl⟩ := Prod.mk.inj heq
  exact not_mem_rpartition name

end CatalogProviders

/-! ### The list call -/

/-- `StringUtil::Split`. -/
def stringUtilSplit (s : String) (delimiter : Char) : List String :=
  (Separators.pieces delimiter s.toList).map String.ofList

/-- Cut one listed name at its first separator. -/
def splitQualified (entry : String) : Except ProviderError (String × String) :=
  match Separators.cutFirst '.' entry.toList with
  | none => .error (unqualified entry)
  | some (schema, table) =>
    if schema = [] ∨ table = [] then .error (unqualified entry)
    else .ok (String.ofList schema, String.ofList table)
where
  /-- The text of the refusal. -/
  unqualified (entry : String) : ProviderError :=
    .invalidInput ("vcatprovider: list UDF returned '" ++ entry
      ++ "'; names must be qualified as schema.table")

/-- `grouped[schema].push_back(table)` for each listed name. -/
def group (entries : List (String × String)) : CIMap (List String) :=
  entries.foldl (fun m e => m.insert e.1 ((m.find? e.1).getD [] ++ [e.2])) ∅

/-- `RefreshProviderNames`, from the text the list UDF returned to the tables of each schema. -/
def refreshProviderNames (listed : String) : Except ProviderError (CIMap (List String)) := do
  let qualified := if listed = "" then [] else stringUtilSplit listed '|'
  let entries ← qualified.mapM splitQualified
  return group entries

/-- A listed name with a schema and a table part, cut at the first separator. -/
def IsQualified (entry schema table : String) : Prop :=
  entry = qualifiedName schema table ∧ '.' ∉ schema.toList ∧ schema ≠ "" ∧ table ≠ ""

theorem isQualified_iff {entry schema table : String} : IsQualified entry schema table ↔
    Separators.cutFirst '.' entry.toList = some (schema.toList, table.toList) ∧
      schema ≠ "" ∧ table ≠ "" := by
  rw [Separators.cutFirst_eq_some, ← toList_qualifiedName, String.toList_inj, and_assoc]
  rfl

/-- An accepted name is cut into the parts it is qualified by. -/
theorem splitQualified_eq_ok {entry : String} {x : String × String} :
    splitQualified entry = .ok x ↔ IsQualified entry x.1 x.2 := by
  obtain ⟨schema, table⟩ := x
  rw [isQualified_iff]
  unfold splitQualified
  cases Separators.cutFirst '.' entry.toList with
  | none => simp
  | some p =>
    obtain ⟨before, after⟩ := p
    have hlist : ∀ (l : List Char) (s : String), String.ofList l = s ↔ l = s.toList :=
      fun l s => by rw [← String.toList_inj, String.toList_ofList]
    dsimp only
    split_ifs with he
    · simp only [Option.some.injEq, Prod.mk.injEq, false_iff]
      rintro ⟨⟨rfl, rfl⟩, hs, ht⟩
      simp [hs, ht] at he
    · rw [not_or] at he
      simp only [Except.ok.injEq, Prod.mk.injEq, hlist, Option.some.injEq]
      constructor
      · rintro ⟨rfl, rfl⟩
        simpa using he
      · exact And.left

/-- **A list call succeeds** exactly if every piece of its text is a qualified name; the tables
are grouped by the parts of the names. -/
theorem refreshProviderNames_ok_iff {listed : String} {tables : CIMap (List String)} :
    refreshProviderNames listed = .ok tables ↔
      ∃ entries, List.Forall₂ (fun e x => IsQualified e x.1 x.2) (stringUtilSplit listed '|')
        entries ∧ tables = group entries := by
  have hempty : (if listed = "" then [] else stringUtilSplit listed '|') =
      stringUtilSplit listed '|' := by
    split_ifs with h
    · simp [h, stringUtilSplit]
    · rfl
  simp only [refreshProviderNames, hempty, bind_eq_ok_iff, mapM_eq_ok, splitQualified_eq_ok]
  constructor
  · rintro ⟨entries, h, heq⟩
    cases heq
    exact ⟨entries, h, rfl⟩
  · rintro ⟨entries, h, rfl⟩
    exact ⟨entries, h, rfl⟩

/-! ### The tables of a schema -/

/-- The tables listed under a schema, in the order of the list. -/
def tablesOf (entries : List (String × String)) (schema : String) : List String :=
  (entries.filter fun e => ciEq schema e.1).map Prod.snd

theorem mem_tablesOf {entries : List (String × String)} {schema table : String} :
    table ∈ tablesOf entries schema ↔ ∃ s, (s, table) ∈ entries ∧ fold schema = fold s := by
  simp only [tablesOf, List.mem_map, List.mem_filter, ciEq_iff, Prod.exists, exists_eq_right]

theorem tablesOf_congr (entries : List (String × String)) {s s' : String} (h : fold s = fold s') :
    tablesOf entries s = tablesOf entries s' := by
  simp only [tablesOf, ciEq, h]

theorem group_concat (entries : List (String × String)) (e : String × String) :
    group (entries ++ [e]) =
      (group entries).insert e.1 (((group entries).find? e.1).getD [] ++ [e.2]) := by
  simp [group]

theorem getD_find?_group (entries : List (String × String)) (schema : String) :
    ((group entries).find? schema).getD [] = tablesOf entries schema := by
  induction entries using List.reverseRecOn generalizing schema with
  | nil => simp [group, tablesOf]
  | append_singleton entries e ih =>
    rw [group_concat, CIMap.find?_insert, ih]
    split_ifs with h
    · rw [Option.getD_some, tablesOf_congr _ h.symm]
      simp [tablesOf, ciEq_iff.2 h]
    · have hne : ciEq schema e.1 = false := by simp [ciEq, h]
      rw [ih]
      simp [tablesOf, hne]

/-- A schema of the list has an entry, spelled as one of its names spells it. -/
theorem entryAt_group_spelled {entries : List (String × String)} {schema s : String}
    {tables : List String} (h : (group entries).entryAt schema = some (s, tables)) :
    ∃ t, (s, t) ∈ entries := by
  induction entries using List.reverseRecOn generalizing schema tables with
  | nil => simp [group] at h
  | append_singleton entries e ih =>
    rw [group_concat, CIMap.entryAt_insert] at h
    split_ifs at h with hk
    · obtain ⟨hs, -⟩ := Prod.mk.inj (Option.some.inj h)
      cases he : (group entries).entryAt e.1 with
      | none =>
        rw [he] at hs
        exact ⟨e.2, by simp [← hs]⟩
      | some q =>
        rw [he] at hs
        obtain ⟨t, ht⟩ := ih (he.trans (by rw [← hs]; rfl))
        exact ⟨t, List.mem_append_left _ ht⟩
    · obtain ⟨t, ht⟩ := ih h
      exact ⟨t, List.mem_append_left _ ht⟩

theorem entryAt_group_eq_none {entries : List (String × String)} {schema : String} :
    (group entries).entryAt schema = none ↔ ∀ e ∈ entries, fold schema ≠ fold e.1 := by
  induction entries using List.reverseRecOn with
  | nil => simp [group]
  | append_singleton entries e ih =>
    rw [group_concat, CIMap.entryAt_insert]
    split_ifs with h
    · exact iff_of_false (by simp) fun hall => hall e (by simp) h
    · simp only [ih, List.forall_mem_append, List.forall_mem_singleton, h, ne_eq,
        not_false_iff, and_true]

/-! ### What the catalog shows -/

/-- `EnsureProviderSchemas`: a schema that SQL created stays as it is, the others are added. -/
def ensureProviderSchemas (schemas : CIMap (List String)) (listed : List (String × List String)) :
    CIMap (List String) :=
  listed.foldl (fun m e => if m.contains e.1 then m else m.insert e.1 []) schemas

theorem entryAt_ensureProviderSchemas (schemas : CIMap (List String))
    (listed : List (String × List String)) (k : String) :
    (ensureProviderSchemas schemas listed).entryAt k =
      (schemas.entryAt k).or ((listed.find? fun e => ciEq k e.1).map fun e => (e.1, [])) := by
  unfold ensureProviderSchemas
  induction listed generalizing schemas with
  | nil => simp
  | cons e listed ih =>
    rw [List.foldl_cons, ih, List.find?_cons, ciEq]
    by_cases hk : fold k = fold e.1
    · rw [decide_eq_true hk, schemas.contains_eq_isSome_entryAt]
      cases he : schemas.entryAt k with
      | none =>
        have he' := (schemas.entryAt_congr hk).symm.trans he
        simp [he', CIMap.entryAt_insert, hk]
      | some q =>
        have he' := (schemas.entryAt_congr hk).symm.trans he
        simp [he', he]
    · rw [decide_eq_false hk]
      split_ifs with hc
      · rfl
      · rw [CIMap.entryAt_insert, if_neg hk]

/-- A catalog with the list of its provider.  `schemas` holds the tables and views SQL created. -/
structure ProviderCatalog where
  info : ProviderInfo
  schemas : CIMap (List String)
  /-- `tables_by_schema`. -/
  tablesBySchema : CIMap (List String)

/-- `ScanExtensionEntries`: each listed table that no entry before it takes the name of. -/
def scanExtensionEntries (seen : CISet) : List String → List String
  | [] => []
  | n :: names =>
    if seen.contains n then scanExtensionEntries seen names
    else n :: scanExtensionEntries (seen.add n) names

theorem mem_scanExtensionEntries {seen : CISet} {names : List String} {t : String} :
    t ∈ scanExtensionEntries seen names ↔
      seen.contains t = false ∧ names.find? (ciEq · t) = some t := by
  induction names generalizing seen with
  | nil => simp [scanExtensionEntries]
  | cons n names ih =>
    unfold scanExtensionEntries
    rw [List.find?_cons]
    by_cases hn : fold n = fold t
    · rw [ciEq_iff.2 hn, seen.contains_congr hn]
      split_ifs with hc
      · simp [ih, hc]
      · have hadd : (seen.add n).contains t = true := by
          simp [CISet.add, CIMap.contains_insert, hn]
        simp [ih, hadd, hc, eq_comm]
    · have hne : ciEq n t = false := by simp [ciEq, hn]
      have hn' : ¬ fold t = fold n := fun h => hn h.symm
      have hadd : (seen.add n).contains t = seen.contains t := by
        simp [CISet.add, CIMap.contains_insert, hn']
      have htn : t ≠ n := fun h => hn (by rw [h])
      rw [hne]
      split_ifs with hc
      · exact ih
      · simp [ih, hadd, htn]

namespace ProviderCatalog

/-- The catalog after a list call. -/
def refreshed (info : ProviderInfo) (schemas tables : CIMap (List String)) : ProviderCatalog :=
  ⟨info, ensureProviderSchemas schemas tables.toList, tables⟩

/-- `TablesForSchema`. -/
def tablesForSchema (c : ProviderCatalog) (schema : String) : List String :=
  (c.tablesBySchema.find? schema).getD []

/-- The provider's entries that a scan of every schema reports. -/
def shown (c : ProviderCatalog) : List (String × String) :=
  c.schemas.toList.flatMap fun e =>
    (scanExtensionEntries (CISet.ofList e.2) (c.tablesForSchema e.1)).map (e.1, ·)

/-- `LookupEntry` for a table of a schema, as far as the provider answers it: an entry that SQL
created wins. -/
def lookupEntry (c : ProviderCatalog) (schema table : String) : Option (String × String) := do
  let (name, natives) ← c.schemas.entryAt schema
  if natives.any (ciEq table ·) then none
  else ((c.tablesForSchema name).find? (ciEq · table)).map (name, ·)

theorem mem_shown {c : ProviderCatalog} {schema table : String} :
    (schema, table) ∈ c.shown ↔
      ∃ natives, c.schemas.entryAt schema = some (schema, natives) ∧
        natives.any (ciEq table ·) = false ∧
        (c.tablesForSchema schema).find? (ciEq · table) = some table := by
  simp only [shown, List.mem_flatMap, List.mem_map, Prod.mk.injEq, Prod.exists,
    CIMap.mem_toList_iff, mem_scanExtensionEntries, CISet.contains_ofList]
  constructor
  · rintro ⟨s, natives, he, t, ht, rfl, rfl⟩
    exact ⟨natives, he, ht⟩
  · rintro ⟨natives, he, ht⟩
    exact ⟨schema, natives, he, table, ht, rfl, rfl⟩

/-- A table that is shown is found under every spelling of its schema and its name. -/
theorem lookupEntry_of_mem_shown {c : ProviderCatalog} {schema table s t : String}
    (h : (schema, table) ∈ c.shown) (hs : fold s = fold schema) (ht : fold t = fold table) :
    c.lookupEntry s t = some (schema, table) := by
  obtain ⟨natives, he, hn, hf⟩ := mem_shown.1 h
  have hany : natives.any (ciEq t ·) = false := by simpa only [ciEq, ht] using hn
  have hfind : (c.tablesForSchema schema).find? (ciEq · t) = some table := by
    simpa only [ciEq, ht] using hf
  rw [lookupEntry, (c.schemas.entryAt_congr hs).trans he]
  simp only [Option.bind_eq_bind, Option.bind_some, hany, hfind]
  rfl

/-- What a lookup finds is shown. -/
theorem mem_shown_of_lookupEntry {c : ProviderCatalog} {s t : String} {e : String × String}
    (h : c.lookupEntry s t = some e) : e ∈ c.shown ∧ fold s = fold e.1 ∧ fold t = fold e.2 := by
  unfold lookupEntry at h
  cases he : c.schemas.entryAt s with
  | none => simp [he] at h
  | some q =>
    obtain ⟨name, natives⟩ := q
    simp only [he, Option.bind_eq_bind, Option.bind_some] at h
    split_ifs at h with hn
    obtain ⟨t', hf, rfl⟩ := Option.map_eq_some_iff.1 h
    have hname := CIMap.fold_of_entryAt he
    have hmatch := List.find?_some hf
    have ht : fold t' = fold t := ciEq_iff.1 hmatch
    have hn' : natives.any (ciEq t' ·) = false := by
      simpa only [ciEq, ht, Bool.not_eq_true] using hn
    refine ⟨mem_shown.2 ⟨natives, (c.schemas.entryAt_congr hname).trans he, hn', ?_⟩,
      hname.symm, ht.symm⟩
    simpa only [ciEq, ht] using hf

end ProviderCatalog

/-! ### Calls for a table -/

/-- A statement about a table, by the names it gives. -/
structure Statement where
  op : Op
  schema : String
  table : String
deriving DecidableEq

/-- The UDF call a statement makes: the entry it is for, and the name the UDF is called with.  The
entry's own name is sent, except by `ALTER TABLE`, which sends the one the statement gives. -/
def ProviderCatalog.udfCall (c : ProviderCatalog) (st : Statement) :
    Option ((String × String) × String) :=
  match c.lookupEntry st.schema st.table with
  | none => none
  | some e =>
    if st.op = .list ∨ c.info.calls st.op = false then none
    else some (e, qualifiedName e.1 (if st.op = .alter then st.table else e.2))

theorem ProviderCatalog.udfCall_eq_some {c : ProviderCatalog} {st : Statement}
    {e : String × String} {name : String} :
    c.udfCall st = some (e, name) ↔ c.lookupEntry st.schema st.table = some e ∧ st.op ≠ .list ∧
      c.info.calls st.op = true ∧
      name = qualifiedName e.1 (if st.op = .alter then st.table else e.2) := by
  unfold udfCall
  cases c.lookupEntry st.schema st.table with
  | none => simp
  | some e' =>
    dsimp only
    by_cases h : st.op = .list ∨ c.info.calls st.op = false
    · rw [if_pos h]
      simp only [reduceCtorEq, false_iff]
      rintro ⟨-, hop, hcalls, -⟩
      simp [hop, hcalls] at h
    · rw [if_neg h]
      rw [not_or, Bool.not_eq_false] at h
      simp only [Option.some.injEq, Prod.mk.injEq, h, ne_eq, not_false_iff, true_and]
      constructor
      · rintro ⟨rfl, rfl⟩
        exact ⟨rfl, rfl⟩
      · rintro ⟨rfl, rfl⟩
        exact ⟨rfl, rfl⟩

/-- The listed tables, and only they, are shown under the names they are listed by, and a call for
one of them is cut into its provider and its own name.  Of the `ALTER TABLE` statements only those
in `alters` are looked at. -/
structure RoutesBack (python : CatalogProviders P) (c : ProviderCatalog)
    (alters : List Statement) : Prop where
  shown : ∀ e, e ∈ c.shown ↔ e ∈ python.reported
  routed : ∀ st e name, (st.op = .alter → st ∈ alters) → c.udfCall st = some (e, name) →
    ∃ p, python.providers.lookup e.1 = some p ∧ python.split name = some (p, e.2)

/-- A name that survives being joined and cut. -/
def PlainName (n : String) : Prop := n ≠ "" ∧ '.' ∉ n.toList ∧ '|' ∉ n.toList

instance : DecidablePred PlainName := fun _ => inferInstanceAs (Decidable (_ ∧ _))

/-- Reported names that route back: they are plain, no two differ in case only, SQL created no
schema under another spelling and no table under one of them, and `ALTER TABLE` spells a table as
it is listed. -/
structure RoutableNames (info : ProviderInfo) (schemas : CIMap (List String))
    (reported : List (String × String)) (alters : List Statement) : Prop where
  plain : ∀ e ∈ reported, PlainName e.1 ∧ PlainName e.2
  schemaSpelling : ∀ e ∈ reported, ∀ e' ∈ reported, fold e.1 = fold e'.1 → e.1 = e'.1
  tableSpelling : ∀ e ∈ reported, ∀ e' ∈ reported, fold e.1 = fold e'.1 → fold e.2 = fold e'.2 →
    e.2 = e'.2
  native : ∀ e ∈ reported, ∀ s natives, schemas.entryAt e.1 = some (s, natives) →
    s = e.1 ∧ natives.any (ciEq e.2 ·) = false
  altered : info.calls .alter = true → ∀ st ∈ alters, st.op = .alter → ∀ e ∈ reported,
    fold st.schema = fold e.1 → fold st.table = fold e.2 → st.table = e.2

/-! ### Folding keeps separators -/

theorem toLower_eq_iff {c sep : Char} (hs : sep = '.' ∨ sep = '|') :
    c.toLower = sep ↔ c = sep := by
  unfold Char.toLower
  split_ifs with h
  · have hupper : 65 ≤ c.val.toNat ∧ c.val.toNat ≤ 90 := h
    have hsep : sep.val.toNat = 46 ∨ sep.val.toNat = 124 := by
      rcases hs with rfl | rfl
      · exact .inl rfl
      · exact .inr rfl
    have hlower : (c.val + ('a'.val - 'A'.val)).toNat = c.val.toNat + 32 := by
      rw [UInt32.toNat_add]
      show (c.val.toNat + 32) % 2 ^ 32 = _
      omega
    -- a lower case letter is neither of the separators
    constructor
    · intro e
      have := congrArg (fun c : Char => c.val.toNat) e
      dsimp only at this
      omega
    · rintro rfl
      omega
  · rfl

theorem mem_toList_iff_of_fold_eq {a b : String} {sep : Char} (hs : sep = '.' ∨ sep = '|')
    (h : fold a = fold b) : sep ∈ a.toList ↔ sep ∈ b.toList := by
  have hmem : ∀ s : String, sep ∈ s.toList ↔ sep ∈ fold s := by
    intro s
    simp [fold, toLower_eq_iff hs]
  rw [hmem a, hmem b, h]

theorem PlainName.of_fold_eq {a b : String} (h : PlainName a) (hf : fold b = fold a) :
    PlainName b := by
  refine ⟨?_, ?_, ?_⟩
  · rintro rfl
    have : fold a = [] := hf.symm
    exact h.1 (by simpa [fold] using this)
  · rw [mem_toList_iff_of_fold_eq (.inl rfl) hf]
    exact h.2.1
  · rw [mem_toList_iff_of_fold_eq (.inr rfl) hf]
    exact h.2.2

/-! ### Which names route back -/

variable {python : CatalogProviders P} {info : ProviderInfo} {schemas : CIMap (List String)}
  {entries : List (String × String)} {alters : List Statement}

/-- The schemas of the refreshed catalog. -/
theorem entryAt_refreshed (k : String) :
    (ProviderCatalog.refreshed info schemas (group entries)).schemas.entryAt k =
      (schemas.entryAt k).or (((group entries).entryAt k).map fun e => (e.1, [])) := by
  rw [ProviderCatalog.refreshed, entryAt_ensureProviderSchemas, CIMap.find?_toList]

theorem tablesForSchema_refreshed (k : String) :
    (ProviderCatalog.refreshed info schemas (group entries)).tablesForSchema k =
      tablesOf entries k :=
  getD_find?_group entries k

/-- What is shown is listed, up to the spelling of the schema. -/
theorem listed_of_mem_shown {s t : String}
    (h : (s, t) ∈ (ProviderCatalog.refreshed info schemas (group entries)).shown) :
    ∃ s', (s', t) ∈ entries ∧ fold s = fold s' := by
  obtain ⟨natives, -, -, hf⟩ := ProviderCatalog.mem_shown.1 h
  rw [tablesForSchema_refreshed] at hf
  exact mem_tablesOf.1 (List.mem_of_find?_eq_some hf)

theorem stringUtilSplit_doList (h : ∀ e ∈ python.reported, PlainName e.1 ∧ PlainName e.2) :
    stringUtilSplit python.doList '|' = python.reported.map fun e => qualifiedName e.1 e.2 := by
  have hpieces : Separators.pieces '|' python.doList.toList =
      python.reported.map fun e => (qualifiedName e.1 e.2).toList := by
    rw [CatalogProviders.toList_doList]
    refine Separators.pieces_intercalate ?_ ?_
    · intro l hl
      obtain ⟨e, he, rfl⟩ := List.mem_map.1 hl
      simp [(h e he).1.2.2, (h e he).2.2.2]
    · intro l hl
      obtain ⟨e, he, rfl⟩ := List.mem_map.1 hl
      simp
  simp only [stringUtilSplit, hpieces, List.map_map, Function.comp_def, String.ofList_toList]

/-- Plain names are listed as they are reported. -/
theorem listed_of_plain (h : ∀ e ∈ python.reported, PlainName e.1 ∧ PlainName e.2) :
    List.Forall₂ (fun e x => IsQualified e x.1 x.2) (stringUtilSplit python.doList '|')
      python.reported := by
  rw [stringUtilSplit_doList h, List.forall₂_map_left_iff, List.forall₂_same]
  exact fun e he => ⟨rfl, (h e he).1.2.1, (h e he).1.1, (h e he).2.1⟩

/-- A name cut out of a list is free of the bar, and its schema free of the dot. -/
theorem plain_of_listed {listed : String}
    (h : List.Forall₂ (fun e x => IsQualified e x.1 x.2) (stringUtilSplit listed '|') entries) :
    ∀ x ∈ entries, PlainName x.1 ∧ x.2 ≠ "" ∧ '|' ∉ x.2.toList := by
  rintro ⟨s, t⟩ hx
  obtain ⟨entry, hentry, rfl, hdot, hs, ht⟩ := exists_of_forall₂ h hx
  obtain ⟨piece, hpiece, hname⟩ := List.mem_map.1 hentry
  have hbar := Separators.not_mem_of_mem_pieces hpiece
  rw [← String.toList_ofList (l := piece), hname] at hbar
  simp only [toList_qualifiedName, List.mem_append, List.mem_cons, not_or] at hbar
  exact ⟨⟨hs, hdot, hbar.1⟩, ht, hbar.2.2⟩

/-- Names that route back are routable: whatever is shown was cut out of the list, and the last
part of a name is free of the dot wherever Python cuts it. -/
theorem RoutesBack.routableNames
    (h : RoutesBack python (.refreshed info schemas (group entries)) alters)
    (hplain : ∀ x ∈ entries, PlainName x.1 ∧ x.2 ≠ "" ∧ '|' ∉ x.2.toList) :
    RoutableNames info schemas python.reported alters := by
  have shownOf : ∀ e ∈ python.reported,
      e ∈ (ProviderCatalog.refreshed info schemas (group entries)).shown :=
    fun e he => (h.shown e).2 he
  have tablePlain : ∀ e ∈ python.reported, '.' ∉ e.2.toList := by
    intro e he
    have hlook := ProviderCatalog.lookupEntry_of_mem_shown (shownOf e he) rfl rfl
    obtain ⟨p, -, hp⟩ := h.routed ⟨.schema, e.1, e.2⟩ e (qualifiedName e.1 e.2) (by simp)
      (ProviderCatalog.udfCall_eq_some.2 ⟨hlook, by simp, rfl, rfl⟩)
    exact CatalogProviders.not_mem_of_split hp
  constructor
  case plain =>
    intro e he
    obtain ⟨s', hs', hfold⟩ := listed_of_mem_shown (shownOf e he)
    obtain ⟨hs, ht, hbar⟩ := hplain _ hs'
    exact ⟨hs.of_fold_eq hfold, ht, tablePlain e he, hbar⟩
  case schemaSpelling =>
    intro e he e' he' hfold
    obtain ⟨n, hn, -⟩ := ProviderCatalog.mem_shown.1 (shownOf e he)
    obtain ⟨n', hn', -⟩ := ProviderCatalog.mem_shown.1 (shownOf e' he')
    rw [CIMap.entryAt_congr _ hfold, hn'] at hn
    exact (Prod.mk.inj (Option.some.inj hn)).1.symm
  case tableSpelling =>
    intro e he e' he' hfold hfold'
    have hlook := ProviderCatalog.lookupEntry_of_mem_shown (shownOf e he) rfl rfl
    rw [ProviderCatalog.lookupEntry_of_mem_shown (shownOf e' he') hfold hfold'] at hlook
    exact (Prod.mk.inj (Option.some.inj hlook)).2.symm
  case native =>
    intro e he s natives hs
    obtain ⟨n, hn, hany, -⟩ := ProviderCatalog.mem_shown.1 (shownOf e he)
    rw [entryAt_refreshed, hs, Option.some_or] at hn
    obtain ⟨rfl, rfl⟩ := Prod.mk.inj (Option.some.inj hn)
    exact ⟨rfl, hany⟩
  case altered =>
    intro hcalls st hst hop e he hs ht
    have hlook := ProviderCatalog.lookupEntry_of_mem_shown (shownOf e he) hs ht
    obtain ⟨p, -, hp⟩ := h.routed st e (qualifiedName e.1 st.table) (fun _ => hst)
      (ProviderCatalog.udfCall_eq_some.2 ⟨hlook, by simp [hop], by rw [hop]; exact hcalls,
        by rw [if_pos hop]⟩)
    have hdot : '.' ∉ st.table.toList := by
      rw [mem_toList_iff_of_fold_eq (.inl rfl) ht]
      exact tablePlain e he
    rw [CatalogProviders.split_qualifiedName hdot] at hp
    obtain ⟨_, _, heq⟩ := Option.map_eq_some_iff.1 hp
    exact (Prod.mk.inj heq).2

/-- Routable names are shown as they are reported, and their calls come back. -/
theorem RoutableNames.routesBack (h : RoutableNames info schemas python.reported alters) :
    RoutesBack python (.refreshed info schemas (group python.reported)) alters := by
  have hshown : ∀ e,
      e ∈ (ProviderCatalog.refreshed info schemas (group python.reported)).shown ↔
        e ∈ python.reported := by
    rintro ⟨s, t⟩
    constructor
    · intro hs
      obtain ⟨s', hs', hfold⟩ := listed_of_mem_shown hs
      obtain ⟨natives, he, -⟩ := ProviderCatalog.mem_shown.1 hs
      rw [entryAt_refreshed] at he
      -- the schema is spelled by SQL, or by the list
      cases hn : schemas.entryAt s with
      | some q =>
        obtain ⟨s'', n⟩ := q
        rw [hn, Option.some_or] at he
        obtain ⟨rfl, rfl⟩ := Prod.mk.inj (Option.some.inj he)
        have := (h.native _ hs' s'' n ((schemas.entryAt_congr hfold).symm.trans hn)).1
        exact this ▸ hs'
      | none =>
        rw [hn, Option.none_or] at he
        obtain ⟨⟨s'', ts⟩, hg, heq⟩ := Option.map_eq_some_iff.1 he
        obtain ⟨rfl, -⟩ := Prod.mk.inj heq
        obtain ⟨t', ht'⟩ := entryAt_group_spelled hg
        have := h.schemaSpelling _ ht' _ hs' hfold
        exact this ▸ hs'
    · intro he
      have hfirst : (tablesOf python.reported s).find? (ciEq · t) = some t := by
        cases hf : (tablesOf python.reported s).find? (ciEq · t) with
        | none =>
          have := List.find?_eq_none.1 hf t (mem_tablesOf.2 ⟨s, he, rfl⟩)
          simp at this
        | some t' =>
          have hmatch := List.find?_some hf
          obtain ⟨s', hs', hfold⟩ := mem_tablesOf.1 (List.mem_of_find?_eq_some hf)
          have := h.tableSpelling _ hs' _ he hfold.symm (ciEq_iff.1 hmatch)
          exact congrArg some this
      have hentry :
          (ProviderCatalog.refreshed info schemas (group python.reported)).schemas.entryAt s =
          (schemas.entryAt s).or (((group python.reported).entryAt s).map fun e => (e.1, [])) :=
        entryAt_refreshed s
      cases hn : schemas.entryAt s with
      | some q =>
        obtain ⟨s', n⟩ := q
        obtain ⟨rfl, hany⟩ := h.native _ he s' n hn
        rw [hn, Option.some_or] at hentry
        exact ProviderCatalog.mem_shown.2
          ⟨n, hentry, hany, by rw [tablesForSchema_refreshed]; exact hfirst⟩
      | none =>
        rw [hn, Option.none_or] at hentry
        cases hg : (group python.reported).entryAt s with
        | none => exact absurd rfl (entryAt_group_eq_none.1 hg _ he)
        | some q =>
          obtain ⟨s', ts⟩ := q
          obtain ⟨t', ht'⟩ := entryAt_group_spelled hg
          obtain rfl := h.schemaSpelling _ ht' _ he (CIMap.fold_of_entryAt hg)
          rw [hg] at hentry
          exact ProviderCatalog.mem_shown.2
            ⟨[], hentry, rfl, by rw [tablesForSchema_refreshed]; exact hfirst⟩
  refine ⟨hshown, ?_⟩
  rintro st ⟨s, t⟩ name halter hcall
  obtain ⟨hlook, -, hcalls, rfl⟩ := ProviderCatalog.udfCall_eq_some.1 hcall
  obtain ⟨hmem, hs, ht⟩ := ProviderCatalog.mem_shown_of_lookupEntry hlook
  have hrep := (hshown _).1 hmem
  obtain ⟨p, hp, -⟩ := CatalogProviders.mem_reported.1 hrep
  refine ⟨p, hp, ?_⟩
  have hname : (if st.op = .alter then st.table else t) = t := by
    split_ifs with hop
    · rw [hop] at hcalls
      exact h.altered hcalls st (halter hop) hop _ hrep hs ht
    · rfl
  rw [hname, CatalogProviders.split_qualifiedName (h.plain _ hrep).2.2.1, hp]
  rfl

/-- **Where names route back.**  Whatever the providers list, each table is shown as it is listed
and every call for it comes back to its provider, or the list is refused, exactly if a piece of
the list is no qualified name, or the names are routable. -/
theorem routesBack_iff (python : CatalogProviders P) (info : ProviderInfo)
    (schemas : CIMap (List String)) (alters : List Statement) :
    (∀ tables, refreshProviderNames python.doList = .ok tables →
        RoutesBack python (.refreshed info schemas tables) alters) ↔
      (∃ entry ∈ stringUtilSplit python.doList '|', ∀ s t, ¬ IsQualified entry s t) ∨
        RoutableNames info schemas python.reported alters := by
  constructor
  · intro h
    by_cases hq : ∃ entry ∈ stringUtilSplit python.doList '|', ∀ s t, ¬ IsQualified entry s t
    · exact .inl hq
    · push Not at hq
      have hall : ∀ entry ∈ stringUtilSplit python.doList '|',
          ∃ x, splitQualified entry = .ok x := by
        intro entry he
        obtain ⟨s, t, hst⟩ := hq entry he
        exact ⟨(s, t), splitQualified_eq_ok.2 hst⟩
      obtain ⟨entries, hentries⟩ := exists_mapM.2 hall
      have hlisted := mapM_eq_ok.1 hentries
      simp only [splitQualified_eq_ok] at hlisted
      have hok := refreshProviderNames_ok_iff.2 ⟨entries, hlisted, rfl⟩
      exact .inr ((h _ hok).routableNames (plain_of_listed hlisted))
  · rintro (⟨entry, he, hno⟩ | h) tables hok
    · obtain ⟨entries, hlisted, -⟩ := refreshProviderNames_ok_iff.1 hok
      simp only [← splitQualified_eq_ok] at hlisted
      obtain ⟨x, hx⟩ := exists_mapM.1 ⟨entries, mapM_eq_ok.2 hlisted⟩ entry he
      exact absurd (splitQualified_eq_ok.1 hx) (hno _ _)
    · have hlisted := refreshProviderNames_ok_iff.2 ⟨_, listed_of_plain h.plain, rfl⟩
      obtain rfl := Except.ok.inj (hlisted.symm.trans hok)
      exact h.routesBack

/-- One provider, under the schema `a`, with a table `b.c`. -/
def Sample.dotted : CatalogProviders (List String) := ⟨AList.singleton "a" ["b.c"], id⟩

/-- Every UDF is there. -/
def Sample.fullInfo : ProviderInfo := ⟨fun _ => "udf"⟩

/-- A table with a dot is accepted and shown, but no provider answers for the name the scan UDF
is called with: the catalog cuts at the first dot, Python at the last. -/
theorem dotted_not_routesBack :
    Sample.dotted.reported = [("a", "b.c")] ∧
      ∃ tables, refreshProviderNames Sample.dotted.doList = .ok tables ∧
        (ProviderCatalog.refreshed Sample.fullInfo ∅ tables).udfCall ⟨.scan, "a", "b.c"⟩ =
          some (("a", "b.c"), "a.b.c") ∧
        Sample.dotted.split "a.b.c" = none ∧
        ¬ RoutesBack Sample.dotted (.refreshed Sample.fullInfo ∅ tables) [] := by
  have hok : refreshProviderNames Sample.dotted.doList = .ok (group [("a", "b.c")]) :=
    refreshProviderNames_ok_iff.2
      ⟨_, .cons ⟨by decide, by decide, by decide, by decide⟩ .nil, rfl⟩
  have hcall : (ProviderCatalog.refreshed Sample.fullInfo ∅ (group [("a", "b.c")])).udfCall
      ⟨.scan, "a", "b.c"⟩ = some (("a", "b.c"), "a.b.c") := by decide
  have hsplit : Sample.dotted.split "a.b.c" = none := by decide
  refine ⟨by decide, _, hok, hcall, hsplit, fun h => ?_⟩
  obtain ⟨p, -, hp⟩ := h.routed _ _ _ (by simp) hcall
  rw [hsplit] at hp
  cases hp

/-- A bar in a name makes two tables of one. -/
example : stringUtilSplit (CatalogProviders.doList
    ⟨AList.singleton "a" ["b|a.c"], (id : List String → List String)⟩) '|' = ["a.b", "a.c"] := by
  decide

end Provider

end VirtualCatalog
