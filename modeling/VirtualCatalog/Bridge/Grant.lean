import VirtualCatalog.Sql.Expression
import Mathlib.Data.Finset.Insert
import Mathlib.Data.Finset.Erase

/-!
# Grants and the grant book

* `SourceGrant` : the verbs of one table with their predicates, its key and its foreign keys.
* `GrantTables` : grants by schema and table; `GrantTables.grantAt` looks one up under a `TableKey`,
  the pair of folded names, which is all that the lookups of the source depend on.
* `GrantBook` : the live grants of an attached bridge, with the whitelist of functions, the
  connections that shape tables and the count of uncommitted DDL.
-/

namespace VirtualCatalog

/-- The type of an exception. -/
inductive ErrorKind where
  | permission
  | io
  | catalog
  | binder
  | constraint
  | internal
deriving DecidableEq

/-- An exception with its text. -/
structure BridgeError where
  kind : ErrorKind
  message : String
deriving DecidableEq

/-- Throw if the condition holds. -/
def throwIf (c : Prop) [Decidable c] (e : BridgeError) : Except BridgeError Unit :=
  if c then .error e else .ok ()

theorem throwIf_eq_ok {c : Prop} [Decidable c] {e : BridgeError} {u : Unit} :
    throwIf c e = .ok u ↔ ¬ c := by
  rw [throwIf]
  split_ifs with h <;> simp [h]

/-- The verbs a grant can name. -/
inductive CrossingVerb where
  | select
  | insert
  | update
  | delete
  | create
  | alter
  | drop
deriving DecidableEq

/-- `CrossingVerbs`. -/
def crossingVerbs : List CrossingVerb := [.select, .insert, .update, .delete, .create, .alter, .drop]

theorem mem_crossingVerbs (v : CrossingVerb) : v ∈ crossingVerbs := by cases v <;> decide

/-- `CrossingVerbName`. -/
def CrossingVerb.name : CrossingVerb → String
  | select => "select"
  | insert => "insert"
  | update => "update"
  | delete => "delete"
  | create => "create"
  | alter => "alter"
  | drop => "drop"

/-- `IsDdlVerb`. -/
def CrossingVerb.isDdl : CrossingVerb → Bool
  | create | alter | drop => true
  | _ => false

/-- What a bridge lets its target do with one table. -/
structure SourceGrant where
  verbs : Finset CrossingVerb := ∅
  usingPredicates : CrossingVerb → Option Expr := fun _ => none
  checkPredicates : CrossingVerb → Option Expr := fun _ => none
  key : List String := []
  /-- The table's own primary key, which `key` falls back to when no key is set. -/
  discoveredKey : List String := []
  keySet : Bool := false
  keyVerified : Bool := true
  selectUnrestricted : Bool := false
  /-- Same schema as the grant. -/
  foreignKeyParents : List String := []
  allowedForeignKeys : CISet := ∅

namespace SourceGrant

/-- `Has`. -/
def has (g : SourceGrant) (v : CrossingVerb) : Bool := decide (v ∈ g.verbs)

/-- `Allow`. -/
def allow (g : SourceGrant) (v : CrossingVerb) : SourceGrant := { g with verbs := insert v g.verbs }

/-- `CopyUsing`. -/
def copyUsing (g : SourceGrant) (v : CrossingVerb) : Option Expr := g.usingPredicates v

/-- `CopyCheck`. -/
def copyCheck (g : SourceGrant) (v : CrossingVerb) : Option Expr := g.checkPredicates v

/-- `Copy`: the predicates one verb at a time, the rest as it is. -/
def copy (g : SourceGrant) : SourceGrant :=
  { g with
    usingPredicates := fun v => if v ∈ crossingVerbs then g.copyUsing v else none
    checkPredicates := fun v => if v ∈ crossingVerbs then g.copyCheck v else none }

@[simp] theorem copy_eq (g : SourceGrant) : g.copy = g := by
  simp [copy, copyUsing, copyCheck, mem_crossingVerbs]

@[simp] theorem has_iff {g : SourceGrant} {v : CrossingVerb} : g.has v = true ↔ v ∈ g.verbs := by
  simp [has]

end SourceGrant

/-- The names of a table as lookups compare them. -/
abbrev TableKey := List Char × List Char

/-- The key of `schema.table`. -/
def tableKey (schema table : String) : TableKey := (fold schema, fold table)

/-- Grants by schema and table. -/
abbrev GrantTables := CIMap (CIMap SourceGrant)

namespace GrantTables

/-- The grant under a key. -/
def grantAt (T : GrantTables) (k : TableKey) : Option SourceGrant := (T.slot k.1).bind (·.slot k.2)

/-- `FindGrant`. -/
def findGrant (T : GrantTables) (schema table : String) : Option SourceGrant :=
  (T.find? schema).bind (·.find? table)

/-- `tables[schema]`, created empty if it is missing. -/
def schemaTables (T : GrantTables) (schema : String) : CIMap SourceGrant :=
  (T.find? schema).getD ∅

/-- `tables[schema][table] = grant`. -/
def set (T : GrantTables) (schema table : String) (g : SourceGrant) : GrantTables :=
  T.insert schema ((T.schemaTables schema).insert table g)

/-- `tables[schema].erase(table)`; a schema without tables stays. -/
def remove (T : GrantTables) (schema table : String) : GrantTables :=
  T.insert schema ((T.schemaTables schema).erase table)

/-- Remove a table, and its schema if that has no tables left. -/
def revoke (T : GrantTables) (schema table : String) : GrantTables :=
  if ((T.schemaTables schema).erase table).toList.isEmpty then T.erase schema
  else T.remove schema table

/-- `tables[schema]` alone: the schema is there afterwards. -/
def touch (T : GrantTables) (schema : String) : GrantTables := T.insert schema (T.schemaTables schema)

/-- Every grant with the names it is filed under. -/
def entries (T : GrantTables) : List (String × String × SourceGrant) :=
  T.toList.flatMap fun s => s.2.toList.map fun t => (s.1, t.1, t.2)

/-- The loop of `CopyPolicy` over the grants. -/
def copyTables (T : GrantTables) : GrantTables :=
  T.entries.foldl (fun acc e => acc.set e.1 e.2.1 e.2.2.copy) ∅

theorem findGrant_eq (T : GrantTables) (s t : String) : T.findGrant s t = T.grantAt (tableKey s t) :=
  rfl

@[simp] theorem grantAt_empty (k : TableKey) : grantAt ∅ k = none := rfl

theorem grantAt_insert (T : GrantTables) (s : String) (m : CIMap SourceGrant) (k : TableKey) :
    grantAt (T.insert s m) k = if k.1 = fold s then m.slot k.2 else T.grantAt k := by
  rw [grantAt, CIMap.slot_insert]
  split_ifs <;> rfl

theorem slot_schemaTables (T : GrantTables) (s : String) (f : List Char) :
    (T.schemaTables s).slot f = T.grantAt (fold s, f) := by
  rw [schemaTables, grantAt]
  change _ = (T.find? s).bind _
  cases T.find? s <;> rfl

theorem grantAt_touch (T : GrantTables) (s : String) (k : TableKey) :
    (T.touch s).grantAt k = T.grantAt k := by
  obtain ⟨a, b⟩ := k
  rw [touch, grantAt_insert, slot_schemaTables]
  by_cases ha : a = fold s <;> simp [ha]

theorem grantAt_set (T : GrantTables) (s t : String) (g : SourceGrant) (k : TableKey) :
    (T.set s t g).grantAt k = if k = tableKey s t then some g else T.grantAt k := by
  obtain ⟨a, b⟩ := k
  rw [set, grantAt_insert, CIMap.slot_insert, slot_schemaTables]
  by_cases ha : a = fold s <;> by_cases hb : b = fold t <;> simp [ha, hb, tableKey]

theorem grantAt_remove (T : GrantTables) (s t : String) (k : TableKey) :
    (T.remove s t).grantAt k = if k = tableKey s t then none else T.grantAt k := by
  obtain ⟨a, b⟩ := k
  rw [remove, grantAt_insert, CIMap.slot_erase, slot_schemaTables]
  by_cases ha : a = fold s <;> by_cases hb : b = fold t <;> simp [ha, hb, tableKey]

theorem grantAt_revoke (T : GrantTables) (s t : String) (k : TableKey) :
    (T.revoke s t).grantAt k = if k = tableKey s t then none else T.grantAt k := by
  rw [revoke]
  split_ifs with he hk hk
  · subst hk
    simp [grantAt, CIMap.slot_erase, tableKey]
  · obtain ⟨a, b⟩ := k
    rw [grantAt, CIMap.slot_erase]
    split_ifs with ha
    · -- the schema has no other table
      subst ha
      have hb : b ≠ fold t := fun h => hk (by rw [h]; rfl)
      have : ((T.schemaTables s).erase t).slot b = none :=
        CIMap.slot_of_toList_nil (List.isEmpty_iff.1 he) b
      rw [CIMap.slot_erase, if_neg hb, slot_schemaTables] at this
      exact this.symm
    · rfl
  · rw [grantAt_remove, if_pos hk]
  · rw [grantAt_remove, if_neg hk]

/-! ### The loop over all grants -/

theorem grantAt_of_mem_entries {T : GrantTables} {s t : String} {g : SourceGrant}
    (h : (s, t, g) ∈ T.entries) : T.grantAt (tableKey s t) = some g := by
  obtain ⟨⟨s', m⟩, hm, h⟩ := List.mem_flatMap.1 h
  obtain ⟨⟨t', g'⟩, hg, heq⟩ := List.mem_map.1 h
  simp only [Prod.mk.injEq] at heq
  obtain ⟨rfl, rfl, rfl⟩ := heq
  rw [← findGrant_eq, findGrant, CIMap.find?_of_mem_toList hm]
  exact CIMap.find?_of_mem_toList hg

theorem mem_entries_of_grantAt {T : GrantTables} {k : TableKey} {g : SourceGrant}
    (h : T.grantAt k = some g) : ∃ s t, tableKey s t = k ∧ (s, t, g) ∈ T.entries := by
  obtain ⟨m, hm, hg⟩ := Option.bind_eq_some_iff.1 h
  obtain ⟨s, hs, hsm⟩ := CIMap.mem_toList_of_slot hm
  obtain ⟨t, ht, htm⟩ := CIMap.mem_toList_of_slot hg
  refine ⟨s, t, Prod.ext hs ht, List.mem_flatMap.2 ⟨(s, m), hsm, List.mem_map.2 ⟨(t, g), htm, rfl⟩⟩⟩

/-- Setting the grants of a list that has at most one grant for `k`. -/
theorem grantAt_foldl_set {f : SourceGrant → SourceGrant} {k : TableKey} {g : SourceGrant}
    (es : List (String × String × SourceGrant)) (acc : GrantTables)
    (h : ∀ e ∈ es, tableKey e.1 e.2.1 = k → f e.2.2 = g) :
    grantAt (es.foldl (fun acc e => acc.set e.1 e.2.1 (f e.2.2)) acc) k =
      if ∃ e ∈ es, tableKey e.1 e.2.1 = k then some g else acc.grantAt k := by
  induction es generalizing acc with
  | nil => simp
  | cons e es ih =>
    rw [List.foldl_cons, ih _ fun e he => h e (List.mem_cons_of_mem _ he), grantAt_set]
    by_cases hk : tableKey e.1 e.2.1 = k
    · simp [hk, h e List.mem_cons_self hk]
    · simp only [List.mem_cons, exists_eq_or_imp, hk, false_or, if_neg (Ne.symm hk)]

/-- A copy has the same grants. -/
theorem grantAt_copyTables (T : GrantTables) (k : TableKey) :
    T.copyTables.grantAt k = T.grantAt k := by
  cases hk : T.grantAt k with
  | none =>
    have hne : ¬ ∃ e ∈ T.entries, tableKey e.1 e.2.1 = k := by
      rintro ⟨⟨s, t, g⟩, he, rfl⟩
      rw [grantAt_of_mem_entries he] at hk
      cases hk
    rw [copyTables, grantAt_foldl_set (g := {}) _ _ fun e he h => absurd ⟨e, he, h⟩ hne, if_neg hne]
    rfl
  | some g =>
    obtain ⟨s, t, hst, hmem⟩ := mem_entries_of_grantAt hk
    rw [copyTables, grantAt_foldl_set (g := g), if_pos ⟨_, hmem, hst⟩]
    rintro ⟨s', t', g'⟩ he h
    have := grantAt_of_mem_entries he
    rw [h, hk] at this
    simpa using (Option.some.inj this).symm

end GrantTables

/-- The owner's changes to which calls a bridge pushes to the source. -/
structure FunctionGrants where
  /-- False once the owner set the whitelist exactly. -/
  builtins : Bool := true
  allowed : CISet := ∅
  disallowed : CISet := ∅

/-- `PolicyState`. -/
structure PolicyState where
  tables : GrantTables := ∅
  createSchemas : CISet := ∅
  functions : FunctionGrants := {}

/-- `CopyPolicy`. -/
def copyPolicy (state : PolicyState) : PolicyState := { state with tables := state.tables.copyTables }

/-- A connection to the source: the session that opened it, and how many it had opened before. -/
structure ConnId where
  session : Nat
  number : Nat
deriving DecidableEq

/-- The live grants of an attached bridge. -/
structure GrantBook where
  state : PolicyState := {}
  /-- The connections whose uncommitted transaction shapes `schema.table`. -/
  shaping : CIMap ConnId := ∅
  policyFinalized : Bool := false
  /-- Grant changes from target DDL whose transaction is still open. -/
  uncommittedDdl : Nat := 0

namespace GrantBook

variable (book : GrantBook)

/-- `book->tables`. -/
abbrev tables : GrantTables := book.state.tables

/-- `UsingFor`: null both without a grant and without a predicate. -/
def usingFor (schema table : String) (verb : CrossingVerb) : Option Expr :=
  (book.tables.findGrant schema table).bind (·.copyUsing verb)

/-- `Grants`. -/
def grants (schema table : String) (verb : CrossingVerb) : Bool :=
  (book.tables.findGrant schema table).any (·.has verb)

/-- `CheckFor`. -/
def checkFor (schema table : String) (verb : CrossingVerb) : Option Expr :=
  (book.tables.findGrant schema table).bind (·.copyCheck verb)

end GrantBook

end VirtualCatalog
