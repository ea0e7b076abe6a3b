import VirtualCatalog.Bridge.Edits
import VirtualCatalog.Bridge.SetPolicy

/-!
# The settings of a document

`configure_policy` installs a whole document; `set_policy` installs one setting.  This file compares
the two table by table: the settings of a table resolve as the document does, and in any order they
make the grant that the document makes.

* `PolicyState.Equiv` : the same policy, names compared up to case.
* `PolicyCommit.onGrant` : what an edit does to the grant of its table.
* `settings` : the settings of a document, and the choices their caller has (`Issuing`).
* `TableResolves`, `tableGrant` : a table of a document as it resolves, and its grant.
* `tableCommits_commute`, `foldl_tableCommits` : the settings of a table commute and make its grant.
-/

namespace VirtualCatalog

/-- The same policy, names compared up to case. -/
structure PolicyState.Equiv (state state' : PolicyState) : Prop where
  tables : ∀ k, state.tables.grantAt k = state'.tables.grantAt k
  createSchemas : ∀ n, state.createSchemas.contains n = state'.createSchemas.contains n
  builtins : state.functions.builtins = state'.functions.builtins
  allowed : ∀ n, state.functions.allowed.contains n = state'.functions.allowed.contains n
  disallowed : ∀ n, state.functions.disallowed.contains n = state'.functions.disallowed.contains n

/-! ### What an edit does to one part of a policy -/

namespace PolicyCommit

/-- The table an edit changes, if it is about one table. -/
def target : PolicyCommit → Option TableKey
  | verb t _ _ _ | primaryKey t _ | foreignKeys t _ _ => some (tableKey t.schema t.name)
  | _ => none

/-- What an edit does to the grant of its table. -/
def onGrant (found : Option SourceGrant) : PolicyCommit → Option SourceGrant
  | verb _ v resolved facts =>
    if resolved.granted then some (installVerb (installFacts (found.getD {}) facts) v resolved)
    else (found.map fun g => installVerb g v resolved).filter fun g => g.verbs ≠ ∅
  | primaryKey _ resolved =>
    if resolved.set = false ∧ found.isNone then none else some (installKey (found.getD {}) resolved)
  | foreignKeys _ op parents =>
    if (op = .remove ∨ (op = .set ∧ parents.isEmpty)) ∧ found.isNone then none
    else
      let g := found.getD {}
      some { g with allowedForeignKeys := applyForeignKeys g.allowedForeignKeys op parents }
  | _ => found

/-- The edit is not a whole policy. -/
def single : PolicyCommit → Bool
  | configure _ => false
  | _ => true

theorem grantAt_withGrant (state : PolicyState) (t : PolicyName) (g : SourceGrant) (k : TableKey) :
    (withGrant state t g).tables.grantAt k =
      if tableKey t.schema t.name = k then some g else state.tables.grantAt k := by
  rw [withGrant, GrantTables.grantAt_set]
  simp only [eq_comm]

theorem grantAt_applyPending {c : PolicyCommit} (hc : c.single = true) (state : PolicyState)
    (k : TableKey) :
    (c.applyPending state).tables.grantAt k =
      if c.target = some k then c.onGrant (state.tables.grantAt k) else state.tables.grantAt k := by
  cases c with
  | configure s => cases hc
  | create s g => rfl
  | whitelist op names => rfl
  | verb t v resolved facts =>
    simp only [applyPending, onGrant, target, Option.some.injEq, GrantTables.findGrant_eq]
    split_ifs with hr hk hk
    · rw [grantAt_withGrant, if_pos hk, hk]
    · rw [grantAt_withGrant, if_neg hk]
    -- a denial may take the last verb, and the grant with it
    · subst hk
      cases hg : state.tables.grantAt (tableKey t.schema t.name) with
      | none => exact hg
      | some g =>
        simp only [Option.map_some, Option.filter]
        split_ifs with hv hv' hv'
        · simp [hv] at hv'
        · rw [GrantTables.grantAt_revoke, if_pos rfl]
        · rw [grantAt_withGrant, if_pos rfl]
        · simp [hv] at hv'
    · cases hg : state.tables.grantAt (tableKey t.schema t.name) with
      | none => rfl
      | some g =>
        dsimp only
        split_ifs with hv
        · rw [GrantTables.grantAt_revoke, if_neg (Ne.symm hk)]
        · rw [grantAt_withGrant, if_neg hk]
  | primaryKey t resolved =>
    simp only [target, Option.some.injEq]
    split_ifs with hk
    · subst hk
      change _ = onGrant (state.tables.findGrant t.schema t.name) _
      simp only [applyPending, onGrant]
      split_ifs with h
      · exact Option.isNone_iff_eq_none.1 h.2
      · rw [grantAt_withGrant, if_pos rfl]
    · simp only [applyPending]
      split_ifs
      · rfl
      · rw [grantAt_withGrant, if_neg hk]
  | foreignKeys t op parents =>
    simp only [target, Option.some.injEq]
    split_ifs with hk
    · subst hk
      change _ = onGrant (state.tables.findGrant t.schema t.name) _
      simp only [applyPending, onGrant]
      split_ifs with h
      · exact Option.isNone_iff_eq_none.1 h.2
      · rw [grantAt_withGrant, if_pos rfl]
    · simp only [applyPending]
      split_ifs
      · rfl
      · rw [grantAt_withGrant, if_neg hk]

/-- The schema an edit lets tables be created in. -/
def createdSchema : PolicyCommit → Option String
  | create schema true => some schema
  | _ => none

/-- The edit takes a schema away. -/
def revokesCreate : PolicyCommit → Bool
  | create _ granted => !granted
  | _ => false

theorem createSchemas_applyPending {c : PolicyCommit} (hc : c.single = true)
    (hr : c.revokesCreate = false) (state : PolicyState) (n : String) :
    (c.applyPending state).createSchemas.contains n =
      (c.createdSchema.any (ciEq n) || state.createSchemas.contains n) := by
  cases c with
  | configure s => cases hc
  | create s g =>
    cases g with
    | false => cases hr
    | true =>
      simp only [applyPending, if_true, createdSchema, Option.any_some, CISet.add,
        CIMap.contains_insert, ciEq]
  | verb t v resolved facts =>
    simp only [applyPending, createdSchema, Option.any_none, Bool.false_or]
    split_ifs
    · rfl
    · split
      · rfl
      · split_ifs <;> rfl
  | primaryKey t resolved =>
    simp only [applyPending, createdSchema, Option.any_none, Bool.false_or]
    split_ifs <;> rfl
  | foreignKeys t op parents =>
    simp only [applyPending, createdSchema, Option.any_none, Bool.false_or]
    split_ifs <;> rfl
  | whitelist op names => rfl

/-- What an edit does to the functions. -/
def onFunctions (functions : FunctionGrants) : PolicyCommit → FunctionGrants
  | whitelist op names => applyFunctionList functions op names
  | _ => functions

theorem functions_applyPending {c : PolicyCommit} (hc : c.single = true) (state : PolicyState) :
    (c.applyPending state).functions = c.onFunctions state.functions := by
  cases c with
  | configure s => cases hc
  | verb t v resolved facts =>
    simp only [applyPending, onFunctions]
    split_ifs
    · rfl
    · split
      · rfl
      · split_ifs <;> rfl
  | primaryKey t resolved =>
    simp only [applyPending, onFunctions]
    split_ifs <;> rfl
  | foreignKeys t op parents =>
    simp only [applyPending, onFunctions]
    split_ifs <;> rfl
  | _ => rfl

end PolicyCommit

/-! ### Edits one after another -/

section

variable {commits : List PolicyCommit} (hc : ∀ c ∈ commits, c.single = true) (state : PolicyState)

include hc

theorem grantAt_replay (k : TableKey) :
    (replay state commits).tables.grantAt k =
      (commits.filter fun c => c.target = some k).foldl PolicyCommit.onGrant
        (state.tables.grantAt k) := by
  induction commits generalizing state with
  | nil => rfl
  | cons c commits ih =>
    obtain ⟨h, hs⟩ := List.forall_mem_cons.1 hc
    change (replay (c.applyPending state) commits).tables.grantAt k = _
    rw [ih hs, PolicyCommit.grantAt_applyPending h, List.filter_cons]
    by_cases hk : c.target = some k <;> simp [hk]

theorem createSchemas_replay (hr : ∀ c ∈ commits, c.revokesCreate = false) (n : String) :
    (replay state commits).createSchemas.contains n =
      ((commits.any fun c => c.createdSchema.any (ciEq n)) || state.createSchemas.contains n) := by
  induction commits generalizing state with
  | nil => rfl
  | cons c commits ih =>
    obtain ⟨h, hs⟩ := List.forall_mem_cons.1 hc
    obtain ⟨hrc, hrs⟩ := List.forall_mem_cons.1 hr
    change (replay (c.applyPending state) commits).createSchemas.contains n = _
    rw [ih hs _ hrs, PolicyCommit.createSchemas_applyPending h hrc, List.any_cons]
    cases commits.any fun c => c.createdSchema.any (ciEq n) <;> simp

theorem functions_replay :
    (replay state commits).functions = commits.foldl PolicyCommit.onFunctions state.functions := by
  induction commits generalizing state with
  | nil => rfl
  | cons c commits ih =>
    obtain ⟨h, hs⟩ := List.forall_mem_cons.1 hc
    change (replay (c.applyPending state) commits).functions = _
    rw [ih hs, PolicyCommit.functions_applyPending h, List.foldl_cons]

end

/-! ### The settings of a document -/

/-- The choices of who issues the settings of a document one by one. -/
structure Issuing where
  /-- The operation of a foreign-key list. -/
  op : PolicyTable → PolicyListOp
  op_ne : ∀ table, op table ≠ .remove
  /-- Whether a foreign-key list without entries is issued too. -/
  emptyParents : PolicyTable → Bool
  /-- Whether a list of functions to add, and one to remove, is issued without entries. -/
  emptyAdd : Bool
  emptyRemove : Bool

section

variable (how : Issuing)

/-- The granted verbs of a table. -/
def grantedVerbs (table : PolicyTable) : List CrossingVerb :=
  crossingVerbs.filter fun v => (table.verbs v).granted

/-- The settings of a table. -/
def tableSettings (table : PolicyTable) : List PolicyEdit :=
  (grantedVerbs table).map (fun v => .verb table.name v (table.verbs v)) ++
    ((table.key.map fun key => .primaryKey table.name (some key)).toList ++
      if table.foreignKeys ≠ [] ∨ how.emptyParents table = true then
        [.foreignKeys table.name (how.op table) table.foreignKeys]
      else [])

/-- The function lists: the exact one, or what to add and then what to remove. -/
def functionSettings (config : PolicyConfig) : List PolicyEdit :=
  if config.builtins then
    (if config.add ≠ [] ∨ how.emptyAdd = true then [.whitelist .add config.add] else []) ++
      if config.remove ≠ [] ∨ how.emptyRemove = true then [.whitelist .remove config.remove] else []
  else [.whitelist .set config.add]

/-- The settings of a document. -/
def settings (config : PolicyConfig) : List PolicyEdit :=
  config.createSchemas.map (fun s => .create s.1 true) ++
    (config.tables.flatMap (tableSettings how) ++ functionSettings how config)

end

/-! ### What a document resolves to -/

section

variable (view : SourceView) (values : ContextValues)

/-- A verb as it resolves. -/
def resolvedVerb (table : PolicyTable) (entry : SourceEntry) (v : CrossingVerb) : ResolvedVerb :=
  (resolveVerb view entry table.name v (table.verbs v) values).toOption.getD {}

/-- A key as it resolves. -/
def resolvedKey (table : PolicyTable) (entry : SourceEntry) (key : PolicyKey) : ResolvedKey :=
  (resolveKey view entry table.name key).toOption.getD {}

/-- An edit as it resolves. -/
def resolvedEdit (edit : PolicyEdit) : PolicyCommit :=
  (resolveEdit view values edit).toOption.getD (.whitelist .add [])

/-- Everything about a table resolves. -/
structure TableResolves (table : PolicyTable) (entry : SourceEntry) : Prop where
  found : grantableEntry view table.name = .ok entry
  verbs : ∀ v ∈ grantedVerbs table, resolveVerb view entry table.name v (table.verbs v) values =
    .ok (resolvedVerb view values table entry v)
  key : ∀ key ∈ table.key,
    resolveKey view entry table.name key = .ok (resolvedKey view table entry key)
  parents : ∀ p ∈ table.foreignKeys, throwUnlessForeignKey view entry table.name p = .ok ()

/-- The grant with its granted verbs. -/
def verbsGrant (table : PolicyTable) (entry : SourceEntry) : SourceGrant :=
  (grantedVerbs table).foldl (fun g v => installVerb g v (resolvedVerb view values table entry v))
    (installFacts {} (factsOf entry))

/-- The grant with its key. -/
def keyGrant (table : PolicyTable) (entry : SourceEntry) : SourceGrant :=
  match table.key with
  | none => verbsGrant view values table entry
  | some key => installKey (verbsGrant view values table entry) (resolvedKey view table entry key)

/-- The grant of a table. -/
def tableGrant (table : PolicyTable) (entry : SourceEntry) : SourceGrant :=
  { keyGrant view values table entry with
    allowedForeignKeys := applyForeignKeys ∅ .add table.foreignKeys }

end

section

variable {view : SourceView} {values : ContextValues} {table : PolicyTable} {entry : SourceEntry}

theorem toOption_of_ok {ε α : Type} {x : Except ε α} {a b : α} (h : x = .ok a) :
    x.toOption.getD b = a := by
  rw [h]
  rfl

/-- A loop over elements of which some are skipped. -/
theorem foldlM_filter {α β : Type} {p : α → Bool} {f : β → α → Except BridgeError β}
    {g : β → α → β} {P : α → Prop} (hf : ∀ b a b', p a = true → f b a = .ok b' → P a ∧ b' = g b a)
    (hp : ∀ b a, p a = false → f b a = .ok b) {l : List α} {b b' : β} (h : l.foldlM f b = .ok b') :
    (∀ a ∈ l.filter p, P a) ∧ b' = (l.filter p).foldl g b := by
  induction l generalizing b with
  | nil =>
    cases h
    exact ⟨by simp, rfl⟩
  | cons a l ih =>
    rw [List.foldlM_cons] at h
    obtain ⟨b₁, h₁, h⟩ := bind_eq_ok h
    cases ha : p a with
    | false =>
      rw [hp b a ha] at h₁
      cases h₁
      rw [List.filter_cons_of_neg (by simp [ha])]
      exact ih h
    | true =>
      obtain ⟨hP, rfl⟩ := hf _ _ _ ha h₁
      obtain ⟨hall, rfl⟩ := ih h
      rw [List.filter_cons_of_pos ha]
      exact ⟨List.forall_mem_cons.2 ⟨hP, hall⟩, rfl⟩

theorem allowedForeignKeys_verbsGrant :
    (verbsGrant view values table entry).allowedForeignKeys = ∅ := by
  rw [verbsGrant]
  generalize hg : installFacts {} (factsOf entry) = g
  have h : g.allowedForeignKeys = ∅ := hg ▸ rfl
  clear hg
  induction grantedVerbs table generalizing g with
  | nil => exact h
  | cons v vs ih => exact ih _ h

theorem allowedForeignKeys_keyGrant :
    (keyGrant view values table entry).allowedForeignKeys = ∅ := by
  rw [keyGrant]
  split
  · exact allowedForeignKeys_verbsGrant
  · exact allowedForeignKeys_verbsGrant

theorem applyForeignKeys_eq {allowed : CISet} {op : PolicyListOp} {parents : List PolicyName}
    (hop : op ≠ .remove) (h : allowed = ∅) :
    applyForeignKeys allowed op parents = parents.foldl (fun acc p => acc.add p.name) ∅ := by
  subst h
  simp [applyForeignKeys, hop]

/-- **A table that a document may grant resolves**, to its grant. -/
theorem resolveTable_ok {g : SourceGrant} (hfound : grantableEntry view table.name = .ok entry)
    (h : resolveTable view values table entry = .ok g) :
    TableResolves view values table entry ∧ g = tableGrant view values table entry := by
  obtain ⟨g₁, h₁, h⟩ := bind_eq_ok h
  obtain ⟨g₂, h₂, h₃⟩ := bind_eq_ok h
  obtain ⟨hverbs, rfl⟩ := foldlM_filter (p := fun v => (table.verbs v).granted)
    (P := fun v => resolveVerb view entry table.name v (table.verbs v) values =
      .ok (resolvedVerb view values table entry v))
    (g := fun g v => installVerb g v (resolvedVerb view values table entry v)) (fun b v b' hv h => by
      rw [if_pos hv] at h
      obtain ⟨r, hr, h⟩ := bind_eq_ok (guarded_eq_ok h)
      cases h
      have : resolvedVerb view values table entry v = r := toOption_of_ok hr
      exact ⟨this ▸ hr, by rw [this]⟩)
    (fun b v hv => by rw [if_neg (by simp [hv])]; rfl) h₁
  have hkey : (∀ key ∈ table.key,
      resolveKey view entry table.name key = .ok (resolvedKey view table entry key)) ∧
      g₂ = keyGrant view values table entry := by
    rw [resolveTableKey] at h₂
    rw [keyGrant]
    split at h₂
    next hk =>
      cases h₂
      simp [hk]
      rfl
    next key hk =>
      obtain ⟨r, hr, h₂⟩ := bind_eq_ok (guarded_eq_ok h₂)
      cases h₂
      have : resolvedKey view table entry key = r := toOption_of_ok hr
      simp [hk, this, hr]
      rfl
  obtain ⟨hkey, rfl⟩ := hkey
  obtain ⟨hparents, rfl⟩ := foldlM_filter (p := fun _ => true)
    (P := fun p => throwUnlessForeignKey view entry table.name p = .ok ())
    (g := fun g p => { g with allowedForeignKeys := g.allowedForeignKeys.add p.name })
    (fun b p b' _ h => by
      obtain ⟨_, hp, h⟩ := bind_eq_ok (guarded_eq_ok h)
      cases h
      exact ⟨hp, rfl⟩) (fun b p hp => by cases hp) h₃
  simp only [List.filter_true] at hparents ⊢
  refine ⟨⟨hfound, hverbs, hkey, hparents⟩, ?_⟩
  have add : ∀ (ps : List PolicyName) (g : SourceGrant),
      ps.foldl (fun g p => { g with allowedForeignKeys := g.allowedForeignKeys.add p.name }) g =
        { g with allowedForeignKeys := ps.foldl (fun acc p => acc.add p.name) g.allowedForeignKeys } := by
    intro ps
    induction ps with
    | nil => exact fun g => rfl
    | cons p ps ih => exact fun g => ih _
  rw [add, tableGrant, allowedForeignKeys_keyGrant, applyForeignKeys_eq (by decide) rfl]

namespace TableResolves

variable (h : TableResolves view values table entry)

include h

/-- The edit of a verb resolves. -/
theorem verb {v : CrossingVerb} (hv : v ∈ grantedVerbs table) :
    resolveEdit view values (.verb table.name v (table.verbs v)) =
      .ok (.verb table.name v (resolvedVerb view values table entry v) (factsOf entry)) := by
  have hg : (table.verbs v).granted = true := (List.mem_filter.1 hv).2
  rw [resolveEdit, if_pos hg]
  exact bind_eq_ok_iff.2 ⟨entry, h.found, bind_eq_ok_iff.2 ⟨_, h.verbs v hv, rfl⟩⟩

/-- The edit of a key resolves. -/
theorem primaryKey {key : PolicyKey} (hk : table.key = some key) :
    resolveEdit view values (.primaryKey table.name (some key)) =
      .ok (.primaryKey table.name (resolvedKey view table entry key)) :=
  bind_eq_ok_iff.2 ⟨entry, h.found, bind_eq_ok_iff.2 ⟨_, h.key key hk, rfl⟩⟩

/-- The edit of a foreign-key list resolves. -/
theorem foreignKeys {op : PolicyListOp} (hop : op ≠ .remove) :
    resolveEdit view values (.foreignKeys table.name op table.foreignKeys) =
      .ok (.foreignKeys table.name op table.foreignKeys) := by
  have hall : table.foreignKeys.forM (throwUnlessForeignKey view entry table.name) = .ok () :=
    forM_eq_ok.2 h.parents
  simp only [resolveEdit, ne_eq, hop, not_false_iff, if_true]
  exact bind_eq_ok_iff.2 ⟨entry, h.found, bind_eq_ok_iff.2 ⟨(), hall, rfl⟩⟩

end TableResolves

/-- What the edits of a table resolve to. -/
def tableCommits (view : SourceView) (values : ContextValues) (how : Issuing) (table : PolicyTable)
    (entry : SourceEntry) : List PolicyCommit :=
  (grantedVerbs table).map (fun v =>
      .verb table.name v (resolvedVerb view values table entry v) (factsOf entry)) ++
    ((table.key.map fun key => .primaryKey table.name (resolvedKey view table entry key)).toList ++
      if table.foreignKeys ≠ [] ∨ how.emptyParents table = true then
        [.foreignKeys table.name (how.op table) table.foreignKeys]
      else [])

/-- Edits that all resolve. -/
theorem resolvedEdits {edits : List PolicyEdit} {commits : List PolicyCommit}
    (h : List.Forall₂ (fun e c => resolveEdit view values e = .ok c) edits commits) :
    (∀ e ∈ edits, resolveEdit view values e = .ok (resolvedEdit view values e)) ∧
      edits.map (resolvedEdit view values) = commits := by
  induction h with
  | nil => exact ⟨by simp, rfl⟩
  | @cons e c es cs he _ ih =>
    have hc : resolvedEdit view values e = c := toOption_of_ok he
    exact ⟨List.forall_mem_cons.2 ⟨hc ▸ he, ih.1⟩, by rw [List.map_cons, hc, ih.2]⟩

theorem TableResolves.edits {how : Issuing} (h : TableResolves view values table entry) :
    List.Forall₂ (fun e c => resolveEdit view values e = .ok c) (tableSettings how table)
      (tableCommits view values how table entry) := by
  rw [tableSettings, tableCommits]
  refine List.rel_append ?_ (List.rel_append ?_ ?_)
  · rw [List.forall₂_map_left_iff, List.forall₂_map_right_iff, List.forall₂_same]
    exact fun v hv => h.verb hv
  · cases hk : table.key with
    | none => exact .nil
    | some key => exact .cons (h.primaryKey hk) .nil
  · split_ifs
    · exact .cons (h.foreignKeys (how.op_ne table)) .nil
    · exact .nil

/-! ### The edits of one table -/

theorem resolveVerb_granted {name : PolicyName} {v : CrossingVerb} {policy : PolicyVerb}
    {r : ResolvedVerb} (h : resolveVerb view entry name v policy values = .ok r) :
    r.granted = true := by
  obtain ⟨_, -, h⟩ := bind_eq_ok h
  obtain ⟨_, -, h⟩ := bind_eq_ok h
  obtain ⟨_, -, h⟩ := bind_eq_ok h
  obtain ⟨_, -, h⟩ := bind_eq_ok h
  obtain ⟨_, -, h⟩ := bind_eq_ok h
  cases h
  rfl

theorem resolveKey_set {name : PolicyName} {key : PolicyKey} {r : ResolvedKey}
    (h : resolveKey view entry name key = .ok r) : r.set = true := by
  obtain ⟨_, -, h⟩ := bind_eq_ok h
  dsimp only at h
  split_ifs at h
  all_goals
    obtain ⟨columns, -, h⟩ := bind_eq_ok h
    split at h
    · cases h
    · first
      | cases h
        rfl
      | obtain ⟨_, -, h⟩ := bind_eq_ok h
        cases h
        rfl

theorem mem_tableCommits {how : Issuing} {c : PolicyCommit} :
    c ∈ tableCommits view values how table entry ↔
      (∃ v ∈ grantedVerbs table,
        c = .verb table.name v (resolvedVerb view values table entry v) (factsOf entry)) ∨
      (∃ key ∈ table.key, c = .primaryKey table.name (resolvedKey view table entry key)) ∨
      (table.foreignKeys ≠ [] ∨ how.emptyParents table = true) ∧
        c = .foreignKeys table.name (how.op table) table.foreignKeys := by
  simp only [tableCommits, List.mem_append, List.mem_map, Option.mem_toList, Option.map_eq_some_iff,
    Option.mem_def]
  refine or_congr (exists_congr fun v => and_congr_right fun _ => eq_comm)
    (or_congr (exists_congr fun key => and_congr_right fun _ => eq_comm) ?_)
  split_ifs with h
  · simp only [h, List.mem_singleton, true_and]
  · simp only [h, List.not_mem_nil, false_and]

section Installers

variable (g : SourceGrant) (facts : TableFacts) {v v' : CrossingVerb} (r r' : ResolvedVerb)
  {k : ResolvedKey}

/-- Discovering the facts of a table again changes nothing. -/
theorem installFacts_installVerb :
    installFacts (installVerb (installFacts g facts) v r) facts =
      installVerb (installFacts g facts) v r := by
  simp only [installFacts, installVerb]
  split_ifs <;> rfl

theorem installVerb_comm (hr : r.granted = true) (hr' : r'.granted = true) (hv : v ≠ v') :
    installVerb (installVerb g v r) v' r' = installVerb (installVerb g v' r') v r := by
  simp only [installVerb, hr, hr', if_true, Function.update_comm hv, SourceGrant.mk.injEq, true_and,
    and_true]
  refine ⟨Finset.insert_comm _ _ _, ?_⟩
  split_ifs with h h' h' <;> first | rfl | exact absurd (h'.trans h.symm) hv

/-- A key that is set stays, whatever is discovered later. -/
theorem installKey_installVerb (hk : k.set = true) :
    installKey (installVerb (installFacts g facts) v r) k =
      installVerb (installFacts (installKey g k) facts) v r := by
  simp only [installKey, installVerb, installFacts, hk, if_true]

end Installers

/-- What a granted verb does to a grant. -/
theorem onGrant_verb (name : PolicyName) {v : CrossingVerb} {r : ResolvedVerb} {facts : TableFacts}
    (hr : r.granted = true) (g : Option SourceGrant) :
    PolicyCommit.onGrant g (.verb name v r facts) =
      some (installVerb (installFacts (g.getD {}) facts) v r) := if_pos hr

/-- What a key that is set does to a grant. -/
theorem onGrant_key (name : PolicyName) {k : ResolvedKey} (hk : k.set = true)
    (g : Option SourceGrant) :
    PolicyCommit.onGrant g (.primaryKey name k) = some (installKey (g.getD {}) k) := by
  rw [PolicyCommit.onGrant, if_neg (by simp [hk])]

/-- What a foreign-key list does to a grant that is there. -/
theorem onGrant_foreignKeys {name : PolicyName} {op : PolicyListOp} {parents : List PolicyName}
    (g : SourceGrant) :
    PolicyCommit.onGrant (some g) (.foreignKeys name op parents) =
      some { g with allowedForeignKeys := applyForeignKeys g.allowedForeignKeys op parents } := by
  rw [PolicyCommit.onGrant, if_neg (by simp)]
  rfl

/-- An exact list without entries does nothing to a table without a grant; any other makes one. -/
theorem onGrant_foreignKeys_none (name : PolicyName) {op : PolicyListOp}
    (parents : List PolicyName) (hop : op ≠ .remove) :
    PolicyCommit.onGrant none (.foreignKeys name op parents) = none ∧
        applyForeignKeys ∅ op parents = ∅ ∨
      PolicyCommit.onGrant none (.foreignKeys name op parents) =
        some { allowedForeignKeys := applyForeignKeys ∅ op parents } := by
  rw [PolicyCommit.onGrant]
  split_ifs with h
  · have hp : parents = [] := List.isEmpty_iff.1 (h.1.resolve_left hop).2
    refine .inl ⟨rfl, ?_⟩
    rw [applyForeignKeys_eq hop rfl, hp]
    rfl
  · exact .inr rfl

/-- A list and an edit that always makes a grant commute if they do on a grant. -/
theorem foreignKeys_commute (name : PolicyName) {op : PolicyListOp} (parents : List PolicyName)
    (hop : op ≠ .remove) {c : PolicyCommit} {f : SourceGrant → SourceGrant}
    (hc : ∀ g : Option SourceGrant, PolicyCommit.onGrant g c = some (f (g.getD {})))
    (hf : ∀ g, (f g).allowedForeignKeys = g.allowedForeignKeys)
    (hcomm : ∀ (g : SourceGrant) (allowed : CISet),
      f { g with allowedForeignKeys := allowed } = { f g with allowedForeignKeys := allowed })
    (g : Option SourceGrant) :
    PolicyCommit.onGrant (c.onGrant g) (.foreignKeys name op parents) =
      c.onGrant (PolicyCommit.onGrant g (.foreignKeys name op parents)) := by
  rw [hc, onGrant_foreignKeys, hf]
  cases g with
  | some g =>
    rw [onGrant_foreignKeys, hc]
    exact congrArg some (hcomm g _).symm
  | none =>
    have default : ∀ allowed : CISet, f { allowedForeignKeys := allowed } =
        { f {} with allowedForeignKeys := allowed } := hcomm {}
    rcases onGrant_foreignKeys_none name parents hop with ⟨h, he⟩ | h
    · rw [h, hc, Option.getD_none]
      exact congrArg some ((congrArg _ he).trans (default ∅).symm)
    · rw [h, hc, Option.getD_none, Option.getD_some]
      exact congrArg some (default _).symm

/-- **The edits of a table commute**: its facts are the same each time, and a key that is set stays
whatever is discovered. -/
theorem tableCommits_commute {how : Issuing} (h : TableResolves view values table entry)
    {c c' : PolicyCommit} (hc : c ∈ tableCommits view values how table entry)
    (hc' : c' ∈ tableCommits view values how table entry) (g : Option SourceGrant) :
    c'.onGrant (c.onGrant g) = c.onGrant (c'.onGrant g) := by
  have granted : ∀ v ∈ grantedVerbs table,
      (resolvedVerb view values table entry v).granted = true :=
    fun v hv => resolveVerb_granted (h.verbs v hv)
  have set : ∀ key ∈ table.key, (resolvedKey view table entry key).set = true :=
    fun key hk => resolveKey_set (h.key key hk)
  have verbKey : ∀ v ∈ grantedVerbs table, ∀ key ∈ table.key, ∀ g : Option SourceGrant,
      PolicyCommit.onGrant (PolicyCommit.onGrant g (.verb table.name v
        (resolvedVerb view values table entry v) (factsOf entry)))
        (.primaryKey table.name (resolvedKey view table entry key)) =
      PolicyCommit.onGrant (PolicyCommit.onGrant g
        (.primaryKey table.name (resolvedKey view table entry key)))
        (.verb table.name v (resolvedVerb view values table entry v) (factsOf entry)) := by
    intro v hv key hk g
    rw [onGrant_verb _ (granted v hv), onGrant_verb _ (granted v hv), onGrant_key _ (set key hk),
      onGrant_key _ (set key hk), Option.getD_some, Option.getD_some,
      installKey_installVerb _ _ _ (set key hk)]
  have verbParents := fun v (hv : v ∈ grantedVerbs table) =>
    foreignKeys_commute table.name table.foreignKeys
      (f := fun g => installVerb (installFacts g (factsOf entry)) v
        (resolvedVerb view values table entry v))
      (how.op_ne table) (onGrant_verb table.name (granted v hv)) (fun _ => rfl)
      fun _ _ => rfl
  have keyParents := fun key (hk : key ∈ table.key) =>
    foreignKeys_commute table.name table.foreignKeys
      (f := fun g => installKey g (resolvedKey view table entry key))
      (how.op_ne table) (onGrant_key table.name (set key hk)) (fun _ => rfl)
      fun _ _ => rfl
  rcases mem_tableCommits.1 hc with ⟨v, hv, rfl⟩ | ⟨key, hk, rfl⟩ | ⟨-, rfl⟩ <;>
    rcases mem_tableCommits.1 hc' with ⟨v', hv', rfl⟩ | ⟨key', hk', rfl⟩ | ⟨-, rfl⟩
  · by_cases hvv : v = v'
    · subst hvv
      rfl
    · rw [onGrant_verb _ (granted v hv), onGrant_verb _ (granted v' hv'), onGrant_verb _ (granted v hv),
        onGrant_verb _ (granted v' hv'), Option.getD_some, Option.getD_some,
        installFacts_installVerb, installFacts_installVerb,
        installVerb_comm _ _ _ (granted v hv) (granted v' hv') hvv]
  · exact verbKey v hv key' hk' g
  · exact verbParents v hv g
  · exact (verbKey v' hv' key hk g).symm
  · cases Option.some.inj (hk.symm.trans hk')
    rfl
  · exact keyParents key hk g
  · exact (verbParents v' hv' g).symm
  · exact (keyParents key' hk' g).symm
  · rfl

/-- Verbs that are granted one after another. -/
theorem foldl_verbs {facts : TableFacts} {r : CrossingVerb → ResolvedVerb} {name : PolicyName}
    {vs : List CrossingVerb} (hr : ∀ v ∈ vs, (r v).granted = true) {g : SourceGrant}
    (hg : installFacts g facts = g) :
    (vs.map fun v => PolicyCommit.verb name v (r v) facts).foldl PolicyCommit.onGrant (some g) =
      some (vs.foldl (fun g v => installVerb g v (r v)) g) := by
  induction vs generalizing g with
  | nil => rfl
  | cons v vs ih =>
    obtain ⟨hv, hvs⟩ := List.forall_mem_cons.1 hr
    rw [List.map_cons, List.foldl_cons, List.foldl_cons, onGrant_verb _ hv, Option.getD_some, hg]
    refine ih hvs ?_
    rw [← hg, installFacts_installVerb]

/-- **The edits of a table make its grant**, verbs first. -/
theorem foldl_tableCommits {how : Issuing} (h : TableResolves view values table entry)
    (hverb : grantedVerbs table ≠ []) :
    (tableCommits view values how table entry).foldl PolicyCommit.onGrant none =
      some (tableGrant view values table entry) := by
  have granted : ∀ v ∈ grantedVerbs table,
      (resolvedVerb view values table entry v).granted = true :=
    fun v hv => resolveVerb_granted (h.verbs v hv)
  have verbs : ((grantedVerbs table).map fun v => PolicyCommit.verb table.name v
      (resolvedVerb view values table entry v) (factsOf entry)).foldl PolicyCommit.onGrant none =
      some (verbsGrant view values table entry) := by
    rw [verbsGrant]
    obtain ⟨v, vs, hvs⟩ := List.exists_cons_of_ne_nil hverb
    rw [hvs] at granted ⊢
    obtain ⟨hv, hrest⟩ := List.forall_mem_cons.1 granted
    rw [List.map_cons, List.foldl_cons, List.foldl_cons, onGrant_verb _ hv, Option.getD_none]
    exact foldl_verbs hrest (installFacts_installVerb _ _ _)
  have key : (table.key.map fun key => PolicyCommit.primaryKey table.name
      (resolvedKey view table entry key)).toList.foldl PolicyCommit.onGrant
        (some (verbsGrant view values table entry)) = some (keyGrant view values table entry) := by
    rw [keyGrant]
    cases hk : table.key with
    | none => rfl
    | some key => exact onGrant_key table.name (resolveKey_set (h.key key hk)) _
  rw [tableCommits, List.foldl_append, List.foldl_append, verbs, key, tableGrant]
  split_ifs with hp
  · rw [List.foldl_cons, List.foldl_nil, onGrant_foreignKeys, allowedForeignKeys_keyGrant,
      applyForeignKeys_eq (how.op_ne table) rfl, applyForeignKeys_eq (by decide) rfl]
  · have none' : table.foreignKeys = [] := by
      by_contra hne
      exact hp (.inl hne)
    rw [none', ← @allowedForeignKeys_keyGrant view values table entry]
    rfl

end

end VirtualCatalog
