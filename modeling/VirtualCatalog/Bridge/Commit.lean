import VirtualCatalog.Bridge.Resolve

/-!
# Committing a policy

An edit is resolved against the source first (`resolveEdit`, `resolvePolicy`); `commitPolicy` then
rearranges a copy of the live policy under the book's lock, validates it as a whole and installs
it.

* `ValidGrants` : what `validateGrantSet` asks of a grant set, as a relation between its grants;
  `validateGrantSet_ok_iff` says so.
* `PolicyCommit` : a resolved edit, waiting for the lock; `PolicyCommit.apply` is what it does.
* `commitPolicy` : one commit, with its refusals.
-/

namespace VirtualCatalog

/-! ### The law of a grant set -/

/-- `ThrowIfForeignKeyOracle`: the source checks a foreign key over every parent row, so an insert
or update reveals whether a parent key exists unless the target can read every parent row. -/
def throwIfForeignKeyOracle (T : GrantTables) (schema table : String) (parents : List String)
    (allowed : CISet) (verb : CrossingVerb) (bridgeId : String) : Except BridgeError Unit :=
  if verb ≠ .insert ∧ verb ≠ .update then .ok ()
  else
    parents.forM fun parent =>
      throwIf (allowed.contains parent = false ∧
          (T.findGrant schema parent).any (fun g => g.has .select && g.selectUnrestricted) = false)
        ⟨.permission, "vcatbridge: table '" ++ schema ++ "." ++ table ++ "' in bridge '" ++
          bridgeId ++ "' grants '" ++ verb.name ++ "' over a foreign key to '" ++ schema ++ "." ++
          parent ++ "', which is not granted 'select' with USING 'true'; the write would reveal " ++
          "which keys exist in it. To accept this, add '" ++ schema ++ "." ++ parent ++
          "' to the foreign_keys of '" ++ schema ++ "." ++ table ++ "'"⟩

/-- The check of one grant: it has a verb, and its writes reveal no foreign key. -/
def validateGrant (T : GrantTables) (schema table bridgeId : String) (g : SourceGrant) :
    Except BridgeError Unit := do
  throwIf (g.verbs = ∅)
    ⟨.permission, "vcatbridge: '" ++ schema ++ "." ++ table ++ "' in bridge '" ++ bridgeId ++
      "' sets primary_key or foreign_keys but grants no verb"⟩
  [CrossingVerb.insert, .update].forM fun verb =>
    if g.has verb then
      throwIfForeignKeyOracle T schema table g.foreignKeyParents g.allowedForeignKeys verb bridgeId
    else .ok ()

/-- `ValidateGrantSet`. -/
def validateGrantSet (T : GrantTables) (createSchemas : CISet) (bridgeId : String)
    (attaching : Bool) : Except BridgeError Unit := do
  T.entries.forM fun e => validateGrant T e.1 e.2.1 bridgeId e.2.2
  throwIf (attaching ∧ createSchemas.toList.length + T.entries.length = 0)
    ⟨.permission, "vcatbridge: bridge '" ++ bridgeId ++ "' has no policies; call " ++
      "vcatbridge_configure_policy or vcatbridge_set_policy on the source connection before attaching"⟩

/-- The grant writes rows whose foreign keys the source checks. -/
def SourceGrant.writes (g : SourceGrant) : Prop := .insert ∈ g.verbs ∨ .update ∈ g.verbs

/-- The grant lets the target read every row. -/
def SourceGrant.readsAll (g : SourceGrant) : Prop :=
  .select ∈ g.verbs ∧ g.selectUnrestricted = true

/-- The grant at `k` needs its schema's table `parent` to be readable. -/
def SourceGrant.needs (g : SourceGrant) (parent : List Char) : Prop :=
  g.writes ∧ ∃ p ∈ g.foreignKeyParents, g.allowedForeignKeys.contains p = false ∧ fold p = parent

/-- The grant at `k` has a verb, and every parent it needs is granted select without restriction. -/
def ValidGrant (T : GrantTables) (k : TableKey) (g : SourceGrant) : Prop :=
  g.verbs ≠ ∅ ∧ ∀ parent, g.needs parent → ∃ p, T.grantAt (k.1, parent) = some p ∧ p.readsAll

/-- Every grant of the set is valid. -/
def ValidGrants (T : GrantTables) : Prop := ∀ k g, T.grantAt k = some g → ValidGrant T k g

theorem bind_unit_ok_iff {ε : Type} {x : Except ε Unit} {y : Except ε Unit} {u : Unit} :
    (x >>= fun _ => y) = .ok u ↔ x = .ok () ∧ y = .ok () := by
  cases x <;> simp [bind, Except.bind]

theorem forM_eq_ok {α ε : Type} {l : List α} {f : α → Except ε Unit} {u : Unit} :
    l.forM f = .ok u ↔ ∀ a ∈ l, f a = .ok () := by
  induction l with
  | nil => simp [pure, Except.pure]
  | cons a l ih =>
    change (f a >>= fun _ => l.forM f) = _ ↔ _
    rw [List.forall_mem_cons, bind_unit_ok_iff, ih]

theorem throwIfForeignKeyOracle_ok_iff {T : GrantTables} {schema table : String}
    {g : SourceGrant} {verb : CrossingVerb} {bridgeId : String}
    (hv : verb = .insert ∨ verb = .update) :
    throwIfForeignKeyOracle T schema table g.foreignKeyParents g.allowedForeignKeys verb bridgeId =
        .ok () ↔
      ∀ p ∈ g.foreignKeyParents, g.allowedForeignKeys.contains p = false →
        ∃ pg, T.grantAt (tableKey schema p) = some pg ∧ pg.readsAll := by
  have hn : ¬ (verb ≠ .insert ∧ verb ≠ .update) := by
    rcases hv with rfl | rfl <;> simp
  rw [throwIfForeignKeyOracle, if_neg hn, forM_eq_ok]
  refine forall₂_congr fun p _ => ?_
  rw [throwIf_eq_ok, GrantTables.findGrant_eq, not_and, Bool.not_eq_false, Option.any_eq_true]
  simp [SourceGrant.readsAll]

theorem validateGrant_ok_iff {T : GrantTables} {schema table bridgeId : String} {g : SourceGrant} :
    validateGrant T schema table bridgeId g = .ok () ↔ ValidGrant T (tableKey schema table) g := by
  rw [validateGrant, bind_unit_ok_iff, throwIf_eq_ok, forM_eq_ok, ValidGrant]
  refine and_congr Iff.rfl ⟨?_, ?_⟩
  · rintro h _ ⟨hi | hu, p, hp, hal, rfl⟩
    · have := h .insert (by simp)
      rw [if_pos (SourceGrant.has_iff.2 hi)] at this
      exact (throwIfForeignKeyOracle_ok_iff (.inl rfl)).1 this p hp hal
    · have := h .update (by simp)
      rw [if_pos (SourceGrant.has_iff.2 hu)] at this
      exact (throwIfForeignKeyOracle_ok_iff (.inr rfl)).1 this p hp hal
  · intro h verb hverb
    have hv : verb = .insert ∨ verb = .update := by simpa using hverb
    split_ifs with hhas
    · refine (throwIfForeignKeyOracle_ok_iff hv).2 fun p hp hal => h _ ⟨?_, p, hp, hal, rfl⟩
      rcases hv with rfl | rfl
      · exact .inl (SourceGrant.has_iff.1 hhas)
      · exact .inr (SourceGrant.has_iff.1 hhas)
    · rfl

/-- **`validateGrantSet` accepts exactly the valid grant sets**, but for an empty one at attach. -/
theorem validateGrantSet_ok_iff {T : GrantTables} {createSchemas : CISet} {bridgeId : String} :
    validateGrantSet T createSchemas bridgeId false = .ok () ↔ ValidGrants T := by
  rw [validateGrantSet, bind_unit_ok_iff, forM_eq_ok, throwIf_eq_ok]
  constructor
  · rintro ⟨h, -⟩ k g hg
    obtain ⟨s, t, rfl, he⟩ := GrantTables.mem_entries_of_grantAt hg
    exact validateGrant_ok_iff.1 (h _ he)
  · refine fun h => ⟨fun e he => validateGrant_ok_iff.2 ?_, by simp⟩
    exact h _ _ (GrantTables.grantAt_of_mem_entries he)

/-! ### Settings -/

/-- `InstallFacts`. -/
def installFacts (g : SourceGrant) (facts : TableFacts) : SourceGrant :=
  { g with
    discoveredKey := facts.discoveredKey
    foreignKeyParents := facts.foreignKeyParents
    key := if g.keySet then g.key else facts.discoveredKey }

/-- `InstallVerb`. -/
def installVerb (g : SourceGrant) (verb : CrossingVerb) (resolved : ResolvedVerb) : SourceGrant :=
  { g with
    verbs := if resolved.granted then insert verb g.verbs else g.verbs.erase verb
    usingPredicates := Function.update g.usingPredicates verb resolved.usingPredicate
    checkPredicates := Function.update g.checkPredicates verb resolved.checkPredicate
    selectUnrestricted := if verb = .select then resolved.unrestricted else g.selectUnrestricted }

/-- `InstallKey`. -/
def installKey (g : SourceGrant) (resolved : ResolvedKey) : SourceGrant :=
  { g with
    keySet := resolved.set
    key := if resolved.set then resolved.columns else g.discoveredKey
    keyVerified := if resolved.set then resolved.verified else true }

/-- `ApplyFunctionList`. -/
def applyFunctionList (functions : FunctionGrants) (op : PolicyListOp) (names : List String) :
    FunctionGrants :=
  let start := if op = .set then ⟨false, ∅, ∅⟩ else functions
  names.foldl
    (fun f n =>
      if op = .remove then { f with disallowed := f.disallowed.add n, allowed := f.allowed.erase n }
      else { f with allowed := f.allowed.add n, disallowed := f.disallowed.erase n })
    start

/-- The allowed foreign keys after an edit of the list. -/
def applyForeignKeys (allowed : CISet) (op : PolicyListOp) (parents : List PolicyName) : CISet :=
  parents.foldl (fun acc p => if op = .remove then acc.erase p.name else acc.add p.name)
    (if op = .set then ∅ else allowed)

/-! ### Edits -/

/-- What an owner sets on a live bridge. -/
inductive PolicyEdit where
  | verb (target : PolicyName) (verb : CrossingVerb) (value : PolicyVerb)
  | create (target : PolicyName) (granted : Bool)
  /-- No key unsets it, back to the discovered one. -/
  | primaryKey (target : PolicyName) (key : Option PolicyKey)
  | foreignKeys (target : PolicyName) (op : PolicyListOp) (parents : List PolicyName)
  | whitelist (op : PolicyListOp) (functions : List String)

/-- An edit resolved against the source, waiting for the lock. -/
inductive PolicyCommit where
  | verb (target : PolicyName) (verb : CrossingVerb) (resolved : ResolvedVerb) (facts : TableFacts)
  | create (schema : String) (granted : Bool)
  | primaryKey (target : PolicyName) (resolved : ResolvedKey)
  | foreignKeys (target : PolicyName) (op : PolicyListOp) (parents : List PolicyName)
  | whitelist (op : PolicyListOp) (functions : List String)
  | configure (state : PolicyState)

/-- The part of `SetPolicy` before its commit. -/
def resolveEdit (view : SourceView) (values : ContextValues) :
    PolicyEdit → Except BridgeError PolicyCommit
  | .verb target verb value =>
    if value.granted then do
      let entry ← grantableEntry view target
      let resolved ← resolveVerb view entry target verb value values
      return .verb target verb resolved (factsOf entry)
    -- a verb is taken away without a look at the source
    else return .verb target verb {} {}
  | .create target granted => do
    if granted then throwUnlessSchemaExists view target
    return .create target.schema granted
  | .primaryKey target none => return .primaryKey target {}
  | .primaryKey target (some key) => do
    let entry ← grantableEntry view target
    return .primaryKey target (← resolveKey view entry target key)
  | .foreignKeys target op parents => do
    -- parents are looked up on the source only to be added
    if op ≠ .remove then
      let entry ← grantableEntry view target
      parents.forM (throwUnlessForeignKey view entry target)
    return .foreignKeys target op parents
  | .whitelist op functions => return .whitelist op functions

/-! ### A whole policy -/

/-- `PolicyTable`. -/
structure PolicyTable where
  name : PolicyName
  /-- Where the table came from; the base of every error path about it. -/
  path : String
  verbs : CrossingVerb → PolicyVerb
  key : Option PolicyKey := none
  foreignKeys : List PolicyName := []

/-- `PolicyConfig`. -/
structure PolicyConfig where
  createSchemas : List (PolicyName × String) := []
  tables : List PolicyTable := []
  builtins : Bool := true
  add : List String := []
  remove : List String := []

/-- `BridgePrefix`. -/
def bridgePrefix : String := "vcatbridge: "

/-- `StripBridgePrefix`. -/
def stripBridgePrefix (message : String) : String :=
  if bridgePrefix.toList.isPrefixOf message.toList then
    .ofList (message.toList.drop bridgePrefix.length)
  else message

/-- `RethrowAt`: the error names its path, once. -/
def rethrowAt (path : String) (e : BridgeError) : BridgeError :=
  let message := stripBridgePrefix e.message
  if path.toList.isPrefixOf message.toList then e
  else ⟨e.kind, bridgePrefix ++ path ++ ": " ++ message⟩

/-- `Guarded`, when every failure throws. -/
def guarded {α : Type} (path : String) (x : Except BridgeError α) : Except BridgeError α :=
  x.mapError (rethrowAt path)

/-- The grant with the key of its table of a policy. -/
def resolveTableKey (view : SourceView) (table : PolicyTable) (entry : SourceEntry)
    (g : SourceGrant) : Except BridgeError SourceGrant :=
  match table.key with
  | none => .ok g
  | some key => guarded (table.path ++ ".primary_key") do
    return installKey g (← resolveKey view entry table.name key)

/-- The grant of one table of a policy. -/
def resolveTable (view : SourceView) (values : ContextValues) (table : PolicyTable)
    (entry : SourceEntry) : Except BridgeError SourceGrant := do
  let g ← crossingVerbs.foldlM (fun (g : SourceGrant) verb =>
    if (table.verbs verb).granted then
      guarded (table.path ++ "." ++ verb.name) do
        return installVerb g verb
          (← resolveVerb view entry table.name verb (table.verbs verb) values)
    else return g) (installFacts {} (factsOf entry))
  let g ← resolveTableKey view table entry g
  table.foreignKeys.foldlM (fun (g : SourceGrant) parent =>
    guarded (table.path ++ ".foreign_keys") do
      throwUnlessForeignKey view entry table.name parent
      return { g with allowedForeignKeys := g.allowedForeignKeys.add parent.name }) g

/-- `ResolvePolicy`, when every failure throws. -/
def resolvePolicy (view : SourceView) (values : ContextValues) (config : PolicyConfig) :
    Except BridgeError PolicyState := do
  let createSchemas ← config.createSchemas.foldlM (fun (acc : CISet) s =>
    guarded s.2 do
      throwUnlessSchemaExists view s.1
      return acc.add s.1.schema) ∅
  let tables ← config.tables.foldlM (fun (acc : GrantTables) table => do
    let entry ← guarded table.path do
      throwIf (acc.findGrant table.name.schema table.name.name).isSome
        ⟨.io, "vcatbridge: '" ++ table.name.schema ++ "." ++ table.name.name ++
          "' is configured twice"⟩
      grantableEntry view table.name
    return acc.set table.name.schema table.name.name (← resolveTable view values table entry)) ∅
  return { tables := tables
           createSchemas := createSchemas
           functions := applyFunctionList (applyFunctionList ⟨config.builtins, ∅, ∅⟩ .add config.add)
             .remove config.remove }

namespace PolicyCommit

/-- `touches_tables`. -/
def touchesTables : PolicyCommit → Bool
  | whitelist _ _ => false
  | _ => true

/-- `GrantToConfigure` on a live bridge: settings other than verbs need a granted table. -/
def grantToConfigure (state : PolicyState) (target : PolicyName) (bridgeId : String) :
    Except BridgeError SourceGrant :=
  match state.tables.findGrant target.schema target.name with
  | some g => .ok g
  | none => .error ⟨.catalog, "vcatbridge: '" ++ target.schema ++ "." ++ target.name ++
      "' is not granted in bridge '" ++ bridgeId ++ "'; grant it a verb first"⟩

/-- The state with one grant changed. -/
def withGrant (state : PolicyState) (target : PolicyName) (g : SourceGrant) : PolicyState :=
  { state with tables := state.tables.set target.schema target.name g }

/-- What the edit does to a copy of the live policy. -/
def apply (bridgeId : String) (state : PolicyState) : PolicyCommit → Except BridgeError PolicyState
  | verb target v resolved facts =>
    let found := state.tables.findGrant target.schema target.name
    if resolved.granted then
      return withGrant state target (installVerb (installFacts (found.getD {}) facts) v resolved)
    else
      match found with
      | none => return state
      | some g =>
        let g := installVerb g v resolved
        -- a table without verbs is not granted, whatever else it set
        if g.verbs = ∅ then
          return { state with tables := state.tables.revoke target.schema target.name }
        else return withGrant state target g
  | create schema granted =>
    return { state with createSchemas :=
      if granted then state.createSchemas.add schema else state.createSchemas.erase schema }
  | primaryKey target resolved =>
    if resolved.set = false ∧ (state.tables.findGrant target.schema target.name).isNone then
      return state
    else do
      let g ← grantToConfigure state target bridgeId
      return withGrant state target (installKey g resolved)
  | foreignKeys target op parents =>
    if (op = .remove ∨ (op = .set ∧ parents.isEmpty)) ∧
        (state.tables.findGrant target.schema target.name).isNone then
      return state
    else do
      let g ← grantToConfigure state target bridgeId
      return withGrant state target
        { g with allowedForeignKeys := applyForeignKeys g.allowedForeignKeys op parents }
  | whitelist op names =>
    return { state with functions := applyFunctionList state.functions op names }
  | configure newState => return newState

/-- What the edit does to a copy of a policy that is not attached yet: a setting other than a verb
makes its grant, and nothing is refused. -/
def applyPending (state : PolicyState) : PolicyCommit → PolicyState
  | verb target v resolved facts =>
    let found := state.tables.findGrant target.schema target.name
    if resolved.granted then
      withGrant state target (installVerb (installFacts (found.getD {}) facts) v resolved)
    else
      match found with
      | none => state
      | some g =>
        let g := installVerb g v resolved
        -- a table without verbs is not granted, whatever else it set
        if g.verbs = ∅ then
          { state with tables := state.tables.revoke target.schema target.name }
        else withGrant state target g
  | create schema granted =>
    { state with createSchemas :=
      if granted then state.createSchemas.add schema else state.createSchemas.erase schema }
  | primaryKey target resolved =>
    let found := state.tables.findGrant target.schema target.name
    -- taking a key away does not make a grant
    if resolved.set = false ∧ found.isNone then state
    else withGrant state target (installKey (found.getD {}) resolved)
  | foreignKeys target op parents =>
    let found := state.tables.findGrant target.schema target.name
    if (op = .remove ∨ (op = .set ∧ parents.isEmpty)) ∧ found.isNone then state
    else
      let g := found.getD {}
      withGrant state target
        { g with allowedForeignKeys := applyForeignKeys g.allowedForeignKeys op parents }
  | whitelist op names => { state with functions := applyFunctionList state.functions op names }
  | configure newState => newState

theorem grantToConfigure_ok {state : PolicyState} {target : PolicyName} {bridgeId : String}
    {g : SourceGrant} (h : grantToConfigure state target bridgeId = .ok g) :
    state.tables.findGrant target.schema target.name = some g := by
  rw [grantToConfigure] at h
  split at h
  next hf => cases h; exact hf
  next => cases h

/-- An edit that a live bridge accepts does what it does before the attach. -/
theorem eq_applyPending {bridgeId : String} {state state' : PolicyState} {c : PolicyCommit}
    (h : c.apply bridgeId state = .ok state') : state' = c.applyPending state := by
  cases c with
  | verb target v resolved facts =>
    simp only [apply, applyPending] at h ⊢
    split_ifs at h ⊢ with hr
    · cases h; rfl
    · split at h
      · cases h; rfl
      next g hg =>
        split_ifs at h ⊢ <;> cases h <;> rfl
  | create schema granted => cases h; rfl
  | primaryKey target resolved =>
    simp only [apply, applyPending] at h ⊢
    split_ifs at h ⊢
    · cases h; rfl
    · obtain ⟨g, hg, h⟩ := bind_eq_ok h
      cases h
      rw [grantToConfigure_ok hg]
      rfl
  | foreignKeys target op parents =>
    simp only [apply, applyPending] at h ⊢
    split_ifs at h ⊢
    · cases h; rfl
    · obtain ⟨g, hg, h⟩ := bind_eq_ok h
      cases h
      rw [grantToConfigure_ok hg]
      rfl
  | whitelist op names => cases h; rfl
  | configure newState => cases h; rfl

end PolicyCommit

/-- `CommitPolicy` on a live bridge. -/
def commitPolicy (bridgeId : String) (book : GrantBook) (commit : PolicyCommit) :
    Except BridgeError GrantBook := do
  throwIf book.policyFinalized
    ⟨.permission, "vcatbridge: the policies of bridge '" ++ bridgeId ++ "' are finalized"⟩
  throwIf (commit.touchesTables ∧ book.uncommittedDdl > 0)
    ⟨.permission, "vcatbridge: a target transaction has uncommitted DDL on bridge '" ++ bridgeId ++
      "'; change the policy after it ends"⟩
  let state ← commit.apply bridgeId (copyPolicy book.state)
  validateGrantSet state.tables state.createSchemas bridgeId false
  return { book with state := state }

/-- When a commit succeeds, and what it does. -/
theorem commitPolicy_ok_iff {bridgeId : String} {book book' : GrantBook} {commit : PolicyCommit} :
    commitPolicy bridgeId book commit = .ok book' ↔
      book.policyFinalized = false ∧ (commit.touchesTables = true → book.uncommittedDdl = 0) ∧
        ∃ state, commit.apply bridgeId (copyPolicy book.state) = .ok state ∧
          ValidGrants state.tables ∧ book' = { book with state := state } := by
  have count : ¬ (commit.touchesTables = true ∧ book.uncommittedDdl > 0) ↔
      (commit.touchesTables = true → book.uncommittedDdl = 0) := by
    rw [not_and, gt_iff_lt, Nat.not_lt, Nat.le_zero]
  constructor
  · intro h
    obtain ⟨_, hf, h⟩ := bind_eq_ok h
    obtain ⟨_, hc, h⟩ := bind_eq_ok h
    obtain ⟨state, ha, h⟩ := bind_eq_ok h
    obtain ⟨_, hv, h⟩ := bind_eq_ok h
    cases h
    exact ⟨by simpa using throwIf_eq_ok.1 hf, count.1 (throwIf_eq_ok.1 hc), state, ha,
      validateGrantSet_ok_iff.1 hv, rfl⟩
  · rintro ⟨hf, hc, state, ha, hv, rfl⟩
    have hf' : ¬ book.policyFinalized = true := by simp [hf]
    exact bind_eq_ok_iff.2 ⟨(), throwIf_eq_ok.2 hf', bind_eq_ok_iff.2 ⟨(),
      throwIf_eq_ok.2 (count.2 hc), bind_eq_ok_iff.2 ⟨state, ha, bind_eq_ok_iff.2
        ⟨(), validateGrantSet_ok_iff.2 hv, rfl⟩⟩⟩⟩

end VirtualCatalog
