import VirtualCatalog.Bridge.Predicate
import VirtualCatalog.Machine.Fallible

/-!
# Resolving a policy against the source

What an owner asks for (`PolicyEdit`, `PolicyConfig`) is text; resolving it checks that text
against the source and against one snapshot of the context, before any grant is touched.

* `SourceView` : what the source answers: its parser, its tables and the owner's key queries.
* `parseAndValidatePredicate`, `resolveVerb`, `resolveKey` : the resolved settings.
* `resolveVerb_filledBy` : a resolved predicate uses only names that the snapshot has.
-/

namespace VirtualCatalog

/-- `PolicyName`. -/
structure PolicyName where
  catalog : String := ""
  schema : String
  name : String := ""
deriving DecidableEq

/-- `PolicyVerb`. -/
structure PolicyVerb where
  granted : Bool := false
  usingText : String := ""
  checkText : String := ""

/-- `PolicyKey`. -/
structure PolicyKey where
  columns : List String := []
  columnsFromQuery : String := ""
  verifyUnique : String := ""

/-- `PolicyListOp`. -/
inductive PolicyListOp where
  | add
  | remove
  | set
deriving DecidableEq

/-- A table or view of the source as the bridge looks it up. -/
structure SourceEntry where
  isView : Bool := false
  columns : List String
  discoveredKey : List String := []
  foreignKeyParents : List String := []
  /-- Bind `SELECT expr FROM entry WHERE expr`: the types of the columns, or what the binder says. -/
  probe : Expr → Except String (List String)

/-- What the source answers while a policy is resolved. -/
structure SourceView where
  catalog : String
  parse : String → Except BridgeError (List Expr)
  /-- `ToString` of a predicate. -/
  print : Expr → String
  /-- `SourceTableEntry`, by folded names. -/
  entry : TableKey → Option SourceEntry
  hasSchema : List Char → Bool
  /-- The rows of a key query: a column name, or none for `NULL` or an empty one. -/
  keyQuery : String → Except BridgeError (List (Option String))
  /-- Whether a uniqueness query returns a row. -/
  verifyQuery : String → Except BridgeError Bool

/-- `IsUnrestricted`: the text is `true`, between blanks and in any case. -/
def isUnrestricted (text : String) : Bool :=
  let blank (c : Char) := c == ' ' || c == '\t' || c == '\n' || c == '\r'
  let trimmed := ((text.toList.dropWhile blank).reverse.dropWhile blank).reverse
  decide (trimmed.map Char.toLower = "true".toList)

/-- `ThrowIfOtherCatalog`. -/
def throwIfOtherCatalog (view : SourceView) (name : PolicyName) : Except BridgeError Unit :=
  throwIf (name.catalog ≠ "" ∧ ciEq name.catalog view.catalog = false)
    ⟨.io, "vcatbridge: '" ++ name.schema ++ "." ++ name.name ++ "' names catalog '" ++
      name.catalog ++ "', but this bridge's source catalog is '" ++ view.catalog ++ "'"⟩

/-- `GrantableEntry`. -/
def grantableEntry (view : SourceView) (name : PolicyName) : Except BridgeError SourceEntry := do
  throwIfOtherCatalog view name
  match view.entry (tableKey name.schema name.name) with
  | some entry => return entry
  | none => .error ⟨.catalog, "vcatbridge: '" ++ name.schema ++ "." ++ name.name ++
      "' not found in catalog '" ++ view.catalog ++ "' on source"⟩

/-- `ThrowUnlessSchemaExists`. -/
def throwUnlessSchemaExists (view : SourceView) (name : PolicyName) : Except BridgeError Unit := do
  throwIfOtherCatalog view name
  throwIf (view.hasSchema (fold name.schema) = false)
    ⟨.catalog, "vcatbridge: schema '" ++ name.schema ++ "' not found in catalog '" ++
      view.catalog ++ "' on source"⟩

/-- What the source says about a granted table, recorded with its grant. -/
structure TableFacts where
  discoveredKey : List String := []
  foreignKeyParents : List String := []

/-- `FactsOf`: a view has neither. -/
def factsOf (entry : SourceEntry) : TableFacts :=
  if entry.isView then {} else ⟨entry.discoveredKey, entry.foreignKeyParents⟩

/-! ### Predicates -/

/-- `ProbePredicate`. -/
def probePredicate (entry : SourceEntry) (predicate : Expr) (values : ContextValues)
    (text clause : String) : Except BridgeError Unit := do
  let expr ← fillContext values predicate
  match entry.probe expr with
  | .error what => .error ⟨.io, "vcatbridge: the " ++ clause ++ " predicate '" ++ text ++
      "' is not a valid WHERE clause on the source: " ++ what⟩
  | .ok ["BOOLEAN"] => return ()
  | .ok [type] => .error ⟨.io, "vcatbridge: the " ++ clause ++ " predicate '" ++ text ++
      "' must be BOOLEAN, but it is " ++ type⟩
  | .ok _ => .error ⟨.io, "vcatbridge: the " ++ clause ++ " predicate '" ++ text ++
      "' must be a single expression"⟩

/-- What is wrong with a name a predicate uses. -/
def contextNameError (values : ContextValues) (text clause name : String) : Option BridgeError :=
  if name.toList.all Char.isDigit then
    some ⟨.io, "vcatbridge: the " ++ clause ++ " predicate '" ++ text ++
      "' may only use named context parameters ($name), not positional ones"⟩
  else if values.contains name then none
  else some ⟨.io, "vcatbridge: the " ++ clause ++ " predicate '" ++ text ++ "' uses context '$" ++
    name ++ "', which is not set; call vcatbridge_set_context before setting a policy that uses it"⟩

/-- `ParseAndValidatePredicate`, with a context to check against. -/
def parseAndValidatePredicate (view : SourceView) (entry : SourceEntry) (text clause : String)
    (values : ContextValues) : Except BridgeError Expr := do
  match ← view.parse text with
  | [expr] =>
    match (contextNames expr).names.findSome? (contextNameError values text clause) with
    | some e => .error e
    | none =>
      probePredicate entry expr values text clause
      return expr
  | _ => .error ⟨.io, "vcatbridge: the " ++ clause ++ " predicate must be a single expression"⟩

/-- A setting of a verb, resolved. -/
structure ResolvedVerb where
  granted : Bool := false
  usingPredicate : Option Expr := none
  checkPredicate : Option Expr := none
  unrestricted : Bool := false

/-- The check of `ResolveVerb`: a missing one is the USING predicate on update and an error on
insert. -/
def resolveCheck (view : SourceView) (entry : SourceEntry) (verb : CrossingVerb)
    (policy : PolicyVerb) (values : ContextValues) (usingPredicate : Expr) :
    Except BridgeError (Option Expr) :=
  if policy.checkText ≠ "" then
    some <$> parseAndValidatePredicate view entry policy.checkText "WITH CHECK" values
  else
    match verb with
    | .insert => throw ⟨.io, "vcatbridge: an 'insert' grant must state a check predicate"⟩
    | .update => return some usingPredicate
    | _ => return none

/-- `ResolveVerb`. -/
def resolveVerb (view : SourceView) (entry : SourceEntry) (name : PolicyName) (verb : CrossingVerb)
    (policy : PolicyVerb) (values : ContextValues) : Except BridgeError ResolvedVerb := do
  throwIf (entry.isView ∧ verb ≠ .select)
    ⟨.io, "vcatbridge: '" ++ name.schema ++ "." ++ name.name ++
      "' is a view; a view can only be granted 'select', not '" ++ verb.name ++ "'"⟩
  throwIf (((verb.isDdl ∧ verb ≠ .alter) ∨ verb = .insert) ∧ isUnrestricted policy.usingText = false)
    ⟨.io, "vcatbridge: the USING predicate for '" ++ verb.name ++ "' must be literally 'true'"⟩
  let expr ← parseAndValidatePredicate view entry policy.usingText "USING" values
  let check ← resolveCheck view entry verb policy values expr
  throwIf (verb = .alter ∧ mentionsColumn expr)
    ⟨.io, "vcatbridge: the 'alter' predicate '" ++ policy.usingText ++
      "' may only use context ($name), not a column"⟩
  return { granted := true
           usingPredicate := if verb.isDdl ∧ verb ≠ .alter then none else some expr
           checkPredicate := check
           unrestricted := decide (verb = .select) && isUnrestricted policy.usingText }

/-! ### Keys -/

/-- `RunKeyQuery`. -/
def runKeyQuery (view : SourceView) (query qualified : String) :
    Except BridgeError (List String) := do
  let rows ← view.keyQuery query
  match rows.mapM id with
  | none => .error ⟨.io, "vcatbridge: columns_from_query for '" ++ qualified ++
      "' returned an empty or NULL column name"⟩
  | some [] => .error ⟨.io, "vcatbridge: columns_from_query for '" ++ qualified ++
      "' returned no columns"⟩
  | some key => return key

/-- `RunVerifyUnique`: any row back means the key is not unique. -/
def runVerifyUnique (view : SourceView) (query qualified : String) : Except BridgeError Unit := do
  throwIf (← view.verifyQuery query)
    ⟨.constraint, "vcatbridge: verify_unique for '" ++ qualified ++
      "' returned rows; the key is not unique on the source"⟩

/-- A key, resolved. -/
structure ResolvedKey where
  set : Bool := false
  columns : List String := []
  verified : Bool := true

/-- `ResolveKey`. -/
def resolveKey (view : SourceView) (entry : SourceEntry) (name : PolicyName) (key : PolicyKey) :
    Except BridgeError ResolvedKey := do
  let qualified := name.schema ++ "." ++ name.name
  throwIf entry.isView
    ⟨.io, "vcatbridge: '" ++ qualified ++ "' is a view; a view has no primary key"⟩
  let columns ←
    if key.columnsFromQuery = "" then pure key.columns
    else runKeyQuery view key.columnsFromQuery qualified
  match columns.find? fun c => !entry.columns.any (ciEq c) with
  | some c => .error ⟨.io, "vcatbridge: '" ++ c ++ "' is not a column of '" ++ qualified ++ "'"⟩
  | none =>
    if key.verifyUnique = "" then return ⟨true, columns, false⟩
    else do
      runVerifyUnique view key.verifyUnique qualified
      return ⟨true, columns, true⟩

/-- `ThrowUnlessForeignKey`. -/
def throwUnlessForeignKey (view : SourceView) (entry : SourceEntry) (child parent : PolicyName) :
    Except BridgeError Unit := do
  throwIfOtherCatalog view parent
  throwIf entry.isView
    ⟨.io, "vcatbridge: '" ++ child.schema ++ "." ++ child.name ++
      "' is a view; a view has no foreign keys"⟩
  throwIf (entry.foreignKeyParents.any (ciEq · parent.name) = false)
    ⟨.io, "vcatbridge: '" ++ child.schema ++ "." ++ child.name ++
      "' has no foreign key to '" ++ parent.schema ++ "." ++ parent.name ++ "'"⟩

/-! ### What a resolved predicate may use -/

theorem parseAndValidatePredicate_filledBy {view : SourceView} {entry : SourceEntry}
    {text clause : String} {values : ContextValues} {e : Expr}
    (h : parseAndValidatePredicate view entry text clause values = .ok e) : FilledBy values e := by
  obtain ⟨es, -, h⟩ := bind_eq_ok h
  split at h
  · split at h
    · cases h
    · obtain ⟨_, hp, h⟩ := bind_eq_ok h
      cases h
      obtain ⟨e', he, -⟩ := bind_eq_ok hp
      exact fillContext_ok_iff.1 ⟨e', he⟩
  · cases h

theorem resolveCheck_filledBy {view : SourceView} {entry : SourceEntry} {verb : CrossingVerb}
    {policy : PolicyVerb} {values : ContextValues} {u : Expr} {c : Option Expr}
    (hu : FilledBy values u) (h : resolveCheck view entry verb policy values u = .ok c) :
    ∀ e ∈ c, FilledBy values e := by
  rw [resolveCheck.eq_def] at h
  split at h
  · cases hp : parseAndValidatePredicate view entry policy.checkText "WITH CHECK" values with
    | error x => rw [hp] at h; cases h
    | ok e =>
      rw [hp] at h
      cases h
      simpa using parseAndValidatePredicate_filledBy hp
  · cases verb <;> cases h <;> simp [hu]

/-- **A resolved predicate uses only names that the snapshot has.** -/
theorem resolveVerb_filledBy {view : SourceView} {entry : SourceEntry} {name : PolicyName}
    {verb : CrossingVerb} {policy : PolicyVerb} {values : ContextValues} {r : ResolvedVerb}
    (h : resolveVerb view entry name verb policy values = .ok r) :
    (∀ e ∈ r.usingPredicate, FilledBy values e) ∧ ∀ e ∈ r.checkPredicate, FilledBy values e := by
  rw [resolveVerb] at h
  obtain ⟨_, -, h⟩ := bind_eq_ok h
  obtain ⟨_, -, h⟩ := bind_eq_ok h
  obtain ⟨u, hu, h⟩ := bind_eq_ok h
  obtain ⟨c, hc, h⟩ := bind_eq_ok h
  obtain ⟨_, -, h⟩ := bind_eq_ok h
  cases h
  have hfu := parseAndValidatePredicate_filledBy hu
  refine ⟨?_, resolveCheck_filledBy hfu hc⟩
  intro e he
  simp only [Option.mem_def] at he
  split_ifs at he
  exact Option.some.inj he ▸ hfu

end VirtualCatalog
