import VirtualCatalog.Bridge.DocumentSettings
import VirtualCatalog.Machine.Recording

/-!
# Validation of a policy document

`validate_policy_config` resolves a document without a bridge.  There is no context, so a predicate
that uses it is parsed but not bound, and a failure becomes an issue: the setting is left out and
the checks go on.

* `parsePredicate`, `resolveVerbWith` : resolving a verb without a context.
* `checkPolicy` : `ResolvePolicy` when failures are recorded.
* `validatePolicyConfig` : the issues of a document.
* `ContextBinds` : a context whose values let the predicates that use them bind.
* `checkPolicy_predicts` : the checks record a failure exactly if the document does not resolve.
* `Registry.validation_predicts` : no failure is reported exactly if the document can be configured
  and attached.
-/

namespace VirtualCatalog

/-! ### Issues -/

/-- `PolicyIssue`. -/
structure PolicyIssue where
  path : String
  severity : String
  message : String
deriving DecidableEq

/-- A computation that records issues. -/
abbrev Checking := Recording BridgeError PolicyIssue

/-- What `Guarded` records of a failure; an internal error is rethrown. -/
def issueOf (path severity : String) (e : BridgeError) : Option PolicyIssue :=
  if e.kind = .internal then none
  else
    let message := stripBridgePrefix e.message
    let start := path ++ ": "
    some ⟨path, severity,
      if path ≠ "" ∧ start.toList.isPrefixOf message.toList then
        .ofList (message.toList.drop start.length)
      else message⟩

/-- `Guarded`, when failures are recorded: what follows the call, and what follows its failure. -/
def guardedCheck {α β : Type} (path severity : String) (x : Except BridgeError α)
    (otherwise : Checking β) (f : α → Checking β) : Checking β :=
  Recording.attempt (issueOf path severity) x >>= fun r => r.elim otherwise f

/-! ### Verbs without a context -/

/-- What is wrong with a name a predicate uses, whatever the context is. -/
def positionalError (text clause name : String) : Option BridgeError :=
  if name.toList.all Char.isDigit then
    some ⟨.io, "vcatbridge: the " ++ clause ++ " predicate '" ++ text ++
      "' may only use named context parameters ($name), not positional ones"⟩
  else none

/-- `ParseAndValidatePredicate`, without a context: a predicate that uses it is not probed. -/
def parsePredicate (view : SourceView) (entry : SourceEntry) (text clause : String) :
    Except BridgeError Expr := do
  match ← view.parse text with
  | [expr] =>
    match (contextNames expr).names.findSome? (positionalError text clause) with
    | some e => .error e
    | none =>
      if (contextNames expr).names.isEmpty then probePredicate entry expr ∅ text clause
      return expr
  | _ => .error ⟨.io, "vcatbridge: the " ++ clause ++ " predicate must be a single expression"⟩

/-- The check of `ResolveVerb`, with the reader of predicates. -/
def resolveCheckWith (parse : String → String → Except BridgeError Expr) (verb : CrossingVerb)
    (policy : PolicyVerb) (usingPredicate : Expr) : Except BridgeError (Option Expr) :=
  if policy.checkText ≠ "" then some <$> parse policy.checkText "WITH CHECK"
  else
    match verb with
    | .insert => throw ⟨.io, "vcatbridge: an 'insert' grant must state a check predicate"⟩
    | .update => return some usingPredicate
    | _ => return none

/-- `ResolveVerb`, with the reader of predicates. -/
def resolveVerbWith (parse : String → String → Except BridgeError Expr) (entry : SourceEntry)
    (name : PolicyName) (verb : CrossingVerb) (policy : PolicyVerb) :
    Except BridgeError ResolvedVerb := do
  -- a view can only be read
  throwIf (entry.isView ∧ verb ≠ .select)
    ⟨.io, "vcatbridge: '" ++ name.schema ++ "." ++ name.name ++
      "' is a view; a view can only be granted 'select', not '" ++ verb.name ++ "'"⟩
  throwIf (((verb.isDdl ∧ verb ≠ .alter) ∨ verb = .insert) ∧
      isUnrestricted policy.usingText = false)
    ⟨.io, "vcatbridge: the USING predicate for '" ++ verb.name ++ "' must be literally 'true'"⟩
  let expr ← parse policy.usingText "USING"
  let check ← resolveCheckWith parse verb policy expr
  throwIf (verb = .alter ∧ mentionsColumn expr)
    ⟨.io, "vcatbridge: the 'alter' predicate '" ++ policy.usingText ++
      "' may only use context ($name), not a column"⟩
  return { granted := true
           usingPredicate := if verb.isDdl ∧ verb ≠ .alter then none else some expr
           checkPredicate := check
           unrestricted := decide (verb = .select) && isUnrestricted policy.usingText }

/-- `UsesContext`. -/
def usesContext (resolved : ResolvedVerb) : Bool :=
  (resolved.usingPredicate.toList ++ resolved.checkPredicate.toList).any fun predicate =>
    !(contextNames predicate).names.isEmpty

/-! ### The checks -/

section

variable (view : SourceView) (table : PolicyTable) (entry : SourceEntry)

/-- A schema in which tables may be created. -/
def checkSchema (acc : CISet) (s : PolicyName × String) : Checking CISet :=
  guardedCheck s.2 "error" (throwUnlessSchemaExists view s.1) (pure acc)
    fun _ => pure (acc.add s.1.schema)

/-- The path of a verb. -/
def verbPath (verb : CrossingVerb) : String := table.path ++ "." ++ verb.name

/-- A verb that resolved is installed; there was no context to bind it with. -/
def installChecked (g : SourceGrant) (verb : CrossingVerb) (resolved : ResolvedVerb) :
    Checking SourceGrant := do
  if usesContext resolved then
    Recording.note ⟨verbPath table verb, "unchecked",
      "the predicate uses context, so it was not bound"⟩
  return installVerb g verb resolved

/-- A verb. -/
def checkVerb (g : SourceGrant) (verb : CrossingVerb) : Checking SourceGrant :=
  if (table.verbs verb).granted then
    guardedCheck (verbPath table verb) "error"
      (resolveVerbWith (parsePredicate view entry) entry table.name verb (table.verbs verb))
      (pure g) (installChecked table g verb)
  else pure g

/-- How a key that does not resolve is reported: its queries depend on the data. -/
def keySeverity (key : PolicyKey) : String :=
  if key.columnsFromQuery = "" ∧ key.verifyUnique = "" then "error" else "data_dependent"

/-- The key. -/
def checkKey (g : SourceGrant) : Checking SourceGrant :=
  match table.key with
  | none => pure g
  | some key =>
    guardedCheck (table.path ++ ".primary_key") (keySeverity key)
      (resolveKey view entry table.name key) (pure g) fun resolved => pure (installKey g resolved)

/-- A foreign key. -/
def checkParent (g : SourceGrant) (parent : PolicyName) : Checking SourceGrant :=
  guardedCheck (table.path ++ ".foreign_keys") "error"
    (throwUnlessForeignKey view entry table.name parent) (pure g)
    fun _ => pure { g with allowedForeignKeys := g.allowedForeignKeys.add parent.name }

/-- The settings of a table. -/
def checkSettings : Checking SourceGrant := do
  let g ← crossingVerbs.foldlM (checkVerb view table entry) (installFacts {} (factsOf entry))
  let g ← checkKey view table entry g
  table.foreignKeys.foldlM (checkParent view table entry) g

/-- The entry of a table that no table before it has the name of. -/
def findEntry (acc : GrantTables) : Except BridgeError SourceEntry := do
  throwIf (acc.findGrant table.name.schema table.name.name).isSome
    ⟨.io, "vcatbridge: '" ++ table.name.schema ++ "." ++ table.name.name ++
      "' is configured twice"⟩
  grantableEntry view table.name

/-- A table; it is left out if it is not found, or no verb of it resolved. -/
def checkTable (acc : GrantTables) : Checking GrantTables :=
  guardedCheck table.path "error" (findEntry view table acc) (pure acc) fun entry => do
    let g ← checkSettings view table entry
    return if g.verbs = ∅ then acc else acc.set table.name.schema table.name.name g

end

/-- `ResolvePolicy`, when failures are recorded. -/
def checkPolicy (view : SourceView) (config : PolicyConfig) : Checking PolicyState := do
  let createSchemas ← config.createSchemas.foldlM (checkSchema view) ∅
  let tables ← config.tables.foldlM (fun acc table => checkTable view table acc) ∅
  return { tables := tables, createSchemas := createSchemas, functions := configFunctions config }

/-- The checks of a document, with what the reader makes of its text. -/
def checkDocument (view : SourceView) (document : Except BridgeError Json) : Checking Unit :=
  guardedCheck "" "error" (document >>= parsePolicyJson) (pure ()) fun config => do
    let state ← checkPolicy view config
    guardedCheck "" "error" (validateGrantSet state.tables state.createSchemas "<unregistered>"
      (config.tables.isEmpty && config.createSchemas.isEmpty)) (pure ()) pure

/-- `ValidatePolicyBind`: the issues of a document. -/
def validatePolicyConfig (view : SourceView) (document : Except BridgeError Json) :
    Except BridgeError (List PolicyIssue) := Prod.snd <$> checkDocument view document []

/-- `ConfigurePolicyFunc`, with what the reader makes of the text. -/
def Registry.configureText (s : Registry) (db : Nat) (id : String) (view : SourceView)
    (document : Except BridgeError Json) : Except BridgeError Unit × Registry :=
  match document with
  | .error e => (.error e, s)
  | .ok document => s.configurePolicy db id view document

/-! ### A context for the document -/

/-- The values let the predicate bind as BOOLEAN, if it uses them and is not refused anyway. -/
def PredicateBinds (view : SourceView) (entry : SourceEntry) (values : ContextValues)
    (text clause : String) : Prop :=
  ∀ expr, view.parse text = .ok [expr] → (contextNames expr).names ≠ [] →
    (∀ n ∈ (contextNames expr).names, n.toList.all Char.isDigit = false) →
      (∀ n ∈ (contextNames expr).names, values.contains n = true) ∧
        probePredicate entry expr values text clause = .ok ()

/-- The values let every predicate of the document that uses them bind as BOOLEAN. -/
def ContextBinds (view : SourceView) (values : ContextValues) (config : PolicyConfig) : Prop :=
  ∀ table ∈ config.tables, ∀ entry, grantableEntry view table.name = .ok entry →
    ∀ verb, (table.verbs verb).granted = true →
      PredicateBinds view entry values (table.verbs verb).usingText "USING" ∧
        PredicateBinds view entry values (table.verbs verb).checkText "WITH CHECK"

/-! ### Resolving with and without a context -/

section

variable {view : SourceView} {entry : SourceEntry} {values : ContextValues} {name : PolicyName}
  {verb : CrossingVerb} {policy : PolicyVerb} {text clause : String}

/-- A predicate without names is probed alike in every context. -/
theorem probePredicate_congr {expr : Expr} (h : (contextNames expr).names = []) :
    probePredicate entry expr values text clause = probePredicate entry expr ∅ text clause := by
  have hnone : ∀ n ∈ parameterNames expr, values.find? n = (∅ : ContextValues).find? n := by
    intro n hn
    have hcontains := contains_contextNames.2 ⟨n, hn, rfl⟩
    obtain ⟨u, hu⟩ := CIMap.contains_iff.1 hcontains
    have hslot : (contextNames expr).find? n = none :=
      CIMap.slot_of_toList_nil (List.map_eq_nil_iff.1 h) (fold n)
    rw [hslot] at hu
    cases hu
  rw [probePredicate, probePredicate, fillContext_congr hnone]

/-- **A context that lets the predicate bind** makes no difference to whether it is accepted. -/
theorem parsePredicate_eq_ok (h : PredicateBinds view entry values text clause) {e : Expr} :
    parsePredicate view entry text clause = .ok e ↔
      parseAndValidatePredicate view entry text clause values = .ok e := by
  rw [parsePredicate, parseAndValidatePredicate]
  cases hp : view.parse text with
  | error x => exact Iff.rfl
  | ok es =>
    rcases es with _ | ⟨expr, _ | ⟨expr', es⟩⟩
    · exact Iff.rfl
    · specialize h expr hp
      have hok : ∀ {α : Type} (f : List Expr → Except BridgeError α),
          ((.ok [expr] : Except BridgeError (List Expr)) >>= f) = f [expr] := fun _ => rfl
      rw [hok, hok]
      by_cases hpositional : ∀ n ∈ (contextNames expr).names, n.toList.all Char.isDigit = false
      · have hread : (contextNames expr).names.findSome? (positionalError text clause) = none := by
          refine List.findSome?_eq_none_iff.2 fun n hn => ?_
          rw [positionalError, if_neg (Bool.eq_false_iff.1 (hpositional n hn))]
        dsimp only
        rw [hread]
        dsimp only
        -- without a name the context is not looked at
        by_cases hnames : (contextNames expr).names = []
        · have hsame : probePredicate entry expr values text clause =
              probePredicate entry expr ∅ text clause := probePredicate_congr hnames
          rw [hnames, hsame]
          exact Iff.rfl
        · obtain ⟨hset, hprobe⟩ := h hnames hpositional
          -- every name is set, so that neither check of the names refuses
          have hbound : (contextNames expr).names.findSome? (contextNameError values text clause) =
              none := by
            refine List.findSome?_eq_none_iff.2 fun n hn => ?_
            rw [contextNameError, if_neg (Bool.eq_false_iff.1 (hpositional n hn)),
              if_pos (hset n hn)]
          have hempty : (contextNames expr).names.isEmpty = false := by
            rw [List.isEmpty_eq_false_iff]
            exact hnames
          rw [hbound, hempty]
          dsimp only
          rw [hprobe]
          exact Iff.rfl
      · -- a positional name is refused, whatever the context is
        push Not at hpositional
        obtain ⟨n, hn, hdigits⟩ := hpositional
        have hdigits : n.toList.all Char.isDigit = true := by simpa using hdigits
        have hrefused : ∀ f : String → Option BridgeError, f n ≠ none →
            ∃ x, (contextNames expr).names.findSome? f = some x := by
          intro f hf
          refine Option.ne_none_iff_exists'.1 fun hnone => hf ?_
          exact List.findSome?_eq_none_iff.1 hnone n hn
        obtain ⟨x, hx⟩ := hrefused (positionalError text clause) (by
          rw [positionalError, if_pos hdigits]
          exact Option.some_ne_none _)
        obtain ⟨y, hy⟩ := hrefused (contextNameError values text clause) (by
          rw [contextNameError, if_pos hdigits]
          exact Option.some_ne_none _)
        dsimp only
        rw [hx, hy]
        dsimp only
        constructor <;> intro he <;> cases he
    · exact Iff.rfl

theorem resolveCheckWith_mono {parse parse' : String → String → Except BridgeError Expr}
    (hcheck : ∀ e, parse policy.checkText "WITH CHECK" = .ok e →
      parse' policy.checkText "WITH CHECK" = .ok e) {expr : Expr} {check : Option Expr}
    (h : resolveCheckWith parse verb policy expr = .ok check) :
    resolveCheckWith parse' verb policy expr = .ok check := by
  rw [resolveCheckWith.eq_def] at h ⊢
  split_ifs at h ⊢
  · cases hparse : parse policy.checkText "WITH CHECK" with
    | error x =>
      rw [hparse] at h
      cases h
    | ok e =>
      rw [hparse] at h
      rw [hcheck e hparse]
      exact h
  · exact h

/-- A verb resolves with every reader that accepts its predicates. -/
theorem resolveVerbWith_mono {parse parse' : String → String → Except BridgeError Expr}
    (husing : ∀ e, parse policy.usingText "USING" = .ok e →
      parse' policy.usingText "USING" = .ok e)
    (hcheck : ∀ e, parse policy.checkText "WITH CHECK" = .ok e →
      parse' policy.checkText "WITH CHECK" = .ok e) {r : ResolvedVerb}
    (h : resolveVerbWith parse entry name verb policy = .ok r) :
    resolveVerbWith parse' entry name verb policy = .ok r := by
  rw [resolveVerbWith] at h ⊢
  obtain ⟨_, hview, h⟩ := bind_eq_ok h
  obtain ⟨_, htrue, h⟩ := bind_eq_ok h
  obtain ⟨expr, hexpr, h⟩ := bind_eq_ok h
  obtain ⟨check, hchecked, h⟩ := bind_eq_ok h
  have hchecked' := resolveCheckWith_mono hcheck hchecked
  refine bind_eq_ok_iff.2 ⟨_, hview, bind_eq_ok_iff.2 ⟨_, htrue, bind_eq_ok_iff.2
    ⟨expr, husing expr hexpr, bind_eq_ok_iff.2 ⟨check, hchecked', h⟩⟩⟩⟩

/-- A verb resolves with a context that lets its predicates bind exactly if it does without. -/
theorem resolveVerb_eq_ok (husing : PredicateBinds view entry values policy.usingText "USING")
    (hcheck : PredicateBinds view entry values policy.checkText "WITH CHECK") {r : ResolvedVerb} :
    resolveVerb view entry name verb policy values = .ok r ↔
      resolveVerbWith (parsePredicate view entry) entry name verb policy = .ok r := by
  have heq : resolveVerb view entry name verb policy values = resolveVerbWith
      (fun text clause => parseAndValidatePredicate view entry text clause values) entry name verb
        policy := rfl
  rw [heq]
  constructor
  · exact resolveVerbWith_mono (fun e => (parsePredicate_eq_ok husing).2)
      fun e => (parsePredicate_eq_ok hcheck).2
  · exact resolveVerbWith_mono (fun e => (parsePredicate_eq_ok husing).1)
      fun e => (parsePredicate_eq_ok hcheck).1

end

/-! ### The checks predict the policy -/

/-- An issue that is no failure. -/
def PolicyIssue.Passing (issue : PolicyIssue) : Prop :=
  issue.severity ≠ "error" ∧ issue.severity ≠ "data_dependent"

theorem unchecked_passing {path message : String} :
    PolicyIssue.Passing ⟨path, "unchecked", message⟩ := by
  constructor <;> simp

theorem guarded_eq_ok_iff {α : Type} {path : String} {x : Except BridgeError α} {a : α} :
    guarded path x = .ok a ↔ x = .ok a :=
  ⟨guarded_eq_ok, fun h => by rw [h]; rfl⟩

section

variable {α β : Type} {path severity : String} {x x' : Except BridgeError α}
  {otherwise : Checking β} {f : α → Checking β} {g : α → Except BridgeError β}

theorem guardedCheck_grows (hf : ∀ a, (f a).Grows) (ho : otherwise.Grows) :
    (guardedCheck path severity x otherwise f).Grows := by
  refine (Recording.grows_attempt _ _).bind ?_
  rintro (_ | a)
  · exact ho
  · exact hf a

theorem guardedCheck_predicts (hseverity : severity = "error" ∨ severity = "data_dependent")
    (hx : ∀ a, x' = .ok a ↔ x = .ok a)
    (hf : ∀ a, x = .ok a → (f a).Predicts PolicyIssue.Passing (g a))
    (hgrows : ∀ a, (f a).Grows) (ho : otherwise.Grows) :
    (guardedCheck path severity x otherwise f).Predicts PolicyIssue.Passing (x' >>= g) := by
  have hnoted : ∀ e i, issueOf path severity e = some i → ¬ i.Passing := by
    intro e i hi hpassing
    rw [issueOf] at hi
    split_ifs at hi
    cases hi
    exact hseverity.elim hpassing.1 hpassing.2
  refine (Recording.Predicts.attempt hnoted hf hgrows ho).congr fun b => ?_
  rw [bind_eq_ok_iff, bind_eq_ok_iff]
  exact exists_congr fun a => and_congr_left fun _ => hx a

end

section

variable {view : SourceView} {values : ContextValues} {config : PolicyConfig} {table : PolicyTable}
  {entry : SourceEntry}

theorem checkSchema_grows (acc : CISet) (s : PolicyName × String) :
    (checkSchema view acc s).Grows :=
  guardedCheck_grows (fun _ => Recording.grows_pure _) (Recording.grows_pure _)

theorem checkSchema_predicts (acc : CISet) (s : PolicyName × String) :
    (checkSchema view acc s).Predicts PolicyIssue.Passing (guarded s.2 do
      throwUnlessSchemaExists view s.1
      return acc.add s.1.schema) :=
  (guardedCheck_predicts (.inl rfl) (fun _ => Iff.rfl) (fun _ _ => .pure _)
    (fun _ => Recording.grows_pure _) (Recording.grows_pure _)).congr fun _ => guarded_eq_ok_iff

theorem installChecked_predicts (g : SourceGrant) (verb : CrossingVerb) (resolved : ResolvedVerb) :
    (installChecked table g verb resolved).Predicts PolicyIssue.Passing
      (.ok (installVerb g verb resolved)) := by
  rw [installChecked]
  split_ifs
  · have hnote : (Recording.note ⟨verbPath table verb, "unchecked",
        "the predicate uses context, so it was not bound"⟩ : Checking Unit).Predicts
          PolicyIssue.Passing (.ok ()) := .note unchecked_passing
    exact hnote.bind (g := fun _ => .ok (installVerb g verb resolved)) (fun _ _ => .pure _)
      fun _ => Recording.grows_pure _
  · exact .pure _

theorem checkVerb_grows (g : SourceGrant) (verb : CrossingVerb) :
    (checkVerb view table entry g verb).Grows := by
  rw [checkVerb]
  split_ifs
  · exact guardedCheck_grows (fun resolved => (installChecked_predicts g verb resolved).grows)
      (Recording.grows_pure _)
  · exact Recording.grows_pure _

/-- A verb whose predicates the context lets bind. -/
theorem checkVerb_predicts (g : SourceGrant) (verb : CrossingVerb)
    (hbinds : (table.verbs verb).granted = true →
      PredicateBinds view entry values (table.verbs verb).usingText "USING" ∧
        PredicateBinds view entry values (table.verbs verb).checkText "WITH CHECK") :
    (checkVerb view table entry g verb).Predicts PolicyIssue.Passing
      (if (table.verbs verb).granted then
        guarded (table.path ++ "." ++ verb.name) do
          return installVerb g verb
            (← resolveVerb view entry table.name verb (table.verbs verb) values)
      else return g) := by
  rw [checkVerb]
  split_ifs with hgranted
  · obtain ⟨husing, hcheck⟩ := hbinds hgranted
    exact (guardedCheck_predicts (.inl rfl) (fun _ => resolveVerb_eq_ok husing hcheck)
      (fun resolved _ => installChecked_predicts g verb resolved)
      (fun resolved => (installChecked_predicts g verb resolved).grows)
      (Recording.grows_pure _)).congr fun _ => guarded_eq_ok_iff
  · exact .pure _

theorem keySeverity_fails (key : PolicyKey) :
    keySeverity key = "error" ∨ keySeverity key = "data_dependent" := by
  rw [keySeverity]
  split_ifs
  · exact .inl rfl
  · exact .inr rfl

theorem checkKey_predicts (g : SourceGrant) :
    (checkKey view table entry g).Predicts PolicyIssue.Passing
      (resolveTableKey view table entry g) := by
  rw [checkKey, resolveTableKey]
  cases table.key with
  | none => exact .pure _
  | some key =>
    exact (guardedCheck_predicts (keySeverity_fails key) (fun _ => Iff.rfl) (fun _ _ => .pure _)
      (fun _ => Recording.grows_pure _) (Recording.grows_pure _)).congr fun _ => guarded_eq_ok_iff

theorem checkParent_predicts (g : SourceGrant) (parent : PolicyName) :
    (checkParent view table entry g parent).Predicts PolicyIssue.Passing
      (guarded (table.path ++ ".foreign_keys") do
        throwUnlessForeignKey view entry table.name parent
        return { g with allowedForeignKeys := g.allowedForeignKeys.add parent.name }) :=
  (guardedCheck_predicts (.inl rfl) (fun _ => Iff.rfl) (fun _ _ => .pure _)
    (fun _ => Recording.grows_pure _) (Recording.grows_pure _)).congr fun _ => guarded_eq_ok_iff

theorem checkSettings_grows : (checkSettings view table entry).Grows :=
  (Recording.grows_foldlM checkVerb_grows _ _).bind fun g =>
    (checkKey_predicts g).grows.bind fun g =>
      Recording.grows_foldlM (fun g parent => (checkParent_predicts g parent).grows) _ g

/-- **The settings of a table.** -/
theorem checkSettings_predicts (hbinds : ∀ verb, (table.verbs verb).granted = true →
    PredicateBinds view entry values (table.verbs verb).usingText "USING" ∧
      PredicateBinds view entry values (table.verbs verb).checkText "WITH CHECK") :
    (checkSettings view table entry).Predicts PolicyIssue.Passing
      (resolveTable view values table entry) := by
  have hparents : ∀ g, (table.foreignKeys.foldlM (checkParent view table entry) g).Grows :=
    Recording.grows_foldlM (fun g parent => (checkParent_predicts g parent).grows) _
  refine .bind (.foldlM (fun verb _ g => checkVerb_predicts g verb (hbinds verb)) checkVerb_grows _)
    (fun g _ => .bind (checkKey_predicts g) (fun g _ => ?_) hparents) fun g =>
      (checkKey_predicts g).grows.bind hparents
  exact .foldlM (fun parent _ g => checkParent_predicts g parent)
    (fun g parent => (checkParent_predicts g parent).grows) g

/-- Granted verbs are installed. -/
theorem mem_foldl_installVerb {r : CrossingVerb → ResolvedVerb} {vs : List CrossingVerb}
    (hr : ∀ v ∈ vs, (r v).granted = true) {v : CrossingVerb} {g : SourceGrant}
    (h : v ∈ vs ∨ v ∈ g.verbs) : v ∈ (vs.foldl (fun g v => installVerb g v (r v)) g).verbs := by
  induction vs generalizing g with
  | nil => exact h.resolve_left List.not_mem_nil
  | cons v' vs ih =>
    obtain ⟨hv', hvs⟩ := List.forall_mem_cons.1 hr
    have hinstalled : (installVerb g v' (r v')).verbs = insert v' g.verbs := if_pos hv'
    refine ih hvs ?_
    rw [hinstalled]
    rcases h with h | h
    · rcases List.mem_cons.1 h with rfl | h
      · exact .inr (Finset.mem_insert_self _ _)
      · exact .inl h
    · exact .inr (Finset.mem_insert_of_mem h)

/-- A table that resolves with a granted verb has one. -/
theorem verbs_of_resolveTable {g : SourceGrant} {v : CrossingVerb}
    (hfound : grantableEntry view table.name = .ok entry)
    (h : resolveTable view values table entry = .ok g) (hv : (table.verbs v).granted = true) :
    g.verbs ≠ ∅ := by
  obtain ⟨hresolves, rfl⟩ := resolveTable_ok hfound h
  have hmem : v ∈ (verbsGrant view values table entry).verbs := by
    refine mem_foldl_installVerb (fun v hv => resolveVerb_granted (hresolves.verbs v hv)) (.inl ?_)
    exact List.mem_filter.2 ⟨mem_crossingVerbs v, hv⟩
  have hkey : (keyGrant view values table entry).verbs =
      (verbsGrant view values table entry).verbs := by
    rw [keyGrant]
    split <;> rfl
  have hverbs : v ∈ (tableGrant view values table entry).verbs := by
    show v ∈ (keyGrant view values table entry).verbs
    rw [hkey]
    exact hmem
  exact Finset.ne_empty_of_mem hverbs

theorem checkTable_grows (acc : GrantTables) (table : PolicyTable) :
    (checkTable view table acc).Grows :=
  guardedCheck_grows (fun _ => checkSettings_grows.bind fun _ => Recording.grows_pure _)
    (Recording.grows_pure _)

/-- **A table**, of a document that grants a verb of it. -/
theorem checkTable_predicts (acc : GrantTables)
    (hgrants : ∃ verb, (table.verbs verb).granted = true)
    (hbinds : ∀ entry, grantableEntry view table.name = .ok entry →
      ∀ verb, (table.verbs verb).granted = true →
        PredicateBinds view entry values (table.verbs verb).usingText "USING" ∧
          PredicateBinds view entry values (table.verbs verb).checkText "WITH CHECK") :
    (checkTable view table acc).Predicts PolicyIssue.Passing (do
      let entry ← guarded table.path do
        throwIf (acc.findGrant table.name.schema table.name.name).isSome
          ⟨.io, "vcatbridge: '" ++ table.name.schema ++ "." ++ table.name.name ++
            "' is configured twice"⟩
        grantableEntry view table.name
      return acc.set table.name.schema table.name.name
        (← resolveTable view values table entry)) := by
  obtain ⟨verb, hverb⟩ := hgrants
  refine guardedCheck_predicts (.inl rfl) (fun _ => guarded_eq_ok_iff) (fun entry hentry => ?_)
    (fun _ => checkSettings_grows.bind fun _ => Recording.grows_pure _) (Recording.grows_pure _)
  obtain ⟨_, -, hfound⟩ := bind_eq_ok hentry
  refine (checkSettings_predicts (hbinds entry hfound)).bind (fun g hg => ?_)
    fun _ => Recording.grows_pure _
  rw [if_neg (verbs_of_resolveTable hfound hg hverb)]
  exact .pure _

/-- **The checks record a failure exactly if the document does not resolve**; otherwise they come
to the same policy. -/
theorem checkPolicy_predicts (hstated : config.Stated) (hbinds : ContextBinds view values config) :
    (checkPolicy view config).Predicts PolicyIssue.Passing
      (resolvePolicy view values config) := by
  have htables : ∀ acc : GrantTables,
      (config.tables.foldlM (fun acc table => checkTable view table acc) acc).Grows :=
    Recording.grows_foldlM checkTable_grows _
  refine .bind (.foldlM (fun s _ acc => checkSchema_predicts acc s) checkSchema_grows _)
    (fun createSchemas _ => ?_) fun _ => (htables _).bind fun _ => Recording.grows_pure _
  refine .bind (.foldlM (fun table htable acc => ?_) checkTable_grows _) (fun _ _ => .pure _)
    fun _ => Recording.grows_pure _
  exact checkTable_predicts acc (hstated.tables table htable).grants (hbinds table htable)

end

/-! ### The whole document -/

/-- **`validateGrantSet` accepts the valid grant sets**, of which one that is attached grants
something. -/
theorem validateGrantSet_eq_ok {T : GrantTables} {createSchemas : CISet} {bridgeId : String}
    {attaching : Bool} : validateGrantSet T createSchemas bridgeId attaching = .ok () ↔
      ValidGrants T ∧ (attaching = true → createSchemas.toList.length + T.entries.length ≠ 0) := by
  have hgrants : validateGrantSet T createSchemas bridgeId false = .ok () ↔
      T.entries.forM (fun e => validateGrant T e.1 e.2.1 bridgeId e.2.2) = .ok () := by
    rw [validateGrantSet, bind_unit_ok_iff, throwIf_eq_ok]
    simp
  rw [← @validateGrantSet_ok_iff T createSchemas bridgeId, hgrants, validateGrantSet,
    bind_unit_ok_iff, throwIf_eq_ok, not_and]

/-- What a document that is not empty resolves to grants something. -/
theorem resolvePolicy_nonempty {view : SourceView} {values : ContextValues} {config : PolicyConfig}
    {state : PolicyState} (h : resolvePolicy view values config = .ok state)
    (hconfig : (config.tables.isEmpty && config.createSchemas.isEmpty) = false) :
    state.createSchemas.toList.length + state.tables.entries.length ≠ 0 := by
  obtain ⟨resolved, hresolves⟩ := resolvePolicy_ok h
  rw [Bool.and_eq_false_iff, List.isEmpty_eq_false_iff, List.isEmpty_eq_false_iff] at hconfig
  rcases hconfig with htables | hschemas
  · rw [← hresolves.tables] at htables
    obtain ⟨p, hp⟩ := List.exists_mem_of_ne_nil _ fun h => htables (List.map_eq_nil_iff.2 h)
    obtain ⟨schema, name, -, hmem⟩ := GrantTables.mem_entries_of_grantAt (hresolves.grants p hp)
    have hlength := List.length_pos_of_mem hmem
    omega
  · obtain ⟨s, hs⟩ := List.exists_mem_of_ne_nil _ hschemas
    have hcontains : state.createSchemas.contains s.1.schema = true := by
      rw [hresolves.createSchemas, List.any_eq_true]
      exact ⟨s, hs, ciEq_self _⟩
    have hlength : state.createSchemas.toList.length ≠ 0 := by
      intro hnil
      obtain ⟨u, hu⟩ := CIMap.contains_iff.1 hcontains
      have hslot : state.createSchemas.find? s.1.schema = none :=
        CIMap.slot_of_toList_nil (List.length_eq_zero_iff.1 hnil) _
      rw [hslot] at hu
      cases hu
    omega

/-- What configuring the document and attaching the bridge come down to. -/
def configured (view : SourceView) (values : ContextValues) (bridgeId : String)
    (document : Except BridgeError Json) : Except BridgeError Unit := do
  let config ← document >>= parsePolicyJson
  let state ← resolvePolicy view values config
  validateGrantSet state.tables state.createSchemas bridgeId true

theorem checkDocument_predicts {view : SourceView} {values : ContextValues} {bridgeId : String}
    {document : Except BridgeError Json} (hbinds : ∀ config,
      document >>= parsePolicyJson = .ok config → ContextBinds view values config) :
    (checkDocument view document).Predicts PolicyIssue.Passing
      (configured view values bridgeId document) := by
  have hgrantSet : ∀ (config : PolicyConfig) (state : PolicyState),
      (guardedCheck "" "error" (validateGrantSet state.tables state.createSchemas "<unregistered>"
        (config.tables.isEmpty && config.createSchemas.isEmpty)) (pure ()) pure).Grows :=
    fun _ _ => guardedCheck_grows (fun _ => Recording.grows_pure _) (Recording.grows_pure _)
  have hgrows : ∀ config, (checkPolicy view config).Grows := by
    intro config
    exact (Recording.grows_foldlM checkSchema_grows _ _).bind fun _ =>
      (Recording.grows_foldlM checkTable_grows _ _).bind fun _ => Recording.grows_pure _
  refine guardedCheck_predicts (.inl rfl) (fun _ => Iff.rfl) (fun config hconfig => ?_)
    (fun config => (hgrows config).bind (hgrantSet config)) (Recording.grows_pure _)
  obtain ⟨json, -, hparse⟩ := bind_eq_ok hconfig
  refine (checkPolicy_predicts (parsePolicyJson_stated hparse) (hbinds config hconfig)).bind
    (fun state hstate => ?_) (hgrantSet config)
  have hsame : ∀ u, validateGrantSet state.tables state.createSchemas bridgeId true = .ok u ↔
      validateGrantSet state.tables state.createSchemas "<unregistered>"
        (config.tables.isEmpty && config.createSchemas.isEmpty) = .ok u := by
    intro u
    rw [validateGrantSet_eq_ok, validateGrantSet_eq_ok]
    refine and_congr_right fun _ => ⟨fun h _ => h rfl, fun h _ => ?_⟩
    cases hconfig : config.tables.isEmpty && config.createSchemas.isEmpty with
    | true => exact h hconfig
    | false => exact resolvePolicy_nonempty hstate hconfig
  rw [← bind_pure_unit (x := validateGrantSet state.tables state.createSchemas bridgeId true)]
  exact guardedCheck_predicts (.inl rfl) hsame (fun _ _ => .pure _)
    (fun _ => Recording.grows_pure _) (Recording.grows_pure _)

namespace Registry

variable {s : Registry} {db : Nat} {id : String} {view : SourceView} {p : PendingSource}
  {document : Except BridgeError Json}

/-- Configuring a bridge that waits, and attaching it. -/
theorem configured_iff (h : s.Waiting db id p) :
    configured view (s.contexts p.registration).values id document = .ok () ↔
      ∃ s' p', s.configureText db id view document = (.ok (), s') ∧ s'.pending id = some p' ∧
        validateGrantSet p'.state.tables p'.state.createSchemas id true = .ok () := by
  constructor
  · intro hconfigured
    obtain ⟨config, hconfig, hconfigured⟩ := bind_eq_ok hconfigured
    obtain ⟨state, hstate, hvalid⟩ := bind_eq_ok hconfigured
    obtain ⟨json, rfl, hparse⟩ := bind_eq_ok hconfig
    have hresolve : (PolicyRequest.configure config).resolve view
        (s.contexts p.registration).values = .ok (.configure state) := by
      rw [PolicyRequest.resolve, hstate]
      rfl
    obtain ⟨s', hrequest, hwaiting, -⟩ := request_waiting h view _ hresolve
    refine ⟨s', _, ?_, (purge_pending_iff.1 hwaiting.pending).1, hvalid⟩
    rw [configureText, configurePolicy, hparse]
    exact hrequest
  · rintro ⟨s', p', hconfigure, hpending, hvalid⟩
    cases document with
    | error e => cases hconfigure
    | ok json =>
      rw [configureText, configurePolicy] at hconfigure
      cases hparse : parsePolicyJson json with
      | error e =>
        rw [hparse] at hconfigure
        cases hconfigure
      | ok config =>
        rw [hparse] at hconfigure
        dsimp only at hconfigure
        obtain ⟨-, commit, hresolve⟩ := request_ok h.pending hconfigure
        obtain ⟨t, hrequest, hwaiting, -⟩ := request_waiting h view _ hresolve
        obtain rfl : s' = t := congrArg Prod.snd (hconfigure.symm.trans hrequest)
        obtain ⟨state, hstate, rfl⟩ : ∃ state,
            resolvePolicy view (s.contexts p.registration).values config = .ok state ∧
              PolicyCommit.configure state = commit := by
          rw [PolicyRequest.resolve] at hresolve
          cases hstate : resolvePolicy view (s.contexts p.registration).values config with
          | error e =>
            rw [hstate] at hresolve
            cases hresolve
          | ok state =>
            rw [hstate] at hresolve
            exact ⟨state, rfl, Except.ok.inj hresolve⟩
        have hp' := (purge_pending_iff.1 hwaiting.pending).1
        rw [hpending] at hp'
        cases hp'
        exact bind_eq_ok_iff.2 ⟨config, hparse, bind_eq_ok_iff.2 ⟨state, hstate, hvalid⟩⟩

/-- **Validation predicts configuration**: no failure is reported for a document exactly if a bridge
that waits, with a context that lets its predicates bind, can be configured with it and attached. -/
theorem validation_predicts (h : s.Waiting db id p) (hbinds : ∀ config,
    document >>= parsePolicyJson = .ok config →
      ContextBinds view (s.contexts p.registration).values config) :
    (∃ issues, validatePolicyConfig view document = .ok issues ∧
      ∀ i ∈ issues, i.severity ≠ "error" ∧ i.severity ≠ "data_dependent") ↔
    ∃ s' p', s.configureText db id view document = (.ok (), s') ∧ s'.pending id = some p' ∧
      validateGrantSet p'.state.tables p'.state.createSchemas id true = .ok () := by
  rw [← configured_iff h]
  have hpredicts : (checkDocument view document).Predicts PolicyIssue.Passing
      (configured view (s.contexts p.registration).values id document) :=
    checkDocument_predicts hbinds
  have hiff := hpredicts.iff
  constructor
  · rintro ⟨issues, hissues, hpassing⟩
    rw [validatePolicyConfig] at hissues
    cases hcheck : checkDocument view document [] with
    | error e =>
      rw [hcheck] at hissues
      cases hissues
    | ok r =>
      rw [hcheck] at hissues
      cases hissues
      obtain ⟨u, hu⟩ := hiff.1 ⟨r.1, r.2, hcheck, hpassing⟩
      exact hu
  · intro hconfigured
    obtain ⟨u, issues, hcheck, hpassing⟩ := hiff.2 ⟨(), hconfigured⟩
    refine ⟨issues, ?_, hpassing⟩
    rw [validatePolicyConfig, hcheck]
    rfl

namespace Sample

/-- The entry of the table of `people`. -/
def peopleEntry : SourceEntry :=
  { columns := ["id", "name"], probe := fun _ => .ok ["BOOLEAN"] }

/-- `people`, and it reads one more predicate. -/
def teams : SourceView := { people with
  parse := fun text => .ok [if text = "team = $team" then
    .node (.call "=") [.columnRef (.plain "team"), .parameter "team"]
    else .constant (.boolean true)] }

/-- A target reads the people of its team. -/
def teamDocument : Json := .object
  [("policy_version", .number (.integer 1)),
    ("tables", .object [("main.people", .object [("select", .string "team = $team")])])]

/-- The owner registers a source, and sets the team of the bridge. -/
def teamed : Registry := after
  [.register 0 "b" (.ok ⟨0, "first"⟩) (some "token") "", .setContext 0 "b" "team" (.integer 7),
    .snapshot 0, .resolve 0 teams, .finish 0]

/-- The policy of the document. -/
def teamConfig : PolicyConfig := (parsePolicyJson teamDocument).toOption.getD {}

end Sample

/-- A predicate that uses the context; it is not bound, and that is not a failure. -/
theorem validation_predicts_teams :
    (∃ issues, validatePolicyConfig Sample.teams (.ok Sample.teamDocument) = .ok issues ∧
      ∀ i ∈ issues, i.severity ≠ "error" ∧ i.severity ≠ "data_dependent") ↔
    ∃ s' p', Sample.teamed.configureText 0 "b" Sample.teams (.ok Sample.teamDocument) =
        (.ok (), s') ∧ s'.pending "b" = some p' ∧
      validateGrantSet p'.state.tables p'.state.createSchemas "b" true = .ok () := by
  have hwaiting : Sample.teamed.Waiting 0 "b"
      { registration := 0, sourceDb := 0, token := "token", source := ⟨0, "first"⟩,
        lastTouched := 0 } := ⟨rfl, rfl, rfl⟩
  have hparse : parsePolicyJson Sample.teamDocument = .ok Sample.teamConfig := rfl
  have hnames : Sample.teamConfig.tables.map (·.name) = [⟨"", "main", "people"⟩] := rfl
  have hfound : grantableEntry Sample.teams ⟨"", "main", "people"⟩ = .ok Sample.peopleEntry := rfl
  refine validation_predicts hwaiting fun config hconfig table htable entry hentry verb _ => ?_
  obtain rfl : Sample.teamConfig = config := Except.ok.inj (hparse.symm.trans hconfig)
  have hname : table.name ∈ Sample.teamConfig.tables.map (·.name) := List.mem_map_of_mem htable
  rw [hnames, List.mem_singleton] at hname
  rw [hname] at hentry
  obtain rfl := Except.ok.inj (hfound.symm.trans hentry)
  have hbinds : ∀ text clause, PredicateBinds Sample.teams Sample.peopleEntry
      (Sample.teamed.contexts 0).values text clause := by
    intro text clause expr hexpr hnames hnamed
    by_cases htext : text = "team = $team"
    · subst htext
      cases hexpr
      exact ⟨by decide, rfl⟩
    · have hconstant : Sample.teams.parse text = .ok [.constant (.boolean true)] := by
        show Except.ok [if text = "team = $team" then _ else _] = _
        rw [if_neg htext]
      rw [hconstant] at hexpr
      cases hexpr
      exact absurd rfl hnames
  exact ⟨hbinds _ _, hbinds _ _⟩

end Registry

end VirtualCatalog
