import VirtualCatalog.Bridge.Registry
import VirtualCatalog.Bridge.PolicyConfig

/-!
# One setting

`vcatbridge_set_policy` takes a setting as SQL values.  It lowers them as a document is lowered and
parses them with the same parser, so the settings of a document can all be written as calls.

* `fromSql`, `parsePolicyEdit` : the edit that the arguments of a call stand for.
* `quoteName` : a name as SQL writes it, which `parsePolicyNameParts` reads back
  (`parsePolicyTableName_text`).
* `PolicyVerb.value`, `PolicyKey.value` : a setting as a SQL value, which the parser reads back
  (`parseVerb_value`, `parseKey_value`).
* `Registry.request` : a policy call that nothing interrupts; it is a run of the registry
  (`Registry.request_run`).
-/

namespace VirtualCatalog

/-! ### The arguments of a call -/

/-- A SQL value, as far as `FromSql` tells values apart. -/
inductive SqlValue where
  | null
  | boolean (b : Bool)
  | varchar (text : String)
  | list (items : List SqlValue)
  | struct (fields : List (String × SqlValue))
  /-- A value of another type. -/
  | other (type : String)

mutual

/-- `FromSql`. -/
def fromSql (path : String) : SqlValue → Except BridgeError RawValue
  | .null => return .nul
  | .boolean b => return .bool b
  | .varchar text => return .string text
  | .list items => return .list (← itemsFromSql path 0 items)
  | .struct fields => return .object (← fieldsFromSql path fields)
  | .other type =>
    .error (fail path ("expected a string, boolean, list or struct, not " ++ type))

/-- The children of a list. -/
def itemsFromSql (path : String) (index : Nat) : List SqlValue → Except BridgeError (List RawValue)
  | [] => return []
  | v :: vs => do
    let item ← fromSql (path ++ "[" ++ toString index ++ "]") v
    return item :: (← itemsFromSql path (index + 1) vs)

/-- The children of a struct. -/
def fieldsFromSql (path : String) :
    List (String × SqlValue) → Except BridgeError (List (String × RawValue))
  | [] => return []
  | (name, v) :: fs => do
    let value ← fromSql (child path name) v
    return (name, value) :: (← fieldsFromSql path fs)

end

/-- The operation that a text names. -/
def parseListOp (path text : String) : Except BridgeError PolicyListOp :=
  if text = "add" then return .add
  else if text = "remove" then return .remove
  else if text = "set" then return .set
  else .error (fail path ("unknown operation '" ++ text ++ "'; expected add, remove or set"))

/-- `require_op` of a list setting. -/
def requireOp (target setting path : String) (op : Option String) (raw : RawValue) :
    Except BridgeError PolicyListOp :=
  match op with
  | none => .error (fail path ("is a list setting; pass an operation: vcatbridge_set_policy(id, '" ++
      target ++ "', '" ++ setting ++ "', 'add' | 'remove' | 'set', value)"))
  | some text => do
    let op ← parseListOp path text
    throwIf (raw matches .nul)
      (fail path "the value cannot be NULL; use 'set' with an empty list to clear it")
    return op

/-- `require_op` of a setting that is no list. -/
def requireNoOp (target setting path : String) (op : Option String) : Except BridgeError Unit :=
  throwIf op.isSome (fail path ("takes a single value; call vcatbridge_set_policy(id, '" ++ target ++
    "', '" ++ setting ++ "', value) without an operation"))

/-- `names`: a single string stands for a list of one, unless the list is set exactly. -/
def settingNames (path : String) (op : PolicyListOp) : RawValue → Except BridgeError (List String)
  | .string text =>
    if op = .set then stringList path "a name" (.string text)
    else return [← nonEmptyString path "a name" (.string text)]
  | raw => stringList path "a name" raw

/-- The path of a setting. -/
def editPath (target setting : String) : String := "'" ++ target ++ "' " ++ setting

/-- `ParsePolicyEdit` of a setting of a table. -/
def parseTableEdit (target setting : String) (op : Option String) (raw : RawValue) :
    Except BridgeError PolicyEdit := do
  let path := editPath target setting
  let name ← parsePolicyTableName target
  match tryParseVerbName setting with
  | some verb =>
    requireNoOp target setting path op
    return .verb name verb (← parseVerb verb path raw)
  | none =>
    -- `primary_key` takes no list operation, `foreign_keys` asks for one
    if setting = "primary_key" then
      requireNoOp target setting path op
      match raw with
      | .nul => return .primaryKey name none
      | raw => return .primaryKey name (some (← parseKey path raw))
    else if setting = "foreign_keys" then
      let op ← requireOp target setting path op raw
      let names ← settingNames path op raw
      return .foreignKeys name op (← parseForeignKeys names name path)
    else
      .error (fail path ("unknown setting; expected select, insert, update, delete, alter, drop, " ++
        "create, primary_key or foreign_keys"))

/-- `ParsePolicyEdit`. -/
def parsePolicyEdit (target setting : String) (op : Option String) (value : SqlValue) :
    Except BridgeError PolicyEdit := do
  let path := editPath target setting
  let raw ← fromSql path value
  if target.toList.head? = some ':' then
    throwIf (target ≠ ":functions") (fail path ("unknown target '" ++ target ++
      "'; the only special target is ':functions'"))
    throwIf (setting ≠ "whitelist")
      (fail path "unknown setting; ':functions' has only 'whitelist'")
    let op ← requireOp target setting path op raw
    return .whitelist op (← settingNames path op raw)
  else if setting = "create" then
    requireNoOp target setting path op
    let name ← parsePolicySchemaName target
    return .create name (← parseVerb .create path raw).granted
  else parseTableEdit target setting op raw

/-- The arguments of `vcatbridge_set_policy`. -/
structure SettingCall where
  target : String
  setting : String
  op : Option String := none
  value : SqlValue

/-- The edit that a call asks for. -/
def SettingCall.edit (call : SettingCall) : Except BridgeError PolicyEdit :=
  parsePolicyEdit call.target call.setting call.op call.value

/-! ### Names as SQL writes them -/

/-- Every quote doubled. -/
def doubleQuotes : List Char → List Char
  | [] => []
  | '"' :: cs => '"' :: '"' :: doubleQuotes cs
  | c :: cs => c :: doubleQuotes cs

/-- A part of a name in quotes. -/
def quotePart (part : String) : List Char := '"' :: (doubleQuotes part.toList ++ ['"'])

/-- A name in quotes. -/
def quoteName : List String → String
  | [] => ""
  | [p] => .ofList (quotePart p)
  | p :: ps => .ofList (quotePart p ++ '.' :: (quoteName ps).toList)

/-- The parts of the name of a table. -/
def PolicyName.parts (name : PolicyName) : List String :=
  if name.catalog = "" then [name.schema, name.name] else [name.catalog, name.schema, name.name]

/-- The name of a table as SQL writes it. -/
def PolicyName.text (name : PolicyName) : String := quoteName name.parts

theorem throwIf_neg {p : Prop} [Decidable p] {e : BridgeError} (h : ¬ p) : throwIf p e = .ok () :=
  if_neg h

section

variable {text : String} {read part rest : List Char}

/-- The text of a quoted part is read to its end. -/
theorem scanNameParts_quoted (hrest : rest.head? ≠ some '"') :
    scanNameParts text .inQuote read (doubleQuotes part ++ '"' :: rest) = (do
      throwIf (read ++ part = []) ⟨.io, "vcatbridge: '" ++ text ++ "' has an empty name part"⟩
      throwIf (rest.head?.any (· ≠ '.'))
        ⟨.io, "vcatbridge: '" ++ text ++ "' has text after a quoted name part"⟩
      scanNameParts text .quoted (read ++ part) rest) := by
  fun_induction doubleQuotes part generalizing read with
  | case1 =>
    rw [List.nil_append, List.append_nil, scanNameParts]
    rintro cs rfl
    exact hrest rfl
  | case2 cs ih =>
    rw [List.cons_append, List.cons_append, scanNameParts, ih, List.append_assoc,
      List.singleton_append]
  | case3 c cs hc ih =>
    have hc' : c ≠ '"' := hc
    rw [List.cons_append, scanNameParts, ih, List.append_assoc, List.singleton_append]
    · exact fun _ h => absurd h hc'
    · exact fun h => absurd h hc'

/-- A name in quotes is read back. -/
theorem scanNameParts_quoteName {ps : List String} (hps : ps ≠ []) (hne : ∀ p ∈ ps, p ≠ "") :
    scanNameParts text .bare [] (quoteName ps).toList = .ok ps := by
  induction ps with
  | nil => exact absurd rfl hps
  | cons p ps ih =>
    obtain ⟨hp, hne⟩ := List.forall_mem_cons.1 hne
    have hp' : p.toList ≠ [] := fun h => hp (by simpa using congrArg String.ofList h)
    have part : ∀ rest : List Char, rest.head? ≠ some '"' → rest.head?.any (· ≠ '.') = false →
        scanNameParts text .bare [] (quotePart p ++ rest) =
          scanNameParts text .quoted p.toList rest := by
      intro rest h h'
      rw [quotePart, List.cons_append, List.append_assoc, scanNameParts, List.singleton_append,
        scanNameParts_quoted h, List.nil_append, throwIf_neg hp',
        throwIf_neg (by simpa using h')]
      rfl
    have finish : finishPart text .quoted p.toList = .ok p := by
      rw [finishPart, throwIf_neg hp', String.ofList_toList]
      rfl
    cases ps with
    | nil =>
      have h := part [] (by simp) (by simp)
      rw [List.append_nil] at h
      rw [quoteName, String.toList_ofList, h, scanNameParts, finish]
      · rfl
      · simp
    | cons q qs =>
      have hq : (quoteName (q :: qs)).toList ≠ [] := by
        cases qs <;> simp [quoteName, quotePart]
      rw [quoteName, String.toList_ofList, part _ (by simp) (by simp), scanNameParts, finish,
        ih (by simp) hne]
      · rw [throwIf_neg hq]
        rfl
      · simp
      · simp

end

theorem parsePolicyTableName_text {name : PolicyName} (h : name.IsTable) :
    parsePolicyTableName name.text = .ok name := by
  obtain ⟨catalog, schema, table⟩ := name
  obtain ⟨hs, ht⟩ := h
  have read : parsePolicyNameParts (PolicyName.text ⟨catalog, schema, table⟩) =
      .ok (PolicyName.parts ⟨catalog, schema, table⟩) := by
    refine scanNameParts_quoteName ?_ ?_
    · rw [PolicyName.parts]
      split_ifs <;> simp
    · rw [PolicyName.parts]
      split_ifs with hc
      · simpa using ⟨hs, ht⟩
      · simpa using ⟨hc, hs, ht⟩
  rw [parsePolicyTableName, read, PolicyName.parts]
  split_ifs with hc
  · dsimp only at hc
    rw [hc]
    rfl
  · rfl

theorem parsePolicySchemaName_text {name : PolicyName} (h : name.IsSchema) :
    parsePolicySchemaName (quoteName [name.schema]) = .ok name := by
  have read : parsePolicyNameParts (quoteName [name.schema]) = .ok [name.schema] :=
    scanNameParts_quoteName (by simp) (by simpa using h.1)
  rw [parsePolicySchemaName, read, h.2]
  rfl

/-! ### Settings as SQL values -/

section

variable {path what : String}

theorem nonEmptyString_string {t : String} (h : NonBlank t) :
    nonEmptyString path what (.string t) = .ok t := by
  rw [nonEmptyString, if_neg]
  · rfl
  · rw [isBlank_eq_false.2 h]
    exact Bool.false_ne_true

theorem predicate_string {t : String} (h : NonBlank t) : predicate path (.string t) = .ok t :=
  nonEmptyString_string h

theorem itemsFromSql_varchar (ss : List String) (index : Nat) :
    itemsFromSql path index (ss.map .varchar) = .ok (ss.map .string) := by
  induction ss generalizing index with
  | nil => rfl
  | cons t ss ih =>
    rw [List.map_cons, itemsFromSql, fromSql, ih]
    rfl

theorem fromSql_list (ss : List String) :
    fromSql path (.list (ss.map .varchar)) = .ok (.list (ss.map .string)) := by
  rw [fromSql, itemsFromSql_varchar]
  rfl

theorem stringItems_string {ss : List String} (h : ∀ t ∈ ss, NonBlank t) (index : Nat) :
    stringItems path what index (ss.map .string) = .ok ss := by
  induction ss generalizing index with
  | nil => rfl
  | cons t ss ih =>
    obtain ⟨ht, hss⟩ := List.forall_mem_cons.1 h
    rw [List.map_cons, stringItems, nonEmptyString_string ht, ih hss]
    rfl

theorem stringList_string {ss : List String} (h : ∀ t ∈ ss, NonBlank t) :
    stringList path what (.list (ss.map .string)) = .ok ss := stringItems_string h 0

end

/-- A verb as a SQL value. -/
def PolicyVerb.value (policy : PolicyVerb) : CrossingVerb → SqlValue
  | .create | .drop => .boolean true
  | .insert => .varchar policy.checkText
  | .update => .struct (("using", .varchar policy.usingText) ::
      if policy.checkText = "" then [] else [("check", .varchar policy.checkText)])
  | _ => .varchar policy.usingText

/-- **A verb is read back from its value.** -/
theorem parseVerb_value {policy : PolicyVerb} {verb : CrossingVerb} (path : String)
    (h : policy.Stated verb) :
    (fromSql path (policy.value verb) >>= parseVerb verb path) = .ok policy := by
  cases verb with
  | create | drop =>
    obtain rfl : policy = ⟨true, "true", ""⟩ := h
    rfl
  | insert =>
    obtain ⟨check, hc, rfl⟩ := h
    change parseVerb .insert path (.string check) = _
    simp only [parseVerb, parseGrantedVerb, predicate_string hc]
    rfl
  | update =>
    obtain ⟨u, check, hu, hc | hc, rfl⟩ := h
    · subst hc
      change parseVerb .update path (.object [("using", .string u)]) = _
      have using' : predicateOr "true" [("using", .string u)] path "using" = .ok u :=
        predicate_string hu
      simp only [parseVerb, parseGrantedVerb, using']
      rfl
    · rw [PolicyVerb.value, if_neg hc.ne_empty]
      change parseVerb .update path (.object [("using", .string u), ("check", .string check)]) = _
      have using' : predicateOr "true" [("using", .string u), ("check", .string check)] path
          "using" = .ok u := predicate_string hu
      have check' : predicateOr "" [("using", .string u), ("check", .string check)] path
          "check" = .ok check := predicate_string hc
      simp only [parseVerb, parseGrantedVerb, using', check']
      rfl
  | _ =>
    obtain ⟨u, hu, rfl⟩ := h
    rw [PolicyVerb.value, fromSql, pure_bind]
    · simp only [parseVerb, parseGrantedVerb, predicate_string hu]
      rfl
    all_goals exact fun h => by cases h

/-- A key as a SQL value. -/
def PolicyKey.value (key : PolicyKey) : SqlValue :=
  .struct ((if key.columnsFromQuery = "" then ("columns", .list (key.columns.map .varchar))
      else ("columns_from_query", .varchar key.columnsFromQuery)) ::
    if key.verifyUnique = "" then [] else [("verify_unique", .varchar key.verifyUnique)])

/-- What the value of a key lowers to. -/
def PolicyKey.raw (key : PolicyKey) : RawValue :=
  .object ((if key.columnsFromQuery = "" then ("columns", .list (key.columns.map .string))
      else ("columns_from_query", .string key.columnsFromQuery)) ::
    if key.verifyUnique = "" then [] else [("verify_unique", .string key.verifyUnique)])

theorem fromSql_key (key : PolicyKey) (path : String) : fromSql path key.value = .ok key.raw := by
  rw [PolicyKey.value, PolicyKey.raw, fromSql]
  split_ifs
  · rw [fieldsFromSql, fromSql_list]
    rfl
  · rw [fieldsFromSql, fromSql_list]
    rfl
  · rfl
  · rfl

/-- **A key is read back from its value.** -/
theorem parseKey_value {key : PolicyKey} (path : String) (h : key.Stated) :
    parseKey path key.raw = .ok key := by
  obtain ⟨columns, query, verify⟩ := key
  obtain ⟨hsource, hcolumns, hverify⟩ := h
  dsimp only at hsource hcolumns hverify
  have verified : ∀ f : String × RawValue, f.1 ≠ "verify_unique" →
      textField (f :: if verify = "" then [] else [("verify_unique", .string verify)]) path
        "verify_unique" = .ok verify := by
    intro f hf
    have hf' : (f.1 == "verify_unique") = false := by simpa using hf
    rcases hverify with rfl | hverify
    · simp only [textField, field, if_true, List.find?_cons, hf', List.find?_nil]
      rfl
    · simp only [textField, field, if_neg hverify.ne_empty, List.find?_cons, hf', beq_self_eq_true]
      exact nonEmptyString_string hverify
  have known : ∀ f : String × RawValue,
      f.1 ∈ ["columns", "columns_from_query", "verify_unique"] →
      throwIfUnknownFields (f :: if verify = "" then [] else [("verify_unique", .string verify)]) path
        ["columns", "columns_from_query", "verify_unique"] = .ok () := by
    intro f hf
    refine forM_eq_ok.2 fun g hg => throwIf_neg ?_
    rw [not_not]
    rcases List.mem_cons.1 hg with rfl | hg
    · exact hf
    · split_ifs at hg
      · cases hg
      · rw [List.mem_singleton.1 hg]
        simp
  -- a key has columns or a query, never both
  rcases hsource with ⟨hne, rfl⟩ | ⟨rfl, hquery⟩
  · have read : keyColumns (child path "columns") (.list (columns.map .string)) = .ok columns := by
      rw [keyColumns, stringList_string hcolumns]
      change (throwIf (columns = []) _ >>= fun _ => pure columns) = _
      rw [throwIf_neg hne]
      rfl
    rw [PolicyKey.raw, if_pos rfl, parseKey, known _ (by simp)]
    change (throwIf _ _ >>= fun _ => keySource _ path) = _
    rw [throwIf_neg, keySource]
    · change (keyColumns (child path "columns") (.list (columns.map .string)) >>= _) = _
      rw [read]
      change (textField _ path "verify_unique" >>= _) = _
      rw [verified _ (by simp)]
      rfl
    · split_ifs <;> simp [field]
  · rw [PolicyKey.raw, if_neg hquery.ne_empty, parseKey, known _ (by simp)]
    change (throwIf _ _ >>= fun _ => keySource _ path) = _
    have nocolumns : field (("columns_from_query", RawValue.string query) ::
        if verify = "" then [] else [("verify_unique", .string verify)]) "columns" = none := by
      split_ifs <;> rfl
    rw [throwIf_neg, keySource, nocolumns]
    · have read : textField (("columns_from_query", RawValue.string query) ::
          if verify = "" then [] else [("verify_unique", .string verify)]) path
            "columns_from_query" = .ok query := nonEmptyString_string hquery
      change (textField _ path "columns_from_query" >>= _) = _
      rw [read]
      change (textField _ path "verify_unique" >>= _) = _
      rw [verified _ (by simp)]
      rfl
    · rw [nocolumns]
      simp [field]

/-! ### The call of a setting -/

/-- The text of an operation. -/
def PolicyListOp.text : PolicyListOp → String
  | .add => "add"
  | .remove => "remove"
  | .set => "set"

/-- A list of names as a SQL value. -/
def namesValue (names : List String) : SqlValue := .list (names.map .varchar)

/-- A call that asks for an edit. -/
def PolicyEdit.call : PolicyEdit → SettingCall
  | .verb name v policy => ⟨name.text, v.name, none, policy.value v⟩
  | .create name granted => ⟨quoteName [name.schema], "create", none, .boolean granted⟩
  | .primaryKey name key => ⟨name.text, "primary_key", none, (key.map PolicyKey.value).getD .null⟩
  | .foreignKeys name op parents =>
    ⟨name.text, "foreign_keys", some op.text, namesValue (parents.map PolicyName.text)⟩
  | .whitelist op names => ⟨":functions", "whitelist", some op.text, namesValue names⟩

/-- An edit whose values can be written. -/
def PolicyEdit.Stated : PolicyEdit → Prop
  | .verb name v policy => name.IsTable ∧ v ≠ .create ∧ policy.Stated v
  | .create name granted => name.IsSchema ∧ granted = true
  | .primaryKey name key => name.IsTable ∧ ∀ k ∈ key, k.Stated
  | .foreignKeys name _ parents =>
    name.IsTable ∧ ∀ p ∈ parents, p.IsTable ∧ ciEq p.schema name.schema = true
  | .whitelist _ names => ∀ n ∈ names, NonBlank n

/-- A name in quotes is not the target of a special setting. -/
theorem head_quoteName {ps : List String} (h : ps ≠ []) :
    (quoteName ps).toList.head? = some '"' := by
  obtain ⟨p, ps, rfl⟩ := List.exists_cons_of_ne_nil h
  cases ps <;> simp [quoteName, quotePart]

theorem head_text (name : PolicyName) : name.text.toList.head? = some '"' := by
  refine head_quoteName ?_
  rw [PolicyName.parts]
  split_ifs <;> simp

theorem nonBlank_text (name : PolicyName) : NonBlank name.text := by
  refine ⟨'"', ?_, by decide⟩
  exact List.mem_of_mem_head? (head_text name)

theorem requireOp_text {target setting path : String} {op : PolicyListOp} {items : List RawValue} :
    requireOp target setting path (some op.text) (.list items) = .ok op := by
  cases op <;> rfl

theorem settingNames_list {path : String} {op : PolicyListOp} {names : List String}
    (h : ∀ n ∈ names, NonBlank n) :
    settingNames path op (.list (names.map .string)) = .ok names := stringList_string h

theorem parseForeignKeys_text {name : PolicyName} {path : String} {parents : List PolicyName}
    (h : ∀ p ∈ parents, p.IsTable ∧ ciEq p.schema name.schema = true) :
    parseForeignKeys (parents.map PolicyName.text) name path = .ok parents := by
  rw [parseForeignKeys, mapM_eq_ok, List.forall₂_map_left_iff, List.forall₂_same]
  intro p hp
  obtain ⟨ht, hs⟩ := h p hp
  have hne : ¬ ciEq p.schema name.schema = false := by simp [hs]
  rw [parentName, parsePolicyTableName_text ht]
  change (throwIf _ _ >>= fun _ => pure p) = _
  rw [throwIf_neg hne]
  rfl

/-- **Every setting that can be written has its call.** -/
theorem PolicyEdit.Stated.call {edit : PolicyEdit} (h : edit.Stated) : edit.call.edit = .ok edit := by
  have special : ∀ name : PolicyName, ¬ name.text.toList.head? = some ':' := by
    intro name
    rw [head_text]
    simp
  cases edit with
  | verb name verb policy =>
    obtain ⟨hname, hverb, hpolicy⟩ := h
    obtain ⟨raw, hraw, hparse⟩ :=
      bind_eq_ok (parseVerb_value (editPath name.text verb.name) hpolicy)
    -- `create` is the one verb whose setting is a schema's
    have hcreate : ¬ verb.name = "create" := by cases verb <;> simp_all [CrossingVerb.name]
    rw [SettingCall.edit, PolicyEdit.call, parsePolicyEdit, hraw]
    simp only [bind, Except.bind, if_neg (special name), if_neg hcreate, parseTableEdit,
      parsePolicyTableName_text hname, tryParseVerbName_eq_some.2 rfl, hparse]
    rfl
  | create name granted =>
    obtain ⟨hname, rfl⟩ := h
    have hhead : ¬ (quoteName [name.schema]).toList.head? = some ':' := by
      rw [head_quoteName (by simp)]
      simp
    rw [SettingCall.edit, PolicyEdit.call, parsePolicyEdit]
    simp only [bind, Except.bind, if_neg hhead, fromSql, pure, Except.pure, if_true,
      parsePolicySchemaName_text hname]
    rfl
  | primaryKey name key =>
    obtain ⟨hname, hkey⟩ := h
    rw [SettingCall.edit, PolicyEdit.call, parsePolicyEdit]
    cases key with
    | none =>
      simp only [Option.map_none, Option.getD_none, fromSql, bind, Except.bind, pure, Except.pure,
        if_neg (special name), parseTableEdit, parsePolicyTableName_text hname]
      rfl
    | some key =>
      simp only [Option.map_some, Option.getD_some, fromSql_key, bind, Except.bind, pure,
        Except.pure, if_neg (special name), parseTableEdit, parsePolicyTableName_text hname]
      have hread := parseKey_value (editPath name.text "primary_key") (hkey key rfl)
      change (parseKey _ key.raw >>= fun key => pure (PolicyEdit.primaryKey name (some key))) = _
      rw [hread]
      rfl
  | foreignKeys name op parents =>
    obtain ⟨hname, hparents⟩ := h
    have hnames : ∀ t ∈ parents.map PolicyName.text, NonBlank t :=
      List.forall_mem_map.2 fun p _ => nonBlank_text p
    have hsetting : tryParseVerbName "foreign_keys" = none := rfl
    rw [SettingCall.edit, PolicyEdit.call, parsePolicyEdit, namesValue, fromSql_list]
    simp (disch := decide) only [bind, Except.bind, if_neg (special name), if_neg, parseTableEdit,
      parsePolicyTableName_text hname, hsetting, requireOp_text, settingNames_list hnames,
      parseForeignKeys_text hparents, if_true]
    rfl
  | whitelist op names =>
    rw [SettingCall.edit, PolicyEdit.call, parsePolicyEdit, namesValue, fromSql_list]
    have hhead : ":functions".toList.head? = some ':' := by decide
    have htarget : throwIf (":functions" ≠ ":functions") = fun _ => .ok () := rfl
    have hsetting : throwIf ("whitelist" ≠ "whitelist") = fun _ => .ok () := rfl
    simp only [bind, Except.bind, if_pos hhead, htarget, hsetting, requireOp_text,
      settingNames_list h]
    rfl

/-! ### A call that nothing interrupts -/

namespace Registry

/-- `SetPolicy` or `ConfigurePolicy`; `view` is what the source answers. -/
def request (s : Registry) (db : Nat) (id : String) (view : SourceView) (request : PolicyRequest) :
    Except BridgeError Unit × Registry :=
  match s.lookupOpenGrants id db with
  | (.error e, s) => (.error e, s)
  | (.ok target, s) =>
    match request.resolve view (s.contexts target.registration).values with
    | .error e => (.error e, s)
    | .ok commit => s.commitCall
        { sourceDb := db, bridgeId := id, request := request, registration := target.registration,
          source := target.source, stage := .resolved commit } commit

/-- `SetPolicyFunc`. -/
def setPolicy (s : Registry) (db : Nat) (id : String) (view : SourceView) (call : SettingCall) :
    Except BridgeError Unit × Registry :=
  match call.edit with
  | .error e => (.error e, s)
  | .ok edit =>
    let (result, s) := s.request db id view (.set edit)
    (result.mapError (rethrowAt (editPath call.target call.setting)), s)

/-- `ConfigurePolicyFunc`, behind the reader of the text. -/
def configurePolicy (s : Registry) (db : Nat) (id : String) (view : SourceView) (document : Json) :
    Except BridgeError Unit × Registry :=
  match parsePolicyJson document with
  | .error e => (.error e, s)
  | .ok config => s.request db id view (.configure config)

/-- The calls in flight are of no account to a lookup. -/
theorem lookupOpenGrants_withCalls (s : Registry) (id : String) (db : Nat)
    (calls : List RegistryCall) :
    (s.withCalls calls).lookupOpenGrants id db =
      ((s.lookupOpenGrants id db).1, (s.lookupOpenGrants id db).2.withCalls calls) := by
  have found : (s.withCalls calls).lookupGrantTarget id db =
      ((s.lookupGrantTarget id db).1, (s.lookupGrantTarget id db).2.withCalls calls) := by
    have pending : (s.withCalls calls).purge.pending id = s.purge.pending id := rfl
    rw [lookupGrantTarget, lookupGrantTarget, pending]
    split
    · split_ifs <;> rfl
    · rfl
  rw [lookupOpenGrants, lookupOpenGrants, found]

/-- Nor are they to a commit. -/
theorem commitCall_withCalls (s : Registry) (call : PolicyCall) (commit : PolicyCommit)
    (calls : List RegistryCall) :
    (s.withCalls calls).commitCall call commit =
      ((s.commitCall call commit).1, (s.commitCall call commit).2.withCalls calls) := by
  rw [commitCall, commitCall, lookupOpenGrants_withCalls]
  cases s.lookupOpenGrants call.bridgeId call.sourceDb with
  | mk found s₁ =>
    cases found with
    | error e => rfl
    | ok target =>
      dsimp only
      cases target.entry with
      | inl p => rfl
      | inr entry =>
        dsimp only
        split <;> rfl

theorem calls_lookupOpenGrants (s : Registry) (id : String) (db : Nat) :
    (s.lookupOpenGrants id db).2.calls = s.calls := by
  change (s.lookupGrantTarget id db).2.calls = s.calls
  rw [lookupGrantTarget]
  split
  · split_ifs <;> rfl
  · rfl

/-- **A call that nothing interrupts is a run of the registry**: its sections one after another. -/
theorem request_run {nonce : String} {s s' : Registry} {db : Nat} {id : String} {view : SourceView}
    {request : PolicyRequest} (hdb : db ∉ s.closed)
    (h : s.request db id view request = (.ok (), s')) :
    (registryMachine nonce).exec s [.setPolicy db id request, .snapshot s.calls.length,
      .resolve s.calls.length view, .finish s.calls.length] = some (s'.withCalls s.calls) := by
  rw [Registry.request] at h
  have hcalls := s.calls_lookupOpenGrants id db
  cases hl : s.lookupOpenGrants id db with
  | mk found s₁ =>
    rw [hl] at h hcalls
    cases found with
    | error e => cases h
    | ok target =>
      dsimp only at h hcalls
      cases hr : request.resolve view (s₁.contexts target.registration).values with
      | error e =>
        rw [hr] at h
        cases h
      | ok commit =>
        rw [hr] at h
        dsimp only at h
        have last : ∀ (c : RegistryCall) (cs : List RegistryCall), (cs ++ [c])[cs.length]? = some c :=
          fun c cs => by simp
        have set : ∀ (c c' : RegistryCall) (cs : List RegistryCall),
            (cs ++ [c]).set cs.length c' = cs ++ [c'] := fun c c' cs => by
          rw [List.set_append_right _ _ le_rfl, Nat.sub_self]
          rfl
        have erase : ∀ (c : RegistryCall) (cs : List RegistryCall),
            (cs ++ [c]).eraseIdx cs.length = cs := fun c cs => by
          rw [List.eraseIdx_append_of_length_le le_rfl, Nat.sub_self]
          exact List.append_nil cs
        -- the call at each of its stages, behind those that are in flight already
        have look : (registryMachine nonce).next s (.setPolicy db id request) =
            some (s₁.withCalls (s.calls ++ [.policy
              { sourceDb := db, bridgeId := id, request := request,
                registration := target.registration, source := target.source }])) := by
          change (if db ∈ s.closed then none else some (s.lookUpOpenBridge db id request).2) = _
          rw [if_neg hdb, lookUpOpenBridge, hl, ← hcalls]
        have snap : (registryMachine nonce).next (s₁.withCalls (s.calls ++ [.policy
              { sourceDb := db, bridgeId := id, request := request,
                registration := target.registration, source := target.source }]))
            (.snapshot s.calls.length) = some (s₁.withCalls (s.calls ++ [.policy
              { sourceDb := db, bridgeId := id, request := request,
                registration := target.registration, source := target.source,
                stage := .snapshotted (s₁.contexts target.registration).values }])) := by
          change Option.bind (_ ++ [_])[_]? _ = _
          rw [last]
          exact congrArg (fun cs => some (s₁.withCalls cs)) (set _ _ _)
        have work : (registryMachine nonce).next (s₁.withCalls (s.calls ++ [.policy
              { sourceDb := db, bridgeId := id, request := request,
                registration := target.registration, source := target.source,
                stage := .snapshotted (s₁.contexts target.registration).values }]))
            (.resolve s.calls.length view) = some (s₁.withCalls (s.calls ++ [.policy
              { sourceDb := db, bridgeId := id, request := request,
                registration := target.registration, source := target.source,
                stage := .resolved commit }])) := by
          change Option.bind (_ ++ [_])[_]? _ = _
          rw [last, Option.bind_some]
          simp only [resolve, hr]
          exact congrArg (fun cs => some (s₁.withCalls cs)) (set _ _ _)
        have done : (registryMachine nonce).next (s₁.withCalls (s.calls ++ [.policy
              { sourceDb := db, bridgeId := id, request := request,
                registration := target.registration, source := target.source,
                stage := .resolved commit }]))
            (.finish s.calls.length) = some (s'.withCalls s.calls) := by
          change Option.bind (_ ++ [_])[_]? _ = _
          rw [last, Option.bind_some]
          simp only [finish, commitCall_withCalls, h]
          exact congrArg (fun cs => some (s'.withCalls cs)) (erase _ _)
        simp only [Machine.exec, look, snap, work, done, Option.bind_some]

end Registry

end VirtualCatalog
