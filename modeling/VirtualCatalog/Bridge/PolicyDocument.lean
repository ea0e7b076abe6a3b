import VirtualCatalog.Bridge.Commit
import VirtualCatalog.Json.Value
import Mathlib.Data.List.DropRight

/-!
# Reading a policy document

JSON and SQL values both lower to a `RawValue`, so one parser serves the whole document and the
single setting.

* `fromJson` : a document lowered; it refuses a null, a fraction and a key given twice.
* `parsePolicyNameParts`, `parsePolicyTableName`, `parsePolicySchemaName` : names as SQL writes
  them.
* `parseVerb`, `parseKey`, `parseTable`, `parseFunctions` : the parts of a policy.
* `parsePolicyJson` : the policy of a document, with the path of what is wrong in it.
-/

namespace VirtualCatalog

/-! ### Texts -/

/-- `StringUtil::CharacterIsSpace`. -/
def characterIsSpace (c : Char) : Bool :=
  c == ' ' || c == '\t' || c == '\n' || c == '\x0b' || c == '\x0c' || c == '\r'

/-- What `StringUtil::RTrim` drops at the end: it keeps a `char` above zero that is no space, and those
of a character beyond ASCII are negative. -/
def rTrims (c : Char) : Bool := characterIsSpace c || c == '\x00' || decide (128 ≤ c.toNat)

/-- The text without the characters of `front` before it, and those of `back` behind it. -/
def trimChars (front back : Char → Bool) (s : List Char) : List Char :=
  (s.dropWhile front).rdropWhile back

/-- `StringUtil::Trim`. -/
def trim (s : List Char) : List Char := trimChars characterIsSpace rTrims s

/-- `IsBlank`. -/
def isBlank (s : String) : Bool := (trim s.toList).isEmpty

/-- `IsTrueText`. -/
def isTrueText (s : String) : Bool := decide ((trim s.toList).map Char.toLower = "true".toList)

variable {front back : Char → Bool}

theorem rTrims_of_characterIsSpace {c : Char} (h : characterIsSpace c = true) : rTrims c = true := by
  rw [rTrims, h, Bool.true_or, Bool.true_or]

theorem trimChars_eq_nil {s : List Char} (h : ∀ c, front c = true → back c = true) :
    trimChars front back s = [] ↔ ∀ c ∈ s, back c = true := by
  rw [trimChars, List.rdropWhile_eq_nil_iff]
  constructor
  · intro hs c hc
    rw [← s.takeWhile_append_dropWhile (p := front), List.mem_append] at hc
    rcases hc with hc | hc
    · exact h c (List.mem_takeWhile_imp hc)
    · exact hs c hc
  · exact fun hs c hc => hs c ((List.dropWhile_sublist front).subset hc)

/-- What is trimmed off is of the two sets. -/
theorem exists_trimChars (front back : Char → Bool) (s : List Char) :
    ∃ before after, s = before ++ trimChars front back s ++ after ∧ (∀ c ∈ before, front c = true) ∧
      ∀ c ∈ after, back c = true := by
  refine ⟨s.takeWhile front, (s.dropWhile front).rtakeWhile back, ?_,
    fun c hc => List.mem_takeWhile_imp hc, fun c hc => List.mem_rtakeWhile_imp hc⟩
  rw [trimChars, List.append_assoc, List.rdropWhile_append_rtakeWhile,
    List.takeWhile_append_dropWhile]

/-- Only that is trimmed off. -/
theorem trimChars_of_append {before text after : List Char} (hf : ∀ c ∈ before, front c = true)
    (hr : ∀ c ∈ after, back c = true) (ht : ∀ c ∈ text, front c = false ∧ back c = false) :
    trimChars front back (before ++ text ++ after) = text := by
  cases text with
  | nil =>
    rw [trimChars, List.append_nil, List.dropWhile_append_of_pos hf, List.rdropWhile_eq_nil_iff]
    exact fun c hc => hr c ((List.dropWhile_sublist front).subset hc)
  | cons a text =>
    have ha : front a = false := (ht a List.mem_cons_self).1
    rw [trimChars, List.append_assoc, List.dropWhile_append_of_pos hf, List.cons_append,
      List.dropWhile_cons_of_neg (by simp [ha]), ← List.cons_append, List.rdropWhile,
      List.reverse_append, List.dropWhile_append_of_pos (by simpa using hr)]
    have hne : (a :: text).reverse ≠ [] := by simp
    obtain ⟨b, text', hb⟩ := List.exists_cons_of_ne_nil hne
    have hpb : back b = false := (ht b (by rw [← List.mem_reverse, hb]; exact List.mem_cons_self)).2
    rw [hb, List.dropWhile_cons_of_neg (by simp [hpb]), ← hb, List.reverse_reverse]

theorem isBlank_eq_false {s : String} : isBlank s = false ↔ ∃ c ∈ s.toList, rTrims c = false := by
  rw [isBlank, ← Bool.not_eq_true, List.isEmpty_iff, trim,
    trimChars_eq_nil fun _ => rTrims_of_characterIsSpace]
  simp

/-! ### Raw values -/

/-- What JSON and SQL values lower to. -/
inductive RawValue where
  | nul
  | bool (b : Bool)
  | integer (i : Int)
  | string (text : String)
  | list (items : List RawValue)
  | object (fields : List (String × RawValue))

/-- `Fail`. -/
def fail (path message : String) : BridgeError :=
  ⟨.io, "vcatbridge: " ++ path ++ ": " ++ message⟩

/-- `Describe`. -/
def RawValue.describe : RawValue → String
  | nul => "null"
  | bool b => if b then "true" else "false"
  | integer _ => "a number"
  | string _ => "a string"
  | list _ => "a list"
  | object _ => "an object"

/-- `QuoteKey`. -/
def quoteKey (key : String) : String :=
  "\"" ++ .ofList (key.toList.flatMap fun c => if c = '"' then ['\\', '"'] else [c]) ++ "\""

/-- `Child`. -/
def child (path key : String) : String :=
  let special (c : Char) := c == '.' || c == '"' || c == ' ' || c == '[' || c == ']'
  let part := if key ≠ "" ∧ key.toList.any special = false then key else quoteKey key
  if path = "" then part else path ++ "." ++ part

/-- The number as `yyjson_get_sint` returns it, if it was read as an integer: 64 bits, signed or
unsigned. -/
def JsonNumber.sint : JsonNumber → Option Int
  | integer n => if -2 ^ 63 ≤ n ∧ n < 2 ^ 64 then some (if n < 2 ^ 63 then n else n - 2 ^ 64) else none
  | decimal _ _ => none

mutual

/-- `FromJson`. -/
def fromJson (path : String) : Json → Except BridgeError RawValue
  | .null => .error (fail path "null is not a value here; leave the key out instead")
  | .bool b => return .bool b
  | .string s => return .string s
  | .array items => return .list (← itemsFromJson path 0 items)
  | .object fields => return .object (← fieldsFromJson path ∅ fields)
  | .number n =>
    match n.sint with
    | some i => return .integer i
    | none => .error (fail path "fractional numbers are not a value here")

/-- The items of a list. -/
def itemsFromJson (path : String) (index : Nat) : List Json → Except BridgeError (List RawValue)
  | [] => return []
  | j :: js => do
    let item ← fromJson (path ++ "[" ++ toString index ++ "]") j
    return item :: (← itemsFromJson path (index + 1) js)

/-- The members of an object; `seen` are the keys before them. -/
def fieldsFromJson (path : String) (seen : CISet) :
    List (String × Json) → Except BridgeError (List (String × RawValue))
  | [] => return []
  | (name, j) :: fs => do
    throwIf (seen.contains name) (fail path ("the key " ++ quoteKey name ++ " appears twice"))
    let value ← fromJson (child path name) j
    return (name, value) :: (← fieldsFromJson path (seen.add name) fs)

end

/-- `ThrowIfUnknownFields`. -/
def throwIfUnknownFields (fields : List (String × RawValue)) (path : String) (known : List String) :
    Except BridgeError Unit :=
  fields.forM fun f => throwIf (f.1 ∉ known)
    (fail path ("unknown key " ++ quoteKey f.1 ++ "; expected one of: " ++
      ", ".intercalate known))

/-- `Field`. -/
def field (fields : List (String × RawValue)) (name : String) : Option RawValue :=
  (fields.find? fun f => f.1 == name).map Prod.snd

/-- The value of a member that may be missing. -/
def optional {α : Type} (default : α) (parse : RawValue → Except BridgeError α) :
    Option RawValue → Except BridgeError α
  | none => return default
  | some value => parse value

/-- `NonEmptyString`. -/
def nonEmptyString (path what : String) : RawValue → Except BridgeError String
  | .nul => .error (fail path (what ++ " cannot be NULL"))
  | .string text =>
    if isBlank text then .error (fail path (what ++ " cannot be empty")) else return text
  | value => .error (fail path (what ++ " must be a string, not " ++ value.describe))

/-- The strings of a list from its item `index` on. -/
def stringItems (path what : String) (index : Nat) :
    List RawValue → Except BridgeError (List String)
  | [] => return []
  | item :: items => do
    let text ← nonEmptyString (path ++ "[" ++ toString index ++ "]") what item
    return text :: (← stringItems path what (index + 1) items)

/-- `StringList`, without a single string for a list. -/
def stringList (path what : String) : RawValue → Except BridgeError (List String)
  | .list items => stringItems path what 0 items
  | value => .error (fail path (what ++ " must be a list of strings, not " ++ value.describe))

/-- `Predicate`: true stands for its text. -/
def predicate (path : String) : RawValue → Except BridgeError String
  | .bool true => return "true"
  | .bool false =>
    .error (fail path "a predicate cannot be false; leave the verb out to deny it")
  | value => nonEmptyString path "a predicate" value

/-- A member that is a predicate, or `default` if it is missing. -/
def predicateOr (default : String) (fields : List (String × RawValue)) (path name : String) :
    Except BridgeError String :=
  optional default (predicate (child path name)) (field fields name)

/-! ### Names -/

/-- Where the scan of a name stands: in a bare part, inside a quoted one or behind it. -/
inductive NameScan where
  | bare
  | inQuote
  | quoted

/-- `finish`: what is wrong with a part that ends here. -/
def finishPart (text : String) (scan : NameScan) (part : List Char) : Except BridgeError String := do
  throwIf (part = []) ⟨.io, "vcatbridge: '" ++ text ++ "' has an empty name part"⟩
  match scan with
  | .bare =>
    throwIf (part.head?.any characterIsSpace || part.getLast?.any characterIsSpace)
      ⟨.io, "vcatbridge: '" ++ text ++
        "' has spaces around a name part; quote it if they belong"⟩
  | _ => pure ()
  return .ofList part

/-- The loop of `ParsePolicyNameParts`, with the part read so far. -/
def scanNameParts (text : String) : NameScan → List Char → List Char → Except BridgeError (List String)
  | .inQuote, _, [] => .error ⟨.io, "vcatbridge: '" ++ text ++ "' has an unterminated quote"⟩
  -- a doubled quote stands for one
  | .inQuote, part, '"' :: '"' :: cs => scanNameParts text .inQuote (part ++ ['"']) cs
  | .inQuote, part, '"' :: cs => do
    throwIf (part = []) ⟨.io, "vcatbridge: '" ++ text ++ "' has an empty name part"⟩
    throwIf (cs.head?.any (· ≠ '.'))
      ⟨.io, "vcatbridge: '" ++ text ++ "' has text after a quoted name part"⟩
    scanNameParts text .quoted part cs
  | .inQuote, part, c :: cs => scanNameParts text .inQuote (part ++ [c]) cs
  | scan, part, [] => return [← finishPart text scan part]
  | scan, part, '.' :: cs => do
    let first ← finishPart text scan part
    throwIf (cs = []) ⟨.io, "vcatbridge: '" ++ text ++ "' has an empty name part"⟩
    return first :: (← scanNameParts text .bare [] cs)
  -- a quote opens a part, and stands nowhere else outside of one
  | .bare, [], '"' :: cs => scanNameParts text .inQuote [] cs
  | _, _, '"' :: _ => .error ⟨.io, "vcatbridge: '" ++ text ++ "' has a quote inside a name part"⟩
  | .quoted, _, _ :: _ =>
    .error ⟨.io, "vcatbridge: '" ++ text ++ "' has text after a quoted name part"⟩
  | .bare, part, c :: cs => scanNameParts text .bare (part ++ [c]) cs

/-- `ParsePolicyNameParts`. -/
def parsePolicyNameParts (text : String) : Except BridgeError (List String) :=
  scanNameParts text .bare [] text.toList

/-- `ParsePolicyTableName`. -/
def parsePolicyTableName (text : String) : Except BridgeError PolicyName := do
  match ← parsePolicyNameParts text with
  | [schema, name] => return { schema := schema, name := name }
  | [catalog, schema, name] => return ⟨catalog, schema, name⟩
  | _ => .error ⟨.io, "vcatbridge: table name '" ++ text ++
      "' must be 'schema.table' or 'catalog.schema.table'"⟩

/-- `ParsePolicySchemaName`. -/
def parsePolicySchemaName (text : String) : Except BridgeError PolicyName := do
  match ← parsePolicyNameParts text with
  | [schema] => return { schema := schema }
  | _ => .error ⟨.io, "vcatbridge: 'create' takes a schema name like 'main', not '" ++ text ++ "'"⟩

/-- The error of a name at the path it stands at. -/
def atPath {α : Type} (path : String) (x : Except BridgeError α) : Except BridgeError α :=
  x.mapError fun e => fail path e.message

/-! ### The parts of a policy -/

/-- `ParseVerb` behind its check for a verb that is not granted. -/
def parseGrantedVerb (verb : CrossingVerb) (path : String) (value : RawValue) :
    Except BridgeError PolicyVerb :=
  match verb with
  | .create | .drop =>
    let refused := fail path ("'" ++ verb.name ++ "' takes only true")
    match value with
    | .object _ => .error refused
    | _ => do
      throwIf (isTrueText (← predicate path value) = false) refused
      return ⟨true, "true", ""⟩
  | .insert =>
    match value with
    | .object fields => do
      throwIfUnknownFields fields path ["check"]
      match field fields "check" with
      | none => .error (fail path "'insert' needs a check predicate")
      | some check => return ⟨true, "true", ← predicate (child path "check") check⟩
    | _ => return ⟨true, "true", ← predicate path value⟩
  | .update =>
    match value with
    | .object fields => do
      throwIfUnknownFields fields path ["using", "check"]
      let usingText ← predicateOr "true" fields path "using"
      return ⟨true, usingText, ← predicateOr "" fields path "check"⟩
    | _ => return ⟨true, ← predicate path value, ""⟩
  | _ =>
    match value with
    | .object _ =>
      .error (fail path ("'" ++ verb.name ++ "' takes true or a predicate string"))
    | _ => return ⟨true, ← predicate path value, ""⟩

/-- `ParseVerb`. -/
def parseVerb (verb : CrossingVerb) (path : String) :
    RawValue → Except BridgeError PolicyVerb
  | .nul | .bool false => return {}
  | value => parseGrantedVerb verb path value

/-- A list of key columns. -/
def keyColumns (path : String) (value : RawValue) : Except BridgeError (List String) := do
  let columns ← stringList path "a key column" value
  throwIf (columns = []) (fail path "the key column list cannot be empty")
  return columns

/-- A member that is a text, or empty if it is missing. -/
def textField (fields : List (String × RawValue)) (path name : String) :
    Except BridgeError String :=
  optional "" (nonEmptyString (child path name) name) (field fields name)

/-- A key given by its columns or by a query for them. -/
def keySource (fields : List (String × RawValue)) (path : String) :
    Except BridgeError PolicyKey :=
  match field fields "columns" with
  | some columns => do
    let columns ← keyColumns (child path "columns") columns
    return ⟨columns, "", ← textField fields path "verify_unique"⟩
  | none => do
    let query ← textField fields path "columns_from_query"
    return ⟨[], query, ← textField fields path "verify_unique"⟩

/-- `ParseKey`. -/
def parseKey (path : String) : RawValue → Except BridgeError PolicyKey
  | .list items => return { columns := ← keyColumns path (.list items) }
  | .object fields => do
    throwIfUnknownFields fields path ["columns", "columns_from_query", "verify_unique"]
    throwIf ((field fields "columns").isSome = (field fields "columns_from_query").isSome)
      (fail path "primary_key needs exactly one of columns or columns_from_query")
    keySource fields path
  | value => .error (fail path
      ("primary_key must be a list of columns or an object, not " ++ value.describe))

/-- `ParentName`. -/
def parentName (text : String) (childName : PolicyName) (path : String) :
    Except BridgeError PolicyName := do
  let parent ← atPath path (parsePolicyTableName text)
  throwIf (ciEq parent.schema childName.schema = false)
    (fail path ("'" ++ text ++ "' is in another schema; a foreign key never crosses schemas"))
  return parent

/-- `ParseForeignKeys`. -/
def parseForeignKeys (names : List String) (childName : PolicyName) (path : String) :
    Except BridgeError (List PolicyName) :=
  names.mapM fun name => parentName name childName path

/-- `TryParseVerbName`. -/
def tryParseVerbName (text : String) : Option CrossingVerb :=
  crossingVerbs.find? fun verb => text == verb.name

/-- One member of a table entry; the table and whether a verb is granted so far. -/
def parseTableField (path : String) (acc : PolicyTable × Bool) (f : String × RawValue) :
    Except BridgeError (PolicyTable × Bool) :=
  let (table, anyVerb) := acc
  let fieldPath := child path f.1
  match tryParseVerbName f.1 with
  | some verb => do
    let value ← parseVerb verb fieldPath f.2
    return ({ table with verbs := Function.update table.verbs verb value }, anyVerb || value.granted)
  | none =>
    if f.1 = "primary_key" then return ({ table with key := ← parseKey fieldPath f.2 }, anyVerb)
    else do
      let names ← stringList fieldPath "a table name" f.2
      return ({ table with foreignKeys := ← parseForeignKeys names table.name fieldPath }, anyVerb)

/-- The keys of a table entry. -/
def tableKeys : List String :=
  ["select", "insert", "update", "delete", "alter", "drop", "primary_key", "foreign_keys"]

/-- `ParseTable` behind the name. -/
def parseTableEntry (name : PolicyName) (path : String) (fields : List (String × RawValue)) :
    Except BridgeError PolicyTable := do
  throwIfUnknownFields fields path tableKeys
  let parsed ← fields.foldlM (parseTableField path)
    ({ name := name, path := path, verbs := fun _ => {} }, false)
  throwIf (parsed.2 = false)
    (fail path "grants no verb; add select, insert, update, delete, alter or drop")
  return parsed.1

/-- `ParseTable`. -/
def parseTable (name : String) (path : String) (value : RawValue) :
    Except BridgeError PolicyTable := do
  let parsed ← atPath path (parsePolicyTableName name)
  match value with
  | .object fields => parseTableEntry parsed path fields
  | _ => .error (fail path ("a table entry must be an object, not " ++ value.describe))

/-- `PolicyFunctions`. -/
structure PolicyFunctions where
  builtins : Bool := true
  add : List String := []
  remove : List String := []

/-- A member that is a list of function names, or empty if it is missing. -/
def functionNames (fields : List (String × RawValue)) (path name : String) :
    Except BridgeError (List String) :=
  optional [] (stringList (child path name) "a function name") (field fields name)

/-- `ParseFunctions`. -/
def parseFunctions (path : String) : RawValue → Except BridgeError PolicyFunctions
  | .list items => return { builtins := false, add := ← stringList path "a function name" (.list items) }
  | .object fields => do
    throwIfUnknownFields fields path ["add", "remove"]
    let add ← functionNames fields path "add"
    return { add := add, remove := ← functionNames fields path "remove" }
  | value => .error (fail path
      ("functions must be a list (the exact whitelist) or an object with add/remove, not " ++
        value.describe))

/-- The schema of an entry of `schemas`, if it grants `create`. -/
def parseSchema (name : String) (path : String) (value : RawValue) :
    Except BridgeError (Option (PolicyName × String)) :=
  match value with
  | .object fields => do
    throwIfUnknownFields fields path ["create"]
    let verb ← optional {} (parseVerb .create (child path "create")) (field fields "create")
    if verb.granted then return some (← atPath path (parsePolicySchemaName name), path)
    else return none
  | _ => .error (fail path ("a schema entry must be an object, not " ++ value.describe))

/-! ### The whole document -/

/-- The keys of a policy document. -/
def policyKeys : List String := ["$schema", "policy_version", "schemas", "tables", "functions"]

/-- The check of `policy_version`. -/
def checkVersion : Option RawValue → Except BridgeError Unit
  | none => .error (fail "policy"
      "policy_version is required; this extension supports policy_version 1")
  | some (.integer 1) => return ()
  | some _ => .error (fail "policy_version"
      "unsupported version; this extension supports policy_version 1")

/-- `schemas` of a document. -/
def parseSchemas : RawValue → Except BridgeError (List (PolicyName × String))
  | .object fields => do
    let entries ← fields.mapM fun f => parseSchema f.1 (child "schemas" f.1) f.2
    return entries.filterMap id
  | _ => .error (fail "schemas" "must be an object of schema name to settings")

/-- `tables` of a document. -/
def parseTables : RawValue → Except BridgeError (List PolicyTable)
  | .object fields => fields.mapM fun f => parseTable f.1 (child "tables" f.1) f.2
  | _ => .error (fail "tables" "must be an object of table name to settings")

/-- `ParsePolicyJson`, behind the reader of the text. -/
def parsePolicyJson (document : Json) : Except BridgeError PolicyConfig :=
  match document with
  | .object members => do
    let fields ← fieldsFromJson "" ∅ members
    throwIfUnknownFields fields "policy" policyKeys
    checkVersion (field fields "policy_version")
    let _ ← optional "" (nonEmptyString "$schema" "$schema") (field fields "$schema")
    let createSchemas ← optional [] parseSchemas (field fields "schemas")
    let tables ← optional [] parseTables (field fields "tables")
    let functions ← optional {} (parseFunctions "functions") (field fields "functions")
    return { createSchemas := createSchemas, tables := tables, builtins := functions.builtins,
             add := functions.add, remove := functions.remove }
  | _ => .error ⟨.io, "vcatbridge: the policy must be a JSON object"⟩

end VirtualCatalog
