import VirtualCatalog.Bridge.PolicyDocument
import VirtualCatalog.Names.Separators
import VirtualCatalog.Machine.Fallible
import VirtualCatalog.Provider.Listing

/-!
# The schema that a provider declares

A provider answers with one Arrow schema message.  It names the columns and their types, and its
metadata names the key columns, joined with commas.

* `SchemaNode` : an `ArrowSchema` with its metadata.
* `throwOnMismatchedExtensionStorage` : what it checks of every node.
* `readPrimaryKeys` : the key columns; `readPrimaryKeys_eq_iff` : which lists of names can be
  declared.
* `decodeSchemaMessage` : the table that is declared; its key columns are columns.
-/

namespace VirtualCatalog

namespace Provider

open Separators

/-- `ArrowSchema`; the metadata is a list of keys and values. -/
inductive SchemaNode where
  | mk (format name : Option String) (metadata : Option (List (String × String)))
    (children : List SchemaNode) (dictionary : Option SchemaNode)

namespace SchemaNode

/-- `format`. -/
def format : SchemaNode → Option String
  | mk format _ _ _ _ => format

/-- `name`, which is empty if there is none. -/
def name : SchemaNode → String
  | mk _ name _ _ _ => name.getD ""

/-- `metadata`. -/
def metadata : SchemaNode → Option (List (String × String))
  | mk _ _ metadata _ _ => metadata

/-- `children`. -/
def children : SchemaNode → List SchemaNode
  | mk _ _ _ children _ => children

end SchemaNode

/-! ### Key columns -/

/-- `PRIMARY_KEY_METADATA_KEY`. -/
def primaryKeyMetadataKey : String := "vcat.primary_keys"

/-- `LEGACY_PRIMARY_KEY_METADATA_KEY`. -/
def legacyPrimaryKeyMetadataKey : String := "n6k.primary_keys"

/-- `ArrowMetadataGetValue`: the value of the first entry with the key; `""` if there is none. -/
def metadataGetValue (metadata : List (String × String)) (key : String) : String :=
  ((metadata.find? fun entry => entry.1 = key).map (·.2)).getD ""

/-- `StringUtil::Split` at commas, `StringUtil::Trim` of each piece, and no piece that is empty. -/
def splitKeys (value : String) : List String :=
  ((Separators.pieces ',' value.toList).map trim).filterMap fun key =>
    if key.isEmpty then none else some (.ofList key)

/-- `ReadPrimaryKeys`. -/
def readPrimaryKeys (schema : SchemaNode) : List String :=
  match schema.metadata with
  | none => []
  | some metadata =>
    let value := metadataGetValue metadata primaryKeyMetadataKey
    if value = "" then splitKeys (metadataGetValue metadata legacyPrimaryKeyMetadataKey)
    else splitKeys value

/-- A name that can be one of several in the metadata. -/
structure PlainKey (key : String) : Prop where
  nonempty : key ≠ ""
  comma : ',' ∉ key.toList
  /-- It does not begin with a blank, nor end with one or with a character beyond ASCII. -/
  ends : trim key.toList = key.toList

/-- The names joined with commas. -/
def joinKeys (keys : List String) : String := .ofList ([','].intercalate (keys.map String.toList))

theorem trim_trim (s : List Char) : trim (trim s) = trim s := by
  have hprefix : trim s <+: s.dropWhile characterIsSpace := List.rdropWhile_prefix ..
  have hdrop : (trim s).dropWhile characterIsSpace = trim s := by
    cases hx : trim s with
    | nil => rfl
    | cons c cs =>
      obtain ⟨rest, hrest⟩ := hprefix
      rw [hx, List.cons_append] at hrest
      have hc := List.head?_dropWhile_not characterIsSpace s
      rw [← hrest] at hc
      exact List.dropWhile_cons_of_neg (by simpa using hc)
  unfold trim trimChars at hdrop ⊢
  rw [hdrop, List.rdropWhile_idempotent]

/-- What is read is a list of plain names. -/
theorem plainKey_of_mem_splitKeys {value key : String} (h : key ∈ splitKeys value) :
    PlainKey key := by
  obtain ⟨chars, hchars, hkey⟩ := List.mem_filterMap.1 h
  obtain ⟨piece, hpiece, rfl⟩ := List.mem_map.1 hchars
  split_ifs at hkey with hempty
  obtain rfl := Option.some.inj hkey
  refine ⟨fun h => hempty ?_, ?_, ?_⟩
  · rw [List.isEmpty_iff, ← String.toList_ofList (l := trim _), h]
    rfl
  · rw [String.toList_ofList]
    obtain ⟨front, rest, hs, -, -⟩ := exists_trimChars characterIsSpace rTrims piece
    intro hm
    refine not_mem_of_mem_pieces hpiece ?_
    rw [hs]
    exact List.mem_append_left _ (List.mem_append_right _ hm)
  · rw [String.toList_ofList, trim_trim]

theorem splitKeys_joinKeys {keys : List String} (h : ∀ key ∈ keys, PlainKey key) :
    splitKeys (joinKeys keys) = keys := by
  have hpieces : Separators.pieces ',' (joinKeys keys).toList = keys.map String.toList := by
    rw [joinKeys, String.toList_ofList]
    refine pieces_intercalate (fun l hl => ?_) (fun l hl => ?_)
    · obtain ⟨key, hkey, rfl⟩ := List.mem_map.1 hl
      exact (h key hkey).comma
    · obtain ⟨key, hkey, rfl⟩ := List.mem_map.1 hl
      exact fun hnil => (h key hkey).nonempty (String.toList_eq_nil_iff.1 hnil)
  rw [splitKeys, hpieces, List.map_map, List.filterMap_map]
  refine (List.filterMap_congr fun key hkey => ?_).trans (List.filterMap_some)
  have hplain := h key hkey
  have hne : key.toList ≠ [] := fun hnil => hplain.nonempty (String.toList_eq_nil_iff.1 hnil)
  simp only [Function.comp, hplain.ends]
  rw [if_neg (by rwa [List.isEmpty_iff]), String.ofList_toList]

/-- Key columns are read as they were meant exactly if each name is plain: the metadata that a
provider makes by joining the names with commas. -/
theorem readPrimaryKeys_eq_iff {schema : SchemaNode} {metadata : List (String × String)}
    {keys : List String} (hmeta : schema.metadata = some metadata)
    (hvalue : metadataGetValue metadata primaryKeyMetadataKey = joinKeys keys)
    (hne : joinKeys keys ≠ "") : readPrimaryKeys schema = keys ↔ ∀ key ∈ keys, PlainKey key := by
  have hread : readPrimaryKeys schema = splitKeys (joinKeys keys) := by
    rw [readPrimaryKeys, hmeta]
    dsimp only
    rw [hvalue, if_neg hne]
  rw [hread]
  constructor
  · intro h key hkey
    rw [← h] at hkey
    exact plainKey_of_mem_splitKeys hkey
  · exact splitKeys_joinKeys

/-! ### Extension types -/

section

/-- What DuckDB knows of Arrow extensions and types of `T`. -/
structure ArrowTypes (T : Type) where
  /-- The Arrow format that the extension is registered with that the metadata names, for a column
  of a format. -/
  registeredFormat : List (String × String) → String → Option String
  /-- `GetArrowLogicalType` and `GetDuckType(true)`. -/
  duckType : SchemaNode → Except ProviderError T

variable {T : Type} (types : ArrowTypes T)

/-- The check of one node. -/
def SchemaNode.checkStorage (what : String) : SchemaNode → Except ProviderError Unit
  | .mk (some format) name (some metadata) _ _ =>
    match types.registeredFormat metadata format with
    | none => .ok ()
    | some registered =>
      if registered ≠ "" ∧ registered ≠ format then
        .error (.io (what ++ ": column '" ++ name.getD "" ++ "' is tagged " ++
          metadataGetValue metadata "ARROW:extension:name" ++ ", which must be stored as '" ++
          registered ++ "', not '" ++ format ++ "'"))
      else .ok ()
  | _ => .ok ()

mutual

/-- `ThrowOnMismatchedExtensionStorage`. -/
def throwOnMismatchedExtensionStorage (what : String) : SchemaNode → Except ProviderError Unit
  | .mk format name metadata children dictionary => do
    (SchemaNode.mk format name metadata children dictionary).checkStorage types what
    checkChildren what children
    checkDictionary what dictionary

/-- The same of children. -/
def checkChildren (what : String) : List SchemaNode → Except ProviderError Unit
  | [] => .ok ()
  | child :: children => do
    throwOnMismatchedExtensionStorage what child
    checkChildren what children

/-- The same of a dictionary. -/
def checkDictionary (what : String) : Option SchemaNode → Except ProviderError Unit
  | none => .ok ()
  | some dictionary => throwOnMismatchedExtensionStorage what dictionary

end

/-- `DecodedProviderSchema`. -/
structure DecodedProviderSchema (T : Type) where
  columnNames : List String
  columnTypes : List T
  primaryKeys : List String

/-- `DecodeSchemaMessage`; `decode` finds the schema message of a payload, if it has one. -/
def decodeSchemaMessage (decode : List UInt8 → Except String (Option SchemaNode)) (what : String)
    (ipcBytes : List UInt8) : Except ProviderError (DecodedProviderSchema T) :=
  if ipcBytes = [] then .error (.io (what ++ ": the provider returned an empty Arrow schema"))
  else match decode ipcBytes with
  | .error e =>
    .error (.io (what ++ ": could not decode the Arrow IPC the provider returned: " ++ e))
  | .ok none => .error (.io (what ++ ": the provider's Arrow payload carried no schema message"))
  | .ok (some schema) => do
    throwOnMismatchedExtensionStorage types what schema
    let columnTypes ← schema.children.mapM types.duckType
    match (readPrimaryKeys schema).find? fun key => key ∉ schema.children.map SchemaNode.name with
    | some key => .error (.io (what ++ ": primary key column '" ++ key ++
        "' is not a column of the schema"))
    | none => .ok ⟨schema.children.map SchemaNode.name, columnTypes, readPrimaryKeys schema⟩

/-- `TrailingColumns`. -/
structure TrailingColumns (T : Type) where
  types : List T := []
  formats : List String := []

/-- `DescribeTrailingColumns`, of a stream with this schema. -/
def describeTrailingColumns (what : String) (schema : SchemaNode) (count : Nat) :
    Except ProviderError (TrailingColumns T) :=
  if count = 0 then .ok {}
  else if schema.children.length < count then
    .error (.io (what ++ ": the provider returned " ++ toString schema.children.length ++
      " columns, fewer than the " ++ toString count ++
      " primary-key columns it must append"))
  else do
    let trailing := schema.children.drop (schema.children.length - count)
    let types ← trailing.mapM fun child => do
      throwOnMismatchedExtensionStorage types what child
      types.duckType child
    return ⟨types, trailing.map fun child => child.format.getD ""⟩

variable {types}

/-- A schema that passes the check has children that pass it. -/
theorem storage_of_mem_children {what : String} {schema child : SchemaNode}
    (h : throwOnMismatchedExtensionStorage types what schema = .ok ())
    (hchild : child ∈ schema.children) :
    throwOnMismatchedExtensionStorage types what child = .ok () := by
  obtain ⟨format, name, metadata, children, dictionary⟩ := schema
  rw [throwOnMismatchedExtensionStorage] at h
  obtain ⟨-, -, hrest⟩ := bind_eq_ok h
  obtain ⟨⟨⟩, hchildren, -⟩ := bind_eq_ok hrest
  replace hchild : child ∈ children := hchild
  clear h hrest
  induction children with
  | nil => cases hchild
  | cons c cs ih =>
    rw [checkChildren] at hchildren
    obtain ⟨⟨⟩, hc, hcs⟩ := bind_eq_ok hchildren
    rcases List.mem_cons.1 hchild with rfl | hchild
    · exact hc
    · exact ih hcs hchild

theorem describeTrailingColumns_eq_ok {what : String} {schema : SchemaNode} {count : Nat}
    {trailing : TrailingColumns T} (hcount : count ≠ 0) :
    describeTrailingColumns types what schema count = .ok trailing ↔
      count ≤ schema.children.length ∧
        (∀ child ∈ schema.children.drop (schema.children.length - count),
          throwOnMismatchedExtensionStorage types what child = .ok ()) ∧
        (schema.children.drop (schema.children.length - count)).mapM types.duckType =
          .ok trailing.types ∧
        trailing.formats = (schema.children.drop (schema.children.length - count)).map
          fun child => child.format.getD "" := by
  rw [describeTrailingColumns, if_neg hcount]
  split_ifs with hfew
  · exact ⟨nofun, fun h => absurd h.1 (Nat.not_le.2 hfew)⟩
  generalize schema.children.drop (schema.children.length - count) = children
  constructor
  · intro h
    obtain ⟨ts, hts, h⟩ := bind_eq_ok h
    cases h
    have hall := mapM_eq_ok.1 hts
    refine ⟨Nat.not_lt.1 hfew, fun child hchild => ?_, mapM_eq_ok.2 (hall.imp ?_), rfl⟩
    · obtain ⟨t, ht⟩ := exists_mapM.1 ⟨ts, hts⟩ child hchild
      obtain ⟨⟨⟩, hstorage, -⟩ := bind_eq_ok ht
      exact hstorage
    · intro child t ht
      obtain ⟨-, -, ht⟩ := bind_eq_ok ht
      exact ht
  · rintro ⟨-, hstorage, htypes, hformats⟩
    have hts : (children.mapM fun child => do
        throwOnMismatchedExtensionStorage types what child
        types.duckType child) = .ok trailing.types := by
      refine mapM_eq_ok.2 (((List.forall₂_and_left _ _).2 ⟨hstorage, mapM_eq_ok.1 htypes⟩).imp ?_)
      rintro child t ⟨hchild, ht⟩
      exact bind_eq_ok_iff.2 ⟨(), hchild, ht⟩
    refine bind_eq_ok_iff.2 ⟨_, hts, ?_⟩
    cases trailing
    cases hformats
    rfl

/-- A table that is declared has its key columns among its columns. -/
theorem decodeSchemaMessage_eq_ok {decode : List UInt8 → Except String (Option SchemaNode)}
    {what : String} {ipcBytes : List UInt8} {declared : DecodedProviderSchema T} :
    decodeSchemaMessage types decode what ipcBytes = .ok declared ↔
      ipcBytes ≠ [] ∧ ∃ schema, decode ipcBytes = .ok (some schema) ∧
        throwOnMismatchedExtensionStorage types what schema = .ok () ∧
        schema.children.mapM types.duckType = .ok declared.columnTypes ∧
        declared.columnNames = schema.children.map SchemaNode.name ∧
        declared.primaryKeys = readPrimaryKeys schema ∧
        ∀ key ∈ declared.primaryKeys, key ∈ declared.columnNames := by
  unfold decodeSchemaMessage
  split_ifs with hempty
  · exact ⟨nofun, fun h => absurd hempty h.1⟩
  split
  next e he =>
    refine ⟨nofun, ?_⟩
    rintro ⟨-, schema, h, -⟩
    rw [he] at h
    cases h
  next he =>
    refine ⟨nofun, ?_⟩
    rintro ⟨-, schema, h, -⟩
    rw [he] at h
    cases h
  next schema he =>
    rw [bind_eq_ok_iff]
    constructor
    · rintro ⟨⟨⟩, hstorage, h⟩
      obtain ⟨columnTypes, htypes, h⟩ := bind_eq_ok_iff.1 h
      split at h
      · cases h
      next hkeys =>
        cases h
        refine ⟨hempty, schema, he, hstorage, htypes, rfl, rfl, fun key hkey => ?_⟩
        simpa using List.find?_eq_none.1 hkeys key hkey
    · rintro ⟨-, schema', he', hstorage, htypes, hnames, hkeys, hcolumns⟩
      obtain rfl : schema = schema' := by
        rw [he] at he'
        exact Option.some.inj (Except.ok.inj he')
      refine ⟨(), hstorage, bind_eq_ok_iff.2 ⟨_, htypes, ?_⟩⟩
      have hnone : ((readPrimaryKeys schema).find? fun key =>
          key ∉ schema.children.map SchemaNode.name) = none :=
        List.find?_eq_none.2 fun key hkey => by
          rw [← hkeys] at hkey
          simpa [← hnames] using hcolumns key hkey
      rw [hnone]
      cases declared
      cases hnames
      cases hkeys
      rfl

/-- **A declared key is read as it was meant exactly if each of its names is plain and a column**:
for a provider that joins the names of its key columns with commas. -/
theorem declares_keys_iff {decode : List UInt8 → Except String (Option SchemaNode)} {what : String}
    {ipcBytes : List UInt8} {schema : SchemaNode} {metadata : List (String × String)}
    {keys : List String} {columnTypes : List T} (hbytes : ipcBytes ≠ [])
    (hdecode : decode ipcBytes = .ok (some schema))
    (hstorage : throwOnMismatchedExtensionStorage types what schema = .ok ())
    (htypes : schema.children.mapM types.duckType = .ok columnTypes)
    (hmeta : schema.metadata = some metadata)
    (hvalue : metadataGetValue metadata primaryKeyMetadataKey = joinKeys keys)
    (hne : joinKeys keys ≠ "") :
    (∃ declared, decodeSchemaMessage types decode what ipcBytes = .ok declared ∧
        declared.primaryKeys = keys) ↔
      ∀ key ∈ keys, PlainKey key ∧ key ∈ schema.children.map SchemaNode.name := by
  constructor
  · rintro ⟨declared, hdeclared, rfl⟩ key hkey
    obtain ⟨-, schema', hdecode', -, -, hnames, hkeys, hcolumns⟩ :=
      decodeSchemaMessage_eq_ok.1 hdeclared
    obtain rfl : schema = schema' := by
      rw [hdecode] at hdecode'
      exact Option.some.inj (Except.ok.inj hdecode')
    exact ⟨(readPrimaryKeys_eq_iff hmeta hvalue hne).1 hkeys.symm key hkey,
      hnames ▸ hcolumns key hkey⟩
  · intro h
    have hread : readPrimaryKeys schema = keys :=
      (readPrimaryKeys_eq_iff hmeta hvalue hne).2 fun key hkey => (h key hkey).1
    refine ⟨⟨schema.children.map SchemaNode.name, columnTypes, keys⟩,
      decodeSchemaMessage_eq_ok.2 ⟨hbytes, schema, hdecode, hstorage, htypes, rfl, hread.symm,
        fun key hkey => (h key hkey).2⟩, rfl⟩

end

namespace Sample

/-- The key and the name of a user. -/
def usersSchema : SchemaNode :=
  .mk (some "+s") none (some [("vcat.primary_keys", "id")])
    [.mk (some "l") (some "id") none [] none, .mk (some "u") (some "name") none [] none] none

/-- No extensions; a type is its format. -/
def formatTypes : ArrowTypes String where
  registeredFormat _ _ := none
  duckType node := .ok (node.format.getD "")

end Sample

theorem declares_keys_iff_users :
    (∃ declared, decodeSchemaMessage Sample.formatTypes (fun _ => .ok (some Sample.usersSchema))
        "schema" [0] = .ok declared ∧ declared.primaryKeys = ["id"]) ↔
      ∀ key ∈ ["id"], PlainKey key ∧ key ∈ Sample.usersSchema.children.map SchemaNode.name :=
  declares_keys_iff (T := String) (by decide) rfl rfl rfl rfl rfl (by decide)

end Provider

end VirtualCatalog
