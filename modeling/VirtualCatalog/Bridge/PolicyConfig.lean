import VirtualCatalog.Bridge.PolicyFormat

/-!
# What a document states

The policy that the parser returns keeps the shape of the settings it was read from: every text is
there, every name has its parts, and every table grants a verb.

* `PolicyVerb.Stated`, `PolicyKey.Stated`, `PolicyTable.Stated`, `PolicyConfig.Stated` : the shape.
* `parsePolicyJson_stated` : an accepted document has it.
-/

namespace VirtualCatalog

/-- A verb as its setting is written: only some verbs have a check, and `create` and `drop` take
nothing but true. -/
def PolicyVerb.Stated (policy : PolicyVerb) : CrossingVerb → Prop
  | .create | .drop => policy = ⟨true, "true", ""⟩
  | .insert => ∃ check, NonBlank check ∧ policy = ⟨true, "true", check⟩
  | .update => ∃ usingText check, NonBlank usingText ∧ (check = "" ∨ NonBlank check) ∧
      policy = ⟨true, usingText, check⟩
  | _ => ∃ usingText, NonBlank usingText ∧ policy = ⟨true, usingText, ""⟩

/-- A key as its setting is written: columns, or a query for them. -/
structure PolicyKey.Stated (key : PolicyKey) : Prop where
  source : key.columns ≠ [] ∧ key.columnsFromQuery = "" ∨
    key.columns = [] ∧ NonBlank key.columnsFromQuery
  columns : ∀ c ∈ key.columns, NonBlank c
  verify : key.verifyUnique = "" ∨ NonBlank key.verifyUnique

/-- The name of a table has its parts. -/
def PolicyName.IsTable (name : PolicyName) : Prop := name.schema ≠ "" ∧ name.name ≠ ""

/-- The name of a schema has one part. -/
def PolicyName.IsSchema (name : PolicyName) : Prop :=
  name.schema ≠ "" ∧ name = { schema := name.schema }

/-- A table as a document has it. -/
structure PolicyTable.Stated (table : PolicyTable) : Prop where
  name : table.name.IsTable
  grants : ∃ verb, (table.verbs verb).granted = true
  create : (table.verbs .create).granted = false
  verbs : ∀ verb, (table.verbs verb).granted = true → (table.verbs verb).Stated verb
  key : ∀ key ∈ table.key, key.Stated
  parents : ∀ p ∈ table.foreignKeys, p.IsTable ∧ ciEq p.schema table.name.schema = true

/-- A policy as a document has it. -/
structure PolicyConfig.Stated (config : PolicyConfig) : Prop where
  createSchemas : ∀ s ∈ config.createSchemas, s.1.IsSchema
  tables : ∀ table ∈ config.tables, table.Stated
  add : ∀ n ∈ config.add, NonBlank n
  remove : ∀ n ∈ config.remove, NonBlank n
  exact : config.builtins = false → config.remove = []

/-! ### Texts -/

section

variable {path what : String} {value : RawValue}

theorem NonBlank.ne_empty {s : String} (h : NonBlank s) : s ≠ "" := by
  rintro rfl
  obtain ⟨c, hc, -⟩ := h
  cases hc

theorem nonBlank_true : NonBlank "true" := ⟨'t', by decide, by decide⟩

theorem nonEmptyString_raw {s : String} (h : nonEmptyString path what value = .ok s) :
    value = .string s ∧ NonBlank s := by
  rw [nonEmptyString.eq_def] at h
  split at h
  · cases h
  · split_ifs at h with hb
    cases h
    exact ⟨rfl, isBlank_eq_false.1 (by simpa using hb)⟩
  · cases h

theorem stringItems_raw {index : Nat} {items : List RawValue} {ss : List String}
    (h : stringItems path what index items = .ok ss) :
    items = ss.map .string ∧ ∀ s ∈ ss, NonBlank s := by
  induction items generalizing index ss with
  | nil =>
    cases h
    exact ⟨rfl, by simp⟩
  | cons item items ih =>
    obtain ⟨s, hs, h⟩ := bind_eq_ok h
    obtain ⟨ss', hss, h⟩ := bind_eq_ok h
    cases h
    obtain ⟨rfl, hb⟩ := nonEmptyString_raw hs
    obtain ⟨rfl, hall⟩ := ih hss
    exact ⟨rfl, List.forall_mem_cons.2 ⟨hb, hall⟩⟩

theorem stringList_raw {ss : List String} (h : stringList path what value = .ok ss) :
    value = .list (ss.map .string) ∧ ∀ s ∈ ss, NonBlank s := by
  rw [stringList.eq_def] at h
  split at h
  · obtain ⟨rfl, hall⟩ := stringItems_raw h
    exact ⟨rfl, hall⟩
  · cases h

theorem predicate_nonBlank {t : String} (h : predicate path value = .ok t) : NonBlank t := by
  rw [predicate.eq_def] at h
  split at h
  · cases h
    exact nonBlank_true
  · cases h
  · exact (nonEmptyString_raw h).2

/-- A member that is missing, or is read. -/
theorem optional_eq_ok {α : Type} {default a : α} {parse : RawValue → Except BridgeError α}
    {found : Option RawValue} (h : optional default parse found = .ok a) :
    found = none ∧ a = default ∨ ∃ value, found = some value ∧ parse value = .ok a := by
  cases found with
  | none =>
    cases h
    exact .inl ⟨rfl, rfl⟩
  | some value => exact .inr ⟨value, rfl, h⟩

end

/-! ### Verbs, keys and functions -/

section

variable {path : String} {value : RawValue}

theorem parseGrantedVerb_stated {verb : CrossingVerb} {v : PolicyVerb}
    (h : parseGrantedVerb verb path value = .ok v) : v.Stated verb := by
  rw [parseGrantedVerb.eq_def] at h
  split at h
  · split at h
    · cases h
    · obtain ⟨_, -, h⟩ := bind_eq_ok h
      obtain ⟨_, -, h⟩ := bind_eq_ok h
      cases h
      rfl
  · split at h
    · cases h
    · obtain ⟨_, -, h⟩ := bind_eq_ok h
      obtain ⟨_, -, h⟩ := bind_eq_ok h
      cases h
      rfl
  -- `insert`: an object has a `check`, anything else is one
  · split at h
    · obtain ⟨_, -, h⟩ := bind_eq_ok h
      split at h
      · cases h
      · obtain ⟨t, ht, h⟩ := bind_eq_ok h
        cases h
        exact ⟨t, predicate_nonBlank ht, rfl⟩
    · obtain ⟨t, ht, h⟩ := bind_eq_ok h
      cases h
      exact ⟨t, predicate_nonBlank ht, rfl⟩
  -- `update`: an object may have both, anything else is the `using`
  · split at h
    · obtain ⟨_, -, h⟩ := bind_eq_ok h
      obtain ⟨u, hu, h⟩ := bind_eq_ok h
      obtain ⟨c, hc, h⟩ := bind_eq_ok h
      cases h
      refine ⟨u, c, ?_, ?_, rfl⟩
      · rcases optional_eq_ok hu with ⟨-, rfl⟩ | ⟨_, -, hu⟩
        · exact nonBlank_true
        · exact predicate_nonBlank hu
      · rcases optional_eq_ok hc with ⟨-, rfl⟩ | ⟨_, -, hc⟩
        · exact .inl rfl
        · exact .inr (predicate_nonBlank hc)
    · obtain ⟨u, hu, h⟩ := bind_eq_ok h
      cases h
      exact ⟨u, "", predicate_nonBlank hu, .inl rfl, rfl⟩
  next hc hd hi hu =>
    split at h
    · cases h
    · obtain ⟨u, hu', h⟩ := bind_eq_ok h
      cases h
      cases verb with
      | create => exact (hc rfl).elim
      | drop => exact (hd rfl).elim
      | insert => exact (hi rfl).elim
      | update => exact (hu rfl).elim
      | _ => exact ⟨u, predicate_nonBlank hu', rfl⟩

/-- A verb that is read is granted as it is stated, or not granted. -/
theorem parseVerb_stated {verb : CrossingVerb} {v : PolicyVerb}
    (h : parseVerb verb path value = .ok v) (hg : v.granted = true) : v.Stated verb := by
  rw [parseVerb.eq_def] at h
  split at h
  · cases h
    cases hg
  · cases h
    cases hg
  · exact parseGrantedVerb_stated h

theorem keyColumns_stated {columns : List String} (h : keyColumns path value = .ok columns) :
    columns ≠ [] ∧ ∀ c ∈ columns, NonBlank c := by
  obtain ⟨ss, hs, h⟩ := bind_eq_ok h
  obtain ⟨_, hne, h⟩ := bind_eq_ok h
  cases h
  exact ⟨throwIf_eq_ok.1 hne, (stringList_raw hs).2⟩

theorem textField_stated {fields : List (String × RawValue)} {name t : String}
    (h : textField fields path name = .ok t) :
    field fields name = none ∧ t = "" ∨ (field fields name).isSome = true ∧ NonBlank t := by
  rcases optional_eq_ok h with h | ⟨v, hv, h⟩
  · exact .inl h
  · exact .inr ⟨by rw [hv]; rfl, (nonEmptyString_raw h).2⟩

theorem parseKey_stated {key : PolicyKey} (h : parseKey path value = .ok key) : key.Stated := by
  rw [parseKey.eq_def] at h
  split at h
  · obtain ⟨columns, hc, h⟩ := bind_eq_ok h
    cases h
    obtain ⟨hne, hall⟩ := keyColumns_stated hc
    exact ⟨.inl ⟨hne, rfl⟩, hall, .inl rfl⟩
  · obtain ⟨_, -, h⟩ := bind_eq_ok h
    obtain ⟨_, hone, h⟩ := bind_eq_ok h
    rw [throwIf_eq_ok] at hone
    rw [keySource] at h
    split at h
    next columns heq =>
      obtain ⟨cs, hc, h⟩ := bind_eq_ok h
      obtain ⟨t, ht, h⟩ := bind_eq_ok h
      cases h
      obtain ⟨hne, hall⟩ := keyColumns_stated hc
      exact ⟨.inl ⟨hne, rfl⟩, hall, (textField_stated ht).imp And.right And.right⟩
    next heq =>
      obtain ⟨q, hq, h⟩ := bind_eq_ok h
      obtain ⟨t, ht, h⟩ := bind_eq_ok h
      cases h
      refine ⟨.inr ⟨rfl, ?_⟩, by simp, (textField_stated ht).imp And.right And.right⟩
      rcases textField_stated hq with ⟨hnone, -⟩ | ⟨-, hb⟩
      · rw [heq, hnone] at hone
        exact absurd rfl hone
      · exact hb
  · cases h

theorem parseFunctions_stated {functions : PolicyFunctions}
    (h : parseFunctions path value = .ok functions) :
    (∀ n ∈ functions.add, NonBlank n) ∧ (∀ n ∈ functions.remove, NonBlank n) ∧
      (functions.builtins = false → functions.remove = []) := by
  have names : ∀ {fields : List (String × RawValue)} {name : String} {ns : List String},
      functionNames fields path name = .ok ns → ∀ n ∈ ns, NonBlank n := by
    intro fields name ns h
    rcases optional_eq_ok h with ⟨-, rfl⟩ | ⟨v, -, h⟩
    · simp
    · exact (stringList_raw h).2
  rw [parseFunctions.eq_def] at h
  split at h
  · obtain ⟨ns, hs, h⟩ := bind_eq_ok h
    cases h
    exact ⟨(stringList_raw hs).2, by simp, fun _ => rfl⟩
  · obtain ⟨_, -, h⟩ := bind_eq_ok h
    obtain ⟨add, ha, h⟩ := bind_eq_ok h
    obtain ⟨remove, hr, h⟩ := bind_eq_ok h
    cases h
    exact ⟨names ha, names hr, fun h => by cases h⟩
  · cases h

end

/-! ### Names -/

theorem finishPart_ne {text p : String} {scan : NameScan} {part : List Char}
    (h : finishPart text scan part = .ok p) : p ≠ "" := by
  obtain ⟨_, hne, h⟩ := bind_eq_ok h
  rw [throwIf_eq_ok] at hne
  have hp : p = .ofList part := by
    dsimp only at h
    split at h
    · obtain ⟨_, -, h⟩ := bind_eq_ok h
      cases h
      rfl
    · cases h
      rfl
  rintro rfl
  exact hne (by simpa using (congrArg String.toList hp).symm)

/-- No part of a name is empty. -/
theorem scanNameParts_ne {text : String} {scan : NameScan} {part cs : List Char} {ps : List String}
    (h : scanNameParts text scan part cs = .ok ps) : ∀ p ∈ ps, p ≠ "" := by
  fun_induction scanNameParts text scan part cs generalizing ps with
  | case1 => cases h
  | case2 part cs ih => exact ih h
  | case3 part cs hcs ih =>
    obtain ⟨_, -, h⟩ := bind_eq_ok h
    obtain ⟨_, -, h⟩ := bind_eq_ok h
    exact ih h
  | case4 part c cs hc hcs ih => exact ih h
  | case5 scan part hs =>
    obtain ⟨p, hp, h⟩ := bind_eq_ok h
    cases h
    simpa using finishPart_ne hp
  | case6 scan part cs hs ih =>
    obtain ⟨p, hp, h⟩ := bind_eq_ok h
    obtain ⟨_, -, h⟩ := bind_eq_ok h
    obtain ⟨ps', hps, h⟩ := bind_eq_ok h
    cases h
    exact List.forall_mem_cons.2 ⟨finishPart_ne hp, ih hps⟩
  | case7 cs ih => exact ih h
  | case8 => cases h
  | case9 => cases h
  | case10 part c cs _ _ _ ih => exact ih h

theorem parsePolicyTableName_stated {text : String} {name : PolicyName}
    (h : parsePolicyTableName text = .ok name) : name.IsTable := by
  obtain ⟨ps, hps, h⟩ := bind_eq_ok h
  have hne := scanNameParts_ne hps
  split at h
  · cases h
    exact ⟨hne _ (by simp), hne _ (by simp)⟩
  · cases h
    exact ⟨hne _ (by simp), hne _ (by simp)⟩
  · cases h

theorem parsePolicySchemaName_stated {text : String} {name : PolicyName}
    (h : parsePolicySchemaName text = .ok name) : name.IsSchema := by
  obtain ⟨ps, hps, h⟩ := bind_eq_ok h
  have hne := scanNameParts_ne hps
  split at h
  · cases h
    exact ⟨hne _ (by simp), rfl⟩
  · cases h

theorem parseForeignKeys_stated {names : List String} {sibling : PolicyName} {path : String}
    {parents : List PolicyName} (h : parseForeignKeys names sibling path = .ok parents) :
    ∀ p ∈ parents, p.IsTable ∧ ciEq p.schema sibling.schema = true := by
  intro p hp
  obtain ⟨n, -, hn⟩ := exists_of_mapM h hp
  obtain ⟨parent, hparse, hn⟩ := bind_eq_ok hn
  obtain ⟨_, hschema, hn⟩ := bind_eq_ok hn
  cases hn
  exact ⟨parsePolicyTableName_stated (atPath_eq_ok.1 hparse),
    by simpa using throwIf_eq_ok.1 hschema⟩

/-! ### Tables -/

/-- A table whose members are read so far. -/
structure PolicyTable.StatedSoFar (name : PolicyName) (table : PolicyTable) : Prop where
  named : table.name = name
  create : (table.verbs .create).granted = false
  verbs : ∀ verb, (table.verbs verb).granted = true → (table.verbs verb).Stated verb
  key : ∀ key ∈ table.key, key.Stated
  parents : ∀ p ∈ table.foreignKeys, p.IsTable ∧ ciEq p.schema name.schema = true

theorem parseTableField_stated {name : PolicyName} {path : String} {acc acc' : PolicyTable × Bool}
    {f : String × RawValue} (hkey : f.1 ∈ tableKeys) (hacc : acc.1.StatedSoFar name)
    (h : parseTableField path acc f = .ok acc') : acc'.1.StatedSoFar name := by
  obtain ⟨table, anyVerb⟩ := acc
  rw [parseTableField] at h
  dsimp only at h hacc
  split at h
  next verb hv =>
    obtain ⟨v, hv', h⟩ := bind_eq_ok h
    cases h
    rw [tryParseVerbName_eq_some] at hv
    have hne : verb ≠ .create := by
      rintro rfl
      rw [hv] at hkey
      exact absurd hkey (by decide)
    refine ⟨hacc.named, ?_, fun w hw => ?_, hacc.key, hacc.parents⟩
    · dsimp only
      rw [Function.update_of_ne (Ne.symm hne)]
      exact hacc.create
    · dsimp only at hw ⊢
      by_cases hwv : w = verb
      · subst hwv
        rw [Function.update_self] at hw ⊢
        exact parseVerb_stated hv' hw
      · rw [Function.update_of_ne hwv] at hw ⊢
        exact hacc.verbs w hw
  next =>
    split_ifs at h
    · obtain ⟨k, hk, h⟩ := bind_eq_ok h
      cases h
      refine ⟨hacc.named, hacc.create, hacc.verbs, fun key hkey => ?_, hacc.parents⟩
      cases hkey
      exact parseKey_stated hk
    · obtain ⟨names, -, h⟩ := bind_eq_ok h
      obtain ⟨parents, hp, h⟩ := bind_eq_ok h
      cases h
      exact ⟨hacc.named, hacc.create, hacc.verbs, hacc.key,
        hacc.named ▸ parseForeignKeys_stated hp⟩

/-- A verb that is granted so far has no member left that could take it away. -/
theorem parseTableField_grants {path : String} {acc acc' : PolicyTable × Bool}
    {f : String × RawValue} {rest : List (String × RawValue)}
    (hn : ((f :: rest).map Prod.fst).Nodup)
    (hacc : acc.2 = true →
      ∃ verb, (acc.1.verbs verb).granted = true ∧ verb.name ∉ (f :: rest).map Prod.fst)
    (h : parseTableField path acc f = .ok acc') :
    acc'.2 = true → ∃ verb, (acc'.1.verbs verb).granted = true ∧ verb.name ∉ rest.map Prod.fst := by
  obtain ⟨table, anyVerb⟩ := acc
  rw [List.map_cons, List.nodup_cons] at hn
  simp only [List.map_cons, List.mem_cons, not_or] at hacc
  rw [parseTableField] at h
  split at h
  next verb hv =>
    obtain ⟨v, -, h⟩ := bind_eq_ok h
    cases h
    rw [tryParseVerbName_eq_some] at hv
    intro hany
    dsimp only at hany ⊢
    cases hg : v.granted with
    | true =>
      refine ⟨verb, ?_, hv ▸ hn.1⟩
      rw [Function.update_self]
      exact hg
    | false =>
      obtain ⟨w, hw, hne, hrest⟩ := hacc (by simpa [hg] using hany)
      refine ⟨w, ?_, hrest⟩
      rw [Function.update_of_ne]
      · exact hw
      · rintro rfl
        exact hne hv.symm
  next =>
    have kept : anyVerb = true → ∃ verb, (table.verbs verb).granted = true ∧
        verb.name ∉ rest.map Prod.fst := by
      intro hany
      obtain ⟨w, hw, -, hrest⟩ := hacc hany
      exact ⟨w, hw, hrest⟩
    split_ifs at h
    · obtain ⟨_, -, h⟩ := bind_eq_ok h
      cases h
      exact kept
    · obtain ⟨_, -, h⟩ := bind_eq_ok h
      obtain ⟨_, -, h⟩ := bind_eq_ok h
      cases h
      exact kept

theorem foldlM_parseTableField_stated {name : PolicyName} {path : String}
    {fields : List (String × RawValue)} {acc acc' : PolicyTable × Bool}
    (hkeys : ∀ f ∈ fields, f.1 ∈ tableKeys) (hn : (fields.map Prod.fst).Nodup)
    (hacc : acc.1.StatedSoFar name)
    (hgrants : acc.2 = true →
      ∃ verb, (acc.1.verbs verb).granted = true ∧ verb.name ∉ fields.map Prod.fst)
    (h : fields.foldlM (parseTableField path) acc = .ok acc') :
    acc'.1.StatedSoFar name ∧
      (acc'.2 = true → ∃ verb, (acc'.1.verbs verb).granted = true) := by
  induction fields generalizing acc with
  | nil =>
    cases h
    exact ⟨hacc, fun hany => (hgrants hany).imp fun _ => And.left⟩
  | cons f fields ih =>
    obtain ⟨hkey, hkeys⟩ := List.forall_mem_cons.1 hkeys
    rw [List.foldlM_cons] at h
    obtain ⟨acc₁, h₁, h⟩ := bind_eq_ok h
    exact ih hkeys (List.nodup_cons.1 hn).2 (parseTableField_stated hkey hacc h₁)
      (parseTableField_grants hn hgrants h₁) h

theorem keys_lowerFields (fs : List (String × Json)) :
    (Json.lowerFields fs).map Prod.fst = fs.map Prod.fst := by
  rw [Json.lowerFields_eq, List.map_map]
  rfl

/-- **A table that is read is stated.** -/
theorem parseTable_stated {name path : String} {j : Json} {table : PolicyTable} (hn : j.NoTwins)
    (h : parseTable name path j.lower = .ok table) : table.Stated := by
  obtain ⟨parsed, hparsed, h⟩ := bind_eq_ok h
  split at h
  next fields heq =>
    obtain ⟨fs, rfl, rfl⟩ : ∃ fs, j = .object fs ∧ fields = Json.lowerFields fs := by
      cases j with
      | object fs => exact ⟨fs, rfl, (RawValue.object.inj heq).symm⟩
      | number n =>
        rw [Json.lower] at heq
        cases hs : n.sint <;> rw [hs] at heq <;> cases heq
      | _ => cases heq
    obtain ⟨_, hknown, h⟩ := bind_eq_ok h
    obtain ⟨acc, hfold, h⟩ := bind_eq_ok h
    obtain ⟨_, hany, h⟩ := bind_eq_ok h
    cases h
    have keys : ∀ f ∈ Json.lowerFields fs, f.1 ∈ tableKeys := by
      rw [throwIfUnknownFields_lowerFields] at hknown
      rw [Json.lowerFields_eq]
      exact List.forall_mem_map.2 hknown
    have nodup : ((Json.lowerFields fs).map Prod.fst).Nodup := by
      rw [keys_lowerFields]
      refine List.Nodup.of_map fold ?_
      rw [List.map_map]
      exact (Json.noTwins_object.1 hn).1
    have start : PolicyTable.StatedSoFar parsed
        { name := parsed, path := path, verbs := fun _ => {} } :=
      { named := rfl
        create := rfl
        verbs := fun _ h => Bool.noConfusion h
        key := by simp
        parents := by simp }
    obtain ⟨hs, hg⟩ := foldlM_parseTableField_stated keys nodup start (fun h => by cases h) hfold
    exact ⟨hs.named ▸ parsePolicyTableName_stated (atPath_eq_ok.1 hparsed),
      hg (by simpa using throwIf_eq_ok.1 hany), hs.create, hs.verbs, hs.key,
      hs.named.symm ▸ hs.parents⟩
  next => cases h

/-! ### The document -/

theorem parseSchema_stated {name path : String} {value : RawValue} {s : PolicyName × String}
    (h : parseSchema name path value = .ok (some s)) : s.1.IsSchema := by
  rw [parseSchema.eq_def] at h
  split at h
  · obtain ⟨_, -, h⟩ := bind_eq_ok h
    obtain ⟨verb, -, h⟩ := bind_eq_ok h
    split_ifs at h
    · obtain ⟨parsed, hp, h⟩ := bind_eq_ok h
      cases h
      exact parsePolicySchemaName_stated (atPath_eq_ok.1 hp)
    · cases h
  · cases h

theorem parseSchemas_stated {value : RawValue} {ss : List (PolicyName × String)}
    (h : parseSchemas value = .ok ss) : ∀ s ∈ ss, s.1.IsSchema := by
  rw [parseSchemas.eq_def] at h
  split at h
  · obtain ⟨entries, he, h⟩ := bind_eq_ok h
    cases h
    intro s hs
    obtain ⟨entry, hmem, rfl⟩ := List.mem_filterMap.1 hs
    obtain ⟨f, -, hf⟩ := exists_of_mapM he hmem
    exact parseSchema_stated hf
  · cases h

theorem parseTables_stated {j : Json} {tables : List PolicyTable} (hn : j.NoTwins)
    (h : parseTables j.lower = .ok tables) : ∀ table ∈ tables, table.Stated := by
  rw [parseTables.eq_def] at h
  split at h
  next fields heq =>
    intro table hmem
    obtain ⟨f, hf, hparse⟩ := exists_of_mapM h hmem
    cases j with
    | object fs =>
      cases heq
      rw [Json.lowerFields_eq] at hf
      obtain ⟨g, hg, rfl⟩ := List.mem_map.1 hf
      exact parseTable_stated ((Json.noTwins_object.1 hn).2 g hg) hparse
    | number n =>
      rw [Json.lower] at heq
      cases hs : n.sint <;> rw [hs] at heq <;> cases heq
    | _ => cases heq
  next => cases h

/-- **An accepted document states its policy in full.** -/
theorem parsePolicyJson_stated {document : Json} {config : PolicyConfig}
    (h : parsePolicyJson document = .ok config) : config.Stated := by
  rw [parsePolicyJson.eq_def] at h
  split at h
  next members =>
    obtain ⟨fields, hfields, h⟩ := bind_eq_ok h
    obtain ⟨_, -, h⟩ := bind_eq_ok h
    obtain ⟨_, -, h⟩ := bind_eq_ok h
    obtain ⟨_, -, h⟩ := bind_eq_ok h
    obtain ⟨createSchemas, hc, h⟩ := bind_eq_ok h
    obtain ⟨tables, ht, h⟩ := bind_eq_ok h
    obtain ⟨functions, hf, h⟩ := bind_eq_ok h
    cases h
    have lowered : fromJson "" (.object members) = .ok (.object fields) := by
      rw [fromJson]
      exact bind_eq_ok_iff.2 ⟨fields, hfields, rfl⟩
    obtain ⟨⟨-, hn⟩, hl⟩ := fromJson_eq_ok.1 lowered
    cases hl
    have stated : (∀ n ∈ functions.add, NonBlank n) ∧ (∀ n ∈ functions.remove, NonBlank n) ∧
        (functions.builtins = false → functions.remove = []) := by
      rcases optional_eq_ok hf with ⟨-, rfl⟩ | ⟨_, -, hf⟩
      · exact ⟨by simp, by simp, fun _ => rfl⟩
      · exact parseFunctions_stated hf
    refine ⟨?_, ?_, stated.1, stated.2.1, stated.2.2⟩
    · rcases optional_eq_ok hc with ⟨-, rfl⟩ | ⟨_, -, hc⟩
      · simp
      · exact parseSchemas_stated hc
    · rcases optional_eq_ok ht with ⟨-, rfl⟩ | ⟨value, hv, ht⟩
      · simp
      · rcases field_lowerFields (Json.noTwins_object.1 hn).1 "tables" with
          ⟨hnone, -⟩ | ⟨f, hm, -, hsome, -⟩
        · rw [hnone] at hv
          cases hv
        · rw [hsome] at hv
          cases hv
          exact parseTables_stated ((Json.noTwins_object.1 hn).2 f hm) ht
  next => cases h

end VirtualCatalog
