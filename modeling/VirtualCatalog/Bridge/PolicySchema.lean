import VirtualCatalog.Bridge.PolicyFormat
import VirtualCatalog.Json.Schema

/-!
# The published schema of a policy document

`docs/policy-v1.schema.json` describes the format for editors; the parser decides it.  Both are the
format of `PolicyFormat` with their own leeway, so what tells them apart is what the leeways do: what
counts as a blank beyond ASCII, a version written with a fraction, a blank `$schema`.

* `policySchema`, `policySchema_valid` : the schema, and the format it describes.
* `BlankText`, `Trouble` : what only the schema lets pass.
* `OddFlag` : what only the parser lets pass.
* `parser_agrees_iff` : exactly when the two agree about a document.
-/

namespace VirtualCatalog

/-! ### The schema -/

/-- The characters of `\s` in a regular expression of a schema. -/
def ecmaSpaces : List Char :=
  ['\t', '\n', '\x0b', '\x0c', '\r', ' ', '\u00a0', '\u1680', '\u2000', '\u2001', '\u2002', '\u2003',
    '\u2004', '\u2005', '\u2006', '\u2007', '\u2008', '\u2009', '\u200a', '\u2028', '\u2029',
    '\u202f', '\u205f', '\u3000', '\ufeff']

/-- `\s`. -/
def ecmaSpace (c : Char) : Bool := ecmaSpaces.contains c

/-- A letter in either case, such as `[Tt]`. -/
def letter (upper lower c : Char) : Bool := c == upper || c == lower

/-- `^\s*[Tt][Rr][Uu][Ee]\s*$`. -/
def truePattern : Pattern where
  items := [.many ecmaSpace, .one (letter 'T' 't'), .one (letter 'R' 'r'), .one (letter 'U' 'u'),
    .one (letter 'E' 'e'), .many ecmaSpace]
  atStart := true
  atEnd := true

/-- `$defs/text`; its pattern is `\S`. -/
def textSchema : Schema := .all [.type .string, .pattern ⟨[.one fun c => !ecmaSpace c], false, false⟩]

/-- `$defs/names`. -/
def namesSchema : Schema := .all [.type .array, .items textSchema]

/-- `$defs/predicate`. -/
def predicateSchema : Schema := .oneOf [.const (.bool true), textSchema]

/-- `$defs/grant`. -/
def grantSchema : Schema := .oneOf [.const (.bool false), predicateSchema]

/-- `$defs/flag`. -/
def flagSchema : Schema := .oneOf [.type .boolean, .all [.type .string, .pattern truePattern]]

/-- `$defs/columns`. -/
def columnsSchema : Schema := .all [.type .array, .minItems 1, .items textSchema]

/-- `insert` of a table. -/
def insertSchema : Schema :=
  .oneOf [grantSchema,
    .all [.type .object, .required ["check"], .closed [("check", predicateSchema)]]]

/-- `update` of a table. -/
def updateSchema : Schema :=
  .oneOf [grantSchema,
    .all [.type .object, .closed [("using", predicateSchema), ("check", predicateSchema)]]]

/-- `primary_key` of a table. -/
def keySchema : Schema :=
  .oneOf [columnsSchema,
    .all [.type .object, .oneOf [.required ["columns"], .required ["columns_from_query"]],
      .closed [("columns", columnsSchema), ("columns_from_query", textSchema),
        ("verify_unique", textSchema)]]]

/-- An alternative of `$defs/table`: the verb is there and not false. -/
def grantsSchema (verb : String) : Schema :=
  .all [.required [verb], .properties [(verb, .not (.const (.bool false)))]]

/-- `$defs/table`. -/
def tableSchema : Schema :=
  .all [.type .object,
    .anyOf (["select", "insert", "update", "delete", "alter", "drop"].map grantsSchema),
    .closed [("select", grantSchema), ("insert", insertSchema), ("update", updateSchema),
      ("delete", grantSchema), ("alter", grantSchema), ("drop", flagSchema),
      ("primary_key", keySchema), ("foreign_keys", namesSchema)]]

/-- An entry of `schemas`. -/
def schemaEntrySchema : Schema := .all [.type .object, .closed [("create", flagSchema)]]

/-- `functions`. -/
def functionsSchema : Schema :=
  .oneOf [namesSchema, .all [.type .object, .closed [("add", namesSchema), ("remove", namesSchema)]]]

/-- `docs/policy-v1.schema.json`. -/
def policySchema : Schema :=
  .all [.type .object, .required ["policy_version"],
    .closed [("$schema", .all [.type .string, .minLength 1]),
      ("policy_version", .const (.integer 1)),
      ("schemas", .all [.type .object, .additional schemaEntrySchema]),
      ("tables", .all [.type .object, .additional tableSchema]),
      ("functions", functionsSchema)]]

/-- The leeway of the schema. -/
def schemaLeeway : Leeway where
  textBlank := ecmaSpace
  flagFront := ecmaSpace
  flagBack := ecmaSpace
  version := JsonNumber.Is 1
  location s := s ≠ ""

/-! ### The format it describes -/

variable {j : Json}

theorem textSchema_valid : textSchema.valid j = true ↔ IsText ecmaSpace j := by
  simp only [textSchema, Schema.valid_all, List.forall_mem_cons, List.not_mem_nil, false_imp_iff,
    implies_true, and_true, Schema.valid_type_string]
  constructor
  · rintro ⟨⟨s, rfl⟩, h⟩
    obtain ⟨c, hc, hp⟩ := Pattern.search_one.1 (by simpa [Schema.valid] using h)
    exact ⟨s, rfl, c, hc, by simpa using hp⟩
  · rintro ⟨s, rfl, c, hc, hp⟩
    exact ⟨⟨s, rfl⟩, by
      rw [Schema.valid]
      exact Pattern.search_one.2 ⟨c, hc, by simp [hp]⟩⟩

theorem namesSchema_valid : namesSchema.valid j = true ↔ IsTexts ecmaSpace j := by
  simp only [namesSchema, Schema.valid_all, List.forall_mem_cons, List.not_mem_nil, false_imp_iff,
    implies_true, and_true, Schema.valid_type_array]
  constructor
  · rintro ⟨⟨items, rfl⟩, h⟩
    exact ⟨items, rfl, fun x hx => textSchema_valid.1 (Schema.valid_items.1 h x hx)⟩
  · rintro ⟨items, rfl, h⟩
    exact ⟨⟨items, rfl⟩, Schema.valid_items.2 fun x hx => textSchema_valid.2 (h x hx)⟩

theorem columnsSchema_valid : columnsSchema.valid j = true ↔ IsColumns ecmaSpace j := by
  simp only [columnsSchema, Schema.valid_all, List.forall_mem_cons, List.not_mem_nil, false_imp_iff,
    implies_true, and_true, Schema.valid_type_array]
  have pos : ∀ items : List Json, (Schema.minItems 1).valid (.array items) = true ↔ items ≠ [] := by
    intro items
    cases items <;> simp [Schema.valid]
  constructor
  · rintro ⟨⟨items, rfl⟩, hm, h⟩
    exact ⟨items, rfl, (pos items).1 hm, fun x hx => textSchema_valid.1 (Schema.valid_items.1 h x hx)⟩
  · rintro ⟨items, rfl, hm, h⟩
    exact ⟨⟨items, rfl⟩, (pos items).2 hm, Schema.valid_items.2 fun x hx =>
      textSchema_valid.2 (h x hx)⟩

theorem predicateSchema_valid : predicateSchema.valid j = true ↔ IsPredicate ecmaSpace j := by
  rw [predicateSchema, Schema.valid_oneOf, Schema.valid_const_bool, textSchema_valid, IsPredicate]
  rw [Schema.valid_const_bool, ← Bool.not_eq_true, textSchema_valid]
  rintro rfl ⟨s, h, -⟩
  cases h

theorem grantSchema_valid : grantSchema.valid j = true ↔ IsGrant ecmaSpace j := by
  rw [grantSchema, Schema.valid_oneOf, Schema.valid_const_bool, predicateSchema_valid, IsGrant]
  rw [Schema.valid_const_bool, ← Bool.not_eq_true, predicateSchema_valid]
  rintro rfl (h | ⟨s, h, -⟩) <;> cases h

/-! ### Flags -/

theorem toLower_eq_iff {c upper lower : Char} (h : lower.val = upper.val + 32)
    (hu : upper.toLower = lower) (hl : lower.toLower = lower) :
    c.toLower = lower ↔ letter upper lower c = true := by
  rw [letter, Bool.or_eq_true, beq_iff_eq, beq_iff_eq]
  constructor
  · intro hc
    unfold Char.toLower at hc
    split at hc
    · exact .inl (Char.ext ((UInt32.add_left_inj 32).1 ((congrArg Char.val hc).trans h)))
    · exact .inr hc
  · rintro (rfl | rfl)
    · exact hu
    · exact hl

/-- What `[Tt][Rr][Uu][Ee]` matches. -/
theorem letters_iff {text : List Char} :
    text.map Char.toLower = "true".toList ↔ ∃ t r u e, text = [t, r, u, e] ∧
      letter 'T' 't' t = true ∧ letter 'R' 'r' r = true ∧ letter 'U' 'u' u = true ∧
      letter 'E' 'e' e = true := by
  have ht : ∀ c, letter 'T' 't' c = true ↔ c.toLower = 't' :=
    fun _ => (toLower_eq_iff (by decide) (by decide) (by decide)).symm
  have hr : ∀ c, letter 'R' 'r' c = true ↔ c.toLower = 'r' :=
    fun _ => (toLower_eq_iff (by decide) (by decide) (by decide)).symm
  have hu : ∀ c, letter 'U' 'u' c = true ↔ c.toLower = 'u' :=
    fun _ => (toLower_eq_iff (by decide) (by decide) (by decide)).symm
  have he : ∀ c, letter 'E' 'e' c = true ↔ c.toLower = 'e' :=
    fun _ => (toLower_eq_iff (by decide) (by decide) (by decide)).symm
  have chars : "true".toList = ['t', 'r', 'u', 'e'] := by decide
  simp only [ht, hr, hu, he, chars]
  constructor
  · intro h
    obtain ⟨t, l, rfl, ht, h⟩ := List.map_eq_cons_iff.1 h
    obtain ⟨r, l, rfl, hr, h⟩ := List.map_eq_cons_iff.1 h
    obtain ⟨u, l, rfl, hu, h⟩ := List.map_eq_cons_iff.1 h
    obtain ⟨e, l, rfl, he, h⟩ := List.map_eq_cons_iff.1 h
    rw [List.map_eq_nil_iff.1 h]
    exact ⟨t, r, u, e, rfl, ht, hr, hu, he⟩
  · rintro ⟨t, r, u, e, rfl, ht, hr, hu, he⟩
    simp [ht, hr, hu, he]

theorem truePattern_search {s : String} :
    truePattern.search s = true ↔
      ∃ front text rest, s.toList = front ++ text ++ rest ∧ (∀ c ∈ front, ecmaSpace c = true) ∧
        (∀ c ∈ rest, ecmaSpace c = true) ∧ text.map Char.toLower = "true".toList := by
  simp only [Pattern.search, truePattern, if_true, Pattern.matchHere_many, Pattern.matchHere_one,
    letters_iff]
  have last : ∀ cs : List Char, (Pattern.matchHere true [] cs = true) ↔ cs = [] := by
    intro cs
    simp [Pattern.matchHere]
  simp only [last]
  constructor
  · rintro ⟨front, _, hs, hf, t, _, rfl, ht, r, _, rfl, hr, u, _, rfl, hu, e, _, rfl, he, rest, _,
      rfl, hrest, rfl⟩
    exact ⟨front, [t, r, u, e], rest, by simpa using hs, hf, hrest, t, r, u, e, rfl, ht, hr, hu, he⟩
  · rintro ⟨front, _, rest, hs, hf, hrest, t, r, u, e, rfl, ht, hr, hu, he⟩
    exact ⟨front, t :: r :: u :: e :: rest, by simpa using hs, hf, t, _, rfl, ht, r, _, rfl, hr, u,
      _, rfl, hu, e, _, rfl, he, rest, [], (List.append_nil rest).symm, hrest, rfl⟩

/-- A text is `true` between blanks if it trims to it; no letter of it is a blank. -/
theorem trimChars_true {p q : Char → Bool} {s : List Char}
    (hp : (['T', 't', 'R', 'r', 'U', 'u', 'E', 'e'].all fun c => !p c && !q c) = true) :
    (trimChars p q s).map Char.toLower = "true".toList ↔
      ∃ front text rest, s = front ++ text ++ rest ∧ (∀ c ∈ front, p c = true) ∧
        (∀ c ∈ rest, q c = true) ∧ text.map Char.toLower = "true".toList := by
  constructor
  · intro h
    obtain ⟨front, rest, hs, hf, hr⟩ := exists_trimChars p q s
    exact ⟨front, _, rest, hs, hf, hr, h⟩
  · rintro ⟨front, text, rest, rfl, hf, hr, h⟩
    rw [trimChars_of_append hf hr, h]
    obtain ⟨t, r, u, e, rfl, ht, hrr, hu, he⟩ := letters_iff.1 h
    simp only [letter, Bool.or_eq_true, beq_iff_eq] at ht hrr hu he
    intro c hc
    have hp' := List.all_eq_true.1 hp c
    rw [Bool.and_eq_true, Bool.not_eq_true', Bool.not_eq_true'] at hp'
    refine hp' ?_
    simp only [List.mem_cons, List.not_mem_nil, or_false] at hc ⊢
    grind

theorem flagSchema_valid : flagSchema.valid j = true ↔ IsFlag ecmaSpace ecmaSpace j := by
  have text : ∀ s : String, (Schema.pattern truePattern).valid (.string s) = true ↔
      (trimChars ecmaSpace ecmaSpace s.toList).map Char.toLower = "true".toList := by
    intro s
    rw [Schema.valid, truePattern_search, trimChars_true (by decide)]
  have either : ∀ t : Schema, (Schema.type .boolean).valid j = true →
      (Schema.all [.type .string, t]).valid j = false := by
    intro t h
    obtain ⟨b, rfl⟩ := Schema.valid_type_boolean.1 h
    rfl
  rw [flagSchema, Schema.valid_oneOf (either _), Schema.valid_type_boolean, IsFlag]
  refine or_congr Iff.rfl ?_
  simp only [Schema.valid_all, List.forall_mem_cons, List.not_mem_nil, false_imp_iff,
    implies_true, and_true, Schema.valid_type_string]
  constructor
  · rintro ⟨⟨s, rfl⟩, h⟩
    exact ⟨s, rfl, (text s).1 h⟩
  · rintro ⟨s, rfl, h⟩
    exact ⟨⟨s, rfl⟩, (text s).2 h⟩

/-! ### Objects -/

/-- An object with a closed set of keys. -/
theorem valid_object {known : List (String × Schema)} (hn : (known.map Prod.fst).Nodup) :
    (Schema.all [.type .object, .closed known]).valid j = true ↔
      ∃ fs, j = .object fs ∧ ∀ f ∈ fs, ∃ s, (f.1, s) ∈ known ∧ s.valid f.2 = true := by
  rw [Schema.valid_all, List.forall_mem_cons, List.forall_mem_singleton, Schema.valid_type_object]
  constructor
  · rintro ⟨⟨fs, rfl⟩, h⟩
    exact ⟨fs, rfl, (Schema.valid_closed hn).1 h⟩
  · rintro ⟨fs, rfl, h⟩
    exact ⟨⟨fs, rfl⟩, (Schema.valid_closed hn).2 h⟩

/-- An object with a closed set of keys and one more keyword. -/
theorem valid_object_with {keyword : Schema} {known : List (String × Schema)}
    (hn : (known.map Prod.fst).Nodup) :
    (Schema.all [.type .object, keyword, .closed known]).valid j = true ↔
      ∃ fs, j = .object fs ∧ (∀ f ∈ fs, ∃ s, (f.1, s) ∈ known ∧ s.valid f.2 = true) ∧
        keyword.valid (.object fs) = true := by
  rw [Schema.valid_all, List.forall_mem_cons, List.forall_mem_cons, List.forall_mem_singleton,
    Schema.valid_type_object]
  constructor
  · rintro ⟨⟨fs, rfl⟩, hk, h⟩
    exact ⟨fs, rfl, (Schema.valid_closed hn).1 h, hk⟩
  · rintro ⟨fs, rfl, h, hk⟩
    exact ⟨⟨fs, rfl⟩, hk, (Schema.valid_closed hn).2 h⟩

/-- An alternative for objects excludes one that no object satisfies. -/
theorem valid_object_eq_false {keywords : List Schema} {P : Json → Prop} (h : P j)
    (hP : ∀ fs, ¬ P (.object fs)) : (Schema.all (.type .object :: keywords)).valid j = false := by
  rw [← Bool.not_eq_true, Schema.valid_all, List.forall_mem_cons, Schema.valid_type_object]
  rintro ⟨⟨fs, rfl⟩, -⟩
  exact hP fs h

theorem not_isTexts_object {blank : Char → Bool} {fs : List (String × Json)} :
    ¬ IsTexts blank (.object fs) := by
  rintro ⟨items, h, -⟩
  cases h

theorem not_isColumns_object {blank : Char → Bool} {fs : List (String × Json)} :
    ¬ IsColumns blank (.object fs) := by
  rintro ⟨items, h, -⟩
  cases h

theorem insertSchema_valid : insertSchema.valid j = true ↔ IsInsert ecmaSpace j := by
  rw [insertSchema, Schema.valid_oneOf fun h =>
    valid_object_eq_false (grantSchema_valid.1 h) fun _ => not_isGrant_object,
    grantSchema_valid, valid_object_with (by decide), IsInsert]
  simp only [List.mem_singleton, Prod.mk.injEq, and_assoc, exists_and_left, exists_eq_left,
    predicateSchema_valid]
  refine or_congr Iff.rfl (exists_congr fun fs => and_congr_right fun _ => and_congr_right fun _ => ?_)
  rw [Schema.valid_required, List.forall_mem_singleton]

theorem updateSchema_valid : updateSchema.valid j = true ↔ IsUpdate ecmaSpace j := by
  rw [updateSchema, Schema.valid_oneOf fun h =>
    valid_object_eq_false (grantSchema_valid.1 h) fun _ => not_isGrant_object,
    grantSchema_valid, valid_object (by decide), IsUpdate]
  simp only [List.mem_cons, List.not_mem_nil, or_false, Prod.mk.injEq, or_and_right, exists_or,
    and_assoc, exists_and_left, exists_eq_left, predicateSchema_valid]

theorem keySchema_valid : keySchema.valid j = true ↔ IsKey ecmaSpace j := by
  rw [keySchema, Schema.valid_oneOf fun h =>
    valid_object_eq_false (columnsSchema_valid.1 h) fun _ => not_isColumns_object,
    columnsSchema_valid, valid_object_with (by decide), IsKey]
  simp only [List.mem_cons, List.not_mem_nil, or_false, Prod.mk.injEq, or_and_right, exists_or,
    and_assoc, exists_and_left, exists_eq_left, columnsSchema_valid, textSchema_valid]
  refine or_congr Iff.rfl (exists_congr fun fs => and_congr_right fun _ => and_congr_right fun _ => ?_)
  have key : ∀ k, (Schema.required [k]).valid (.object fs) = true ↔ ∃ f ∈ fs, f.1 = k := by
    intro k
    rw [Schema.valid_required, List.forall_mem_singleton]
  rw [Schema.valid, beq_iff_eq]
  simp only [Schema.countValid, ← key]
  cases (Schema.required ["columns"]).valid (.object fs) <;>
    cases (Schema.required ["columns_from_query"]).valid (.object fs) <;> simp

theorem functionsSchema_valid : functionsSchema.valid j = true ↔ IsFunctions ecmaSpace j := by
  rw [functionsSchema, Schema.valid_oneOf fun h =>
    valid_object_eq_false (namesSchema_valid.1 h) fun _ => not_isTexts_object,
    namesSchema_valid, valid_object (by decide), IsFunctions]
  simp only [List.mem_cons, List.not_mem_nil, or_false, Prod.mk.injEq, or_and_right, exists_or,
    and_assoc, exists_and_left, exists_eq_left, namesSchema_valid]

theorem schemaEntrySchema_valid :
    schemaEntrySchema.valid j = true ↔ schemaLeeway.IsSchema j := by
  rw [schemaEntrySchema, valid_object (by decide), Leeway.IsSchema]
  simp only [List.mem_singleton, Prod.mk.injEq, and_assoc, exists_and_left, exists_eq_left,
    flagSchema_valid]
  rfl

/-- A setting of a table under its key. -/
theorem setting_valid {f : String × Json} :
    (∃ s, (f.1, s) ∈ [("select", grantSchema), ("insert", insertSchema), ("update", updateSchema),
      ("delete", grantSchema), ("alter", grantSchema), ("drop", flagSchema),
      ("primary_key", keySchema), ("foreign_keys", namesSchema)] ∧ s.valid f.2 = true) ↔
      schemaLeeway.IsSetting f := by
  simp only [List.mem_cons, List.not_mem_nil, or_false, Prod.mk.injEq, or_and_right, exists_or,
    and_assoc, exists_and_left, exists_eq_left, grantSchema_valid, insertSchema_valid,
    updateSchema_valid, flagSchema_valid, keySchema_valid, namesSchema_valid]
  constructor
  · rintro (h | h | h | h | h | h | h | h)
    · exact .inl ⟨.select, by decide, h⟩
    · exact .inl ⟨.insert, by decide, h⟩
    · exact .inl ⟨.update, by decide, h⟩
    · exact .inl ⟨.delete, by decide, h⟩
    · exact .inl ⟨.alter, by decide, h⟩
    · exact .inl ⟨.drop, by decide, h⟩
    · exact .inr (.inl h)
    · exact .inr (.inr h)
  · rintro (⟨verb, hne, h⟩ | h | h)
    · cases verb with
      | select => exact .inl h
      | insert => exact .inr (.inl h)
      | update => exact .inr (.inr (.inl h))
      | delete => exact .inr (.inr (.inr (.inl h)))
      | alter => exact .inr (.inr (.inr (.inr (.inl h))))
      | drop => exact .inr (.inr (.inr (.inr (.inr (.inl h)))))
      | create => exact absurd rfl hne
    · exact .inr (.inr (.inr (.inr (.inr (.inr (.inl h))))))
    · exact .inr (.inr (.inr (.inr (.inr (.inr (.inr h))))))

theorem grantsSchema_valid {verb : String} {fs : List (String × Json)} :
    (grantsSchema verb).valid (.object fs) = true ↔
      (∃ f ∈ fs, f.1 = verb) ∧ ∀ f ∈ fs, f.1 = verb → f.2 ≠ .bool false := by
  rw [grantsSchema, Schema.valid_all, List.forall_mem_cons, List.forall_mem_singleton,
    Schema.valid_required, List.forall_mem_singleton, Schema.valid_property]
  refine and_congr_right fun _ => forall₂_congr fun f _ => imp_congr_right fun _ => ?_
  rw [Schema.valid, Bool.not_eq_true', ← Bool.not_eq_true, Schema.valid_const_bool]

theorem tableSchema_valid : tableSchema.valid j = true ↔ schemaLeeway.IsTable j := by
  rw [tableSchema, valid_object_with (by decide), Leeway.IsTable]
  refine exists_congr fun fs => and_congr_right fun _ => and_congr ?_ ?_
  · exact forall₂_congr fun f _ => setting_valid
  · rw [Schema.valid_anyOf]
    simp only [List.mem_map, exists_exists_and_eq_and, grantsSchema_valid]
    constructor
    · rintro ⟨verb, hverb, h⟩
      simp only [List.mem_cons, List.not_mem_nil, or_false] at hverb
      rcases hverb with rfl | rfl | rfl | rfl | rfl | rfl
      · exact ⟨.select, by decide, h⟩
      · exact ⟨.insert, by decide, h⟩
      · exact ⟨.update, by decide, h⟩
      · exact ⟨.delete, by decide, h⟩
      · exact ⟨.alter, by decide, h⟩
      · exact ⟨.drop, by decide, h⟩
    · rintro ⟨verb, hne, h⟩
      refine ⟨verb.name, ?_, h⟩
      cases verb <;> first | exact absurd rfl hne | decide

/-- An object whose values all satisfy a schema. -/
theorem valid_map {schema : Schema} :
    (Schema.all [.type .object, .additional schema]).valid j = true ↔
      ∃ fs, j = .object fs ∧ ∀ g ∈ fs, schema.valid g.2 = true := by
  rw [Schema.valid_all, List.forall_mem_cons, List.forall_mem_singleton, Schema.valid_type_object]
  constructor
  · rintro ⟨⟨fs, rfl⟩, h⟩
    exact ⟨fs, rfl, Schema.valid_additional.1 h⟩
  · rintro ⟨fs, rfl, h⟩
    exact ⟨⟨fs, rfl⟩, Schema.valid_additional.2 h⟩

theorem location_valid :
    (Schema.all [.type .string, .minLength 1]).valid j = true ↔ ∃ s, j = .string s ∧ s ≠ "" := by
  rw [Schema.valid_all, List.forall_mem_cons, List.forall_mem_singleton, Schema.valid_type_string]
  have length : ∀ s : String, (Schema.minLength 1).valid (.string s) = true ↔ s ≠ "" := by
    intro s
    rw [Schema.valid, decide_eq_true_iff, Nat.one_le_iff_ne_zero, ne_eq, String.length_eq_zero_iff]
  constructor
  · rintro ⟨⟨s, rfl⟩, h⟩
    exact ⟨s, rfl, (length s).1 h⟩
  · rintro ⟨s, rfl, h⟩
    exact ⟨⟨s, rfl⟩, (length s).2 h⟩

/-- **The schema describes the format under its own leeway.** -/
theorem policySchema_valid {document : Json} :
    policySchema.valid document = true ↔ schemaLeeway.Format document := by
  rw [policySchema, valid_object_with (by decide), Leeway.Format]
  refine exists_congr fun fs => and_congr_right fun _ => and_congr ?_ ?_
  · refine forall₂_congr fun f _ => ?_
    simp only [List.mem_cons, List.not_mem_nil, or_false, Prod.mk.injEq, or_and_right, exists_or,
      and_assoc, exists_and_left, exists_eq_left, location_valid, Schema.valid_const_integer,
      valid_map, schemaEntrySchema_valid, tableSchema_valid, functionsSchema_valid]
    rfl
  · rw [Schema.valid_required, List.forall_mem_singleton]

/-! ### Where the two part -/

/-- What both ask of a document. -/
def sharedLeeway : Leeway where
  textBlank := ecmaSpace
  flagFront := ecmaSpace
  flagBack := rTrims
  version := JsonNumber.Is 1
  location s := s ≠ ""

/-- What both ask of it, and that the parser finds something in its texts. -/
def inkedLeeway : Leeway := { sharedLeeway with textBlank := rTrims }

/-- Every text of the value has a character that the parser does not take for a blank. -/
def Inked (j : Json) : Prop := ∀ s ∈ j.texts, NonBlank s

theorem ecmaSpace_of_characterIsSpace {c : Char} (h : characterIsSpace c = true) :
    ecmaSpace c = true := by
  simp only [characterIsSpace, Bool.or_eq_true, beq_iff_eq] at h
  rcases h with ((((rfl | rfl) | rfl) | rfl) | rfl) | rfl <;> decide

theorem rTrims_of_ecmaSpace {c : Char} (h : ecmaSpace c = true) : rTrims c = true := by
  have all : (ecmaSpaces.all rTrims) = true := by decide
  exact List.all_eq_true.1 all c (List.contains_iff_mem.1 h)

theorem ecmaSpace_eq_false {c : Char} (h : rTrims c = false) : ecmaSpace c = false := by
  rw [← Bool.not_eq_true] at h ⊢
  exact fun hc => h (rTrims_of_ecmaSpace hc)

theorem inked_array {items : List Json} : Inked (.array items) ↔ ∀ x ∈ items, Inked x := by
  simp only [Inked, Json.mem_texts_array]
  exact ⟨fun h x hx s hs => h s ⟨x, hx, hs⟩, fun h s ⟨x, hx, hs⟩ => h x hx s hs⟩

theorem inked_object {fs : List (String × Json)} : Inked (.object fs) ↔ ∀ f ∈ fs, Inked f.2 := by
  simp only [Inked, Json.mem_texts_object]
  exact ⟨fun h f hf s hs => h s ⟨f, hf, hs⟩, fun h s ⟨f, hf, hs⟩ => h f hf s hs⟩

theorem inked_bool (b : Bool) : Inked (.bool b) := by simp [Inked]

theorem isText_inked : IsText rTrims j ↔ IsText ecmaSpace j ∧ Inked j := by
  constructor
  · rintro ⟨s, rfl, c, hc, hs⟩
    exact ⟨⟨s, rfl, c, hc, ecmaSpace_eq_false hs⟩, by simpa [Inked] using ⟨c, hc, hs⟩⟩
  · rintro ⟨⟨s, rfl, -⟩, h⟩
    exact ⟨s, rfl, h s (by simp)⟩

theorem isTexts_inked : IsTexts rTrims j ↔ IsTexts ecmaSpace j ∧ Inked j := by
  constructor
  · rintro ⟨items, rfl, h⟩
    exact ⟨⟨items, rfl, fun x hx => (isText_inked.1 (h x hx)).1⟩,
      inked_array.2 fun x hx => (isText_inked.1 (h x hx)).2⟩
  · rintro ⟨⟨items, rfl, h⟩, hi⟩
    exact ⟨items, rfl, fun x hx => isText_inked.2 ⟨h x hx, inked_array.1 hi x hx⟩⟩

theorem isColumns_inked : IsColumns rTrims j ↔ IsColumns ecmaSpace j ∧ Inked j := by
  constructor
  · rintro ⟨items, rfl, hne, h⟩
    exact ⟨⟨items, rfl, hne, fun x hx => (isText_inked.1 (h x hx)).1⟩,
      inked_array.2 fun x hx => (isText_inked.1 (h x hx)).2⟩
  · rintro ⟨⟨items, rfl, hne, h⟩, hi⟩
    exact ⟨items, rfl, hne, fun x hx => isText_inked.2 ⟨h x hx, inked_array.1 hi x hx⟩⟩

theorem isPredicate_inked :
    IsPredicate rTrims j ↔ IsPredicate ecmaSpace j ∧ Inked j := by
  rw [IsPredicate, IsPredicate, isText_inked, or_and_right]
  refine or_congr_left (iff_self_and.2 ?_)
  rintro rfl
  exact inked_bool true

theorem isGrant_inked : IsGrant rTrims j ↔ IsGrant ecmaSpace j ∧ Inked j := by
  rw [IsGrant, IsGrant, isPredicate_inked, or_and_right]
  refine or_congr_left (iff_self_and.2 ?_)
  rintro rfl
  exact inked_bool false

/-- An object each of whose members is inked along. -/
theorem object_inked {P Q : String × Json → Prop} (h : ∀ f, P f ↔ Q f ∧ Inked f.2)
    {C : List (String × Json) → Prop} :
    (∃ fs, j = .object fs ∧ (∀ f ∈ fs, P f) ∧ C fs) ↔
      (∃ fs, j = .object fs ∧ (∀ f ∈ fs, Q f) ∧ C fs) ∧ Inked j := by
  constructor
  · rintro ⟨fs, rfl, hp, hc⟩
    exact ⟨⟨fs, rfl, fun f hf => ((h f).1 (hp f hf)).1, hc⟩,
      inked_object.2 fun f hf => ((h f).1 (hp f hf)).2⟩
  · rintro ⟨⟨fs, rfl, hq, hc⟩, hi⟩
    exact ⟨fs, rfl, fun f hf => (h f).2 ⟨hq f hf, inked_object.1 hi f hf⟩, hc⟩

theorem isInsert_inked : IsInsert rTrims j ↔ IsInsert ecmaSpace j ∧ Inked j := by
  rw [IsInsert, IsInsert, isGrant_inked, or_and_right]
  refine or_congr Iff.rfl (object_inked fun f => ?_)
  rw [isPredicate_inked, and_assoc]

theorem isUpdate_inked : IsUpdate rTrims j ↔ IsUpdate ecmaSpace j ∧ Inked j := by
  have object := object_inked (j := j) (C := fun _ => True)
    (P := fun f => (f.1 = "using" ∨ f.1 = "check") ∧ IsPredicate rTrims f.2)
    (Q := fun f => (f.1 = "using" ∨ f.1 = "check") ∧ IsPredicate ecmaSpace f.2)
    fun f => by rw [isPredicate_inked, and_assoc]
  simp only [and_true] at object
  rw [IsUpdate, IsUpdate, isGrant_inked, or_and_right]
  exact or_congr Iff.rfl object

theorem isKey_inked : IsKey rTrims j ↔ IsKey ecmaSpace j ∧ Inked j := by
  rw [IsKey, IsKey, isColumns_inked, or_and_right]
  refine or_congr Iff.rfl (object_inked fun f => ?_)
  rw [isColumns_inked, isText_inked, ← and_assoc, ← and_assoc, ← or_and_right]

theorem isFunctions_inked : IsFunctions rTrims j ↔ IsFunctions ecmaSpace j ∧ Inked j := by
  have object := object_inked (j := j) (C := fun _ => True)
    (P := fun f => (f.1 = "add" ∨ f.1 = "remove") ∧ IsTexts rTrims f.2)
    (Q := fun f => (f.1 = "add" ∨ f.1 = "remove") ∧ IsTexts ecmaSpace f.2)
    fun f => by rw [isTexts_inked, and_assoc]
  simp only [and_true] at object
  rw [IsFunctions, IsFunctions, isTexts_inked, or_and_right]
  exact or_congr Iff.rfl object

/-- A flag that is a text has the word in it. -/
theorem IsFlag.inked (h : IsFlag ecmaSpace rTrims j) : Inked j := by
  rcases h with ⟨b, rfl⟩ | ⟨s, rfl, h⟩
  · exact inked_bool b
  · obtain ⟨front, text, rest, hs, -, -, ht⟩ := (trimChars_true (by decide)).1 h
    obtain ⟨t, r, u, e, rfl, ht, -⟩ := letters_iff.1 ht
    simp only [letter, Bool.or_eq_true, beq_iff_eq] at ht
    refine fun s' hs' => ⟨t, ?_, by rcases ht with rfl | rfl <;> decide⟩
    rw [Json.texts_string, List.mem_singleton] at hs'
    simp [hs', hs]

theorem isVerb_inked {verb : CrossingVerb} :
    inkedLeeway.IsVerb verb j ↔ sharedLeeway.IsVerb verb j ∧ Inked j := by
  cases verb with
  | create | drop => exact iff_self_and.2 IsFlag.inked
  | insert => exact isInsert_inked
  | update => exact isUpdate_inked
  | select | delete | alter => exact isGrant_inked

theorem isSetting_inked {f : String × Json} :
    inkedLeeway.IsSetting f ↔ sharedLeeway.IsSetting f ∧ Inked f.2 := by
  have key : IsKey inkedLeeway.textBlank f.2 ↔ IsKey sharedLeeway.textBlank f.2 ∧ Inked f.2 :=
    isKey_inked
  have texts : IsTexts inkedLeeway.textBlank f.2 ↔
      IsTexts sharedLeeway.textBlank f.2 ∧ Inked f.2 := isTexts_inked
  simp only [Leeway.IsSetting, isVerb_inked, key, texts, or_and_right, ← and_assoc, exists_and_right]

theorem isTable_inked : inkedLeeway.IsTable j ↔ sharedLeeway.IsTable j ∧ Inked j :=
  object_inked fun _ => isSetting_inked

theorem IsSchema.inked (h : inkedLeeway.IsSchema j) : Inked j := by
  obtain ⟨fs, rfl, h⟩ := h
  exact inked_object.2 fun f hf => IsFlag.inked (h f hf).2

theorem isMember_inked {f : String × Json} :
    inkedLeeway.IsMember f ↔ sharedLeeway.IsMember f ∧ (f.1 ≠ "$schema" → Inked f.2) := by
  have tables := object_inked (j := f.2) (C := fun _ => True)
    (P := fun g => inkedLeeway.IsTable g.2) (Q := fun g => sharedLeeway.IsTable g.2)
    fun g => isTable_inked
  simp only [and_true] at tables
  have schemas : (∃ fs, f.2 = .object fs ∧ ∀ g ∈ fs, inkedLeeway.IsSchema g.2) → Inked f.2 := by
    rintro ⟨fs, hj, h⟩
    exact hj ▸ inked_object.2 fun g hg => IsSchema.inked (h g hg)
  have functions : IsFunctions inkedLeeway.textBlank f.2 ↔
      IsFunctions sharedLeeway.textBlank f.2 ∧ Inked f.2 := isFunctions_inked
  rw [Leeway.IsMember, Leeway.IsMember, tables, functions, or_and_right, or_and_right, or_and_right,
    or_and_right]
  refine or_congr ?_ (or_congr ?_ (or_congr ?_ (or_congr ?_ ?_)))
  · exact iff_self_and.2 fun h hk => absurd h.1 hk
  · refine iff_self_and.2 ?_
    rintro ⟨-, n, hn, -⟩ -
    rw [hn]
    simp [Inked, Json.texts]
  · exact iff_self_and.2 fun h _ => schemas h.2
  · refine ⟨fun h => ⟨⟨h.1, h.2.1⟩, fun _ => h.2.2⟩, fun h => ⟨h.1.1, h.1.2, h.2 ?_⟩⟩
    rw [h.1.1]
    decide
  · refine ⟨fun h => ⟨⟨h.1, h.2.1⟩, fun _ => h.2.2⟩, fun h => ⟨h.1.1, h.1.2, h.2 ?_⟩⟩
    rw [h.1.1]
    decide

/-- A text of the document, its `$schema` apart, that only the parser takes for a blank one. -/
def BlankText (document : Json) : Prop :=
  ∃ f ∈ document.fields, f.1 ≠ "$schema" ∧ ¬ Inked f.2

/-- A document whose texts the parser finds something in. -/
theorem inkedFormat_iff {document : Json} :
    inkedLeeway.Format document ↔ sharedLeeway.Format document ∧ ¬ BlankText document := by
  simp only [Leeway.Format, isMember_inked]
  constructor
  · rintro ⟨fs, rfl, h, hv⟩
    refine ⟨⟨fs, rfl, fun f hf => (h f hf).1, hv⟩, ?_⟩
    rintro ⟨f, hf, hk, hi⟩
    exact hi ((h f hf).2 hk)
  · rintro ⟨⟨fs, rfl, h, hv⟩, hb⟩
    exact ⟨fs, rfl, fun f hf => ⟨h f hf, fun hk => by_contra fun hi => hb ⟨f, hf, hk, hi⟩⟩, hv⟩

/-! ### Flags, versions and locations -/

/-- What one leeway asks beyond another, of flags, versions and locations. -/
structure Asks where
  flag : String → Prop := fun _ => True
  version : JsonNumber → Prop := fun _ => True
  location : String → Prop := fun _ => True

namespace Asks

/-- The document does not give what is asked. -/
inductive Fails (A : Asks) (document : Json) : Prop where
  | version {f : String × Json} {n : JsonNumber} (hf : f ∈ document.fields)
      (hk : f.1 = "policy_version") (h : f.2 = .number n) (hn : ¬ A.version n)
  | location {f : String × Json} {s : String} (hf : f ∈ document.fields) (hk : f.1 = "$schema")
      (h : f.2 = .string s) (hs : ¬ A.location s)
  /-- A flag of a table. -/
  | drop {e f : String × Json} {s : String} (he : e ∈ document.entries "tables")
      (hf : f ∈ e.2.fields) (hk : f.1 = "drop") (h : s ∈ f.2.texts) (hs : ¬ A.flag s)
  /-- A flag of a schema. -/
  | create {e f : String × Json} {s : String} (he : e ∈ document.entries "schemas")
      (hf : f ∈ e.2.fields) (hk : f.1 = "create") (h : s ∈ f.2.texts) (hs : ¬ A.flag s)

/-- `R` is `R'`, and asks for `A` besides. -/
structure Narrows (A : Asks) (R R' : Leeway) : Prop where
  textBlank : R.textBlank = R'.textBlank
  flag : ∀ s : String, (trimChars R.flagFront R.flagBack s.toList).map Char.toLower = "true".toList ↔
    (trimChars R'.flagFront R'.flagBack s.toList).map Char.toLower = "true".toList ∧ A.flag s
  version : ∀ n, R.version n ↔ R'.version n ∧ A.version n
  location : ∀ s, R.location s ↔ R'.location s ∧ A.location s

variable {A : Asks} {R R' : Leeway}

theorem Narrows.isFlag (h : A.Narrows R R') :
    IsFlag R.flagFront R.flagBack j ↔
      IsFlag R'.flagFront R'.flagBack j ∧ ∀ s ∈ j.texts, A.flag s := by
  rw [IsFlag, IsFlag, or_and_right]
  refine or_congr (iff_self_and.2 ?_) ⟨?_, ?_⟩
  · rintro ⟨b, rfl⟩
    simp
  · rintro ⟨s, rfl, hs⟩
    obtain ⟨hs, ha⟩ := (h.flag s).1 hs
    exact ⟨⟨s, rfl, hs⟩, by simpa using ha⟩
  · rintro ⟨⟨s, rfl, hs⟩, ha⟩
    exact ⟨s, rfl, (h.flag s).2 ⟨hs, ha s (by simp)⟩⟩

theorem Narrows.isSetting (h : A.Narrows R R') {f : String × Json} :
    R.IsSetting f ↔ R'.IsSetting f ∧ (f.1 = "drop" → ∀ s ∈ f.2.texts, A.flag s) := by
  have verb : ∀ v : CrossingVerb, v ≠ .create → v ≠ .drop → (R.IsVerb v f.2 ↔ R'.IsVerb v f.2) := by
    intro v hc hd
    cases v with
    | create => exact absurd rfl hc
    | drop => exact absurd rfl hd
    | _ => simp only [Leeway.IsVerb, h.textBlank]
  rw [Leeway.IsSetting, Leeway.IsSetting, h.textBlank]
  constructor
  · rintro (⟨v, hne, he, hv⟩ | ⟨hk, hj⟩ | ⟨hk, hj⟩)
    · by_cases hd : v = .drop
      · subst hd
        obtain ⟨hflag, hask⟩ := h.isFlag.1 hv
        exact ⟨.inl ⟨.drop, hne, he, hflag⟩, fun _ => hask⟩
      · refine ⟨.inl ⟨v, hne, he, (verb v hne hd).1 hv⟩, fun hdrop => ?_⟩
        rw [he] at hdrop
        cases v <;> first | exact absurd rfl hd | exact absurd hdrop (by decide)
    · exact ⟨.inr (.inl ⟨hk, hj⟩), fun hd => absurd (hk.symm.trans hd) (by decide)⟩
    · exact ⟨.inr (.inr ⟨hk, hj⟩), fun hd => absurd (hk.symm.trans hd) (by decide)⟩
  · rintro ⟨⟨v, hne, he, hv⟩ | hj | hj, hask⟩
    · by_cases hd : v = .drop
      · subst hd
        exact .inl ⟨.drop, hne, he, h.isFlag.2 ⟨hv, hask he⟩⟩
      · exact .inl ⟨v, hne, he, (verb v hne hd).2 hv⟩
    · exact .inr (.inl hj)
    · exact .inr (.inr hj)

theorem Narrows.isTable (h : A.Narrows R R') :
    R.IsTable j ↔
      R'.IsTable j ∧ ∀ f ∈ j.fields, f.1 = "drop" → ∀ s ∈ f.2.texts, A.flag s := by
  simp only [Leeway.IsTable, h.isSetting]
  constructor
  · rintro ⟨fs, rfl, hs, hv⟩
    exact ⟨⟨fs, rfl, fun f hf => (hs f hf).1, hv⟩, fun f hf => (hs f hf).2⟩
  · rintro ⟨⟨fs, rfl, hs, hv⟩, hd⟩
    exact ⟨fs, rfl, fun f hf => ⟨hs f hf, hd f hf⟩, hv⟩

theorem Narrows.isSchema (h : A.Narrows R R') :
    R.IsSchema j ↔
      R'.IsSchema j ∧ ∀ f ∈ j.fields, f.1 = "create" → ∀ s ∈ f.2.texts, A.flag s := by
  simp only [Leeway.IsSchema, h.isFlag]
  constructor
  · rintro ⟨fs, rfl, hs⟩
    exact ⟨⟨fs, rfl, fun f hf => ⟨(hs f hf).1, (hs f hf).2.1⟩⟩, fun f hf _ => (hs f hf).2.2⟩
  · rintro ⟨⟨fs, rfl, hs⟩, hd⟩
    exact ⟨fs, rfl, fun f hf => ⟨(hs f hf).1, (hs f hf).2, hd f hf (hs f hf).1⟩⟩

/-- What is asked of a member. -/
def Given (A : Asks) (f : String × Json) : Prop :=
  (f.1 = "policy_version" → ∀ n, f.2 = .number n → A.version n) ∧
    (f.1 = "$schema" → ∀ s, f.2 = .string s → A.location s) ∧
    (f.1 = "tables" → ∀ e ∈ f.2.fields, ∀ g ∈ e.2.fields, g.1 = "drop" →
      ∀ s ∈ g.2.texts, A.flag s) ∧
    (f.1 = "schemas" → ∀ e ∈ f.2.fields, ∀ g ∈ e.2.fields, g.1 = "create" →
      ∀ s ∈ g.2.texts, A.flag s)

/-- A condition on every value of an object, with one more on their members. -/
theorem entries_iff {P : Json → Prop} {Q : String × Json → Prop} :
    (∃ fs, j = .object fs ∧ ∀ g ∈ fs, P g.2 ∧ ∀ f ∈ g.2.fields, Q f) ↔
      (∃ fs, j = .object fs ∧ ∀ g ∈ fs, P g.2) ∧ ∀ e ∈ j.fields, ∀ g ∈ e.2.fields, Q g := by
  constructor
  · rintro ⟨fs, rfl, h⟩
    exact ⟨⟨fs, rfl, fun g hg => (h g hg).1⟩, fun e he => (h e he).2⟩
  · rintro ⟨⟨fs, rfl, h⟩, hq⟩
    exact ⟨fs, rfl, fun g hg => ⟨h g hg, hq g hg⟩⟩

theorem Narrows.isMember (h : A.Narrows R R') {f : String × Json} :
    R.IsMember f ↔ R'.IsMember f ∧ A.Given f := by
  obtain ⟨key, j⟩ := f
  have location : (∃ s, j = .string s ∧ R.location s) ↔
      (∃ s, j = .string s ∧ R'.location s) ∧ ∀ s, j = .string s → A.location s := by
    simp only [h.location]
    cases j <;> simp
  have version : (∃ n, j = .number n ∧ R.version n) ↔
      (∃ n, j = .number n ∧ R'.version n) ∧ ∀ n, j = .number n → A.version n := by
    simp only [h.version]
    cases j <;> simp
  simp only [Leeway.IsMember, Given, h.isSchema, h.isTable, h.textBlank]
  by_cases hkey : key ∈ policyKeys
  · simp only [policyKeys, List.mem_cons, List.not_mem_nil, or_false] at hkey
    rcases hkey with rfl | rfl | rfl | rfl | rfl
    · simp only [true_and, String.reduceEq, false_and, or_false, false_imp_iff, true_imp_iff,
        and_true]
      exact location
    · simp only [true_and, String.reduceEq, false_and, or_false, false_or, false_imp_iff,
        true_imp_iff, and_true]
      exact version
    · simp only [true_and, String.reduceEq, false_and, or_false, false_or, false_imp_iff,
        true_imp_iff]
      exact entries_iff
    · simp only [true_and, String.reduceEq, false_and, or_false, false_or, false_imp_iff,
        true_imp_iff, and_true]
      exact entries_iff
    · simp only [true_and, String.reduceEq, false_and, false_or, false_imp_iff, and_true]
  · have hne : ∀ k ∈ policyKeys, key ≠ k := by
      rintro k hk rfl
      exact hkey hk
    simp [hne "$schema" (by decide), hne "policy_version" (by decide), hne "schemas" (by decide),
      hne "tables" (by decide), hne "functions" (by decide)]

theorem not_fails_iff {fs : List (String × Json)} :
    ¬ A.Fails (.object fs) ↔ ∀ f ∈ fs, A.Given f := by
  constructor
  · intro h f hf
    refine ⟨fun hk n hj => ?_, fun hk s hj => ?_, fun hk e he g hg hgk s hs => ?_,
      fun hk e he g hg hgk s hs => ?_⟩
    · exact by_contra fun hn => h (.version hf hk hj hn)
    · exact by_contra fun hs => h (.location hf hk hj hs)
    · exact by_contra fun hf' => h (.drop (Json.mem_entries.2 ⟨f, hf, hk, he⟩) hg hgk hs hf')
    · exact by_contra fun hf' => h (.create (Json.mem_entries.2 ⟨f, hf, hk, he⟩) hg hgk hs hf')
  · rintro h (⟨hf, hk, hj, hn⟩ | ⟨hf, hk, hj, hs⟩ | ⟨he, hg, hk, hs, ht⟩ | ⟨he, hg, hk, hs, ht⟩)
    · exact hn ((h _ hf).1 hk _ hj)
    · exact hs ((h _ hf).2.1 hk _ hj)
    · obtain ⟨f, hf, hfk, he⟩ := Json.mem_entries.1 he
      exact ht ((h f hf).2.2.1 hfk _ he _ hg hk _ hs)
    · obtain ⟨f, hf, hfk, he⟩ := Json.mem_entries.1 he
      exact ht ((h f hf).2.2.2 hfk _ he _ hg hk _ hs)

/-- **A leeway that asks for more takes the documents that give it.** -/
theorem Narrows.format_iff (h : A.Narrows R R') {document : Json} :
    R.Format document ↔ R'.Format document ∧ ¬ A.Fails document := by
  simp only [Leeway.Format, h.isMember]
  constructor
  · rintro ⟨fs, rfl, hm, hv⟩
    exact ⟨⟨fs, rfl, fun f hf => (hm f hf).1, hv⟩, not_fails_iff.2 fun f hf => (hm f hf).2⟩
  · rintro ⟨⟨fs, rfl, hm, hv⟩, ht⟩
    exact ⟨fs, rfl, fun f hf => ⟨hm f hf, not_fails_iff.1 ht f hf⟩, hv⟩

end Asks

/-- What only the parser asks: a flag that it reads as `true`, a version that is an integer literal, and
a `$schema` that is not blank. -/
def parserAsks : Asks where
  flag s := isTrueText s = true
  version n := ∀ mantissa exponent, n ≠ .decimal mantissa exponent
  location := NonBlank

/-- What only the schema asks: a flag that is `true` between characters of `\s`. -/
def schemaAsks : Asks where
  flag s := truePattern.search s = true

/-- What the schema lets pass and the parser does not. -/
def Trouble (document : Json) : Prop := parserAsks.Fails document

/-- A flag that the parser lets pass and the schema does not. -/
def OddFlag (document : Json) : Prop := schemaAsks.Fails document

theorem parserAsks_narrows : parserAsks.Narrows parserLeeway inkedLeeway where
  textBlank := rfl
  flag s := by
    refine ⟨fun h => ⟨?_, isTrueText_iff.2 h⟩, fun h => isTrueText_iff.1 h.2⟩
    obtain ⟨front, text, rest, hs, hf, hr, ht⟩ := (trimChars_true (by decide)).1 h
    exact (trimChars_true (by decide)).2
      ⟨front, text, rest, hs, fun c hc => ecmaSpace_of_characterIsSpace (hf c hc), hr, ht⟩
  version n := by
    constructor
    · rintro rfl
      exact ⟨rfl, by simp [parserAsks]⟩
    · rintro ⟨h, hd⟩
      cases n with
      | integer m => exact congrArg JsonNumber.integer h
      | decimal m e => exact absurd rfl (hd m e)
  location s := by
    refine ⟨fun h => ⟨?_, h⟩, fun h => h.2⟩
    rintro rfl
    obtain ⟨c, hc, -⟩ := h
    simp at hc

theorem schemaAsks_narrows : schemaAsks.Narrows schemaLeeway sharedLeeway where
  textBlank := rfl
  flag s := by
    refine ⟨fun h => ⟨?_, truePattern_search.2 ((trimChars_true (by decide)).1 h)⟩, fun h =>
      (trimChars_true (by decide)).2 (truePattern_search.1 h.2)⟩
    obtain ⟨front, text, rest, hs, hf, hr, ht⟩ := (trimChars_true (by decide)).1 h
    exact (trimChars_true (by decide)).2
      ⟨front, text, rest, hs, hf, fun c hc => rTrims_of_ecmaSpace (hr c hc), ht⟩
  version n := (and_iff_left trivial).symm
  location s := (and_iff_left trivial).symm

/-- A name of the document cannot be read, a foreign key leaves its schema, or two keys of one object
are equal up to case. -/
def Excepted (document : Json) : Prop :=
  (∃ e ∈ document.entries "tables", ¬ TableNames e.1 e.2) ∨
    (∃ e ∈ document.entries "schemas", ¬ ∃ p, parsePolicySchemaName e.1 = .ok p) ∨
    ¬ document.NoTwins

/-- The parser and the schema agree about the document. -/
def ParserAgrees (document : Json) : Prop :=
  ((∃ config, parsePolicyJson document = .ok config) → policySchema.valid document = true) ∧
    (policySchema.valid document = true →
      (∃ config, parsePolicyJson document = .ok config) ∨ Excepted document)

/-- **When the parser and the schema agree**: in a document that both would otherwise take, a flag that
only the parser lets pass comes with something that it refuses, and what only the schema lets pass with
such a flag or an excepted name. -/
theorem parser_agrees_iff {document : Json} :
    ParserAgrees document ↔
      (sharedLeeway.Format document →
        (OddFlag document → BlankText document ∨ Trouble document ∨ ¬ NamesRead document ∨
          ¬ document.NoTwins) ∧
        (BlankText document ∨ Trouble document → OddFlag document ∨ Excepted document)) := by
  have excepted : ¬ NamesRead document → Excepted document := by
    rw [NamesRead, not_and_or]
    push Not
    rintro (⟨e, he, h⟩ | ⟨e, he, -, h⟩)
    · exact .inl ⟨e, he, h⟩
    · exact .inr (.inl ⟨e, he, not_exists.2 h⟩)
  -- each side in terms of the shared format and of what it asks beyond it
  have parser : (∃ config, parsePolicyJson document = .ok config) ↔
      ((sharedLeeway.Format document ∧ ¬ BlankText document) ∧ ¬ Trouble document) ∧
        document.NoTwins ∧ NamesRead document := by
    rw [parsePolicyJson_ok_iff, parserAsks_narrows.format_iff, inkedFormat_iff]
    rfl
  have schema : policySchema.valid document = true ↔
      sharedLeeway.Format document ∧ ¬ OddFlag document := by
    rw [policySchema_valid, schemaAsks_narrows.format_iff]
    rfl
  have twins : ¬ document.NoTwins → Excepted document := fun h => .inr (.inr h)
  rw [ParserAgrees, parser, schema]
  constructor
  · rintro ⟨hps, hsp⟩ hformat
    refine ⟨fun hodd => ?_, fun htrouble => ?_⟩
    · by_contra hnone
      simp only [not_or, not_not] at hnone
      obtain ⟨hb, ht, hr, hn⟩ := hnone
      exact (hps ⟨⟨⟨hformat, hb⟩, ht⟩, hn, hr⟩).2 hodd
    · refine or_iff_not_imp_left.2 fun hodd => (hsp ⟨hformat, hodd⟩).resolve_left ?_
      rintro ⟨⟨⟨-, hb⟩, ht⟩, -⟩
      exact htrouble.elim hb ht
  · intro h
    constructor
    · rintro ⟨⟨⟨hformat, hb⟩, ht⟩, hn, hr⟩
      refine ⟨hformat, fun hodd => ?_⟩
      rcases (h hformat).1 hodd with hb' | ht' | hr' | hn'
      · exact hb hb'
      · exact ht ht'
      · exact hr' hr
      · exact hn' hn
    · rintro ⟨hformat, hodd⟩
      by_cases htrouble : BlankText document ∨ Trouble document
      · exact .inr (((h hformat).2 htrouble).resolve_left hodd)
      · by_cases hn : document.NoTwins
        · by_cases hr : NamesRead document
          · exact .inl ⟨⟨⟨hformat, (not_or.1 htrouble).1⟩, (not_or.1 htrouble).2⟩, hn, hr⟩
          · exact .inr (excepted hr)
        · exact .inr (twins hn)

/-- A document whose version is written `1.0`. -/
def fractionVersion : Json := .object [("policy_version", .number (.decimal 10 (-1)))]

/-- A function list of one name beyond ASCII. -/
def accentFunction : Json :=
  .object [("policy_version", .number (.integer 1)), ("functions", .array [.string "\u00e9"])]

/-- A flag with such a character behind it. -/
def accentFlag : Json :=
  .object [("policy_version", .number (.integer 1)),
    ("tables", .object [("main.t", .object [("drop", .string "true\u00e9")])])]

/-- A document without keys that agree up to case and with no name that can be read, and that only one
of the two takes. -/
theorem not_parserAgrees_of {document : Json} (hv : policySchema.valid document = true)
    (hp : ¬ ∃ config, parsePolicyJson document = .ok config) (hn : document.NoTwins)
    (htables : document.entries "tables" = []) (hschemas : document.entries "schemas" = []) :
    ¬ ParserAgrees document := by
  intro h
  rcases h.2 hv with h | ⟨e, he, -⟩ | ⟨e, he, -⟩ | h
  · exact hp h
  · rw [htables] at he
    cases he
  · rw [hschemas] at he
    cases he
  · exact h hn

/-- The parser refuses version `1.0` and a function beyond ASCII, and takes a flag with such a character
behind it. -/
theorem not_parser_agrees :
    (fractionVersion.NoTwins ∧ ¬ ParserAgrees fractionVersion) ∧
      (accentFunction.NoTwins ∧ ¬ ParserAgrees accentFunction) ∧
      accentFlag.NoTwins ∧ ¬ ParserAgrees accentFlag := by
  have fraction : fractionVersion.NoTwins := by unfold Json.NoTwins; decide
  have function : accentFunction.NoTwins := by unfold Json.NoTwins; decide
  have flag : accentFlag.NoTwins := by unfold Json.NoTwins; decide
  refine ⟨⟨fraction, ?_⟩, ⟨function, ?_⟩, flag, fun h => ?_⟩
  · refine not_parserAgrees_of (by decide) ?_ fraction rfl rfl
    rintro ⟨config, h⟩
    cases h
  · refine not_parserAgrees_of (by decide) ?_ function rfl rfl
    rintro ⟨config, h⟩
    cases h
  · have accepted : ∃ config, parsePolicyJson accentFlag = .ok config := ⟨_, rfl⟩
    exact Bool.false_ne_true ((by decide : policySchema.valid accentFlag = false).symm.trans
      (h.1 accepted))

end VirtualCatalog
