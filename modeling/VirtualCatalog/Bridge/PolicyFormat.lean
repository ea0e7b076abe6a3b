import VirtualCatalog.Bridge.PolicyDocument

/-!
# What the policy parser accepts

The format of a policy document as a relation on JSON values, and the parser as a decision of it.
What counts as a blank, which literals are the version and which texts are a schema location are
parameters (`Leeway`): the parser is the format with one choice of them.

* `Json.Plain`, `Json.lower`, `fromJson_eq_ok` : which documents lower, and to what.
* `Leeway.Format` : the format under a leeway.
* `NamesRead` : the names that the parser reads are names.
* `parsePolicyJson_ok_iff` : the parser accepts exactly the documents of the format under its own
  leeway, with names it can read and no key given twice.
-/

namespace VirtualCatalog

/-! ### Lowering -/

/-- The value has no null, and no number that is not an integer of 64 bits. -/
inductive Json.Plain : Json → Prop where
  | bool (b : Bool) : Plain (.bool b)
  | string (s : String) : Plain (.string s)
  | number {n : JsonNumber} {i : Int} (h : n.sint = some i) : Plain (.number n)
  | array {items : List Json} (h : ∀ j ∈ items, Plain j) : Plain (.array items)
  | object {fields : List (String × Json)} (h : ∀ f ∈ fields, Plain f.2) : Plain (.object fields)

/-- No object of the value has two keys that are equal up to case. -/
def Json.NoTwins (j : Json) : Prop := ∀ keys ∈ j.objectKeys, (keys.map fold).Nodup

mutual

/-- What a value lowers to. -/
def Json.lower : Json → RawValue
  | .null => .nul
  | .bool b => .bool b
  | .number n => (n.sint.map .integer).getD .nul
  | .string s => .string s
  | .array items => .list (lowerItems items)
  | .object fields => .object (lowerFields fields)

/-- What the values of a list lower to. -/
def Json.lowerItems : List Json → List RawValue
  | [] => []
  | j :: js => lower j :: lowerItems js

/-- What the members of an object lower to. -/
def Json.lowerFields : List (String × Json) → List (String × RawValue)
  | [] => []
  | (name, j) :: fs => (name, lower j) :: lowerFields fs

end

namespace Json

theorem lowerFields_eq (fs : List (String × Json)) :
    lowerFields fs = fs.map fun f => (f.1, f.2.lower) := by
  induction fs with
  | nil => rfl
  | cons f fs ih => rw [lowerFields, ih, List.map_cons]

theorem noTwins_array {items : List Json} : (array items).NoTwins ↔ ∀ j ∈ items, j.NoTwins := by
  simp only [NoTwins, mem_objectKeys_array]
  exact ⟨fun h j hj ks hks => h ks ⟨j, hj, hks⟩, fun h ks ⟨j, hj, hks⟩ => h j hj ks hks⟩

theorem noTwins_object {fields : List (String × Json)} :
    (object fields).NoTwins ↔
      (fields.map fun f => fold f.1).Nodup ∧ ∀ f ∈ fields, f.2.NoTwins := by
  simp only [NoTwins, mem_objectKeys_object, forall_eq_or_imp, List.map_map]
  exact and_congr Iff.rfl
    ⟨fun h f hf ks hks => h ks ⟨f, hf, hks⟩, fun h ks ⟨f, hf, hks⟩ => h f hf ks hks⟩

end Json

theorem itemsFromJson_eq_ok {path : String} {items : List Json} {index : Nat} {rs : List RawValue}
    (h : ∀ j ∈ items, ∀ path r, fromJson path j = .ok r ↔ (j.Plain ∧ j.NoTwins) ∧ j.lower = r) :
    itemsFromJson path index items = .ok rs ↔
      (∀ j ∈ items, j.Plain ∧ j.NoTwins) ∧ Json.lowerItems items = rs := by
  induction items generalizing index rs with
  | nil => simp [itemsFromJson, Json.lowerItems, pure, Except.pure]
  | cons j js ih =>
    obtain ⟨hj, hjs⟩ := List.forall_mem_cons.1 h
    rw [itemsFromJson, bind_eq_ok_iff]
    simp only [hj, bind_eq_ok_iff, ih hjs, pure, Except.pure, Except.ok.injEq, Json.lowerItems,
      List.forall_mem_cons]
    grind

theorem fieldsFromJson_eq_ok {path : String} {fields : List (String × Json)} {seen : CISet}
    {rs : List (String × RawValue)}
    (h : ∀ f ∈ fields, ∀ path r,
      fromJson path f.2 = .ok r ↔ (f.2.Plain ∧ f.2.NoTwins) ∧ f.2.lower = r) :
    fieldsFromJson path seen fields = .ok rs ↔
      (∀ f ∈ fields, f.2.Plain ∧ f.2.NoTwins) ∧ Json.lowerFields fields = rs ∧
        (fields.map fun f => fold f.1).Nodup ∧ ∀ f ∈ fields, seen.contains f.1 = false := by
  induction fields generalizing seen rs with
  | nil => simp [fieldsFromJson, Json.lowerFields, pure, Except.pure]
  | cons f fs ih =>
    obtain ⟨name, j⟩ := f
    obtain ⟨hj, hfs⟩ := List.forall_mem_cons.1 h
    have contains : ∀ k, (seen.add name).contains k = false ↔
        fold k ≠ fold name ∧ seen.contains k = false := by
      intro k
      rw [CISet.add, CIMap.contains_insert]
      simp
    rw [fieldsFromJson, bind_eq_ok_iff]
    simp only [throwIf_eq_ok, bind_eq_ok_iff, hj, ih hfs, pure, Except.pure, Except.ok.injEq,
      Json.lowerFields, List.forall_mem_cons, List.map_cons, List.nodup_cons, List.mem_map,
      contains, Bool.not_eq_true]
    constructor
    · rintro ⟨_, hs, r, ⟨hp, rfl⟩, rs', ⟨hall, rfl, hn, hc⟩, rfl⟩
      refine ⟨⟨hp, hall⟩, rfl, ⟨?_, hn⟩, hs, fun g hg => (hc g hg).2⟩
      rintro ⟨g, hg, heq⟩
      exact (hc g hg).1 heq
    · rintro ⟨⟨hp, hall⟩, rfl, ⟨hne, hn⟩, hs, hc⟩
      exact ⟨(), hs, _, ⟨hp, rfl⟩, _,
        ⟨hall, rfl, hn, fun g hg => ⟨fun heq => hne ⟨g, hg, heq⟩, hc g hg⟩⟩, rfl⟩

/-- **A value lowers exactly if it has no null, no fraction and no key given twice.** -/
theorem fromJson_eq_ok {path : String} {j : Json} {r : RawValue} :
    fromJson path j = .ok r ↔ (j.Plain ∧ j.NoTwins) ∧ j.lower = r := by
  induction j using Json.ind generalizing path r with
  | null =>
    rw [fromJson]
    constructor
    · intro h
      cases h
    · rintro ⟨⟨h, -⟩, -⟩
      cases h
  | bool b => simp [fromJson, Json.lower, Json.Plain.bool, Json.NoTwins, Json.objectKeys, pure,
      Except.pure]
  | string s => simp [fromJson, Json.lower, Json.Plain.string, Json.NoTwins, Json.objectKeys, pure,
      Except.pure]
  | number n =>
    rw [fromJson, Json.lower]
    cases hn : n.sint with
    | none =>
      constructor
      · intro h
        cases h
      · rintro ⟨⟨h, -⟩, -⟩
        cases h with
        | number h => rw [hn] at h; cases h
    | some i => simp [Json.Plain.number hn, Json.NoTwins, Json.objectKeys, pure, Except.pure]
  | array items ih =>
    rw [fromJson, bind_eq_ok_iff, Json.noTwins_array, Json.lower]
    simp only [itemsFromJson_eq_ok fun j hj path r => ih j hj, pure, Except.pure, Except.ok.injEq]
    constructor
    · rintro ⟨rs, ⟨hall, rfl⟩, rfl⟩
      exact ⟨⟨.array fun j hj => (hall j hj).1, fun j hj => (hall j hj).2⟩, rfl⟩
    · rintro ⟨⟨hp, hn⟩, rfl⟩
      cases hp with
      | array hp => exact ⟨_, ⟨fun j hj => ⟨hp j hj, hn j hj⟩, rfl⟩, rfl⟩
  | object fields ih =>
    rw [fromJson, bind_eq_ok_iff, Json.noTwins_object, Json.lower]
    simp only [fieldsFromJson_eq_ok fun f hf path r => ih f hf, pure, Except.pure, Except.ok.injEq,
      CIMap.contains_empty, implies_true, and_true]
    constructor
    · rintro ⟨rs, ⟨hall, rfl, hn⟩, rfl⟩
      exact ⟨⟨.object fun f hf => (hall f hf).1, hn, fun f hf => (hall f hf).2⟩, rfl⟩
    · rintro ⟨⟨hp, hn, hno⟩, rfl⟩
      cases hp with
      | object hp => exact ⟨_, ⟨fun f hf => ⟨hp f hf, hno f hf⟩, rfl, hn⟩, rfl⟩

/-! ### The format -/

/-- How a document is read where the format leaves room. -/
structure Leeway where
  /-- The blanks of a text, which must have something else. -/
  textBlank : Char → Bool
  /-- The blanks before a flag that is given as a text, and those behind it. -/
  flagFront : Char → Bool
  flagBack : Char → Bool
  version : JsonNumber → Prop
  /-- What `$schema` may be. -/
  location : String → Prop

section Parts

variable (blank : Char → Bool) (j : Json)

/-- A text that is not blank. -/
def IsText : Prop := ∃ s, j = .string s ∧ ∃ c ∈ s.toList, blank c = false

/-- A list of texts. -/
def IsTexts : Prop := ∃ items, j = .array items ∧ ∀ x ∈ items, IsText blank x

/-- True, or a predicate. -/
def IsPredicate : Prop := j = .bool true ∨ IsText blank j

/-- A predicate, or false to deny. -/
def IsGrant : Prop := j = .bool false ∨ IsPredicate blank j

/-- True or false, or the text `true`. -/
def IsFlag (front back : Char → Bool) (j : Json) : Prop :=
  (∃ b, j = .bool b) ∨
    ∃ s, j = .string s ∧ (trimChars front back s.toList).map Char.toLower = "true".toList

/-- An insert: its check, or an object with it. -/
def IsInsert : Prop :=
  IsGrant blank j ∨ ∃ fs, j = .object fs ∧ (∀ f ∈ fs, f.1 = "check" ∧ IsPredicate blank f.2) ∧
    ∃ f ∈ fs, f.1 = "check"

/-- An update: its predicate, or an object with predicate and check. -/
def IsUpdate : Prop :=
  IsGrant blank j ∨ ∃ fs, j = .object fs ∧
    ∀ f ∈ fs, (f.1 = "using" ∨ f.1 = "check") ∧ IsPredicate blank f.2

/-- At least one column. -/
def IsColumns : Prop := ∃ items, j = .array items ∧ items ≠ [] ∧ ∀ x ∈ items, IsText blank x

/-- A key: its columns, or an object with them or with a query for them. -/
def IsKey : Prop :=
  IsColumns blank j ∨ ∃ fs, j = .object fs ∧
    (∀ f ∈ fs, f.1 = "columns" ∧ IsColumns blank f.2 ∨
      (f.1 = "columns_from_query" ∨ f.1 = "verify_unique") ∧ IsText blank f.2) ∧
    ((∃ f ∈ fs, f.1 = "columns") ↔ ¬ ∃ f ∈ fs, f.1 = "columns_from_query")

/-- Functions: the exact list, or what to add and to remove. -/
def IsFunctions : Prop :=
  IsTexts blank j ∨ ∃ fs, j = .object fs ∧
    ∀ f ∈ fs, (f.1 = "add" ∨ f.1 = "remove") ∧ IsTexts blank f.2

end Parts

namespace Leeway

variable (R : Leeway)

/-- The value of a verb. -/
def IsVerb (verb : CrossingVerb) (j : Json) : Prop :=
  match verb with
  | .create | .drop => IsFlag R.flagFront R.flagBack j
  | .insert => IsInsert R.textBlank j
  | .update => IsUpdate R.textBlank j
  | _ => IsGrant R.textBlank j

/-- A setting of a table. -/
def IsSetting (f : String × Json) : Prop :=
  (∃ verb, verb ≠ .create ∧ f.1 = CrossingVerb.name verb ∧ R.IsVerb verb f.2) ∨
    f.1 = "primary_key" ∧ IsKey R.textBlank f.2 ∨ f.1 = "foreign_keys" ∧ IsTexts R.textBlank f.2

/-- A table: its settings, with a verb that is there and not false. -/
def IsTable (j : Json) : Prop :=
  ∃ fs, j = .object fs ∧ (∀ f ∈ fs, R.IsSetting f) ∧
    ∃ verb, verb ≠ .create ∧ (∃ f ∈ fs, f.1 = CrossingVerb.name verb) ∧
      ∀ f ∈ fs, f.1 = CrossingVerb.name verb → f.2 ≠ .bool false

/-- A schema: whether tables may be created in it. -/
def IsSchema (j : Json) : Prop :=
  ∃ fs, j = .object fs ∧ ∀ f ∈ fs, f.1 = "create" ∧ IsFlag R.flagFront R.flagBack f.2

/-- A member of the document. -/
def IsMember (f : String × Json) : Prop :=
  (f.1 = "$schema" ∧ ∃ s, f.2 = .string s ∧ R.location s) ∨
    (f.1 = "policy_version" ∧ ∃ n, f.2 = .number n ∧ R.version n) ∨
    (f.1 = "schemas" ∧ ∃ fs, f.2 = .object fs ∧ ∀ g ∈ fs, R.IsSchema g.2) ∨
    (f.1 = "tables" ∧ ∃ fs, f.2 = .object fs ∧ ∀ g ∈ fs, R.IsTable g.2) ∨
    (f.1 = "functions" ∧ IsFunctions R.textBlank f.2)

/-- A policy document. -/
def Format (j : Json) : Prop :=
  ∃ fs, j = .object fs ∧ (∀ f ∈ fs, R.IsMember f) ∧ ∃ f ∈ fs, f.1 = "policy_version"

end Leeway

/-- A text that the parser does not take for a blank. -/
def NonBlank (s : String) : Prop := ∃ c ∈ s.toList, rTrims c = false

/-- The parser's leeway. -/
def parserLeeway : Leeway where
  textBlank := rTrims
  flagFront := characterIsSpace
  flagBack := rTrims
  version n := n = .integer 1
  location := NonBlank

/-! ### The parts that the parser accepts -/

/-- The members of an object; another value has none. -/
def Json.fields : Json → List (String × Json)
  | .object fs => fs
  | _ => []

theorem eq_of_key_eq {fs : List (String × Json)} (h : (fs.map fun f => fold f.1).Nodup) :
    ∀ f ∈ fs, ∀ g ∈ fs, f.1 = g.1 → f = g := by
  intro f hf g hg heq
  exact List.inj_on_of_nodup_map h hf hg (congrArg fold heq)

/-- A member is missing, or it is the only one of its name. -/
theorem field_lowerFields {fs : List (String × Json)} (hn : (fs.map fun f => fold f.1).Nodup)
    (name : String) :
    (field (Json.lowerFields fs) name = none ∧ ∀ f ∈ fs, f.1 ≠ name) ∨
      ∃ f ∈ fs, f.1 = name ∧ field (Json.lowerFields fs) name = some f.2.lower ∧
        ∀ g ∈ fs, g.1 = name → g = f := by
  have eq : field (Json.lowerFields fs) name =
      (fs.find? fun f => f.1 == name).map fun f => f.2.lower := by
    rw [field, Json.lowerFields_eq, List.find?_map, Option.map_map]
    rfl
  rw [eq]
  cases hf : fs.find? fun f => f.1 == name with
  | none => exact .inl ⟨rfl, by simpa using hf⟩
  | some f =>
    have hm : f ∈ fs := List.mem_of_find?_eq_some hf
    have he : f.1 = name := by simpa using List.find?_some hf
    exact .inr ⟨f, hm, he, rfl, fun g hg hge => eq_of_key_eq hn g hg f hm (hge.trans he.symm)⟩

/-- **A member that may be missing is accepted as its value is.** -/
theorem optional_ok {α : Type} {fs : List (String × Json)}
    (hn : (fs.map fun f => fold f.1).Nodup) {name : String} {default : α}
    {parse : RawValue → Except BridgeError α} :
    (∃ a, optional default parse (field (Json.lowerFields fs) name) = .ok a) ↔
      ∀ f ∈ fs, f.1 = name → ∃ a, parse f.2.lower = .ok a := by
  rcases field_lowerFields hn name with ⟨heq, hne⟩ | ⟨f, hm, he, heq, huniq⟩
  · rw [heq]
    exact ⟨fun _ f hf h => absurd h (hne f hf), fun _ => ⟨default, rfl⟩⟩
  · rw [heq]
    constructor
    · intro h g hg hge
      rw [huniq g hg hge]
      exact h
    · exact fun h => h f hm he

theorem throwIfUnknownFields_lowerFields {fs : List (String × Json)} {path : String}
    {known : List String} {u : Unit} :
    throwIfUnknownFields (Json.lowerFields fs) path known = .ok u ↔ ∀ f ∈ fs, f.1 ∈ known := by
  rw [throwIfUnknownFields, forM_eq_ok, Json.lowerFields_eq, List.forall_mem_map]
  simp only [throwIf_eq_ok, not_not]

theorem nonEmptyString_eq_ok {path what s : String} {j : Json} :
    nonEmptyString path what j.lower = .ok s ↔ j = .string s ∧ NonBlank s := by
  cases j with
  | string t =>
    rw [Json.lower, nonEmptyString, NonBlank]
    by_cases h : isBlank t = true
    · rw [if_pos h]
      constructor
      · intro h'
        cases h'
      · rintro ⟨ht, hb⟩
        cases ht
        exact absurd h (by simpa using isBlank_eq_false.2 hb)
    · rw [if_neg h]
      have hb : NonBlank t := isBlank_eq_false.1 (by simpa using h)
      constructor
      · intro h'
        cases h'
        exact ⟨rfl, hb⟩
      · rintro ⟨ht, -⟩
        cases ht
        rfl
  | number n =>
    rw [Json.lower]
    cases n.sint <;> simp [nonEmptyString]
  | _ => simp [Json.lower, nonEmptyString]

theorem stringItems_eq_ok {path what : String} {items : List Json} {index : Nat}
    {ss : List String} :
    stringItems path what index (Json.lowerItems items) = .ok ss ↔
      items = ss.map .string ∧ ∀ s ∈ ss, NonBlank s := by
  induction items generalizing index ss with
  | nil =>
    cases ss <;> simp [Json.lowerItems, stringItems, pure, Except.pure]
  | cons j js ih =>
    simp only [Json.lowerItems, stringItems, bind_eq_ok_iff, nonEmptyString_eq_ok, ih, pure,
      Except.pure, Except.ok.injEq]
    constructor
    · rintro ⟨s, ⟨rfl, hs⟩, ss, ⟨rfl, hss⟩, rfl⟩
      exact ⟨rfl, List.forall_mem_cons.2 ⟨hs, hss⟩⟩
    · rintro ⟨heq, hall⟩
      cases ss with
      | nil => cases heq
      | cons s ss =>
        obtain ⟨rfl, rfl⟩ := List.cons.inj heq
        obtain ⟨hs, hss⟩ := List.forall_mem_cons.1 hall
        exact ⟨s, ⟨rfl, hs⟩, ss, ⟨rfl, hss⟩, rfl⟩

theorem stringList_eq_ok {path what : String} {j : Json} {ss : List String} :
    stringList path what j.lower = .ok ss ↔
      j = .array (ss.map .string) ∧ ∀ s ∈ ss, NonBlank s := by
  cases j with
  | array items => rw [Json.lower, stringList, stringItems_eq_ok, Json.array.injEq]
  | number n =>
    rw [Json.lower]
    cases n.sint <;> simp [stringList]
  | _ => simp [Json.lower, stringList]

/-- Items that are all texts are the strings they hold. -/
theorem forall_isText {items : List Json} :
    (∀ x ∈ items, IsText rTrims x) ↔
      ∃ ss : List String, items = ss.map .string ∧ ∀ s ∈ ss, NonBlank s := by
  induction items with
  | nil => exact ⟨fun _ => ⟨[], rfl, by simp⟩, fun _ => by simp⟩
  | cons j js ih =>
    rw [List.forall_mem_cons, ih]
    constructor
    · rintro ⟨⟨s, rfl, hs⟩, ss, rfl, hss⟩
      exact ⟨s :: ss, rfl, List.forall_mem_cons.2 ⟨hs, hss⟩⟩
    · rintro ⟨ss, heq, hall⟩
      cases ss with
      | nil => cases heq
      | cons s ss =>
        obtain ⟨rfl, rfl⟩ := List.cons.inj heq
        obtain ⟨hs, hss⟩ := List.forall_mem_cons.1 hall
        exact ⟨⟨s, rfl, hs⟩, ss, rfl, hss⟩

theorem stringList_ok {path what : String} {j : Json} :
    (∃ ss, stringList path what j.lower = .ok ss) ↔ IsTexts rTrims j := by
  simp only [stringList_eq_ok, IsTexts, forall_isText]
  constructor
  · rintro ⟨ss, rfl, hss⟩
    exact ⟨_, rfl, ss, rfl, hss⟩
  · rintro ⟨_, rfl, ss, rfl, hss⟩
    exact ⟨ss, rfl, hss⟩

theorem predicate_eq_ok {path t : String} {j : Json} :
    predicate path j.lower = .ok t ↔ j = .bool true ∧ t = "true" ∨ j = .string t ∧ NonBlank t := by
  cases j with
  | bool b => cases b <;> simp [Json.lower, predicate, pure, Except.pure, eq_comm]
  | string s =>
    change nonEmptyString path "a predicate" (Json.lower (.string s)) = .ok t ↔ _
    rw [nonEmptyString_eq_ok]
    simp
  | number n =>
    rw [Json.lower]
    cases n.sint <;> simp [predicate, nonEmptyString]
  | _ => simp [Json.lower, predicate, nonEmptyString]

theorem predicate_ok {path : String} {j : Json} :
    (∃ t, predicate path j.lower = .ok t) ↔ IsPredicate rTrims j := by
  simp only [predicate_eq_ok, exists_or, IsPredicate, IsText, NonBlank]
  simp

theorem predicateOr_ok {fs : List (String × Json)} (hn : (fs.map fun f => fold f.1).Nodup)
    {default path name : String} :
    (∃ t, predicateOr default (Json.lowerFields fs) path name = .ok t) ↔
      ∀ f ∈ fs, f.1 = name → IsPredicate rTrims f.2 := by
  simp only [predicateOr, optional_ok hn, predicate_ok]

theorem isText_iff {path what : String} {j : Json} :
    (∃ s, nonEmptyString path what j.lower = .ok s) ↔ IsText rTrims j := by
  simp only [nonEmptyString_eq_ok, IsText, NonBlank]

theorem textField_ok {fs : List (String × Json)} (hn : (fs.map fun f => fold f.1).Nodup)
    {path name : String} :
    (∃ t, textField (Json.lowerFields fs) path name = .ok t) ↔
      ∀ f ∈ fs, f.1 = name → IsText rTrims f.2 := by
  simp only [textField, optional_ok hn, isText_iff]

theorem functionNames_ok {fs : List (String × Json)} (hn : (fs.map fun f => fold f.1).Nodup)
    {path name : String} :
    (∃ ss, functionNames (Json.lowerFields fs) path name = .ok ss) ↔
      ∀ f ∈ fs, f.1 = name → IsTexts rTrims f.2 := by
  simp only [functionNames, optional_ok hn, stringList_ok]

/-! ### Verbs -/

theorem isTrueText_iff {s : String} :
    isTrueText s = true ↔
      (trimChars characterIsSpace rTrims s.toList).map Char.toLower = "true".toList := by
  rw [isTrueText, trim, decide_eq_true_iff]

/-- A text that is `true` between blanks is not blank. -/
theorem NonBlank.of_isTrueText {s : String} (h : isTrueText s = true) : NonBlank s := by
  rw [NonBlank, ← isBlank_eq_false, isBlank, ← Bool.not_eq_true, List.isEmpty_iff]
  intro hnil
  rw [isTrueText, hnil] at h
  revert h
  decide

/-- A predicate that is literally true, as `create` and `drop` take it. -/
theorem predicate_isTrueText {path : String} {j : Json} :
    (∃ t, predicate path j.lower = .ok t ∧ isTrueText t = true) ↔
      j = .bool true ∨ ∃ s, j = .string s ∧ isTrueText s = true := by
  simp only [predicate_eq_ok]
  constructor
  · rintro ⟨t, ⟨rfl, rfl⟩ | ⟨rfl, -⟩, ht⟩
    · exact .inl rfl
    · exact .inr ⟨t, rfl, ht⟩
  · rintro (rfl | ⟨s, rfl, hs⟩)
    · exact ⟨"true", .inl ⟨rfl, rfl⟩, by decide⟩
    · exact ⟨s, .inr ⟨rfl, .of_isTrueText hs⟩, hs⟩

/-- A computation succeeds if its parts do. -/
theorem exists_bind_ok {ε α β : Type} {x : Except ε α} {f : α → Except ε β} :
    (∃ b, (x >>= f) = .ok b) ↔ ∃ a, x = .ok a ∧ ∃ b, f a = .ok b := by
  simp only [bind_eq_ok_iff]
  constructor
  · rintro ⟨b, a, hx, hf⟩
    exact ⟨a, hx, b, hf⟩
  · rintro ⟨a, hx, b, hf⟩
    exact ⟨b, a, hx, hf⟩

theorem exists_pure_ok {ε α : Type} {a : α} : ∃ b, (pure a : Except ε α) = .ok b := ⟨a, rfl⟩

theorem not_isGrant_object {blank : Char → Bool} {fs : List (String × Json)} :
    ¬ IsGrant blank (.object fs) := by
  rintro (h | h | ⟨s, h, -⟩) <;> cases h

/-- What an object may say of a verb. -/
theorem parseGrantedVerb_object {verb : CrossingVerb} {path : String} {fs : List (String × Json)}
    (hn : (fs.map fun f => fold f.1).Nodup) :
    (∃ v, parseGrantedVerb verb path (Json.lower (.object fs)) = .ok v) ↔
      parserLeeway.IsVerb verb (.object fs) := by
  cases verb with
  | create | drop => simp [Json.lower, parseGrantedVerb, Leeway.IsVerb, IsFlag]
  | select | delete | alter =>
    simp [Json.lower, parseGrantedVerb, Leeway.IsVerb, not_isGrant_object]
  | insert =>
    simp only [Json.lower, parseGrantedVerb, exists_bind_ok, throwIfUnknownFields_lowerFields,
      Leeway.IsVerb, IsInsert, not_isGrant_object, false_or, Json.object.injEq, exists_eq_left',
      List.mem_singleton, exists_and_left, exists_const]
    rcases field_lowerFields hn "check" with ⟨heq, hne⟩ | ⟨f, hm, he, heq, huniq⟩
    · simp only [heq]
      constructor
      · rintro ⟨-, v, h⟩
        cases h
      · rintro ⟨-, f, hf, he⟩
        exact absurd he (hne f hf)
    · simp only [heq, exists_bind_ok, exists_pure_ok, and_true, predicate_ok]
      constructor
      · rintro ⟨hall, hp⟩
        exact ⟨fun g hg => ⟨hall g hg, huniq g hg (hall g hg) ▸ hp⟩, f, hm, he⟩
      · rintro ⟨hall, -⟩
        exact ⟨fun g hg => (hall g hg).1, (hall f hm).2⟩
  | update =>
    simp only [Json.lower, parseGrantedVerb, exists_bind_ok, throwIfUnknownFields_lowerFields,
      Leeway.IsVerb, IsUpdate, not_isGrant_object, false_or, Json.object.injEq, exists_eq_left',
      exists_and_left, exists_const, exists_pure_ok, and_true, exists_and_right,
      predicateOr_ok hn, List.mem_cons, List.not_mem_nil, or_false]
    constructor
    · rintro ⟨hall, hu, hc⟩ f hf
      exact ⟨hall f hf, (hall f hf).elim (hu f hf) (hc f hf)⟩
    · exact fun h => ⟨fun f hf => (h f hf).1, fun f hf _ => (h f hf).2, fun f hf _ => (h f hf).2⟩

/-- What else may be said of a verb that is granted. -/
theorem parseGrantedVerb_other {verb : CrossingVerb} {path : String} {j : Json}
    (hf : j ≠ .bool false) (ho : ∀ fs, j ≠ .object fs) :
    (∃ v, parseGrantedVerb verb path j.lower = .ok v) ↔ parserLeeway.IsVerb verb j := by
  have lower : ∀ fs, j.lower ≠ .object fs := by
    intro fs
    cases j with
    | object fs => exact absurd rfl (ho fs)
    | number n => rw [Json.lower]; cases n.sint <;> simp
    | _ => simp [Json.lower]
  have grant : IsGrant rTrims j ↔ IsPredicate rTrims j := by
    rw [IsGrant, or_iff_right hf]
  have object : ∀ P : List (String × Json) → Prop, ¬ ∃ fs, j = .object fs ∧ P fs := by
    rintro P ⟨fs, h, -⟩
    exact ho fs h
  cases verb with
  | create | drop =>
    simp only [parseGrantedVerb, Leeway.IsVerb, IsFlag, exists_bind_ok, throwIf_eq_ok,
      exists_pure_ok, and_true, exists_const, Bool.not_eq_false, predicate_isTrueText]
    refine or_congr ⟨fun h => ⟨true, h⟩, ?_⟩ (by simp only [isTrueText_iff]; rfl)
    rintro ⟨b, rfl⟩
    cases b with
    | true => rfl
    | false => exact absurd rfl hf
  | select | delete | alter =>
    simp only [parseGrantedVerb, Leeway.IsVerb, exists_bind_ok, exists_pure_ok, and_true,
      predicate_ok]
    exact grant.symm
  | insert =>
    simp only [parseGrantedVerb, Leeway.IsVerb, IsInsert, or_iff_left (object _), exists_bind_ok,
      exists_pure_ok, and_true, predicate_ok]
    exact grant.symm
  | update =>
    simp only [parseGrantedVerb, Leeway.IsVerb, IsUpdate, or_iff_left (object _), exists_bind_ok,
      exists_pure_ok, and_true, predicate_ok]
    exact grant.symm

theorem parseVerb_lower {verb : CrossingVerb} {path : String} {j : Json} (hp : j.Plain)
    (hf : j ≠ .bool false) : parseVerb verb path j.lower = parseGrantedVerb verb path j.lower := by
  cases hp with
  | bool b =>
    cases b with
    | false => exact absurd rfl hf
    | true => rfl
  | number h => rw [Json.lower, h]; rfl
  | _ => rfl

/-- **A verb is accepted exactly if it is one of the format.** -/
theorem parseVerb_ok {verb : CrossingVerb} {path : String} {j : Json} (hp : j.Plain)
    (hn : j.NoTwins) :
    (∃ v, parseVerb verb path j.lower = .ok v) ↔ parserLeeway.IsVerb verb j := by
  by_cases hf : j = .bool false
  · subst hf
    refine iff_of_true ⟨{}, rfl⟩ ?_
    cases verb <;> simp [Leeway.IsVerb, IsFlag, IsInsert, IsUpdate, IsGrant]
  · rw [parseVerb_lower hp hf]
    by_cases ho : ∃ fs, j = .object fs
    · obtain ⟨fs, rfl⟩ := ho
      exact parseGrantedVerb_object (Json.noTwins_object.1 hn).1
    · exact parseGrantedVerb_other hf (not_exists.1 ho)

theorem granted_of_parseGrantedVerb {verb : CrossingVerb} {path : String} {value : RawValue}
    {v : PolicyVerb} (h : parseGrantedVerb verb path value = .ok v) : v.granted = true := by
  have pure_ok : ∀ {α : Type} {x : Except BridgeError α} {f : α → PolicyVerb},
      (∀ a, (f a).granted = true) → (x >>= fun a => pure (f a)) = .ok v → v.granted = true := by
    intro α x f hf h
    obtain ⟨a, -, h⟩ := bind_eq_ok h
    cases h
    exact hf a
  rw [parseGrantedVerb.eq_def] at h
  split at h
  · split at h
    · cases h
    · obtain ⟨t, -, h⟩ := bind_eq_ok h
      exact pure_ok (fun _ => rfl) h
  · split at h
    · cases h
    · obtain ⟨t, -, h⟩ := bind_eq_ok h
      exact pure_ok (fun _ => rfl) h
  · split at h
    · obtain ⟨_, -, h⟩ := bind_eq_ok h
      split at h
      · cases h
      · exact pure_ok (fun _ => rfl) h
    · exact pure_ok (fun _ => rfl) h
  · split at h
    · obtain ⟨_, -, h⟩ := bind_eq_ok h
      obtain ⟨u, -, h⟩ := bind_eq_ok h
      exact pure_ok (fun _ => rfl) h
    · exact pure_ok (fun _ => rfl) h
  · split at h
    · cases h
    · exact pure_ok (fun _ => rfl) h

/-- A verb is granted unless it is false. -/
theorem parseVerb_granted {verb : CrossingVerb} {path : String} {j : Json} {v : PolicyVerb}
    (hp : j.Plain) (h : parseVerb verb path j.lower = .ok v) :
    v.granted = true ↔ j ≠ .bool false := by
  by_cases hf : j = .bool false
  · subst hf
    cases h
    simp
  · rw [parseVerb_lower hp hf] at h
    exact iff_of_true (granted_of_parseGrantedVerb h) hf

/-! ### Keys and functions -/

theorem keyColumns_ok {path : String} {j : Json} :
    (∃ cs, keyColumns path j.lower = .ok cs) ↔ IsColumns rTrims j := by
  simp only [keyColumns, exists_bind_ok, stringList_eq_ok, throwIf_eq_ok, exists_pure_ok, and_true,
    exists_const, IsColumns, forall_isText]
  constructor
  · rintro ⟨ss, ⟨rfl, hss⟩, hne⟩
    exact ⟨_, rfl, by simpa using hne, ss, rfl, hss⟩
  · rintro ⟨_, rfl, hne, ss, rfl, hss⟩
    exact ⟨ss, ⟨rfl, hss⟩, by simpa using hne⟩

theorem isSome_field {fs : List (String × Json)} (hn : (fs.map fun f => fold f.1).Nodup)
    {name : String} : (field (Json.lowerFields fs) name).isSome = true ↔ ∃ f ∈ fs, f.1 = name := by
  rcases field_lowerFields hn name with ⟨heq, hne⟩ | ⟨f, hm, he, heq, -⟩
  · rw [heq]
    exact iff_of_false (by simp) fun ⟨f, hf, he⟩ => hne f hf he
  · rw [heq]
    exact iff_of_true rfl ⟨f, hm, he⟩

/-- The columns of a key, or the query for them. -/
theorem keySource_ok {path : String} {fs : List (String × Json)}
    (hn : (fs.map fun f => fold f.1).Nodup) :
    (∃ k, keySource (Json.lowerFields fs) path = .ok k) ↔
      (∀ f ∈ fs, f.1 = "columns" → IsColumns rTrims f.2) ∧
        ((∀ f ∈ fs, f.1 ≠ "columns") →
          ∀ f ∈ fs, f.1 = "columns_from_query" → IsText rTrims f.2) ∧
        ∀ f ∈ fs, f.1 = "verify_unique" → IsText rTrims f.2 := by
  unfold keySource
  rcases field_lowerFields hn "columns" with ⟨heq, hne⟩ | ⟨f, hm, he, heq, huniq⟩
  · simp only [heq, exists_bind_ok, exists_pure_ok, and_true, textField_ok hn, exists_and_right]
    exact ⟨fun h => ⟨fun f hf hc => absurd hc (hne f hf), fun _ => h.1, h.2⟩,
      fun h => ⟨h.2.1 hne, h.2.2⟩⟩
  · simp only [heq, exists_bind_ok, exists_pure_ok, and_true, textField_ok hn, exists_and_right,
      keyColumns_ok]
    exact ⟨fun h => ⟨fun g hg hc => huniq g hg hc ▸ h.1, fun hne => absurd he (hne f hm), h.2⟩,
      fun h => ⟨h.1 f hm he, h.2.2⟩⟩

theorem parseKey_object {path : String} {fs : List (String × Json)}
    (hn : (fs.map fun f => fold f.1).Nodup) :
    (∃ k, parseKey path (Json.lower (.object fs)) = .ok k) ↔
      IsKey rTrims (.object fs) := by
  have notColumns : ¬ IsColumns rTrims (.object fs) := by
    rintro ⟨items, h, -⟩
    cases h
  have one : ¬ ((field (Json.lowerFields fs) "columns").isSome =
      (field (Json.lowerFields fs) "columns_from_query").isSome) ↔
      ((∃ f ∈ fs, f.1 = "columns") ↔ ¬ ∃ f ∈ fs, f.1 = "columns_from_query") := by
    rw [Bool.eq_iff_iff, isSome_field hn, isSome_field hn, not_iff, not_iff_comm]
    exact iff_comm
  simp only [Json.lower, parseKey, exists_bind_ok, throwIfUnknownFields_lowerFields, throwIf_eq_ok,
    IsKey, notColumns, false_or, Json.object.injEq, exists_eq_left', exists_and_left, exists_const,
    one, keySource_ok hn, List.mem_cons, List.not_mem_nil, or_false]
  constructor
  · rintro ⟨hall, hone, hc, hq, hv⟩
    refine ⟨fun f hf => ?_, hone⟩
    rcases hall f hf with h | h | h
    · exact .inl ⟨h, hc f hf h⟩
    · exact .inr ⟨.inl h, hq (fun g hg hge => hone.1 ⟨g, hg, hge⟩ ⟨f, hf, h⟩) f hf h⟩
    · exact .inr ⟨.inr h, hv f hf h⟩
  · rintro ⟨hall, hone⟩
    have text : ∀ f ∈ fs, f.1 ≠ "columns" → IsText rTrims f.2 := fun f hf h =>
      ((hall f hf).resolve_left fun hc => h hc.1).2
    refine ⟨fun f hf => ?_, hone, fun f hf h => ?_, fun _ f hf h => text f hf (by simp [h]),
      fun f hf h => text f hf (by simp [h])⟩
    · rcases hall f hf with h | h
      · exact .inl h.1
      · exact .inr h.1
    · refine ((hall f hf).resolve_right fun hq => ?_).2
      rcases hq.1 with hq | hq <;> simp [h] at hq

/-- **A key is accepted exactly if it is one of the format.** -/
theorem parseKey_ok {path : String} {j : Json} (hn : j.NoTwins) :
    (∃ k, parseKey path j.lower = .ok k) ↔ IsKey rTrims j := by
  cases j with
  | object fs => exact parseKey_object (Json.noTwins_object.1 hn).1
  | array items =>
    have : ∀ fs, Json.array items ≠ .object fs := by simp
    simp only [Json.lower, parseKey, exists_bind_ok, exists_pure_ok, and_true, IsKey, this,
      false_and, exists_const, or_false]
    exact keyColumns_ok (j := .array items)
  | number n =>
    rw [Json.lower]
    cases n.sint <;> simp [parseKey, IsKey, IsColumns]
  | _ => simp [Json.lower, parseKey, IsKey, IsColumns]

/-- **A function list is accepted exactly if it is one of the format.** -/
theorem parseFunctions_ok {path : String} {j : Json} (hn : j.NoTwins) :
    (∃ f, parseFunctions path j.lower = .ok f) ↔ IsFunctions rTrims j := by
  cases j with
  | object fs =>
    have notTexts : ¬ IsTexts rTrims (.object fs) := by
      rintro ⟨items, h, -⟩
      cases h
    have nodup := (Json.noTwins_object.1 hn).1
    simp only [Json.lower, parseFunctions, exists_bind_ok, throwIfUnknownFields_lowerFields,
      exists_pure_ok, and_true, functionNames_ok nodup, IsFunctions, notTexts, false_or,
      Json.object.injEq, exists_eq_left', exists_and_left, exists_and_right, exists_const,
      List.mem_cons, List.not_mem_nil, or_false]
    constructor
    · rintro ⟨hall, ha, hr⟩ f hf
      exact ⟨hall f hf, (hall f hf).elim (ha f hf) (hr f hf)⟩
    · exact fun h => ⟨fun f hf => (h f hf).1, fun f hf _ => (h f hf).2, fun f hf _ => (h f hf).2⟩
  | array items =>
    have : ∀ fs, Json.array items ≠ .object fs := by simp
    simp only [Json.lower, parseFunctions, exists_bind_ok, exists_pure_ok, and_true, IsFunctions,
      this, false_and, exists_const, or_false]
    exact stringList_ok (j := .array items)
  | number n =>
    rw [Json.lower]
    cases n.sint <;> simp [parseFunctions, IsFunctions, IsTexts]
  | _ => simp [Json.lower, parseFunctions, IsFunctions, IsTexts]

/-! ### Tables -/

/-- `text` is the name of a table in the schema of `sibling`. -/
def IsParent (text : String) (sibling : PolicyName) : Prop :=
  ∃ parent, parsePolicyTableName text = .ok parent ∧ fold parent.schema = fold sibling.schema

/-- The names of a table entry: the table's own, and its parents in the same schema. -/
def TableNames (name : String) (j : Json) : Prop :=
  ∃ table, parsePolicyTableName name = .ok table ∧
    ∀ f ∈ j.fields, f.1 = "foreign_keys" → ∀ s ∈ f.2.texts, IsParent s table

theorem atPath_eq_ok {α : Type} {path : String} {x : Except BridgeError α} {a : α} :
    atPath path x = .ok a ↔ x = .ok a := by
  cases x <;> simp [atPath, Except.mapError]

theorem parentName_ok {text path : String} {sibling : PolicyName} :
    (∃ p, parentName text sibling path = .ok p) ↔ IsParent text sibling := by
  simp only [parentName, exists_bind_ok, atPath_eq_ok, throwIf_eq_ok, exists_pure_ok, and_true,
    exists_const, Bool.not_eq_false, ciEq_iff, IsParent]

theorem tryParseVerbName_eq_some {text : String} {verb : CrossingVerb} :
    tryParseVerbName text = some verb ↔ text = verb.name := by
  have distinct : ∀ v w : CrossingVerb, v.name = w.name → v = w := by
    intro v w
    cases v <;> cases w <;> decide
  rw [tryParseVerbName]
  constructor
  · intro h
    simpa using List.find?_some h
  · rintro rfl
    cases verb <;> rfl

/-- What a member adds to a table. -/
def FieldOk (table : PolicyName) (f : String × Json) : Prop :=
  match tryParseVerbName f.1 with
  | some verb => parserLeeway.IsVerb verb f.2
  | none =>
    if f.1 = "primary_key" then IsKey rTrims f.2
    else IsTexts rTrims f.2 ∧ ∀ s ∈ f.2.texts, IsParent s table

theorem texts_array_strings (ss : List String) : (Json.array (ss.map .string)).texts = ss := by
  rw [Json.texts, Json.textsOfItems_eq, List.flatMap_map]
  simp [Json.texts]

theorem parseTableField_ok {path : String} {acc : PolicyTable × Bool} {f : String × Json}
    (hp : f.2.Plain) (hn : f.2.NoTwins) :
    (∃ acc', parseTableField path acc (f.1, f.2.lower) = .ok acc') ↔ FieldOk acc.1.name f := by
  rw [parseTableField, FieldOk]
  dsimp only
  cases tryParseVerbName f.1 with
  | some verb =>
    simp only [exists_bind_ok, exists_pure_ok, and_true, parseVerb_ok hp hn]
  | none =>
    dsimp only
    split_ifs
    · simp only [exists_bind_ok, exists_pure_ok, and_true, parseKey_ok hn]
    · simp only [exists_bind_ok, exists_pure_ok, and_true, stringList_eq_ok, parseForeignKeys,
        exists_mapM, parentName_ok, IsTexts, forall_isText]
      constructor
      · rintro ⟨ss, ⟨heq, hss⟩, hpar⟩
        refine ⟨⟨_, heq, ss, rfl, hss⟩, ?_⟩
        rwa [heq, texts_array_strings]
      · rintro ⟨⟨_, heq, ss, rfl, hss⟩, hpar⟩
        rw [heq, texts_array_strings] at hpar
        exact ⟨ss, ⟨heq, hss⟩, hpar⟩

/-- The member grants a verb. -/
def GrantsVerb (f : String × Json) : Prop :=
  (∃ verb, f.1 = CrossingVerb.name verb) ∧ f.2 ≠ .bool false

theorem parseTableField_spec {path : String} {acc acc' : PolicyTable × Bool} {f : String × Json}
    (hp : f.2.Plain) (h : parseTableField path acc (f.1, f.2.lower) = .ok acc') :
    acc'.1.name = acc.1.name ∧ (acc'.2 = true ↔ acc.2 = true ∨ GrantsVerb f) := by
  rw [parseTableField] at h
  dsimp only at h
  cases hv : tryParseVerbName f.1 with
  | some verb =>
    rw [hv] at h
    obtain ⟨v, hv', h⟩ := bind_eq_ok h
    cases h
    have hverb : ∃ verb, f.1 = CrossingVerb.name verb := ⟨verb, tryParseVerbName_eq_some.1 hv⟩
    exact ⟨rfl, by simp [parseVerb_granted hp hv', GrantsVerb, hverb]⟩
  | none =>
    rw [hv] at h
    have hverb : ¬ ∃ verb, f.1 = CrossingVerb.name verb := by
      rintro ⟨verb, h⟩
      rw [tryParseVerbName_eq_some.2 h] at hv
      cases hv
    dsimp only at h
    split_ifs at h
    · obtain ⟨k, -, h⟩ := bind_eq_ok h
      cases h
      exact ⟨rfl, by simp [GrantsVerb, hverb]⟩
    · obtain ⟨ss, -, h⟩ := bind_eq_ok h
      obtain ⟨fks, -, h⟩ := bind_eq_ok h
      cases h
      exact ⟨rfl, by simp [GrantsVerb, hverb]⟩

theorem foldlM_parseTableField {path : String} {fs : List (String × Json)}
    {acc : PolicyTable × Bool} (hp : ∀ f ∈ fs, f.2.Plain) (hn : ∀ f ∈ fs, f.2.NoTwins) :
    (∃ table, (Json.lowerFields fs).foldlM (parseTableField path) acc = .ok (table, true)) ↔
      (∀ f ∈ fs, FieldOk acc.1.name f) ∧ (acc.2 = true ∨ ∃ f ∈ fs, GrantsVerb f) := by
  rw [Json.lowerFields_eq]
  induction fs generalizing acc with
  | nil =>
    obtain ⟨table, b⟩ := acc
    simp [pure, Except.pure]
  | cons f fs ih =>
    obtain ⟨hpf, hpfs⟩ := List.forall_mem_cons.1 hp
    obtain ⟨hnf, hnfs⟩ := List.forall_mem_cons.1 hn
    simp only [List.map_cons, List.foldlM_cons, bind_eq_ok_iff, List.forall_mem_cons,
      List.exists_mem_cons_iff]
    rw [exists_comm]
    simp only [exists_and_left, ih hpfs hnfs]
    constructor
    · rintro ⟨acc', h, hall, hg⟩
      obtain ⟨hname, hgrant⟩ := parseTableField_spec hpf h
      rw [hname] at hall
      rw [hgrant, or_assoc] at hg
      exact ⟨⟨(parseTableField_ok hpf hnf).1 ⟨acc', h⟩, hall⟩, hg⟩
    · rintro ⟨⟨hf, hall⟩, hg⟩
      obtain ⟨acc', h⟩ := (parseTableField_ok hpf hnf).2 hf
      obtain ⟨hname, hgrant⟩ := parseTableField_spec hpf h
      exact ⟨acc', h, hname.symm ▸ hall, by rwa [hgrant, or_assoc]⟩

theorem fieldOk_iff {table : PolicyName} {f : String × Json} :
    f.1 ∈ tableKeys ∧ FieldOk table f ↔
      parserLeeway.IsSetting f ∧ (f.1 = "foreign_keys" → ∀ s ∈ f.2.texts, IsParent s table) := by
  rw [FieldOk, Leeway.IsSetting]
  cases hv : tryParseVerbName f.1 with
  | some verb =>
    have he : f.1 = verb.name := tryParseVerbName_eq_some.1 hv
    have hmem : f.1 ∈ tableKeys ↔ verb ≠ .create := by
      rw [he]
      cases verb <;> decide
    have hkey : f.1 ≠ "primary_key" ∧ f.1 ≠ "foreign_keys" := by
      rw [he]
      cases verb <;> decide
    have huniq : ∀ w : CrossingVerb, f.1 = w.name ↔ w = verb := by
      intro w
      rw [← tryParseVerbName_eq_some, hv, Option.some.injEq, eq_comm]
    simp only [hmem, hkey, huniq, false_and, or_false, false_imp_iff, and_true]
    constructor
    · exact fun h => ⟨verb, h.1, rfl, h.2⟩
    · rintro ⟨w, hw, rfl, h⟩
      exact ⟨hw, h⟩
  | none =>
    have hverb : ∀ w : CrossingVerb, f.1 ≠ w.name := by
      intro w h
      rw [tryParseVerbName_eq_some.2 h] at hv
      cases hv
    have hmem : f.1 ∈ tableKeys ↔ f.1 = "primary_key" ∨ f.1 = "foreign_keys" := by
      have hs := hverb .select
      have hi := hverb .insert
      have hu := hverb .update
      have hd := hverb .delete
      have ha := hverb .alter
      have hdr := hverb .drop
      simp only [CrossingVerb.name] at hs hi hu hd ha hdr
      simp [tableKeys, hs, hi, hu, hd, ha, hdr]
    simp only [hmem, hverb, false_and, and_false, exists_false, false_or]
    by_cases hk : f.1 = "primary_key"
    · simp [hk]
      rfl
    · by_cases hfk : f.1 = "foreign_keys"
      · have hne : ("foreign_keys" = "primary_key") = False := by decide
        simp only [hfk, hne, if_false, or_true, true_and,
          true_imp_iff, false_and, false_or]
        rfl
      · simp [hk, hfk]

theorem parseTableEntry_ok {name : PolicyName} {path : String} {fs : List (String × Json)}
    (hp : ∀ f ∈ fs, f.2.Plain) (hn : ∀ f ∈ fs, f.2.NoTwins) :
    (∃ t, parseTableEntry name path (Json.lowerFields fs) = .ok t) ↔
      (∀ f ∈ fs, f.1 ∈ tableKeys ∧ FieldOk name f) ∧ ∃ f ∈ fs, GrantsVerb f := by
  have loop := @foldlM_parseTableField path fs
    ({ name := name, path := path, verbs := fun _ => {} }, false) hp hn
  simp only [Bool.false_eq_true, false_or] at loop
  simp only [parseTableEntry, exists_bind_ok, throwIfUnknownFields_lowerFields, exists_const,
    throwIf_eq_ok, exists_pure_ok, and_true, Bool.not_eq_false, forall₂_and, and_assoc, ← loop]
  refine and_congr Iff.rfl ⟨?_, ?_⟩
  · rintro ⟨⟨table, b⟩, h, rfl⟩
    exact ⟨table, h⟩
  · rintro ⟨table, h⟩
    exact ⟨(table, true), h, rfl⟩

/-- Among the settings of a table, `create` is not a verb. -/
theorem isTable_iff {fs : List (String × Json)} (hn : (fs.map fun f => fold f.1).Nodup) :
    parserLeeway.IsTable (.object fs) ↔
      (∀ f ∈ fs, parserLeeway.IsSetting f) ∧ ∃ f ∈ fs, GrantsVerb f := by
  simp only [Leeway.IsTable, Json.object.injEq, exists_eq_left']
  refine and_congr_right fun hall => ⟨?_, ?_⟩
  · rintro ⟨verb, -, ⟨f, hf, he⟩, hne⟩
    exact ⟨f, hf, ⟨verb, he⟩, hne f hf he⟩
  · rintro ⟨f, hf, ⟨verb, he⟩, hne⟩
    refine ⟨verb, ?_, ⟨f, hf, he⟩, fun g hg hge => ?_⟩
    · rintro rfl
      rcases hall f hf with ⟨w, hw, hwe, -⟩ | ⟨hk, -⟩ | ⟨hk, -⟩
      · rw [he] at hwe
        cases w <;> first | exact hw rfl | exact absurd hwe (by decide)
      · exact absurd (he.symm.trans hk) (by decide)
      · exact absurd (he.symm.trans hk) (by decide)
    · rwa [eq_of_key_eq hn g hg f hf (hge.trans he.symm)]

/-- **A table is accepted exactly if it is one of the format, with names that can be read.** -/
theorem parseTable_ok {name path : String} {j : Json} (hp : j.Plain) (hn : j.NoTwins) :
    (∃ t, parseTable name path j.lower = .ok t) ↔ parserLeeway.IsTable j ∧ TableNames name j := by
  have noObject : (∀ fs, j ≠ .object fs) → ¬ parserLeeway.IsTable j := by
    rintro h ⟨fs, hj, -⟩
    exact h fs hj
  simp only [parseTable, exists_bind_ok, atPath_eq_ok]
  cases hp with
  | object hp =>
    rename_i fs
    rw [Json.noTwins_object] at hn
    simp only [Json.lower, parseTableEntry_ok hp hn.2, fieldOk_iff, forall₂_and, isTable_iff hn.1,
      TableNames, Json.fields]
    constructor
    · rintro ⟨parsed, h, ⟨hall, hparents⟩, hgrant⟩
      exact ⟨⟨hall, hgrant⟩, parsed, h, hparents⟩
    · rintro ⟨⟨hall, hgrant⟩, parsed, h, hparents⟩
      exact ⟨parsed, h, ⟨hall, hparents⟩, hgrant⟩
  | number h =>
    rw [Json.lower, h]
    simp [noObject]
  | _ => simp [Json.lower, noObject]

/-! ### The document -/

/-- An entry of `schemas` whose name is read: it grants `create`. -/
def GrantsCreate (j : Json) : Prop := ∃ f ∈ j.fields, f.1 = "create" ∧ f.2 ≠ .bool false

/-- **A schema is accepted exactly if it is one of the format, with a name that can be read.** -/
theorem parseSchema_ok {name path : String} {j : Json} (hp : j.Plain) (hn : j.NoTwins) :
    (∃ s, parseSchema name path j.lower = .ok s) ↔
      parserLeeway.IsSchema j ∧ (GrantsCreate j → ∃ p, parsePolicySchemaName name = .ok p) := by
  have noObject : (∀ fs, j ≠ .object fs) → ¬ parserLeeway.IsSchema j := by
    rintro h ⟨fs, hj, -⟩
    exact h fs hj
  cases hp with
  | object hp =>
    rename_i fs
    rw [Json.noTwins_object] at hn
    simp only [Json.lower, parseSchema, exists_bind_ok, throwIfUnknownFields_lowerFields,
      exists_const, List.mem_singleton, Leeway.IsSchema, Json.object.injEq, exists_eq_left',
      forall₂_and, and_assoc]
    refine and_congr_right fun hall => ?_
    rcases field_lowerFields hn.1 "create" with ⟨heq, hne⟩ | ⟨f, hm, he, heq, huniq⟩
    · refine iff_of_true ⟨{}, by rw [heq]; rfl, none, rfl⟩ ⟨fun f hf => ?_, ?_⟩
      · exact absurd (hall f hf) (hne f hf)
      · rintro ⟨f, hf, he, -⟩
        exact absurd he (hne f hf)
    · have flag : (∃ v, parseVerb .create (child path "create") f.2.lower = .ok v) ↔
          IsFlag parserLeeway.flagFront parserLeeway.flagBack f.2 := parseVerb_ok (hp f hm) (hn.2 f hm)
      have grants : GrantsCreate (.object fs) ↔ f.2 ≠ .bool false := by
        constructor
        · rintro ⟨g, hg, hge, h⟩
          rwa [huniq g hg hge] at h
        · exact fun h => ⟨f, hm, he, h⟩
      rw [heq, grants]
      constructor
      · rintro ⟨v, hv, hs⟩
        refine ⟨fun g hg => huniq g hg (hall g hg) ▸ flag.1 ⟨v, hv⟩, fun h => ?_⟩
        rw [if_pos ((parseVerb_granted (hp f hm) hv).2 h)] at hs
        simpa only [exists_bind_ok, atPath_eq_ok, exists_pure_ok, and_true] using hs
      · rintro ⟨hflag, hname⟩
        obtain ⟨v, hv⟩ := flag.2 (hflag f hm)
        refine ⟨v, hv, ?_⟩
        split_ifs with hg
        · simpa only [exists_bind_ok, atPath_eq_ok, exists_pure_ok, and_true] using
            hname ((parseVerb_granted (hp f hm) hv).1 hg)
        · exact exists_pure_ok
  | number h =>
    rw [Json.lower, h]
    simp [parseSchema, noObject]
  | _ => simp [Json.lower, parseSchema, noObject]

/-- The members of the object that a document has under a key. -/
def Json.entries (document : Json) (key : String) : List (String × Json) :=
  document.fields.flatMap fun f => if f.1 = key then f.2.fields else []

/-- Every name that the parser reads is a name, and every foreign key stays in its schema. -/
def NamesRead (document : Json) : Prop :=
  (∀ e ∈ document.entries "tables", TableNames e.1 e.2) ∧
    ∀ e ∈ document.entries "schemas", GrantsCreate e.2 → ∃ p, parsePolicySchemaName e.1 = .ok p

theorem Json.mem_entries {fs : List (String × Json)} {key : String} {e : String × Json} :
    e ∈ (object fs).entries key ↔ ∃ f ∈ fs, f.1 = key ∧ e ∈ f.2.fields := by
  rw [entries, List.mem_flatMap]
  refine exists_congr fun f => and_congr_right fun _ => ?_
  split_ifs with h <;> simp [h]

theorem parseSchemas_ok {j : Json} (hp : j.Plain) (hn : j.NoTwins) :
    (∃ s, parseSchemas j.lower = .ok s) ↔
      (∃ fs, j = .object fs ∧ ∀ g ∈ fs, parserLeeway.IsSchema g.2) ∧
        ∀ e ∈ j.fields, GrantsCreate e.2 → ∃ p, parsePolicySchemaName e.1 = .ok p := by
  cases hp with
  | object hp =>
    rename_i fs
    rw [Json.noTwins_object] at hn
    simp only [Json.lower, parseSchemas, exists_bind_ok, exists_mapM, exists_pure_ok, and_true,
      Json.lowerFields_eq, List.forall_mem_map, Json.object.injEq, exists_eq_left', Json.fields]
    rw [← forall₂_and]
    exact forall₂_congr fun f hf => parseSchema_ok (hp f hf) (hn.2 f hf)
  | number h =>
    rw [Json.lower, h]
    simp [parseSchemas]
  | _ => simp [Json.lower, parseSchemas]

theorem parseTables_ok {j : Json} (hp : j.Plain) (hn : j.NoTwins) :
    (∃ s, parseTables j.lower = .ok s) ↔
      (∃ fs, j = .object fs ∧ ∀ g ∈ fs, parserLeeway.IsTable g.2) ∧
        ∀ e ∈ j.fields, TableNames e.1 e.2 := by
  cases hp with
  | object hp =>
    rename_i fs
    rw [Json.noTwins_object] at hn
    simp only [Json.lower, parseTables, exists_mapM, Json.lowerFields_eq, List.forall_mem_map,
      Json.object.injEq, exists_eq_left', Json.fields]
    rw [← forall₂_and]
    exact forall₂_congr fun f hf => parseTable_ok (hp f hf) (hn.2 f hf)
  | number h =>
    rw [Json.lower, h]
    simp [parseTables]
  | _ => simp [Json.lower, parseTables]

theorem sint_eq_one {n : JsonNumber} : n.sint = some 1 ↔ n = .integer 1 := by
  cases n with
  | integer m =>
    rw [JsonNumber.sint, JsonNumber.integer.injEq]
    split_ifs with h h'
    · rw [Option.some.injEq]
    · rw [Option.some.injEq]
      omega
    · simp only [false_iff]
      omega
  | decimal m e => simp [JsonNumber.sint]

theorem checkVersion_lower {j : Json} {u : Unit} :
    checkVersion (some j.lower) = .ok u ↔ j = .number (.integer 1) := by
  have one : ∀ i : Int, checkVersion (some (.integer i)) = .ok u ↔ i = 1 := by
    intro i
    rw [checkVersion.eq_def]
    split
    next h => cases h
    next h => cases h; simp [pure, Except.pure]
    next h h' =>
      refine iff_of_false (by simp) ?_
      rintro rfl
      cases h'
      exact h rfl
  cases j with
  | number n =>
    rw [Json.lower, Json.number.injEq, ← sint_eq_one]
    cases n.sint with
    | none => simp [checkVersion]
    | some i => simpa using one i
  | _ => simp [Json.lower, checkVersion]

theorem checkVersion_ok {fs : List (String × Json)} (hn : (fs.map fun f => fold f.1).Nodup)
    {u : Unit} :
    checkVersion (field (Json.lowerFields fs) "policy_version") = .ok u ↔
      (∃ f ∈ fs, f.1 = "policy_version") ∧
        ∀ f ∈ fs, f.1 = "policy_version" → f.2 = .number (.integer 1) := by
  rcases field_lowerFields hn "policy_version" with ⟨heq, hne⟩ | ⟨f, hm, he, heq, huniq⟩
  · rw [heq]
    exact iff_of_false (by simp [checkVersion]) fun ⟨⟨f, hf, he⟩, _⟩ => hne f hf he
  · rw [heq, checkVersion_lower]
    exact ⟨fun h => ⟨⟨f, hm, he⟩, fun g hg hge => huniq g hg hge ▸ h⟩, fun h => h.2 f hm he⟩

/-! ### What the format lets lower -/

section Plain

variable {blank : Char → Bool} {j : Json}

theorem IsText.plain (h : IsText blank j) : j.Plain := by
  obtain ⟨s, rfl, -⟩ := h
  exact .string s

theorem IsTexts.plain (h : IsTexts blank j) : j.Plain := by
  obtain ⟨items, rfl, h⟩ := h
  exact .array fun x hx => (h x hx).plain

theorem IsPredicate.plain (h : IsPredicate blank j) : j.Plain := by
  rcases h with rfl | h
  · exact .bool true
  · exact h.plain

theorem IsGrant.plain (h : IsGrant blank j) : j.Plain := by
  rcases h with rfl | h
  · exact .bool false
  · exact h.plain

theorem IsFlag.plain {front back : Char → Bool} (h : IsFlag front back j) : j.Plain := by
  rcases h with ⟨b, rfl⟩ | ⟨s, rfl, -⟩
  · exact .bool b
  · exact .string s

theorem IsInsert.plain (h : IsInsert blank j) : j.Plain := by
  rcases h with h | ⟨fs, rfl, h, -⟩
  · exact h.plain
  · exact .object fun f hf => (h f hf).2.plain

theorem IsUpdate.plain (h : IsUpdate blank j) : j.Plain := by
  rcases h with h | ⟨fs, rfl, h⟩
  · exact h.plain
  · exact .object fun f hf => (h f hf).2.plain

theorem IsColumns.plain (h : IsColumns blank j) : j.Plain := by
  obtain ⟨items, rfl, -, h⟩ := h
  exact .array fun x hx => (h x hx).plain

theorem IsKey.plain (h : IsKey blank j) : j.Plain := by
  rcases h with h | ⟨fs, rfl, h, -⟩
  · exact h.plain
  · refine .object fun f hf => ?_
    rcases h f hf with ⟨-, h⟩ | ⟨-, h⟩
    · exact h.plain
    · exact h.plain

theorem IsFunctions.plain (h : IsFunctions blank j) : j.Plain := by
  rcases h with h | ⟨fs, rfl, h⟩
  · exact h.plain
  · exact .object fun f hf => (h f hf).2.plain

namespace Leeway

variable {R : Leeway}

theorem IsVerb.plain {verb : CrossingVerb} (h : R.IsVerb verb j) : j.Plain := by
  cases verb with
  | create | drop => exact IsFlag.plain h
  | insert => exact IsInsert.plain h
  | update => exact IsUpdate.plain h
  | select | delete | alter => exact IsGrant.plain h

theorem IsTable.plain (h : R.IsTable j) : j.Plain := by
  obtain ⟨fs, rfl, h, -⟩ := h
  refine .object fun f hf => ?_
  rcases h f hf with ⟨verb, -, -, h⟩ | ⟨-, h⟩ | ⟨-, h⟩
  · exact h.plain
  · exact h.plain
  · exact h.plain

theorem IsSchema.plain (h : R.IsSchema j) : j.Plain := by
  obtain ⟨fs, rfl, h⟩ := h
  exact .object fun f hf => (h f hf).2.plain

/-- A document lowers if its version does. -/
theorem Format.plain (hv : ∀ n, R.version n → ∃ i, n.sint = some i) (h : R.Format j) : j.Plain := by
  obtain ⟨fs, rfl, h, -⟩ := h
  refine .object fun f hf => ?_
  rcases h f hf with ⟨-, s, hs, -⟩ | ⟨-, n, hn, hR⟩ | ⟨-, gs, hg, h⟩ | ⟨-, gs, hg, h⟩ | ⟨-, h⟩
  · exact hs ▸ .string s
  · obtain ⟨i, hi⟩ := hv n hR
    exact hn ▸ .number hi
  · exact hg ▸ .object fun g hgm => (h g hgm).plain
  · exact hg ▸ .object fun g hgm => (h g hgm).plain
  · exact h.plain

end Leeway

end Plain

/-- What the parser asks of a member of the document. -/
def MemberOk (f : String × Json) : Prop :=
  f.1 ∈ policyKeys ∧ (f.1 = "policy_version" → f.2 = .number (.integer 1)) ∧
    (f.1 = "$schema" → IsText rTrims f.2) ∧
    (f.1 = "schemas" → ∃ s, parseSchemas f.2.lower = .ok s) ∧
    (f.1 = "tables" → ∃ t, parseTables f.2.lower = .ok t) ∧
    (f.1 = "functions" → IsFunctions rTrims f.2)

theorem memberOk_iff {f : String × Json} (hp : f.2.Plain) (hn : f.2.NoTwins) :
    MemberOk f ↔ parserLeeway.IsMember f ∧
      (f.1 = "tables" → ∀ e ∈ f.2.fields, TableNames e.1 e.2) ∧
      (f.1 = "schemas" → ∀ e ∈ f.2.fields, GrantsCreate e.2 →
        ∃ p, parsePolicySchemaName e.1 = .ok p) := by
  rw [MemberOk, parseSchemas_ok hp hn, parseTables_ok hp hn, Leeway.IsMember]
  by_cases hmem : f.1 ∈ policyKeys
  · obtain ⟨key, j⟩ := f
    simp only [policyKeys, List.mem_cons, List.not_mem_nil, or_false] at hmem
    rcases hmem with rfl | rfl | rfl | rfl | rfl
    · simp [policyKeys, parserLeeway, IsText, NonBlank]
    · simp [policyKeys, parserLeeway]
    · simp [policyKeys]
    · simp [policyKeys]
    · simp [policyKeys, parserLeeway]
  · refine iff_of_false (fun h => hmem h.1) ?_
    rintro ⟨⟨h, -⟩ | ⟨h, -⟩ | ⟨h, -⟩ | ⟨h, -⟩ | ⟨h, -⟩, -⟩ <;>
      exact hmem (by rw [h]; decide)

theorem parsePolicyJson_object {fs : List (String × Json)} :
    (∃ config, parsePolicyJson (.object fs) = .ok config) ↔
      (Json.object fs).Plain ∧ (Json.object fs).NoTwins ∧
        (∀ f ∈ fs, MemberOk f) ∧ ∃ f ∈ fs, f.1 = "policy_version" := by
  have lowered : ∀ rs, fieldsFromJson "" ∅ fs = .ok rs ↔
      ((Json.object fs).Plain ∧ (Json.object fs).NoTwins) ∧ Json.lowerFields fs = rs := by
    intro rs
    have := @fromJson_eq_ok "" (.object fs) (.object rs)
    rw [fromJson, Json.lower, RawValue.object.injEq] at this
    rw [← this, bind_eq_ok_iff]
    simp [pure, Except.pure]
  simp only [parsePolicyJson, exists_bind_ok, lowered, and_assoc, exists_and_left, exists_eq_left']
  refine and_congr_right fun hp => and_congr_right fun hn => ?_
  have nodup := (Json.noTwins_object.1 hn).1
  have functions : (∀ f ∈ fs, f.1 = "functions" → ∃ r, parseFunctions "functions" f.2.lower = .ok r) ↔
      ∀ f ∈ fs, f.1 = "functions" → IsFunctions rTrims f.2 :=
    forall₂_congr fun f hf => imp_congr_right fun _ =>
      parseFunctions_ok ((Json.noTwins_object.1 hn).2 f hf)
  simp only [throwIfUnknownFields_lowerFields, exists_const, checkVersion_ok nodup, exists_and_right,
    optional_ok nodup, exists_pure_ok, and_true, MemberOk, isText_iff, functions, forall₂_and]
  tauto

/-- **The parser accepts exactly the documents of the format under its own leeway**, with names it
can read and no key given twice. -/
theorem parsePolicyJson_ok_iff {document : Json} :
    (∃ config, parsePolicyJson document = .ok config) ↔
      parserLeeway.Format document ∧ document.NoTwins ∧ NamesRead document := by
  by_cases ho : ∃ fs, document = .object fs
  · obtain ⟨fs, rfl⟩ := ho
    have plain : parserLeeway.Format (.object fs) → (Json.object fs).Plain :=
      Leeway.Format.plain fun n hn => ⟨1, sint_eq_one.2 hn⟩
    rw [parsePolicyJson_object]
    have main : (Json.object fs).Plain → (Json.object fs).NoTwins →
        (((∀ f ∈ fs, MemberOk f) ∧ ∃ f ∈ fs, f.1 = "policy_version") ↔
          parserLeeway.Format (.object fs) ∧ NamesRead (.object fs)) := by
      intro hp hn
      have members : (∀ f ∈ fs, MemberOk f) ↔ _ := forall₂_congr fun f hf =>
        memberOk_iff (by cases hp with | object h => exact h f hf) ((Json.noTwins_object.1 hn).2 f hf)
      rw [members, forall₂_and, forall₂_and, Leeway.Format, NamesRead]
      simp only [Json.object.injEq, exists_eq_left', Json.mem_entries]
      constructor
      · rintro ⟨⟨hall, ht, hs⟩, hver⟩
        exact ⟨⟨hall, hver⟩, fun e ⟨f, hf, hk, he⟩ => ht f hf hk e he,
          fun e ⟨f, hf, hk, he⟩ => hs f hf hk e he⟩
      · rintro ⟨⟨hall, hver⟩, ht, hs⟩
        exact ⟨⟨hall, fun f hf hk e he => ht e ⟨f, hf, hk, he⟩,
          fun f hf hk e he => hs e ⟨f, hf, hk, he⟩⟩, hver⟩
    constructor
    · rintro ⟨hp, hn, h⟩
      obtain ⟨hf, hnames⟩ := (main hp hn).1 h
      exact ⟨hf, hn, hnames⟩
    · rintro ⟨hf, hn, hnames⟩
      exact ⟨plain hf, hn, (main (plain hf) hn).2 ⟨hf, hnames⟩⟩
  · refine iff_of_false ?_ ?_
    · rintro ⟨config, h⟩
      rw [parsePolicyJson.eq_def] at h
      split at h
      next fs => exact ho ⟨fs, rfl⟩
      next => cases h
    · rintro ⟨⟨fs, rfl, -⟩, -⟩
      exact ho ⟨fs, rfl⟩

end VirtualCatalog
