import VirtualCatalog.Json.Value
import Mathlib.Data.List.Infix

/-!
# JSON Schema

The part of JSON Schema (draft 2020-12) that closed formats are written in: a schema is a list of
keywords, each of which restricts the values of one kind and lets every other value pass.

* `Pattern` : a regular expression that is a run of characters and of repeated characters, with
  its two anchors.
* `Schema` : the keywords; `Schema.valid` says which values satisfy one.
* `Schema.valid_oneOf`, `Schema.valid_closed` : the two keywords that are not read off at once.
-/

namespace VirtualCatalog

/-! ### Regular expressions -/

/-- One step of a pattern. -/
inductive PatternItem where
  | one (p : Char → Bool)
  | many (p : Char → Bool)

/-- A regular expression; without anchors it may match anywhere in a text. -/
structure Pattern where
  items : List PatternItem
  atStart : Bool := false
  atEnd : Bool := false

namespace Pattern

/-- What may be left of a text once characters that satisfy `p` are taken off its front. -/
def dropMany (p : Char → Bool) : List Char → List (List Char)
  | [] => [[]]
  | c :: cs => (c :: cs) :: if p c then dropMany p cs else []

/-- The items match a front of the text, or all of it. -/
def matchHere (atEnd : Bool) : List PatternItem → List Char → Bool
  | [], cs => !atEnd || cs.isEmpty
  | .one p :: items, cs =>
    match cs with
    | [] => false
    | c :: cs => p c && matchHere atEnd items cs
  | .many p :: items, cs => (dropMany p cs).any (matchHere atEnd items)

/-- The text has a match. -/
def search (r : Pattern) (s : String) : Bool :=
  if r.atStart then matchHere r.atEnd r.items s.toList
  else s.toList.tails.any (matchHere r.atEnd r.items)

theorem mem_dropMany {p : Char → Bool} {cs rest : List Char} :
    rest ∈ dropMany p cs ↔ ∃ front, cs = front ++ rest ∧ ∀ c ∈ front, p c = true := by
  induction cs with
  | nil =>
    rw [dropMany, List.mem_singleton]
    constructor
    · rintro rfl
      exact ⟨[], rfl, by simp⟩
    · rintro ⟨front, h, -⟩
      exact (List.append_eq_nil_iff.1 h.symm).2
  | cons c cs ih =>
    rw [dropMany, List.mem_cons]
    constructor
    · rintro (rfl | h)
      · exact ⟨[], rfl, by simp⟩
      · split_ifs at h with hc
        · obtain ⟨front, rfl, hf⟩ := ih.1 h
          exact ⟨c :: front, rfl, List.forall_mem_cons.2 ⟨hc, hf⟩⟩
        · cases h
    · rintro ⟨front, h, hf⟩
      cases front with
      | nil => exact .inl h.symm
      | cons d front =>
        obtain ⟨rfl, rfl⟩ := List.cons.inj h
        obtain ⟨hc, hf⟩ := List.forall_mem_cons.1 hf
        exact .inr (by rw [if_pos hc]; exact ih.2 ⟨front, rfl, hf⟩)

theorem matchHere_many {atEnd : Bool} {p : Char → Bool} {items : List PatternItem}
    {cs : List Char} :
    matchHere atEnd (.many p :: items) cs = true ↔
      ∃ front rest, cs = front ++ rest ∧ (∀ c ∈ front, p c = true) ∧
        matchHere atEnd items rest = true := by
  rw [matchHere, List.any_eq_true]
  constructor
  · rintro ⟨rest, hr, hm⟩
    obtain ⟨front, rfl, hf⟩ := mem_dropMany.1 hr
    exact ⟨front, rest, rfl, hf, hm⟩
  · rintro ⟨front, rest, rfl, hf, hm⟩
    exact ⟨rest, mem_dropMany.2 ⟨front, rfl, hf⟩, hm⟩

theorem matchHere_one {atEnd : Bool} {p : Char → Bool} {items : List PatternItem}
    {cs : List Char} :
    matchHere atEnd (.one p :: items) cs = true ↔
      ∃ c rest, cs = c :: rest ∧ p c = true ∧ matchHere atEnd items rest = true := by
  cases cs with
  | nil => simp [matchHere]
  | cons c cs => simp [matchHere]

/-- A single character is searched for anywhere. -/
theorem search_one {p : Char → Bool} {s : String} :
    search ⟨[.one p], false, false⟩ s = true ↔ ∃ c ∈ s.toList, p c = true := by
  simp only [search, Bool.false_eq_true, if_false, List.any_eq_true, List.mem_tails,
    matchHere_one]
  constructor
  · rintro ⟨_, ⟨front, h⟩, c, rest, rfl, hc, -⟩
    exact ⟨c, by simp [← h], hc⟩
  · rintro ⟨c, hc, hp⟩
    obtain ⟨front, rest, h⟩ := List.append_of_mem hc
    exact ⟨c :: rest, ⟨front, h.symm⟩, c, rest, rfl, hp, rfl⟩

end Pattern

/-! ### Schemas -/

/-- The kinds of a value a schema names. -/
inductive JsonType where
  | boolean
  | string
  | array
  | object
deriving DecidableEq

/-- The value is of the kind. -/
def JsonType.holds : JsonType → Json → Bool
  | .boolean, .bool _ => true
  | .string, .string _ => true
  | .array, .array _ => true
  | .object, .object _ => true
  | _, _ => false

/-- A constant of a schema. -/
inductive JsonConst where
  | bool (b : Bool)
  | integer (n : Int)
deriving DecidableEq

/-- The value is the constant; a number by its value, not by how it is written. -/
def JsonConst.holds : JsonConst → Json → Bool
  | .bool b, .bool b' => b == b'
  | .integer n, .number x => decide (x.Is n)
  | _, _ => false

/-- A schema. -/
inductive Schema where
  /-- A schema object: all its keywords. -/
  | all (keywords : List Schema)
  | anyOf (alternatives : List Schema)
  | oneOf (alternatives : List Schema)
  | not (schema : Schema)
  | type (kind : JsonType)
  | const (value : JsonConst)
  | minLength (n : Nat)
  | pattern (p : Pattern)
  | minItems (n : Nat)
  | items (schema : Schema)
  | required (keys : List String)
  /-- `properties` without `additionalProperties`. -/
  | properties (known : List (String × Schema))
  /-- `properties` with `additionalProperties` false. -/
  | closed (known : List (String × Schema))
  /-- `additionalProperties` without `properties`. -/
  | additional (schema : Schema)

namespace Schema

mutual

/-- The value satisfies the schema. -/
def valid : Schema → Json → Bool
  | .all keywords, j => validAll keywords j
  | .anyOf alternatives, j => 0 < countValid alternatives j
  | .oneOf alternatives, j => countValid alternatives j == 1
  | .not schema, j => !valid schema j
  | .type kind, j => kind.holds j
  -- numbers are compared by value
  | .const value, j => value.holds j
  | .minLength n, .string s => n ≤ s.length
  | .pattern p, .string s => p.search s
  | .minItems n, .array js => n ≤ js.length
  | .items schema, .array js => js.all (valid schema)
  | .required keys, .object fs => keys.all fun k => fs.any fun f => f.1 == k
  | .properties known, .object fs => fs.all fun f => (validProperty known f).getD true
  | .closed known, .object fs => fs.all fun f => (validProperty known f).getD false
  | .additional schema, .object fs => fs.all fun f => valid schema f.2
  -- a keyword for another kind of value asks nothing of this one
  | _, _ => true

/-- The value satisfies every schema. -/
def validAll : List Schema → Json → Bool
  | [], _ => true
  | s :: ss, j => valid s j && validAll ss j

/-- How many of the schemas the value satisfies. -/
def countValid : List Schema → Json → Nat
  | [], _ => 0
  | s :: ss, j => (if valid s j then 1 else 0) + countValid ss j

/-- Whether a member satisfies the schema of its key, if there is one. -/
def validProperty : List (String × Schema) → String × Json → Option Bool
  | [], _ => none
  | (k, s) :: known, f => if f.1 = k then some (valid s f.2) else validProperty known f

end

attribute [grind =] valid

variable {j : Json}

theorem valid_all {keywords : List Schema} :
    (all keywords).valid j = true ↔ ∀ s ∈ keywords, s.valid j = true := by
  rw [valid]
  induction keywords with
  | nil => simp [validAll]
  | cons s ss ih => rw [validAll, Bool.and_eq_true, ih, List.forall_mem_cons]

theorem countValid_pos {ss : List Schema} : 0 < countValid ss j ↔ ∃ s ∈ ss, s.valid j = true := by
  induction ss with
  | nil => simp [countValid]
  | cons s ss ih =>
    rw [countValid, List.exists_mem_cons_iff, ← ih]
    cases s.valid j with
    | true =>
      rw [if_pos rfl, Nat.add_comm]
      exact iff_of_true (Nat.succ_pos _) (.inl rfl)
    | false => simp

theorem valid_anyOf {alternatives : List Schema} :
    (anyOf alternatives).valid j = true ↔ ∃ s ∈ alternatives, s.valid j = true := by
  rw [valid, decide_eq_true_iff, countValid_pos]

/-- Of two alternatives that exclude each other, either. -/
theorem valid_oneOf {s t : Schema} (h : s.valid j = true → t.valid j = false) :
    (oneOf [s, t]).valid j = true ↔ s.valid j = true ∨ t.valid j = true := by
  rw [valid, beq_iff_eq]
  cases hs : s.valid j with
  | true => simp [countValid, hs, h hs]
  | false => cases ht : t.valid j <;> simp [countValid, hs, ht]

theorem validProperty_eq_some {known : List (String × Schema)} {f : String × Json} {b : Bool}
    (h : validProperty known f = some b) : ∃ s, (f.1, s) ∈ known ∧ s.valid f.2 = b := by
  induction known with
  | nil => simp [validProperty] at h
  | cons p known ih =>
    obtain ⟨k, s⟩ := p
    rw [validProperty] at h
    split_ifs at h with hk
    · exact ⟨s, hk ▸ List.mem_cons_self, Option.some.inj h⟩
    · obtain ⟨s', hm, hs⟩ := ih h
      exact ⟨s', List.mem_cons_of_mem _ hm, hs⟩

/-- A key that is listed once has its schema. -/
theorem validProperty_of_mem {known : List (String × Schema)} (hn : (known.map Prod.fst).Nodup)
    {f : String × Json} {s : Schema} (h : (f.1, s) ∈ known) :
    validProperty known f = some (s.valid f.2) := by
  induction known with
  | nil => cases h
  | cons p known ih =>
    obtain ⟨k, t⟩ := p
    rw [List.map_cons, List.nodup_cons] at hn
    rw [validProperty]
    rcases List.mem_cons.1 h with heq | hm
    · obtain ⟨hk, rfl⟩ := Prod.mk.inj heq
      rw [if_pos hk]
    · have hk : f.1 ≠ k := fun hk => hn.1 (List.mem_map.2 ⟨_, hm, hk⟩)
      rw [if_neg hk, ih hn.2 hm]

/-- Every member of a closed object has a known key and satisfies its schema. -/
theorem valid_closed {known : List (String × Schema)} (hn : (known.map Prod.fst).Nodup)
    {fs : List (String × Json)} :
    (closed known).valid (.object fs) = true ↔
      ∀ f ∈ fs, ∃ s, (f.1, s) ∈ known ∧ s.valid f.2 = true := by
  rw [valid, List.all_eq_true]
  refine forall₂_congr fun f _ => ⟨fun h => ?_, ?_⟩
  · cases hp : validProperty known f with
    | none => simp [hp] at h
    | some b =>
      obtain ⟨s, hm, hs⟩ := validProperty_eq_some hp
      rw [hp, Option.getD_some] at h
      exact ⟨s, hm, hs.trans h⟩
  · rintro ⟨s, hm, hs⟩
    rw [validProperty_of_mem hn hm, Option.getD_some, hs]

/-! ### Keywords of one kind of value -/

theorem valid_type_object : (type .object).valid j = true ↔ ∃ fs, j = .object fs := by
  cases j <;> simp [valid, JsonType.holds]

theorem valid_type_array : (type .array).valid j = true ↔ ∃ items, j = .array items := by
  cases j <;> simp [valid, JsonType.holds]

theorem valid_type_string : (type .string).valid j = true ↔ ∃ s, j = .string s := by
  cases j <;> simp [valid, JsonType.holds]

theorem valid_type_boolean : (type .boolean).valid j = true ↔ ∃ b, j = .bool b := by
  cases j <;> simp [valid, JsonType.holds]

theorem valid_const_bool {b : Bool} : (const (.bool b)).valid j = true ↔ j = .bool b := by
  cases j with
  | bool b' => rw [valid, JsonConst.holds, beq_iff_eq, Json.bool.injEq, eq_comm]
  | _ => simp [valid, JsonConst.holds]

theorem valid_const_integer {n : Int} :
    (const (.integer n)).valid j = true ↔ ∃ x : JsonNumber, j = .number x ∧ x.Is n := by
  cases j <;> simp [valid, JsonConst.holds]

theorem valid_items {schema : Schema} {js : List Json} :
    (items schema).valid (.array js) = true ↔ ∀ x ∈ js, schema.valid x = true := by
  rw [valid, List.all_eq_true]

theorem valid_required {keys : List String} {fs : List (String × Json)} :
    (required keys).valid (.object fs) = true ↔ ∀ k ∈ keys, ∃ f ∈ fs, f.1 = k := by
  simp only [valid, List.all_eq_true, List.any_eq_true, beq_iff_eq]

theorem valid_additional {schema : Schema} {fs : List (String × Json)} :
    (additional schema).valid (.object fs) = true ↔ ∀ f ∈ fs, schema.valid f.2 = true := by
  rw [valid, List.all_eq_true]

/-- A property that is listed alone constrains the members of its key. -/
theorem valid_property {key : String} {schema : Schema} {fs : List (String × Json)} :
    (properties [(key, schema)]).valid (.object fs) = true ↔
      ∀ f ∈ fs, f.1 = key → schema.valid f.2 = true := by
  rw [valid, List.all_eq_true]
  refine forall₂_congr fun f _ => ?_
  rw [validProperty]
  split_ifs with h <;> simp [validProperty, h]

end Schema

end VirtualCatalog
