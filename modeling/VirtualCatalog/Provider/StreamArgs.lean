import VirtualCatalog.Json.Text

/-!
# The arguments of a stream function

A stream function hands the values of its call to the host as a JSON array.  Booleans, signed
integers and floats have branches of their own; every other value crosses as the text that
`Value::ToString` makes of it.

* `ArgValue` : a value of a call; what doubles and the remaining types are is left open.
* `argsJsonFromValues` : the JSON text of a list of values.
* `ArgValue.json?` : the boolean, integer, string or null that a value is.
* `argsJson_survives_iff` : the array is read back as those values, if none is an unsigned integer.
-/

namespace VirtualCatalog.Provider

/-! ### The text of the arguments -/

/-- A value of a call.  `F` are the doubles, and `O` the values of types without a branch. -/
inductive ArgValue (F O : Type) where
  /-- `NULL` of any type. -/
  | null
  | boolean (b : Bool)
  | tinyint (n : Int8)
  | smallint (n : Int16)
  | integer (n : Int32)
  | bigint (n : Int64)
  | utinyint (n : UInt8)
  | usmallint (n : UInt16)
  | uinteger (n : UInt32)
  | ubigint (n : UInt64)
  /-- A `FLOAT` or `DOUBLE`, as a double. -/
  | floating (x : F)
  | varchar (s : String)
  | other (v : O)

/-- How the values that are left open are written. -/
structure ArgFormats (F O : Type) where
  /-- What yyjson writes for a double. -/
  real : F → List Char
  /-- `Value::ToString` of a double. -/
  floatingText : F → String
  /-- `Value::ToString` of another type. -/
  otherText : O → String

/-- An element of a mutable yyjson array. -/
inductive ArgElement (F : Type) where
  | null
  | bool (b : Bool)
  | sint (n : Int64)
  | real (x : F)
  | str (s : String)

section

variable {F O : Type} (formats : ArgFormats F O)

/-- `Value::ToString`. -/
def ArgValue.toText : ArgValue F O → String
  | null => "NULL"
  | boolean b => if b then "true" else "false"
  | tinyint n => .ofList (intText n.toInt)
  | smallint n => .ofList (intText n.toInt)
  | integer n => .ofList (intText n.toInt)
  | bigint n => .ofList (intText n.toInt)
  | utinyint n => .ofList (intText n.toNat)
  | usmallint n => .ofList (intText n.toNat)
  | uinteger n => .ofList (intText n.toNat)
  | ubigint n => .ofList (intText n.toNat)
  | floating x => formats.floatingText x
  | varchar s => s
  | other v => formats.otherText v

/-- The element for one value. -/
def ArgValue.element : ArgValue F O → ArgElement F
  | null => .null
  | boolean b => .bool b
  | tinyint n => .sint n.toInt64
  | smallint n => .sint n.toInt64
  | integer n => .sint n.toInt64
  | bigint n => .sint n
  | floating x => .real x
  | value => .str (value.toText formats)

/-- What yyjson writes for an element. -/
def ArgElement.text : ArgElement F → List Char
  | null => Json.null.text
  | bool b => (Json.bool b).text
  | sint n => intText n.toInt
  | real x => formats.real x
  | str s => stringText s.toList

/-- `SerializeJsonDocAndFree` of an array. -/
def serializeElements : List (ArgElement F) → List Char
  | [] => ['[', ']']
  | e :: es => '[' :: (e.text formats ++ (es.flatMap fun e => ',' :: e.text formats) ++ [']'])

/-- `ArgsJsonFromValues`. -/
def argsJsonFromValues (values : List (ArgValue F O)) : List Char :=
  serializeElements formats (values.map (ArgValue.element formats))

end

/-! ### What the arguments are -/

section

variable {F O : Type}

/-- The boolean, integer, string or null that the value is; none for the other types. -/
def ArgValue.json? : ArgValue F O → Option Json
  | null => some .null
  | boolean b => some (.bool b)
  | tinyint n => some (.number (.integer n.toInt))
  | smallint n => some (.number (.integer n.toInt))
  | integer n => some (.number (.integer n.toInt))
  | bigint n => some (.number (.integer n.toInt))
  | utinyint n => some (.number (.integer n.toNat))
  | usmallint n => some (.number (.integer n.toNat))
  | uinteger n => some (.number (.integer n.toNat))
  | ubigint n => some (.number (.integer n.toNat))
  | varchar s => some (.string s)
  | floating _ => none
  | other _ => none

/-- A value of an unsigned type that is not `NULL`. -/
def ArgValue.isUnsigned : ArgValue F O → Bool
  | utinyint _ | usmallint _ | uinteger _ | ubigint _ => true
  | _ => false

/-- The tree of an element. -/
def ArgElement.json? : ArgElement F → Option Json
  | null => some .null
  | bool b => some (.bool b)
  | sint n => some (.number (.integer n.toInt))
  | real _ => none
  | str s => some (.string s)

variable {formats : ArgFormats F O} {values : List (ArgValue F O)} {js : List Json}

theorem ArgElement.text_eq {e : ArgElement F} {j : Json} (h : e.json? = some j) :
    e.text formats = j.text := by
  cases e with
  | real x => cases h
  | _ => cases h; rfl

/-- The text of the elements is that of their array. -/
theorem serializeElements_eq {es : List (ArgElement F)}
    (h : List.Forall₂ (fun e j => ArgElement.json? e = some j) es js) :
    serializeElements formats es = (Json.array js).text := by
  have more : ∀ {es : List (ArgElement F)} {js : List Json},
      List.Forall₂ (fun e j => ArgElement.json? e = some j) es js →
        (es.flatMap fun e => ',' :: e.text formats) ++ [']'] = Json.moreItemsText js := by
    intro es js h
    induction h with
    | nil => rfl
    | cons he _ ih =>
      rw [List.flatMap_cons, List.append_assoc, ih, ArgElement.text_eq he]
      rfl
  cases h with
  | nil => rfl
  | cons he hes =>
    rw [serializeElements, List.append_assoc, more hes, ArgElement.text_eq he]
    rfl

/-- The element of a value is the value, unless it is an unsigned integer. -/
theorem ArgValue.json_element (formats : ArgFormats F O) {v : ArgValue F O} {j : Json} (h : v.json? = some j) :
    ∃ j', (v.element formats).json? = some j' ∧ (j' = j ↔ v.isUnsigned = false) := by
  cases v with
  | floating x => cases h
  | other o => cases h
  | utinyint n => cases h; exact ⟨_, rfl, nofun, nofun⟩
  | usmallint n => cases h; exact ⟨_, rfl, nofun, nofun⟩
  | uinteger n => cases h; exact ⟨_, rfl, nofun, nofun⟩
  | ubigint n => cases h; exact ⟨_, rfl, nofun, nofun⟩
  | tinyint n => cases h; exact ⟨_, rfl, by simp [isUnsigned]⟩
  | smallint n => cases h; exact ⟨_, rfl, by simp [isUnsigned]⟩
  | integer n => cases h; exact ⟨_, rfl, by simp [isUnsigned]⟩
  | _ => cases h; exact ⟨_, rfl, fun _ => rfl, fun _ => rfl⟩

theorem json_elements (formats : ArgFormats F O)
    (h : List.Forall₂ (fun v j => ArgValue.json? v = some j) values js) :
    ∃ js', List.Forall₂ (fun e j => ArgElement.json? e = some j)
      (values.map (ArgValue.element formats)) js' ∧
        (js' = js ↔ ∀ v ∈ values, v.isUnsigned = false) := by
  induction h with
  | nil => exact ⟨[], .nil, by simp⟩
  | cons hv _ ih =>
    obtain ⟨j', hj', hiff⟩ := ArgValue.json_element formats hv
    obtain ⟨js', hjs', hiffs⟩ := ih
    refine ⟨j' :: js', .cons hj' hjs', ?_⟩
    rw [List.cons.injEq, hiff, hiffs, List.forall_mem_cons]

/-- What the text is read back as. -/
theorem parse_argsJson (formats : ArgFormats F O)
    (h : List.Forall₂ (fun v j => ArgValue.json? v = some j) values js) :
    ∃ js', Json.parse (argsJsonFromValues formats values) = some (.array js') ∧
      (js' = js ↔ ∀ v ∈ values, v.isUnsigned = false) := by
  obtain ⟨js', hjs', hiff⟩ := json_elements formats h
  refine ⟨js', ?_, hiff⟩
  rw [argsJsonFromValues, serializeElements_eq hjs', Json.parse_text]

/-- **The arguments survive JSON** exactly if none is an unsigned integer, for every list of booleans,
integers of at most 64 bits, strings and nulls; and then different lists have different texts. -/
theorem argsJson_survives_iff (h : List.Forall₂ (fun v j => ArgValue.json? v = some j) values js) :
    (Json.parse (argsJsonFromValues formats values) = some (.array js) ↔
      ∀ v ∈ values, v.isUnsigned = false) ∧
    ∀ values' js', List.Forall₂ (fun v j => ArgValue.json? v = some j) values' js' →
      (∀ v ∈ values ++ values', v.isUnsigned = false) →
        argsJsonFromValues formats values = argsJsonFromValues formats values' → js = js' := by
  obtain ⟨read, hread, hiff⟩ := parse_argsJson formats h
  refine ⟨?_, fun values' js' h' hall heq => ?_⟩
  · rw [hread, Option.some.injEq, Json.array.injEq]
    exact hiff
  · obtain ⟨read', hread', hiff'⟩ := parse_argsJson formats h'
    rw [← hiff.2 fun v hv => hall v (List.mem_append_left _ hv),
      ← hiff'.2 fun v hv => hall v (List.mem_append_right _ hv)]
    rw [heq, hread'] at hread
    exact (Json.array.inj (Option.some.inj hread)).symm

end

namespace Sample

/-- A process without other types. -/
def formats : ArgFormats Unit Unit := ⟨fun _ => [], fun _ => "", fun _ => ""⟩

end Sample

/-- An unsigned five arrives as a string, like the string that says five. -/
theorem not_argsJson_survives : ¬ ∀ (F O : Type) (formats : ArgFormats F O)
    (values : List (ArgValue F O)) (js : List Json),
      List.Forall₂ (fun v j => ArgValue.json? v = some j) values js →
        Json.parse (argsJsonFromValues formats values) = some (.array js) := by
  intro h
  have hread := h Unit Unit Sample.formats [.ubigint 5] [.number (.integer 5)] (.cons rfl .nil)
  have hstring : Json.parse (argsJsonFromValues Sample.formats [.ubigint 5]) =
      some (.array [.string "5"]) := by
    have htext : argsJsonFromValues Sample.formats [.ubigint 5] = (Json.array [.string "5"]).text :=
      rfl
    rw [htext, Json.parse_text]
  rw [hstring] at hread
  cases hread

theorem argsJson_survives_iff_signed :
    Json.parse (argsJsonFromValues Sample.formats
      [.boolean true, .bigint (-5), .varchar "say \"5\"", .null]) =
        some (.array [.bool true, .number (.integer (-5)), .string "say \"5\"", .null]) :=
  (argsJson_survives_iff (.cons rfl (.cons rfl (.cons rfl (.cons rfl .nil))))).1.2 (by decide)

end VirtualCatalog.Provider
