import Mathlib.Algebra.Ring.Int.Defs
import Mathlib.Data.List.Nodup

/-!
# JSON values

The tree a JSON document is read into, before any program decides what it means.  An object keeps
its members in order and may repeat a key.

* `JsonNumber` : a number as it is written, an integer literal or one with a fraction or exponent.
* `Json` : the tree, with its induction principle `Json.ind`.
* `Json.texts`, `Json.objectKeys` : the string values of a tree, and the keys of its objects.
-/

namespace VirtualCatalog

/-- A number as it is written. -/
inductive JsonNumber where
  | integer (n : Int)
  /-- A literal with a fraction or an exponent: `mantissa · 10 ^ exponent`. -/
  | decimal (mantissa exponent : Int)
deriving DecidableEq

/-- The number is the integer `n`, however it is written. -/
def JsonNumber.Is (n : Int) : JsonNumber → Prop
  | integer m => m = n
  | decimal mantissa exponent => mantissa * 10 ^ exponent.toNat = n * 10 ^ (-exponent).toNat

instance (n : Int) (x : JsonNumber) : Decidable (x.Is n) := by
  cases x <;> unfold JsonNumber.Is <;> infer_instance

/-- A JSON value. -/
inductive Json where
  | null
  | bool (b : Bool)
  | number (n : JsonNumber)
  | string (s : String)
  | array (items : List Json)
  | object (fields : List (String × Json))

namespace Json

/-- Induction over a tree. -/
@[elab_as_elim]
theorem ind {P : Json → Prop} (null : P null) (bool : ∀ b, P (bool b))
    (number : ∀ n, P (number n)) (string : ∀ s, P (string s))
    (array : ∀ items, (∀ j ∈ items, P j) → P (array items))
    (object : ∀ fields, (∀ f ∈ fields, P f.2) → P (object fields)) : ∀ j, P j :=
  @Json.rec P (fun js => ∀ j ∈ js, P j) (fun fs => ∀ f ∈ fs, P f.2) (fun f => P f.2)
    null bool number string array object
    (fun _ h => absurd h List.not_mem_nil)
    (fun _ _ h hs => List.forall_mem_cons.2 ⟨h, hs⟩)
    (fun _ h => absurd h List.not_mem_nil)
    (fun _ _ h hs => List.forall_mem_cons.2 ⟨h, hs⟩)
    fun _ _ h => h

mutual

/-- The string values of a tree; a key is none. -/
def texts : Json → List String
  | string s => [s]
  | array items => textsOfItems items
  | object fields => textsOfFields fields
  | _ => []

/-- The string values of the trees of a list. -/
def textsOfItems : List Json → List String
  | [] => []
  | j :: js => texts j ++ textsOfItems js

/-- The string values of the members of an object. -/
def textsOfFields : List (String × Json) → List String
  | [] => []
  | (_, j) :: fs => texts j ++ textsOfFields fs

end

mutual

/-- The keys of every object of a tree. -/
def objectKeys : Json → List (List String)
  | array items => objectKeysOfItems items
  | object fields => fields.map Prod.fst :: objectKeysOfFields fields
  | _ => []

/-- The keys of every object of the trees of a list. -/
def objectKeysOfItems : List Json → List (List String)
  | [] => []
  | j :: js => objectKeys j ++ objectKeysOfItems js

/-- The keys of every object of the members of an object. -/
def objectKeysOfFields : List (String × Json) → List (List String)
  | [] => []
  | (_, j) :: fs => objectKeys j ++ objectKeysOfFields fs

end

theorem textsOfItems_eq (js : List Json) : textsOfItems js = js.flatMap texts := by
  induction js with
  | nil => rfl
  | cons j js ih => rw [textsOfItems, ih, List.flatMap_cons]

theorem textsOfFields_eq (fs : List (String × Json)) :
    textsOfFields fs = fs.flatMap fun f => f.2.texts := by
  induction fs with
  | nil => rfl
  | cons f fs ih => rw [textsOfFields, ih, List.flatMap_cons]

theorem objectKeysOfItems_eq (js : List Json) : objectKeysOfItems js = js.flatMap objectKeys := by
  induction js with
  | nil => rfl
  | cons j js ih => rw [objectKeysOfItems, ih, List.flatMap_cons]

theorem objectKeysOfFields_eq (fs : List (String × Json)) :
    objectKeysOfFields fs = fs.flatMap fun f => f.2.objectKeys := by
  induction fs with
  | nil => rfl
  | cons f fs ih => rw [objectKeysOfFields, ih, List.flatMap_cons]

@[simp] theorem texts_string (s : String) : (string s).texts = [s] := rfl

@[simp] theorem texts_bool (b : Bool) : (bool b).texts = [] := rfl

theorem mem_texts_array {items : List Json} {s : String} :
    s ∈ (array items).texts ↔ ∃ j ∈ items, s ∈ j.texts := by
  rw [texts, textsOfItems_eq, List.mem_flatMap]

theorem mem_texts_object {fields : List (String × Json)} {s : String} :
    s ∈ (object fields).texts ↔ ∃ f ∈ fields, s ∈ f.2.texts := by
  rw [texts, textsOfFields_eq, List.mem_flatMap]

theorem mem_objectKeys_array {items : List Json} {ks : List String} :
    ks ∈ (array items).objectKeys ↔ ∃ j ∈ items, ks ∈ j.objectKeys := by
  rw [objectKeys, objectKeysOfItems_eq, List.mem_flatMap]

theorem mem_objectKeys_object {fields : List (String × Json)} {ks : List String} :
    ks ∈ (object fields).objectKeys ↔
      ks = fields.map Prod.fst ∨ ∃ f ∈ fields, ks ∈ f.2.objectKeys := by
  rw [objectKeys, objectKeysOfFields_eq, List.mem_cons, List.mem_flatMap]

end Json

end VirtualCatalog
