import Mathlib.Data.List.AList

/-!
# Names compared without regard to case

Catalog, schema, table, column and context names are compared by their ASCII lower case
(`fold`).  `CIMap` is a map keyed by such names and `CISet` a set of them: a key that is already
there keeps the spelling it was first inserted under, which is what a listing shows.

The map is a Mathlib association list keyed by the folded name; the spelling stored with a value
is a subtype, so an entry filed under a name it is not spelled like cannot be built.
-/

namespace VirtualCatalog

/-- The text a name is compared by. -/
def fold (s : String) : List Char := s.toList.map Char.toLower

/-- Equality up to case. -/
def ciEq (a b : String) : Bool := decide (fold a = fold b)

theorem ciEq_iff {a b : String} : ciEq a b = true ↔ fold a = fold b := by simp [ciEq]

@[simp] theorem ciEq_self (a : String) : ciEq a a = true := by simp [ciEq]

/-- A map keyed by names up to case; every entry keeps its spelling. -/
structure CIMap (V : Type*) where
  /-- The entries, filed under the folded name. -/
  slots : AList fun f : List Char => { s : String // fold s = f } × V

namespace CIMap

variable {V : Type*}

instance : EmptyCollection (CIMap V) := ⟨⟨∅⟩⟩

instance : Inhabited (CIMap V) := ⟨∅⟩

/-- The value filed under the folded name `f`. -/
def slot (m : CIMap V) (f : List Char) : Option V := (m.slots.lookup f).map Prod.snd

/-- The value filed under `k`. -/
def find? (m : CIMap V) (k : String) : Option V := m.slot (fold k)

/-- `m[k] = v`: an entry that is already there keeps its spelling. -/
def insert (m : CIMap V) (k : String) (v : V) : CIMap V :=
  ⟨m.slots.insert (fold k) (((m.slots.lookup (fold k)).map Prod.fst).getD ⟨k, rfl⟩, v)⟩

/-- Remove the entry of `k`, if there is one. -/
def erase (m : CIMap V) (k : String) : CIMap V := ⟨m.slots.erase (fold k)⟩

/-- The entries, each with the spelling of its key. -/
def toList (m : CIMap V) : List (String × V) := m.slots.entries.map fun e => (e.2.1.1, e.2.2)

/-- The entry of `k`: the key as it is spelled, and the value. -/
def entryAt (m : CIMap V) (k : String) : Option (String × V) :=
  (m.slots.lookup (fold k)).map fun e => (e.1.1, e.2)

/-- Erase every entry whose value does not satisfy `p`. -/
def keepValues (m : CIMap V) (p : V → Bool) : CIMap V :=
  m.toList.foldl (fun acc e => if p e.2 then acc else acc.erase e.1) m

/-- `k` has an entry. -/
def contains (m : CIMap V) (k : String) : Bool := (m.find? k).isSome

@[simp] theorem find?_empty (k : String) : (∅ : CIMap V).find? k = none := rfl

theorem find?_congr (m : CIMap V) {k k' : String} (h : fold k = fold k') :
    m.find? k = m.find? k' := by
  rw [find?, find?, h]

theorem slot_insert (m : CIMap V) (k : String) (v : V) (f : List Char) :
    (m.insert k v).slot f = if f = fold k then some v else m.slot f := by
  split_ifs with h
  · subst h
    simp [slot, insert]
  · simp [slot, insert, AList.lookup_insert_ne h]

theorem slot_erase (m : CIMap V) (k : String) (f : List Char) :
    (m.erase k).slot f = if f = fold k then none else m.slot f := by
  split_ifs with h
  · subst h
    simp [slot, erase]
  · simp [slot, erase, AList.lookup_erase_ne h]

theorem find?_insert (m : CIMap V) (k k' : String) (v : V) :
    (m.insert k v).find? k' = if fold k' = fold k then some v else m.find? k' :=
  m.slot_insert k v (fold k')

theorem find?_erase (m : CIMap V) (k k' : String) :
    (m.erase k).find? k' = if fold k' = fold k then none else m.find? k' :=
  m.slot_erase k (fold k')

theorem mem_toList_of_slot {m : CIMap V} {f : List Char} {v : V} (h : m.slot f = some v) :
    ∃ k, fold k = f ∧ (k, v) ∈ m.toList := by
  obtain ⟨⟨⟨k', hk'⟩, v'⟩, hl, rfl⟩ := Option.map_eq_some_iff.1 h
  exact ⟨k', hk', List.mem_map.2 ⟨_, AList.mem_lookup_iff.1 hl, rfl⟩⟩

theorem find?_of_mem_toList {m : CIMap V} {k : String} {v : V} (h : (k, v) ∈ m.toList) :
    m.find? k = some v := by
  obtain ⟨⟨f, ⟨s, hs⟩, v'⟩, he, heq⟩ := List.mem_map.1 h
  obtain ⟨rfl, rfl⟩ := Prod.mk.inj heq
  subst hs
  have hl : m.slots.lookup (fold s) = some (⟨s, rfl⟩, v') := AList.mem_lookup_iff.2 he
  simp [find?, slot, hl]

/-! ### Entries with their spelling -/

@[simp] theorem entryAt_empty (k : String) : (∅ : CIMap V).entryAt k = none := rfl

theorem entryAt_congr (m : CIMap V) {k k' : String} (h : fold k = fold k') :
    m.entryAt k = m.entryAt k' := by
  rw [entryAt, entryAt, h]

theorem find?_eq_entryAt (m : CIMap V) (k : String) : m.find? k = (m.entryAt k).map Prod.snd := by
  simp [find?, slot, entryAt, Function.comp_def]

theorem fold_of_entryAt {m : CIMap V} {k s : String} {v : V} (h : m.entryAt k = some (s, v)) :
    fold s = fold k := by
  obtain ⟨⟨⟨s', hs'⟩, v'⟩, -, heq⟩ := Option.map_eq_some_iff.1 h
  obtain ⟨rfl, rfl⟩ := Prod.mk.inj heq
  exact hs'

theorem entryAt_insert (m : CIMap V) (k k' : String) (v : V) :
    (m.insert k v).entryAt k' =
      if fold k' = fold k then some (((m.entryAt k).map Prod.fst).getD k, v)
      else m.entryAt k' := by
  split_ifs with h
  · rw [entryAt_congr _ h]
    cases hl : m.slots.lookup (fold k) <;> simp [entryAt, insert, hl]
  · simp [entryAt, insert, AList.lookup_insert_ne h]

/-- The list shows an entry exactly if its key finds it under that spelling. -/
theorem mem_toList_iff {m : CIMap V} {s : String} {v : V} :
    (s, v) ∈ m.toList ↔ m.entryAt s = some (s, v) := by
  constructor
  · intro h
    obtain ⟨⟨f, ⟨s', hs'⟩, v'⟩, he, heq⟩ := List.mem_map.1 h
    obtain ⟨rfl, rfl⟩ := Prod.mk.inj heq
    subst hs'
    have hl : m.slots.lookup (fold s') = some (⟨s', rfl⟩, v') := AList.mem_lookup_iff.2 he
    simp [entryAt, hl]
  · intro h
    obtain ⟨e, hl, heq⟩ := Option.map_eq_some_iff.1 h
    exact List.mem_map.2 ⟨⟨fold s, e⟩, AList.mem_lookup_iff.1 hl, heq⟩

theorem mem_toList_of_entryAt {m : CIMap V} {k s : String} {v : V}
    (h : m.entryAt k = some (s, v)) : (s, v) ∈ m.toList :=
  mem_toList_iff.2 ((m.entryAt_congr (fold_of_entryAt h)).trans h)

theorem find?_toList (m : CIMap V) (k : String) :
    (m.toList.find? fun e => ciEq k e.1) = m.entryAt k := by
  cases h : m.toList.find? fun e => ciEq k e.1 with
  | some e =>
    obtain ⟨s, v⟩ := e
    have hk := List.find?_some h
    have he := mem_toList_iff.1 (List.mem_of_find?_eq_some h)
    rw [← he]
    exact m.entryAt_congr (ciEq_iff.1 hk).symm
  | none =>
    cases he : m.entryAt k with
    | none => rfl
    | some e =>
      obtain ⟨s, v⟩ := e
      have hs := List.find?_eq_none.1 h _ (mem_toList_of_entryAt he)
      exact absurd (ciEq_iff.2 (fold_of_entryAt he).symm) hs

theorem contains_eq_isSome_entryAt (m : CIMap V) (k : String) :
    m.contains k = (m.entryAt k).isSome := by
  rw [contains, find?_eq_entryAt, Option.isSome_map]

theorem slot_of_toList_nil {m : CIMap V} (h : m.toList = []) (f : List Char) :
    m.slot f = none := by
  have : m.slots.entries = [] := List.map_eq_nil_iff.1 h
  simp [slot, AList.lookup, this]

theorem find?_foldl_erase (p : V → Bool) (es : List (String × V)) (m : CIMap V) (k : String) :
    (es.foldl (fun acc e => if p e.2 then acc else acc.erase e.1) m).find? k =
      if ∃ e ∈ es, p e.2 = false ∧ fold k = fold e.1 then none else m.find? k := by
  induction es generalizing m with
  | nil => simp
  | cons e es ih =>
    rw [List.foldl_cons, ih]
    by_cases hes : ∃ e ∈ es, p e.2 = false ∧ fold k = fold e.1
    · rw [if_pos hes, if_pos (hes.imp fun _ h => ⟨List.mem_cons_of_mem _ h.1, h.2⟩)]
    · rw [if_neg hes]
      cases hp : p e.2 with
      | true => simp [hp, hes]
      | false =>
        rw [if_neg (by simp), find?_erase]
        by_cases hk : fold k = fold e.1
        · rw [if_pos hk, if_pos ⟨e, List.mem_cons_self, hp, hk⟩]
        · rw [if_neg hk, if_neg]
          rintro ⟨e', he', h'⟩
          rcases List.mem_cons.1 he' with rfl | he'
          · exact hk h'.2
          · exact hes ⟨e', he', h'⟩

theorem find?_keepValues (m : CIMap V) (p : V → Bool) (k : String) :
    (m.keepValues p).find? k = (m.find? k).filter p := by
  rw [keepValues, find?_foldl_erase]
  cases hk : m.find? k with
  | none => simp
  | some v =>
    have hmem : (∃ e ∈ m.toList, p e.2 = false ∧ fold k = fold e.1) ↔ p v = false := by
      constructor
      · rintro ⟨⟨k', v'⟩, he, hp, hf⟩
        have := find?_of_mem_toList he
        rw [← m.find?_congr hf, hk] at this
        exact (Option.some.inj this) ▸ hp
      · intro hp
        obtain ⟨k', hf, he⟩ := mem_toList_of_slot hk
        exact ⟨(k', v), he, hp, hf.symm⟩
    simp only [hmem]
    cases hp : p v <;> simp [Option.filter, hp]

theorem contains_iff {m : CIMap V} {k : String} :
    m.contains k = true ↔ ∃ v, m.find? k = some v := Option.isSome_iff_exists

theorem contains_congr (m : CIMap V) {k k' : String} (h : fold k = fold k') :
    m.contains k = m.contains k' := by
  rw [contains, m.find?_congr h, contains]

@[simp] theorem contains_empty (k : String) : (∅ : CIMap V).contains k = false := rfl

theorem contains_insert (m : CIMap V) (k k' : String) (v : V) :
    (m.insert k v).contains k' = (decide (fold k' = fold k) || m.contains k') := by
  simp only [contains, find?_insert]
  split_ifs with h <;> simp [h]

theorem contains_erase (m : CIMap V) (k k' : String) :
    (m.erase k).contains k' = (!decide (fold k' = fold k) && m.contains k') := by
  simp only [contains, find?_erase]
  split_ifs with h <;> simp [h]

end CIMap

/-- A set of names up to case. -/
abbrev CISet := CIMap Unit

namespace CISet

/-- Add a name; one that is already there keeps its spelling. -/
def add (s : CISet) (k : String) : CISet := s.insert k ()

/-- The set of the names of a list. -/
def ofList (ks : List String) : CISet := ks.foldl add ∅

/-- The names of the set as they are spelled. -/
def names (s : CISet) : List String := s.toList.map Prod.fst

theorem contains_foldl_add (ks : List String) (s : CISet) (k : String) :
    (ks.foldl add s).contains k = (ks.any (fun k' => ciEq k k') || s.contains k) := by
  induction ks generalizing s with
  | nil => simp
  | cons a ks ih =>
    rw [List.foldl_cons, ih, add, CIMap.contains_insert, List.any_cons, ciEq]
    cases decide (fold k = fold a) <;> simp

theorem contains_ofList (ks : List String) (k : String) :
    (ofList ks).contains k = ks.any fun k' => ciEq k k' := by
  simp [ofList, contains_foldl_add]

/-- A list of names, each added or each erased. -/
theorem contains_foldl (names : List String) (adds : Bool) (acc : CISet) (n : String) :
    (names.foldl (fun (acc : CISet) m => if adds then acc.add m else acc.erase m) acc).contains n =
      if ∃ m ∈ names, fold n = fold m then adds else acc.contains n := by
  induction names generalizing acc with
  | nil => simp
  | cons m names ih =>
    rw [List.foldl_cons, ih]
    by_cases hnames : ∃ m ∈ names, fold n = fold m
    · rw [if_pos hnames, if_pos (hnames.imp fun _ h => ⟨List.mem_cons_of_mem _ h.1, h.2⟩)]
    · rw [if_neg hnames]
      simp only [List.mem_cons, exists_eq_or_imp, hnames, or_false]
      cases adds with
      | true => rw [if_pos rfl, add, CIMap.contains_insert]; split_ifs with h <;> simp [h]
      | false => rw [if_neg (by simp), CIMap.contains_erase]; split_ifs with h <;> simp [h]

end CISet

end VirtualCatalog
