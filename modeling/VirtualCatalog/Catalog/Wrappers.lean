import VirtualCatalog.Machine.Basic
import Mathlib.Data.List.Nodup
import Mathlib.Data.List.Perm.Basic
import Mathlib.Tactic.SplitIfs

/-!
# The wrappers of a catalog

A bridge or provider catalog hands out a wrapper for each `DuckSchemaEntry`.  Binders hold raw
pointers to wrappers for the rest of a statement; schemas are dropped and made again, by any
transaction and between any two calls, and a new schema may get the address of a freed one.

* `Wrappers.getOrCreateWrapper` : the code.
* `wrapping` : the machine of a catalog whose schemas come and go.
* `Wrappers.Ok` : the invariant.
* `wrapper_of_schema` : the wrapper that is returned is of the schema that was asked for, no wrapper
  is ever freed, and none stands for two schemas.
-/

namespace VirtualCatalog

/-- What is read of a `DuckSchemaEntry`.  No two schemas ever have one oid. -/
@[ext]
structure DuckSchema where
  name : String
  oid : Nat
deriving DecidableEq

/-- A `VirtualCatalogSchemaEntryBase`. -/
structure VirtualSchemaEntry where
  address : Nat
  /-- The address of the schema that it was made around. -/
  target : Nat
  /-- Its name and its oid are copies of that schema's. -/
  name : String
  oid : Nat
deriving DecidableEq

/-- A call of `GetOrCreateWrapper`: the schema that was asked for, and the address of the wrapper
that was returned. -/
structure HandedWrapper where
  schema : DuckSchema
  wrapper : Nat
deriving DecidableEq

/-- A `VirtualCatalogBase`, with the schemas that DuckDB has not freed and the calls so far. -/
structure Wrappers where
  /-- By their address. -/
  schemas : List (Nat × DuckSchema) := []
  nextOid : Nat := 0
  wrappers : List (String × VirtualSchemaEntry) := []
  /-- `retired_wrappers`. -/
  retired : List VirtualSchemaEntry := []
  /-- The latest first. -/
  handed : List HandedWrapper := []
deriving DecidableEq

namespace Wrappers

variable (s : Wrappers)

/-- The wrappers that the catalog owns. -/
def owned : List VirtualSchemaEntry := s.wrappers.map Prod.snd ++ s.retired

/-- Nothing lives at an address. -/
def Unused (address : Nat) : Prop :=
  address ∉ s.schemas.map Prod.fst ∧ address ∉ s.owned.map VirtualSchemaEntry.address

instance (address : Nat) : Decidable (s.Unused address) :=
  inferInstanceAs (Decidable (_ ∧ _))

/-- Move the wrapper of a name to the retired ones. -/
def retire (name : String) (wrapper : VirtualSchemaEntry) : Wrappers :=
  { s with
    retired := s.retired ++ [wrapper]
    wrappers := s.wrappers.filter fun entry => entry.1 ≠ name }

/-- `CreateSchemaWrapper`, and what follows it: the allocator picks the address `fresh`. -/
def createSchemaWrapper (target : Nat) (schema : DuckSchema) (fresh : Nat) :
    VirtualSchemaEntry × Wrappers :=
  let wrapper : VirtualSchemaEntry := ⟨fresh, target, schema.name, schema.oid⟩
  (wrapper, { s with wrappers := (schema.name, wrapper) :: s.wrappers })

/-- `GetOrCreateWrapper` for the schema at the address `target`. -/
def getOrCreateWrapper (target : Nat) (schema : DuckSchema) (fresh : Nat) :
    VirtualSchemaEntry × Wrappers :=
  match s.wrappers.lookup schema.name with
  | some wrapper =>
    -- the address may be one that a freed schema had, hence the oid
    if wrapper.target = target ∧ wrapper.oid = schema.oid then (wrapper, s)
    else (s.retire schema.name wrapper).createSchemaWrapper target schema fresh
  | none => s.createSchemaWrapper target schema fresh

/-- The call is noted. -/
def get (target : Nat) (schema : DuckSchema) (fresh : Nat) : Wrappers :=
  let (wrapper, s) := s.getOrCreateWrapper target schema fresh
  { s with handed := ⟨schema, wrapper.address⟩ :: s.handed }

/-- The steps of a catalog. -/
inductive Label where
  /-- A schema is made at an address, with the next oid. -/
  | create (address : Nat) (name : String)
  /-- Another entry takes an oid. -/
  | takeOid
  /-- DuckDB frees the schema at an address. -/
  | free (address : Nat)
  /-- `LookupSchema` or `ScanSchemas` finds the schema at an address. -/
  | get (address fresh : Nat)

/-- One step. -/
def next : Label → Option Wrappers
  | .create address name =>
    if s.Unused address then
      some { s with schemas := (address, ⟨name, s.nextOid⟩) :: s.schemas, nextOid := s.nextOid + 1 }
    else none
  | .takeOid => some { s with nextOid := s.nextOid + 1 }
  | .free address => some { s with schemas := s.schemas.filter fun entry => entry.1 ≠ address }
  | .get address fresh =>
    match s.schemas.lookup address with
    | some schema => if s.Unused fresh then some (s.get address schema fresh) else none
    | none => none

end Wrappers

/-- The machine of a catalog. -/
def wrapping : Machine Wrappers Wrappers.Label := ⟨Wrappers.next⟩

namespace Wrappers

/-! ### The invariant -/

/-- The invariant. -/
structure Ok (s : Wrappers) : Prop where
  /-- Each wrapper is owned once. -/
  addresses : (s.owned.map VirtualSchemaEntry.address).Nodup
  keys : (s.wrappers.map Prod.fst).Nodup
  live : (s.schemas.map Prod.fst).Nodup
  /-- An oid is taken once. -/
  oids : (s.schemas.map fun entry => entry.2.oid).Nodup
  bound : ∀ entry ∈ s.schemas, entry.2.oid < s.nextOid
  wrapped : ∀ wrapper ∈ s.owned, wrapper.oid < s.nextOid
  /-- A wrapper's schema, if it still lives, is where it was. -/
  target : ∀ wrapper ∈ s.owned, ∀ entry ∈ s.schemas, entry.2.oid = wrapper.oid →
    entry.1 = wrapper.target ∧ entry.2.name = wrapper.name
  named : ∀ entry ∈ s.wrappers, entry.2.name = entry.1
  handed : ∀ call ∈ s.handed, ∃ wrapper ∈ s.owned, wrapper.address = call.wrapper ∧
    wrapper.name = call.schema.name ∧ wrapper.oid = call.schema.oid
  /-- The map has what was returned last for a name. -/
  latest : ∀ name, (s.wrappers.lookup name).map VirtualSchemaEntry.address =
    (s.handed.find? fun call => call.schema.name = name).map HandedWrapper.wrapper

variable {s : Wrappers} {target fresh address : Nat} {schema : DuckSchema} {name : String}
  {wrapper : VirtualSchemaEntry}

theorem mem_of_lookup {α β : Type*} [BEq α] [LawfulBEq α] {l : List (α × β)} {a : α} {b : β}
    (h : l.lookup a = some b) : (a, b) ∈ l := by
  obtain ⟨before, after, rfl, -⟩ := List.lookup_eq_some_iff.1 h
  exact List.mem_append_right _ List.mem_cons_self

/-- Taking the entry of a key out of a map. -/
theorem perm_of_lookup {α β : Type*} [DecidableEq α] {l : List (α × β)} {a : α} {b : β}
    (hkeys : (l.map Prod.fst).Nodup) (h : l.lookup a = some b) :
    l.Perm ((a, b) :: l.filter fun entry => entry.1 ≠ a) := by
  obtain ⟨before, after, rfl, hbefore⟩ := List.lookup_eq_some_iff.1 h
  have hfirst : before.filter (fun entry => entry.1 ≠ a) = before :=
    List.filter_eq_self.2 fun entry hentry => by
      simpa using Ne.symm (by simpa using hbefore entry hentry)
  have hsecond : after.filter (fun entry => entry.1 ≠ a) = after := by
    rw [List.map_append, List.map_cons] at hkeys
    have hnot := (List.nodup_cons.1 (List.nodup_append.1 hkeys).2.1).1
    refine List.filter_eq_self.2 fun entry hentry => decide_eq_true fun he => hnot ?_
    exact List.mem_map.2 ⟨entry, hentry, he⟩
  rw [List.filter_append, List.filter_cons_of_neg (by simp), hfirst, hsecond]
  exact List.perm_middle

theorem lookup_filter_ne {α β : Type*} [DecidableEq α] (l : List (α × β)) {a a' : α} (h : a ≠ a') :
    (l.filter fun entry => entry.1 ≠ a').lookup a = l.lookup a := by
  induction l with
  | nil => rfl
  | cons entry l ih =>
    obtain ⟨b, c⟩ := entry
    rw [List.lookup_cons]
    by_cases hb : b = a'
    · subst hb
      rw [List.filter_cons_of_neg (by simp), beq_false_of_ne h]
      exact ih
    · rw [List.filter_cons_of_pos (by simpa using hb), List.lookup_cons, ih]

theorem not_mem_of_lookup {α β : Type*} [BEq α] [LawfulBEq α] {l : List (α × β)} {a : α}
    (h : l.lookup a = none) : a ∉ l.map Prod.fst := by
  intro hmem
  obtain ⟨entry, hentry, rfl⟩ := List.mem_map.1 hmem
  simpa using List.lookup_eq_none_iff.1 h entry hentry

/-! ### What a call does -/

/-- A call finds the wrapper of the very schema, or it makes one that the catalog did not own. -/
theorem getOrCreateWrapper_cases (target : Nat) (schema : DuckSchema) (fresh : Nat)
    (hkeys : (s.wrappers.map Prod.fst).Nodup) :
    (∃ wrapper, s.wrappers.lookup schema.name = some wrapper ∧ wrapper.target = target ∧
        wrapper.oid = schema.oid ∧ s.getOrCreateWrapper target schema fresh = (wrapper, s)) ∨
      ((∀ wrapper, s.wrappers.lookup schema.name = some wrapper →
          ¬(wrapper.target = target ∧ wrapper.oid = schema.oid)) ∧
        ∃ wrappers retired, s.getOrCreateWrapper target schema fresh =
            (⟨fresh, target, schema.name, schema.oid⟩, { s with
              wrappers := (schema.name, ⟨fresh, target, schema.name, schema.oid⟩) :: wrappers
              retired }) ∧
          (wrappers.map Prod.snd ++ retired).Perm s.owned ∧ wrappers.Sublist s.wrappers ∧
          schema.name ∉ wrappers.map Prod.fst ∧
          ∀ name, name ≠ schema.name → wrappers.lookup name = s.wrappers.lookup name) := by
  unfold getOrCreateWrapper
  cases hfound : s.wrappers.lookup schema.name with
  | none =>
    exact .inr ⟨fun _ hw => absurd hw (by simp), _, _, rfl, .refl _, .refl _,
      not_mem_of_lookup hfound, fun _ _ => rfl⟩
  | some wrapper =>
    dsimp only
    split_ifs with hsame
    · exact .inl ⟨wrapper, rfl, hsame.1, hsame.2, rfl⟩
    · refine .inr ⟨fun w hw => by cases hw; exact hsame, _, _, rfl, ?_, List.filter_sublist, ?_,
        fun name hname => lookup_filter_ne _ hname⟩
      · -- the wrapper moves from the map to the retired ones
        have hperm := (perm_of_lookup hkeys hfound).map Prod.snd
        rw [List.map_cons] at hperm
        refine ((hperm.append_right s.retired).trans ?_).symm
        have hlast := List.perm_append_singleton wrapper
          ((s.retire schema.name wrapper).wrappers.map Prod.snd ++ s.retired)
        rw [List.append_assoc] at hlast
        exact hlast.symm
      · simp [retire]

/-- The wrapper that a catalog owns at an address. -/
theorem Ok.eq_of_address (h : s.Ok) {wrapper wrapper' : VirtualSchemaEntry} (hw : wrapper ∈ s.owned)
    (hw' : wrapper' ∈ s.owned) (haddress : wrapper.address = wrapper'.address) :
    wrapper = wrapper' :=
  List.inj_on_of_nodup_map h.addresses hw hw' haddress

theorem Ok.mem_owned (h : s.wrappers.lookup name = some wrapper) : wrapper ∈ s.owned :=
  List.mem_append_left _ (List.mem_map_of_mem (f := Prod.snd) (mem_of_lookup h))

/-- A call keeps the invariant. -/
theorem Ok.get (h : s.Ok) (hlive : s.schemas.lookup target = some schema)
    (hfresh : s.Unused fresh) : (s.get target schema fresh).Ok := by
  have hmem := mem_of_lookup hlive
  unfold Wrappers.get
  rcases getOrCreateWrapper_cases target schema fresh h.keys with
    ⟨wrapper, hfound, htarget, hoid, heq⟩ |
      ⟨-, wrappers, retired, heq, hperm, hsub, hnone, hothers⟩
  · -- the wrapper of the very schema
    rw [heq]
    have howned := Ok.mem_owned hfound
    have hname := h.named _ (mem_of_lookup hfound)
    refine ⟨h.addresses, h.keys, h.live, h.oids, h.bound, h.wrapped, h.target, h.named,
      fun call hcall => ?_, fun name => ?_⟩
    · rcases List.mem_cons.1 hcall with rfl | hcall
      · exact ⟨wrapper, howned, rfl, hname, hoid⟩
      · exact h.handed call hcall
    · dsimp only
      by_cases hn : schema.name = name
      · subst hn
        rw [List.find?_cons_of_pos (by simp), hfound]
        rfl
      · rw [List.find?_cons_of_neg (by simpa using hn)]
        exact h.latest name
  · -- a new one
    rw [heq]
    have howned : ∀ w, w ∈ wrappers.map Prod.snd ++ retired ↔ w ∈ s.owned := fun w => hperm.mem_iff
    have hsplit : ∀ {p : VirtualSchemaEntry → Prop}, p ⟨fresh, target, schema.name, schema.oid⟩ →
        (∀ w ∈ s.owned, p w) →
        ∀ w ∈ ((schema.name, (⟨fresh, target, schema.name, schema.oid⟩ : VirtualSchemaEntry)) ::
          wrappers).map Prod.snd ++ retired, p w := by
      intro p hnew hold w hw
      rw [List.map_cons, List.cons_append] at hw
      rcases List.mem_cons.1 hw with rfl | hw
      · exact hnew
      · exact hold w ((howned w).1 hw)
    refine ⟨?_, ?_, h.live, h.oids, h.bound, hsplit (h.bound _ hmem) h.wrapped,
      hsplit (fun entry hentry he => ?_) h.target, fun entry hentry => ?_, fun call hcall => ?_,
      fun name => ?_⟩
    · show (((schema.name, (⟨fresh, target, schema.name, schema.oid⟩ : VirtualSchemaEntry)) ::
        wrappers).map Prod.snd ++ retired).map VirtualSchemaEntry.address |>.Nodup
      rw [List.map_cons, List.cons_append, List.map_cons, List.nodup_cons,
        (hperm.map _).mem_iff, (hperm.map _).nodup_iff]
      exact ⟨hfresh.2, h.addresses⟩
    · rw [List.map_cons, List.nodup_cons]
      exact ⟨hnone, h.keys.sublist (hsub.map _)⟩
    · -- an oid is taken once
      cases List.inj_on_of_nodup_map h.oids hentry hmem he
      exact ⟨rfl, rfl⟩
    · rcases List.mem_cons.1 hentry with rfl | hentry
      · rfl
      · exact h.named _ (hsub.subset hentry)
    · have hnew : (⟨fresh, target, schema.name, schema.oid⟩ : VirtualSchemaEntry) ∈
          ((schema.name, (⟨fresh, target, schema.name, schema.oid⟩ : VirtualSchemaEntry)) ::
            wrappers).map Prod.snd ++ retired := List.mem_cons_self
      rcases List.mem_cons.1 hcall with rfl | hcall
      · exact ⟨_, hnew, rfl, rfl, rfl⟩
      · obtain ⟨w, hw, hfields⟩ := h.handed call hcall
        exact ⟨w, List.mem_cons_of_mem _ ((howned w).2 hw), hfields⟩
    · dsimp only
      by_cases hn : schema.name = name
      · subst hn
        rw [List.find?_cons_of_pos (by simp), List.lookup_cons, beq_self_eq_true]
        rfl
      · rw [List.find?_cons_of_neg (by simpa using hn), List.lookup_cons,
          beq_false_of_ne (Ne.symm hn), hothers name (Ne.symm hn)]
        exact h.latest name

theorem ok_start : ({} : Wrappers).Ok := by
  have hnil : ∀ {α : Type} {p : α → Prop}, ∀ a ∈ ([] : List α), p a := fun _ h =>
    absurd h List.not_mem_nil
  exact ⟨.nil, .nil, .nil, .nil, hnil, hnil, hnil, hnil, hnil, fun _ => rfl⟩

/-- Each step keeps the invariant. -/
theorem Ok.next {l : Label} {s' : Wrappers} (h : s.Ok) (hs : s.next l = some s') : s'.Ok := by
  cases l with
  | create address name =>
    unfold Wrappers.next at hs
    dsimp only at hs
    split_ifs at hs with hunused
    cases hs
    refine ⟨h.addresses, h.keys, List.nodup_cons.2 ⟨hunused.1, h.live⟩,
      List.nodup_cons.2 ⟨fun hm => ?_, h.oids⟩, fun entry hentry => ?_,
      fun w hw => Nat.lt_succ_of_lt (h.wrapped w hw), fun w hw entry hentry he => ?_, h.named,
      h.handed, h.latest⟩
    · obtain ⟨entry, hentry, he⟩ := List.mem_map.1 hm
      exact absurd he (Nat.ne_of_lt (h.bound entry hentry))
    · rcases List.mem_cons.1 hentry with rfl | hentry
      · exact Nat.lt_succ_self _
      · exact Nat.lt_succ_of_lt (h.bound entry hentry)
    · rcases List.mem_cons.1 hentry with rfl | hentry
      · -- no wrapper has the new oid
        exact absurd he (Nat.ne_of_gt (h.wrapped w hw))
      · exact h.target w hw entry hentry he
  | takeOid =>
    cases hs
    exact ⟨h.addresses, h.keys, h.live, h.oids, fun e he => Nat.lt_succ_of_lt (h.bound e he),
      fun w hw => Nat.lt_succ_of_lt (h.wrapped w hw), h.target, h.named, h.handed, h.latest⟩
  | free address =>
    cases hs
    have hsub := List.filter_sublist (l := s.schemas) (p := fun entry => entry.1 ≠ address)
    exact ⟨h.addresses, h.keys, h.live.sublist (hsub.map _), h.oids.sublist (hsub.map _),
      fun e he => h.bound e (hsub.subset he), h.wrapped,
      fun w hw e he => h.target w hw e (hsub.subset he), h.named, h.handed, h.latest⟩
  | get address fresh =>
    unfold Wrappers.next at hs
    dsimp only at hs
    split at hs
    next schema hlive =>
      split_ifs at hs with hunused
      cases hs
      exact h.get hlive hunused
    next => cases hs

theorem ok_of_run {ls : List Label} (h : wrapping.Run Machine.Free {} ls s) : s.Ok :=
  h.invariant ok_start fun _ _ _ hok _ hs => hok.next hs

end Wrappers

/-- **A wrapper stands for one schema.** However schemas were made, freed and asked for so far, and
whatever addresses they and the wrappers got: asking for a schema that lives gives a wrapper that
refers to that very schema, with its name and oid; each wrapper that a call ever returned is still
owned, once; this one was not returned for any other schema, and it is the one that the last call
for the name returned exactly if that call was for the same schema. -/
theorem wrapper_of_schema {ls : List Wrappers.Label} {s : Wrappers}
    (hrun : wrapping.Run Machine.Free {} ls s) {target fresh : Nat} {schema : DuckSchema}
    (hlive : s.schemas.lookup target = some schema) (hfresh : s.Unused fresh) :
    let (wrapper, s') := s.getOrCreateWrapper target schema fresh
    wrapper.target = target ∧ wrapper.name = schema.name ∧ wrapper.oid = schema.oid ∧
      (s'.owned.map VirtualSchemaEntry.address).Nodup ∧
      (∀ call ∈ s.handed, call.wrapper ∈ s'.owned.map VirtualSchemaEntry.address) ∧
      (∀ call ∈ s.handed, call.wrapper = wrapper.address → call.schema = schema) ∧
      ∀ call, s.handed.find? (fun call => call.schema.name = schema.name) = some call →
        (call.wrapper = wrapper.address ↔ call.schema = schema) := by
  have h := Wrappers.ok_of_run hrun
  have hafter : (s.get target schema fresh).Ok := h.get hlive hfresh
  unfold Wrappers.get at hafter
  have hlast : ∀ call, s.handed.find? (fun call => call.schema.name = schema.name) = some call →
      ∃ wrapper, s.wrappers.lookup schema.name = some wrapper ∧ wrapper.address = call.wrapper := by
    intro call hcall
    have hlatest := h.latest schema.name
    rw [hcall] at hlatest
    exact Option.map_eq_some_iff.1 hlatest
  -- what was returned as one wrapper was asked for as one schema
  have hsame : ∀ call ∈ s.handed, ∀ wrapper ∈ s.owned, call.wrapper = wrapper.address →
      call.schema = ⟨wrapper.name, wrapper.oid⟩ := by
    intro call hcall wrapper hwrapper haddress
    obtain ⟨wrapper', hwrapper', haddress', hname, hoid⟩ := h.handed call hcall
    obtain rfl := h.eq_of_address hwrapper' hwrapper (haddress'.trans haddress)
    exact DuckSchema.ext hname.symm hoid.symm
  rcases Wrappers.getOrCreateWrapper_cases target schema fresh h.keys with
    ⟨wrapper, hfound, htarget, hoid, heq⟩ | ⟨hother, wrappers, retired, heq, hperm, -⟩
  · rw [heq]
    have howned := Wrappers.Ok.mem_owned hfound
    have hname := h.named _ (Wrappers.mem_of_lookup hfound)
    have hschema : schema = ⟨wrapper.name, wrapper.oid⟩ := DuckSchema.ext hname.symm hoid.symm
    refine ⟨htarget, hname, hoid, h.addresses, fun call hcall => ?_, fun call hcall haddress => ?_,
      fun call hcall => ?_⟩
    · obtain ⟨w, hw, haddress, -⟩ := h.handed call hcall
      exact List.mem_map.2 ⟨w, hw, haddress⟩
    · exact (hsame call hcall wrapper howned haddress).trans hschema.symm
    · obtain ⟨w, hw, haddress⟩ := hlast call hcall
      obtain rfl := Option.some.inj (hfound.symm.trans hw)
      exact iff_of_true haddress.symm
        ((hsame call (List.mem_of_find?_eq_some hcall) wrapper howned haddress.symm).trans
          hschema.symm)
  · rw [heq] at hafter ⊢
    -- the new wrapper is at an address where no wrapper was
    have hnew : ∀ call ∈ s.handed, call.wrapper ≠ fresh := by
      intro call hcall haddress
      obtain ⟨w, hw, hw', -⟩ := h.handed call hcall
      exact hfresh.2 (List.mem_map.2 ⟨w, hw, hw'.trans haddress⟩)
    refine ⟨rfl, rfl, rfl, hafter.addresses, fun call hcall => ?_,
      fun call hcall haddress => absurd haddress (hnew call hcall), fun call hcall => ?_⟩
    · obtain ⟨w, hw, haddress, -⟩ := hafter.handed call (List.mem_cons_of_mem _ hcall)
      exact List.mem_map.2 ⟨w, hw, haddress⟩
    · refine iff_of_false (hnew call (List.mem_of_find?_eq_some hcall)) fun hschema => ?_
      -- the wrapper in the map is of this schema, and would have been found
      obtain ⟨w, hw, haddress⟩ := hlast call hcall
      have howned := Wrappers.Ok.mem_owned hw
      have hcalled := hsame call (List.mem_of_find?_eq_some hcall) w howned haddress.symm
      have hoid : schema.oid = w.oid := by rw [← hschema, hcalled]
      exact hother w hw
        ⟨(h.target w howned _ (Wrappers.mem_of_lookup hlive) hoid).1.symm, hoid.symm⟩

namespace Sample

/-- A schema is dropped and made again at its address, after it was asked for. -/
def recreated : List Wrappers.Label :=
  [.create 1 "s", .takeOid, .get 1 2, .free 1, .create 1 "s"]

/-- The catalog after that. -/
def recreatedCatalog : Wrappers where
  schemas := [(1, ⟨"s", 2⟩)]
  nextOid := 3
  wrappers := [("s", ⟨2, 1, "s", 0⟩)]
  handed := [⟨⟨"s", 0⟩, 2⟩]

theorem run_recreated : wrapping.Run Machine.Free {} recreated recreatedCatalog :=
  Machine.run_of_exec (by decide +kernel)

end Sample

/-- The new schema gets a wrapper of its own. -/
theorem wrapper_of_schema_recreated :
    let (wrapper, s') := Sample.recreatedCatalog.getOrCreateWrapper 1 ⟨"s", 2⟩ 3
    wrapper.oid = 2 ∧ wrapper.address ≠ 2 ∧ 2 ∈ s'.owned.map VirtualSchemaEntry.address := by
  have h :=
    @wrapper_of_schema _ _ Sample.run_recreated 1 3 ⟨"s", 2⟩ (by decide +kernel) (by decide +kernel)
  exact ⟨h.2.2.1, by decide +kernel, h.2.2.2.2.1 ⟨⟨"s", 0⟩, 2⟩ (by decide +kernel)⟩

end VirtualCatalog
