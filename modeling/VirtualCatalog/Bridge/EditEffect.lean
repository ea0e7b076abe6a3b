import VirtualCatalog.Bridge.Commit

/-!
# What an edit does

An edit is resolved first and applied later, to whatever the policy is by then.  `Applied` says what
it makes of the table, the schema or the functions that it names, in terms of what it asks for.

* `SourceGrant.SetsVerb` : a grant with one verb as an edit asks, and all else kept.
* `PolicyCommit.Applied` : what an edit makes of what it names.
* `PolicyCommit.applied` : an edit does what it asks for.
-/

namespace VirtualCatalog

/-- `g` is the grant `b` with the verb `v` as it was resolved. -/
structure SourceGrant.SetsVerb (v : CrossingVerb) (resolved : ResolvedVerb) (b g : SourceGrant) :
    Prop where
  granted : v ∈ g.verbs ↔ resolved.granted = true
  usingPredicate : g.usingPredicates v = resolved.usingPredicate
  checkPredicate : g.checkPredicates v = resolved.checkPredicate
  unrestricted : v = .select → g.selectUnrestricted = resolved.unrestricted
  others : ∀ w, w ≠ v → (w ∈ g.verbs ↔ w ∈ b.verbs) ∧
    g.usingPredicates w = b.usingPredicates w ∧ g.checkPredicates w = b.checkPredicates w
  restricted : v ≠ .select → g.selectUnrestricted = b.selectUnrestricted
  settings : g.keySet = b.keySet ∧ g.keyVerified = b.keyVerified ∧
    g.allowedForeignKeys = b.allowedForeignKeys
  key : b.keySet = true → g.key = b.key

/-- The grant knows the keys of its table: its own key is that of the table unless one is set. -/
structure SourceGrant.Knows (facts : TableFacts) (g : SourceGrant) : Prop where
  discoveredKey : g.discoveredKey = facts.discoveredKey
  foreignKeyParents : g.foreignKeyParents = facts.foreignKeyParents
  key : g.keySet = false → g.key = facts.discoveredKey

/-- `g` is the grant `b` with the key as it was resolved; no key goes back to that of the table. -/
structure SourceGrant.SetsKey (resolved : ResolvedKey) (b g : SourceGrant) : Prop where
  keySet : g.keySet = resolved.set
  chosen : resolved.set = true → g.key = resolved.columns ∧ g.keyVerified = resolved.verified
  unset : resolved.set = false → g.key = b.discoveredKey ∧ g.keyVerified = true
  others : { g with keySet := false, key := [], keyVerified := true } =
    { b with keySet := false, key := [], keyVerified := true }

/-- `g` is the grant `b` with the parents of the list allowed, or no longer. -/
structure SourceGrant.SetsForeignKeys (op : PolicyListOp) (parents : List PolicyName)
    (b g : SourceGrant) : Prop where
  named : ∀ p ∈ parents, g.allowedForeignKeys.contains p.name = decide (op ≠ .remove)
  unnamed : ∀ n, (∀ p ∈ parents, fold n ≠ fold p.name) →
    g.allowedForeignKeys.contains n = (decide (op ≠ .set) && b.allowedForeignKeys.contains n)
  others : { g with allowedForeignKeys := ∅ } = { b with allowedForeignKeys := ∅ }

/-- The functions of the list are allowed, or disallowed, and a list that is set replaces all. -/
structure FunctionGrants.Sets (op : PolicyListOp) (names : List String) (f f' : FunctionGrants) :
    Prop where
  named : ∀ n ∈ names, f'.allowed.contains n = decide (op ≠ .remove) ∧
    f'.disallowed.contains n = decide (op = .remove)
  unnamed : ∀ n, (∀ m ∈ names, fold n ≠ fold m) →
    f'.allowed.contains n = (decide (op ≠ .set) && f.allowed.contains n) ∧
      f'.disallowed.contains n = (decide (op ≠ .set) && f.disallowed.contains n)
  builtins : f'.builtins = (decide (op ≠ .set) && f.builtins)

namespace PolicyCommit

/-- What an edit makes of the grant of its table; a grant without verbs is none. -/
def AppliedTo (before after : Option SourceGrant) : PolicyCommit → Prop
  | verb _ v resolved facts =>
    if resolved.granted then
      ∃ g, after = some g ∧ g.Knows facts ∧ SourceGrant.SetsVerb v resolved (before.getD {}) g
    else
      -- the last verb goes, and the grant with it
      ((∀ b w, before = some b → w ∈ b.verbs → w = v) → after = none) ∧
        ∀ b w, before = some b → w ∈ b.verbs → w ≠ v → ∃ g, after = some g ∧
          g.key = b.key ∧ g.discoveredKey = b.discoveredKey ∧
            g.foreignKeyParents = b.foreignKeyParents ∧ SourceGrant.SetsVerb v resolved b g
  | primaryKey _ resolved =>
    (resolved.set = false → before = none → after = none) ∧
      (resolved.set = true ∨ before ≠ none →
        ∃ g, after = some g ∧ SourceGrant.SetsKey resolved (before.getD {}) g)
  | foreignKeys _ op parents =>
    (op = .remove ∨ (op = .set ∧ parents.isEmpty) → before = none → after = none) ∧
      (¬ (op = .remove ∨ (op = .set ∧ parents.isEmpty)) ∨ before ≠ none →
        ∃ g, after = some g ∧ SourceGrant.SetsForeignKeys op parents (before.getD {}) g)
  | _ => True

/-- What an edit makes of what it names. -/
def Applied (state state' : PolicyState) : PolicyCommit → Prop
  | create schema granted => state'.createSchemas.contains schema = granted
  | whitelist op names => state.functions.Sets op names state'.functions
  | configure newState => state' = newState
  | c@(verb target _ _ _) | c@(primaryKey target _) | c@(foreignKeys target _ _) =>
    c.AppliedTo (state.tables.findGrant target.schema target.name)
      (state'.tables.findGrant target.schema target.name)

variable {state : PolicyState}

@[simp] theorem findGrant_withGrant (target : PolicyName) (g : SourceGrant) :
    (withGrant state target g).tables.findGrant target.schema target.name = some g := by
  rw [withGrant, GrantTables.findGrant_eq, GrantTables.grantAt_set, if_pos rfl]

/-! ### The settings of a table -/

theorem setsVerb_installVerb {v : CrossingVerb} {resolved : ResolvedVerb} {b : SourceGrant} :
    SourceGrant.SetsVerb v resolved b (installVerb b v resolved) where
  granted := by
    rw [installVerb]
    split_ifs with h <;> simp [h]
  usingPredicate := Function.update_self ..
  checkPredicate := Function.update_self ..
  unrestricted h := if_pos h
  others w hw := by
    refine ⟨?_, Function.update_of_ne hw _ _, Function.update_of_ne hw _ _⟩
    rw [installVerb]
    split_ifs <;> simp [hw]
  restricted h := if_neg h
  settings := ⟨rfl, rfl, rfl⟩
  key _ := rfl

/-- The facts of the table keep what the owner set. -/
theorem setsVerb_installFacts {v : CrossingVerb} {resolved : ResolvedVerb} {facts : TableFacts}
    {b g : SourceGrant} (h : SourceGrant.SetsVerb v resolved (installFacts b facts) g) :
    SourceGrant.SetsVerb v resolved b g where
  granted := h.granted
  usingPredicate := h.usingPredicate
  checkPredicate := h.checkPredicate
  unrestricted := h.unrestricted
  others := h.others
  restricted := h.restricted
  settings := h.settings
  key hk := (h.key hk).trans (if_pos hk)

theorem knows_installFacts {v : CrossingVerb} {resolved : ResolvedVerb} {facts : TableFacts}
    {b : SourceGrant} : (installVerb (installFacts b facts) v resolved).Knows facts :=
  ⟨rfl, rfl, fun h => if_neg (by rw [show b.keySet = false from h]; exact Bool.false_ne_true)⟩

theorem setsKey_installKey {resolved : ResolvedKey} {b : SourceGrant} :
    SourceGrant.SetsKey resolved b (installKey b resolved) where
  keySet := rfl
  chosen h := ⟨if_pos h, if_pos h⟩
  unset h := ⟨if_neg (by simp [h]), if_neg (by simp [h])⟩
  others := rfl

theorem setsForeignKeys_applyForeignKeys {op : PolicyListOp} {parents : List PolicyName}
    {b : SourceGrant} : SourceGrant.SetsForeignKeys op parents b
      { b with allowedForeignKeys := applyForeignKeys b.allowedForeignKeys op parents } := by
  have contains : ∀ n, (applyForeignKeys b.allowedForeignKeys op parents).contains n =
      if ∃ m ∈ parents.map PolicyName.name, fold n = fold m then decide (op ≠ .remove)
      else decide (op ≠ .set) && b.allowedForeignKeys.contains n := by
    intro n
    have := CISet.contains_foldl (parents.map PolicyName.name) (decide (op ≠ .remove))
      (if op = .set then ∅ else b.allowedForeignKeys) n
    rw [List.foldl_map] at this
    cases op <;> exact this
  refine ⟨fun p hp => ?_, fun n hn => ?_, rfl⟩
  · exact (contains p.name).trans (if_pos ⟨p.name, List.mem_map_of_mem hp, rfl⟩)
  · refine (contains n).trans (if_neg ?_)
    rintro ⟨m, hm, heq⟩
    obtain ⟨p, hp, rfl⟩ := List.mem_map.1 hm
    exact hn p hp heq

/-! ### The functions -/

theorem sets_applyFunctionList {op : PolicyListOp} {names : List String} {f : FunctionGrants} :
    f.Sets op names (applyFunctionList f op names) := by
  -- the two lists are folded side by side
  have lists : ∀ (ns : List String) (start : FunctionGrants),
      ns.foldl (fun (f : FunctionGrants) n =>
        if op = .remove then
          { f with disallowed := f.disallowed.add n, allowed := f.allowed.erase n }
        else { f with allowed := f.allowed.add n, disallowed := f.disallowed.erase n }) start =
      { builtins := start.builtins
        allowed := ns.foldl (fun (acc : CISet) m =>
          if decide (op ≠ .remove) then acc.add m else acc.erase m) start.allowed
        disallowed := ns.foldl (fun (acc : CISet) m =>
          if decide (op = .remove) then acc.add m else acc.erase m) start.disallowed } := by
    intro ns
    induction ns with
    | nil => exact fun _ => rfl
    | cons n ns ih =>
      intro start
      rw [List.foldl_cons, ih]
      by_cases hop : op = .remove <;> simp [hop]
  have applied := lists names (if op = .set then ⟨false, ∅, ∅⟩ else f)
  rw [applyFunctionList, applied]
  refine ⟨fun n hn => ?_, fun n hn => ?_, ?_⟩
  · have named : ∃ m ∈ names, fold n = fold m := ⟨n, hn, rfl⟩
    dsimp only
    rw [CISet.contains_foldl, CISet.contains_foldl, if_pos named, if_pos named]
    exact ⟨rfl, rfl⟩
  · have unnamed : ¬ ∃ m ∈ names, fold n = fold m := fun ⟨m, hm, heq⟩ => hn m hm heq
    dsimp only
    rw [CISet.contains_foldl, CISet.contains_foldl, if_neg unnamed, if_neg unnamed]
    split_ifs with hset <;> simp [hset]
  · dsimp only
    split_ifs with hset <;> simp [hset]

/-! ### Edits -/

/-- **An edit does what it asks for.** -/
theorem applied (c : PolicyCommit) (state : PolicyState) : c.Applied state (c.applyPending state) := by
  cases c with
  | verb target v resolved facts =>
    rw [Applied, AppliedTo, applyPending]
    cases hr : resolved.granted with
    | true =>
      exact ⟨_, findGrant_withGrant _ _, knows_installFacts, setsVerb_installFacts setsVerb_installVerb⟩
    -- a denial: the table may have no grant, or keep another verb
    | false =>
      have sets : ∀ b : SourceGrant, SourceGrant.SetsVerb v resolved b (installVerb b v resolved) :=
        fun b => setsVerb_installVerb
      have verbs : ∀ b : SourceGrant, (installVerb b v resolved).verbs = b.verbs.erase v :=
        fun b => if_neg (by simp [hr])
      dsimp only
      rw [if_neg Bool.false_ne_true, if_neg Bool.false_ne_true]
      cases hb : state.tables.findGrant target.schema target.name with
      | none => exact ⟨fun _ => hb, fun b w h => by cases h⟩
      | some b =>
        dsimp only
        split_ifs with hempty
        · -- its last verb goes
          refine ⟨fun _ => ?_, fun b' w h hw hne => ?_⟩
          · rw [GrantTables.findGrant_eq, GrantTables.grantAt_revoke, if_pos rfl]
          · cases h
            have hmem : w ∈ (installVerb b v resolved).verbs := ((sets b).others w hne).1.2 hw
            rw [hempty] at hmem
            cases hmem
        · refine ⟨fun honly => absurd ?_ hempty, fun b' w h hw hne => ?_⟩
          · rw [verbs, Finset.eq_empty_iff_forall_notMem]
            intro w hw
            exact (Finset.mem_erase.1 hw).1 (honly b w rfl (Finset.mem_erase.1 hw).2)
          · cases h
            exact ⟨_, findGrant_withGrant _ _, rfl, rfl, rfl, sets b⟩
  | create schema granted =>
    rw [Applied, applyPending]
    cases granted with
    | true => simp [CISet.add, CIMap.contains_insert]
    | false => simp [CIMap.contains_erase]
  | primaryKey target resolved =>
    rw [Applied, AppliedTo, applyPending]
    refine ⟨fun hset hb => ?_, fun h => ?_⟩
    · rw [if_pos ⟨hset, by rw [hb]; rfl⟩, hb]
    -- a table without a grant gets one, unless the key is taken away
    · have hn : ¬ (resolved.set = false ∧
          (state.tables.findGrant target.schema target.name).isNone = true) := by
        rintro ⟨hset, hb⟩
        rcases h with h | h
        · rw [h] at hset
          cases hset
        · exact h (Option.isNone_iff_eq_none.1 hb)
      rw [if_neg hn]
      exact ⟨_, findGrant_withGrant _ _, setsKey_installKey⟩
  | foreignKeys target op parents =>
    rw [Applied, AppliedTo, applyPending]
    refine ⟨fun hop hb => ?_, fun h => ?_⟩
    · rw [if_pos ⟨hop, by rw [hb]; rfl⟩, hb]
    -- the same for foreign keys
    · have hn : ¬ ((op = .remove ∨ (op = .set ∧ parents.isEmpty)) ∧
          (state.tables.findGrant target.schema target.name).isNone = true) := by
        rintro ⟨hop, hb⟩
        rcases h with h | h
        · exact h hop
        · exact h (Option.isNone_iff_eq_none.1 hb)
      rw [if_neg hn]
      exact ⟨_, findGrant_withGrant _ _, setsForeignKeys_applyForeignKeys⟩
  | whitelist op names => exact sets_applyFunctionList
  | configure newState => rfl

/-- It does so to a copy, too. -/
theorem applied_copy (c : PolicyCommit) (state : PolicyState) :
    c.Applied state (c.applyPending (copyPolicy state)) := by
  have h := c.applied (copyPolicy state)
  have found : ∀ s t, (copyPolicy state).tables.findGrant s t = state.tables.findGrant s t := by
    intro s t
    exact GrantTables.grantAt_copyTables state.tables (tableKey s t)
  cases c with
  | verb target v resolved facts =>
    rw [Applied, found] at h
    exact h
  | primaryKey target resolved =>
    rw [Applied, found] at h
    exact h
  | foreignKeys target op parents =>
    rw [Applied, found] at h
    exact h
  | _ => exact h

end PolicyCommit

end VirtualCatalog
