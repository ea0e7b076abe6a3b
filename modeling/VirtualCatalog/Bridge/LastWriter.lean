import VirtualCatalog.Bridge.Attempt
import VirtualCatalog.Bridge.DocumentSettings
import Mathlib.Data.Finset.Basic
import Mathlib.Data.List.Induction

/-!
# Last writer wins

`set_policy` changes one setting of a table.  What a table's grant should be after some calls is said
here by the calls alone: the last assignment of each verb and of the key, the foreign keys folded,
and the facts of the last granted verb, since the call that took the last granted verb away.

* `PolicyCommit.stated` : the grant that the last assignments state.
* `PolicyCommit.sinceTaken` : the calls since the table lost its last verb.
* `PolicyCommit.LosesSettings` : a denial that erases the settings of a table without verbs.
* `lastWriter_iff` : the calls that commit make the stated grants just if none of them does so.
* `Registry.last_writer_wins` : the same for every run of the registry.
-/

namespace VirtualCatalog

namespace PolicyCommit

/-! ### The grant that some calls state -/

/-- The assignment of a verb. -/
def assignsVerb (v : CrossingVerb) : PolicyCommit → Option ResolvedVerb
  | verb _ v' resolved _ => if v' = v then some resolved else none
  | _ => none

/-- The assignment of the primary key. -/
def assignsKey : PolicyCommit → Option ResolvedKey
  | primaryKey _ resolved => some resolved
  | _ => none

/-- The facts that a granted verb takes from the source. -/
def refreshes : PolicyCommit → Option TableFacts
  | verb _ _ resolved facts => if resolved.granted then some facts else none
  | _ => none

/-- One edit of the foreign keys. -/
def onForeignKeys (allowed : CISet) : PolicyCommit → CISet
  | foreignKeys _ op parents => applyForeignKeys allowed op parents
  | _ => allowed

/-- The last assignment among some edits. -/
def last {β : Type} (assigns : PolicyCommit → Option β) (edits : List PolicyCommit) : Option β :=
  (edits.filterMap assigns).getLast?

/-- The last assignment of a verb; one that is never assigned is denied. -/
def lastVerb (edits : List PolicyCommit) (v : CrossingVerb) : ResolvedVerb :=
  (last (assignsVerb v) edits).getD {}

/-- The last assignment of the primary key; one that is never assigned is not set. -/
def lastKey (edits : List PolicyCommit) : ResolvedKey := (last assignsKey edits).getD {}

/-- The facts of the last granted verb. -/
def lastFacts (edits : List PolicyCommit) : TableFacts := (last refreshes edits).getD {}

/-- The verbs whose last assignment grants them. -/
def grantedBy (edits : List PolicyCommit) : Finset CrossingVerb :=
  crossingVerbs.toFinset.filter fun v => (lastVerb edits v).granted

/-- The grant that the last assignments of each setting state. -/
def stated (edits : List PolicyCommit) : SourceGrant where
  verbs := grantedBy edits
  usingPredicates v := (lastVerb edits v).usingPredicate
  checkPredicates v := (lastVerb edits v).checkPredicate
  key := if (lastKey edits).set then (lastKey edits).columns else (lastFacts edits).discoveredKey
  discoveredKey := (lastFacts edits).discoveredKey
  keySet := (lastKey edits).set
  keyVerified := if (lastKey edits).set then (lastKey edits).verified else true
  selectUnrestricted := (lastVerb edits .select).unrestricted
  foreignKeyParents := (lastFacts edits).foreignKeyParents
  allowedForeignKeys := edits.foldl onForeignKeys ∅

/-- After these edits, the next one takes the last granted verb away. -/
def takesLast (edits : List PolicyCommit) : PolicyCommit → Bool
  | verb _ v resolved _ => !resolved.granted && decide (grantedBy edits = {v})
  | _ => false

/-- The edits since the last one that took the last granted verb away. -/
def sinceTaken (edits : List PolicyCommit) : List PolicyCommit :=
  edits.foldl (fun since c => if takesLast since c then [] else since ++ [c]) []

/-- What an edit installs in a grant. -/
def install (g : SourceGrant) : PolicyCommit → SourceGrant
  | verb _ v resolved facts =>
    installVerb (if resolved.granted then installFacts g facts else g) v resolved
  | primaryKey _ resolved => installKey g resolved
  | foreignKeys _ op parents =>
    { g with allowedForeignKeys := applyForeignKeys g.allowedForeignKeys op parents }
  | _ => g

variable {edits : List PolicyCommit} {c : PolicyCommit}

theorem last_concat {β : Type} (assigns : PolicyCommit → Option β) :
    last assigns (edits ++ [c]) = (assigns c).or (last assigns edits) := by
  rw [last, List.filterMap_append, List.getLast?_append, List.filterMap_cons]
  cases assigns c <;> rfl

theorem mem_grantedBy {v : CrossingVerb} : v ∈ grantedBy edits ↔ (lastVerb edits v).granted = true := by
  simp [grantedBy, mem_crossingVerbs]

theorem update_using (f : CrossingVerb → ResolvedVerb) (v : CrossingVerb) (r : ResolvedVerb) :
    (fun v' => (Function.update f v r v').usingPredicate) =
      Function.update (fun v' => (f v').usingPredicate) v r.usingPredicate := by
  funext v'
  simp only [Function.update_apply]
  split_ifs <;> rfl

theorem update_check (f : CrossingVerb → ResolvedVerb) (v : CrossingVerb) (r : ResolvedVerb) :
    (fun v' => (Function.update f v r v').checkPredicate) =
      Function.update (fun v' => (f v').checkPredicate) v r.checkPredicate := by
  funext v'
  simp only [Function.update_apply]
  split_ifs <;> rfl

theorem lastVerb_verb {t : PolicyName} {v : CrossingVerb} {r : ResolvedVerb} {facts : TableFacts} :
    lastVerb (edits ++ [verb t v r facts]) = Function.update (lastVerb edits) v r := by
  funext v'
  rw [lastVerb, last_concat, assignsVerb, Function.update_apply]
  by_cases h : v = v'
  · rw [if_pos h, if_pos h.symm]
    rfl
  · rw [if_neg h, if_neg (Ne.symm h)]
    rfl

theorem grantedBy_verb {t : PolicyName} {v : CrossingVerb} {r : ResolvedVerb} {facts : TableFacts} :
    grantedBy (edits ++ [verb t v r facts]) =
      if r.granted then insert v (grantedBy edits) else (grantedBy edits).erase v := by
  ext v'
  rw [mem_grantedBy, lastVerb_verb, Function.update_apply]
  by_cases h : v' = v
  · subst h
    cases hr : r.granted <;> simp [hr]
  · cases r.granted <;> simp [h, mem_grantedBy]

/-- What an edit does not assign stays as it is. -/
theorem verbs_concat (h : ∀ v, assignsVerb v c = none) :
    lastVerb (edits ++ [c]) = lastVerb edits ∧ grantedBy (edits ++ [c]) = grantedBy edits := by
  have hv : lastVerb (edits ++ [c]) = lastVerb edits := by
    funext v
    rw [lastVerb, last_concat, h v]
    rfl
  exact ⟨hv, by rw [grantedBy, hv]; rfl⟩

theorem lastKey_concat (h : assignsKey c = none) : lastKey (edits ++ [c]) = lastKey edits := by
  rw [lastKey, last_concat, h]
  rfl

theorem lastFacts_concat (h : refreshes c = none) : lastFacts (edits ++ [c]) = lastFacts edits := by
  rw [lastFacts, last_concat, h]
  rfl

/-- **One more edit of the same table** changes the stated grant as it is installed. -/
theorem stated_concat : stated (edits ++ [c]) = install (stated edits) c := by
  have hfold : (edits ++ [c]).foldl onForeignKeys ∅ = onForeignKeys (edits.foldl onForeignKeys ∅) c := by
    rw [List.foldl_append]
    rfl
  cases c with
  | verb t v resolved found =>
    have hf : lastFacts (edits ++ [verb t v resolved found]) =
        if resolved.granted then found else lastFacts edits := by
      rw [lastFacts, last_concat, refreshes]
      split_ifs <;> rfl
    have hs : (lastVerb (edits ++ [verb t v resolved found]) .select).unrestricted =
        if v = .select then resolved.unrestricted else (lastVerb edits .select).unrestricted := by
      rw [lastVerb_verb, Function.update_apply]
      simp only [eq_comm]
      split_ifs <;> rfl
    rw [stated, hs, grantedBy_verb, lastKey_concat rfl, hf, hfold, lastVerb_verb, update_using, update_check]
    cases hr : resolved.granted
    · simp [install, installVerb, stated, hr, onForeignKeys]
    · simp only [install, installVerb, installFacts, stated, hr, onForeignKeys, if_true]
      split_ifs <;> rfl
  | primaryKey t resolved =>
    obtain ⟨hv, hg⟩ := @verbs_concat edits (primaryKey t resolved) fun _ => rfl
    have hk : lastKey (edits ++ [primaryKey t resolved]) = resolved := by
      rw [lastKey, last_concat]
      rfl
    rw [stated, hv, hg, hk, lastFacts_concat rfl, hfold]
    rfl
  | foreignKeys t op parents =>
    obtain ⟨hv, hg⟩ := @verbs_concat edits (foreignKeys t op parents) fun _ => rfl
    rw [stated, hv, hg, lastKey_concat rfl, lastFacts_concat rfl, hfold]
    rfl
  | create s granted =>
    obtain ⟨hv, hg⟩ := @verbs_concat edits (create s granted) fun _ => rfl
    rw [stated, hv, hg, lastKey_concat rfl, lastFacts_concat rfl, hfold]
    rfl
  | whitelist op functions =>
    obtain ⟨hv, hg⟩ := @verbs_concat edits (whitelist op functions) fun _ => rfl
    rw [stated, hv, hg, lastKey_concat rfl, lastFacts_concat rfl, hfold]
    rfl
  | configure s =>
    obtain ⟨hv, hg⟩ := @verbs_concat edits (configure s) fun _ => rfl
    rw [stated, hv, hg, lastKey_concat rfl, lastFacts_concat rfl, hfold]
    rfl

/-! ### One table -/

/-- A denial carries nothing. -/
def Clean : PolicyCommit → Prop
  | verb _ _ resolved _ => resolved.granted = false → resolved = {}
  | _ => True

/-- The edit denies a verb of a grant that has settings but no verb. -/
def LosesFrom (found : Option SourceGrant) : PolicyCommit → Prop
  | verb _ _ resolved _ => resolved.granted = false ∧ ∃ g, found = some g ∧ g.verbs = ∅ ∧
      (g.keySet = true ∨ g.allowedForeignKeys ≠ ∅)
  | _ => False

/-- The edit denies a verb of a table that has settings but no verb. -/
def LosesSettings (state : PolicyState) (c : PolicyCommit) : Prop :=
  ∃ k, c.target = some k ∧ c.LosesFrom (state.tables.grantAt k)

theorem sinceTaken_concat : sinceTaken (edits ++ [c]) =
    if takesLast (sinceTaken edits) c then [] else sinceTaken edits ++ [c] := by
  rw [sinceTaken, List.foldl_append]
  rfl

theorem stated_nil : stated [] = {} := by
  have hv : grantedBy [] = ∅ := by
    rw [Finset.eq_empty_iff_forall_notMem]
    intro v hv
    exact Bool.false_ne_true (mem_grantedBy.1 hv)
  rw [stated, hv]
  rfl

theorem installVerb_denied (v : CrossingVerb) : installVerb {} v {} = {} := by
  have hu : Function.update (fun _ => (none : Option Expr)) v none = fun _ => none :=
    Function.update_eq_self v _
  simp only [installVerb, hu, Bool.false_eq_true, if_false, Finset.erase_empty, ite_self]

/-- A table without verbs has no facts and no predicates, since it lost its last verb. -/
theorem bare_sinceTaken (hclean : ∀ c ∈ edits, c.Clean) (h : grantedBy (sinceTaken edits) = ∅) :
    lastFacts (sinceTaken edits) = {} ∧ ∀ v, lastVerb (sinceTaken edits) v = {} := by
  induction edits using List.reverseRecOn with
  | nil => exact ⟨rfl, fun _ => rfl⟩
  | append_singleton edits c ih =>
    have hs : ∀ c ∈ edits, c.Clean := fun c hc => hclean c (List.mem_append_left _ hc)
    rw [sinceTaken_concat] at h ⊢
    split_ifs at h ⊢ with ht
    · exact ⟨rfl, fun _ => rfl⟩
    have other : (∀ v, assignsVerb v c = none) → refreshes c = none →
        lastFacts (sinceTaken edits ++ [c]) = {} ∧ ∀ v, lastVerb (sinceTaken edits ++ [c]) v = {} := by
      intro hv hf
      obtain ⟨hv, hg⟩ := @verbs_concat (sinceTaken edits) c hv
      rw [hv, lastFacts_concat hf]
      exact ih hs (hg ▸ h)
    cases c with
    | verb t v resolved facts =>
      rw [grantedBy_verb] at h
      cases hr : resolved.granted with
      | true => simp [hr] at h
      | false =>
        rw [hr, if_neg Bool.false_ne_true, Finset.erase_eq_empty_iff] at h
        have hne : ¬ grantedBy (sinceTaken edits) = {v} := by simpa [takesLast, hr] using ht
        obtain ⟨hf, hv⟩ := ih hs (h.resolve_right hne)
        have hzero : resolved = {} := hclean _ (List.mem_append_right _ List.mem_cons_self) hr
        refine ⟨?_, fun v' => ?_⟩
        · rw [lastFacts, last_concat, refreshes, hr]
          exact hf
        · rw [lastVerb_verb, Function.update_apply]
          split_ifs
          · exact hzero
          · exact hv v'
    | _ => exact other (fun _ => rfl) rfl

/-- A table without verbs and settings is as if it was never mentioned. -/
theorem stated_bare (hclean : ∀ c ∈ edits, c.Clean) (h : grantedBy (sinceTaken edits) = ∅)
    (hk : (stated (sinceTaken edits)).keySet = false)
    (hf : (stated (sinceTaken edits)).allowedForeignKeys = ∅) : stated (sinceTaken edits) = {} := by
  obtain ⟨hfacts, hv⟩ := bare_sinceTaken hclean h
  have hk : (lastKey (sinceTaken edits)).set = false := hk
  have hf : (sinceTaken edits).foldl onForeignKeys ∅ = ∅ := hf
  simp only [stated, h, hfacts, hv, hk, hf, Bool.false_eq_true, if_false]

theorem applyForeignKeys_remove (parents : List PolicyName) :
    applyForeignKeys ∅ .remove parents = ∅ := by
  rw [applyForeignKeys]
  induction parents with
  | nil => rfl
  | cons p parents ih => exact ih

/-- A denial does as stated, if it finds no settings without a verb. -/
theorem foldl_denied {found : Option SourceGrant} {t : PolicyName} {v : CrossingVerb}
    {facts : TableFacts} (hclean : ∀ c ∈ edits, c.Clean)
    (h : found.getD {} = stated (sinceTaken edits))
    (hlose : ¬ LosesFrom found (verb t v {} facts)) :
    (onGrant found (verb t v {} facts)).getD {} =
      stated (if takesLast (sinceTaken edits) (verb t v {} facts) then []
        else sinceTaken edits ++ [verb t v {} facts]) := by
  have hverbs : (found.getD {}).verbs = grantedBy (sinceTaken edits) := by
    rw [h]
    rfl
  have hdeny : (onGrant found (verb t v {} facts)).getD {} =
      if (found.getD {}).verbs.erase v = ∅ then {} else installVerb (found.getD {}) v {} := by
    cases found with
    | none => simp [onGrant]
    | some g =>
      simp only [onGrant, installVerb, Bool.false_eq_true, if_false, Option.map_some, Option.getD_some,
        Option.filter]
      by_cases he : g.verbs.erase v = ∅ <;> simp [he]
  rw [hdeny, hverbs]
  by_cases ht : grantedBy (sinceTaken edits) = {v}
  · -- the last verb is taken away
    have htakes : takesLast (sinceTaken edits) (verb t v {} facts) = true := by simp [takesLast, ht]
    rw [htakes, if_pos rfl, stated_nil, ht, if_pos (by simp)]
  · have htakes : takesLast (sinceTaken edits) (verb t v {} facts) = false := by simp [takesLast, ht]
    rw [htakes, if_neg Bool.false_ne_true, stated_concat, ← h]
    by_cases hbare : grantedBy (sinceTaken edits) = ∅
    · -- nothing is there to take away
      have hzero : found.getD {} = {} := by
        rw [h]
        cases found with
        | none => exact h.symm
        | some g =>
          have hg : g = stated (sinceTaken edits) := h
          have hkeep : ¬ (g.keySet = true ∨ g.allowedForeignKeys ≠ ∅) :=
            fun hk => hlose ⟨rfl, g, rfl, hverbs.trans hbare, hk⟩
          rw [not_or, Bool.not_eq_true, not_not, hg] at hkeep
          exact stated_bare hclean hbare hkeep.1 hkeep.2
      rw [hzero, if_pos (by rw [hbare]; rfl)]
      exact (installVerb_denied v).symm
    · rw [if_neg (by rw [Finset.erase_eq_empty_iff]; simp [hbare, ht])]
      rfl

/-- **The grant of one table** is the stated one, if no denial finds settings without a verb. -/
theorem foldl_onGrant (hclean : ∀ c ∈ edits, c.Clean)
    (hkeep : ∀ pre c, pre ++ [c] <+: edits → ¬ c.LosesFrom (pre.foldl onGrant none)) :
    (edits.foldl onGrant none).getD {} = stated (sinceTaken edits) := by
  induction edits using List.reverseRecOn with
  | nil => exact stated_nil.symm
  | append_singleton edits c ih =>
    have hs : ∀ c ∈ edits, c.Clean := fun c hc => hclean c (List.mem_append_left _ hc)
    have hc : c.Clean := hclean c (List.mem_append_right _ List.mem_cons_self)
    have ih := ih hs fun pre c h => hkeep pre c (h.trans (List.prefix_append _ _))
    have hlose := hkeep edits c (List.prefix_refl _)
    rw [List.foldl_append, List.foldl_cons, List.foldl_nil, sinceTaken_concat]
    generalize edits.foldl onGrant none = found at ih hlose ⊢
    -- but for a denial, an edit installs its setting
    have kept : takesLast (sinceTaken edits) c = false →
        (onGrant found c).getD {} = install (found.getD {}) c → (onGrant found c).getD {} =
          stated (if takesLast (sinceTaken edits) c then [] else sinceTaken edits ++ [c]) := by
      intro ht h
      rw [ht, if_neg Bool.false_ne_true, stated_concat, ← ih]
      exact h
    cases c with
    | verb t v resolved facts =>
      cases hr : resolved.granted with
      | true =>
        refine kept (by simp [takesLast, hr]) ?_
        simp only [onGrant, install, hr, if_true, Option.getD_some]
      | false =>
        obtain rfl : resolved = {} := hc hr
        exact foldl_denied hs ih hlose
    | primaryKey t resolved =>
      refine kept rfl ?_
      rw [onGrant, install]
      split_ifs with h
      · obtain ⟨hset, hnone⟩ := h
        rw [Option.isNone_iff_eq_none.1 hnone]
        simp [installKey, hset]
      · rfl
    | foreignKeys t op parents =>
      refine kept rfl ?_
      rw [onGrant, install]
      split_ifs with h
      · obtain ⟨hclears, hnone⟩ := h
        have hempty : applyForeignKeys ∅ op parents = ∅ := by
          rcases hclears with rfl | ⟨rfl, hp⟩
          · exact applyForeignKeys_remove parents
          · rw [List.isEmpty_iff.1 hp]
            rfl
        rw [Option.isNone_iff_eq_none.1 hnone]
        exact congrArg (fun allowed => ({ allowedForeignKeys := allowed } : SourceGrant)) hempty.symm
      · rfl
    | create s granted => exact kept rfl rfl
    | whitelist op functions => exact kept rfl rfl
    | configure s => exact kept rfl rfl

end PolicyCommit

open PolicyCommit

/-! ### The settings of a grant, one by one -/

/-- The settings of a table. -/
inductive Setting where
  | verb (v : CrossingVerb)
  | primaryKey
  | foreignKeys

/-- What a grant says about one setting. -/
inductive SettingValue where
  | verb (granted : Bool) (usingPredicate checkPredicate : Option Expr) (unrestricted : Bool)
  | primaryKey (columns : Option (List String)) (verified : Bool)
  | foreignKeys (allowed : CISet)

/-- What a grant says about one setting; the key of a table with no key set is a fact. -/
def SourceGrant.setting (g : SourceGrant) : Setting → SettingValue
  | .verb v => .verb (g.has v) (g.usingPredicates v) (g.checkPredicates v)
      (if v = .select then g.selectUnrestricted else false)
  | .primaryKey => .primaryKey (if g.keySet then some g.key else none) g.keyVerified
  | .foreignKeys => .foreignKeys g.allowedForeignKeys

/-- The setting an edit is a call on. -/
def PolicyCommit.setting : PolicyCommit → Option Setting
  | .verb _ v _ _ => some (.verb v)
  | .primaryKey _ _ => some .primaryKey
  | .foreignKeys _ _ _ => some .foreignKeys
  | _ => none

/-- An edit installs its own setting and no other. -/
theorem setting_install {g : SourceGrant} {c : PolicyCommit} {σ : Setting} (h : c.setting ≠ some σ) :
    (install g c).setting σ = g.setting σ := by
  cases c with
  | verb t v resolved facts =>
    cases σ with
    | verb v' =>
      have hv : v' ≠ v := fun heq => h (by rw [PolicyCommit.setting, heq])
      have hhas : ∀ g : SourceGrant, (installVerb g v resolved).has v' = g.has v' := by
        intro g
        rw [SourceGrant.has, SourceGrant.has, installVerb]
        cases resolved.granted <;> simp [hv]
      simp only [install, SourceGrant.setting, hhas]
      simp only [installVerb, Function.update_of_ne hv]
      have hs : ¬ (v' = .select ∧ v = .select) := fun hs => hv (hs.1.trans hs.2.symm)
      cases resolved.granted <;> simp [SourceGrant.has, installFacts] <;> grind
    | primaryKey =>
      simp only [install, SourceGrant.setting, installVerb, installFacts]
      split_ifs <;> rfl
    | foreignKeys =>
      simp only [install, SourceGrant.setting, installVerb, installFacts]
      split_ifs <;> rfl
  | primaryKey t resolved =>
    cases σ with
    | primaryKey => exact absurd rfl h
    | _ => rfl
  | foreignKeys t op parents =>
    cases σ with
    | foreignKeys => exact absurd rfl h
    | _ => rfl
  | _ => rfl

/-! ### A whole policy -/

/-- The edits of one table. -/
def editsOf (k : TableKey) (commits : List PolicyCommit) : List PolicyCommit :=
  commits.filter fun c => c.target = some k

/-- The grant of a table; one that is not there has no setting. -/
def grantOf (state : PolicyState) (k : TableKey) : SourceGrant := (state.tables.grantAt k).getD {}

/-- What the edits of a bridge that starts without policies make of it. -/
structure LastWriterWins (commits : List PolicyCommit) (state : PolicyState) : Prop where
  /-- The policy is that of the edits, one after another; so were all the policies before. -/
  replayed : state.Same (replay {} commits)
  /-- Every grant is what the last edits of each setting state. -/
  stated : ∀ k, grantOf state k = stated (sinceTaken (editsOf k commits))
  /-- An edit changes no other setting, unless it takes the last granted verb away. -/
  independent : ∀ before c, before ++ [c] <+: commits → ∀ k σ,
    ¬ (c.target = some k ∧ c.setting = some σ) →
      c.target = some k ∧ takesLast (sinceTaken (editsOf k before)) c = true ∨
        (grantOf (replay {} (before ++ [c])) k).setting σ = (grantOf (replay {} before) k).setting σ

variable {commits : List PolicyCommit} {c : PolicyCommit}

theorem editsOf_concat (k : TableKey) : editsOf k (commits ++ [c]) =
    if c.target = some k then editsOf k commits ++ [c] else editsOf k commits := by
  rw [editsOf, List.filter_append, List.filter_singleton]
  split_ifs with h <;> simp_all [editsOf]

/-- A table's edits up to one of them are those of the calls up to it. -/
theorem prefix_of_editsOf {k : TableKey} {before : List PolicyCommit}
    (h : before ++ [c] <+: editsOf k commits) : ∃ before', before' ++ [c] <+: commits ∧
      editsOf k before' = before ∧ c.target = some k := by
  obtain ⟨rest, hrest⟩ := h
  obtain ⟨l₁, l₂, rfl, h₁, h₂⟩ := List.filter_eq_append_iff.1
    (show editsOf k commits = before ++ (c :: rest) by rw [← hrest]; simp)
  obtain ⟨l₃, l₄, rfl, h₃, h₄, -⟩ := List.filter_eq_cons_iff.1 h₂
  refine ⟨l₁ ++ l₃, ⟨l₄, by simp⟩, ?_, by simpa using h₄⟩
  rw [editsOf, List.filter_append, h₁, List.filter_eq_nil_iff.2 h₃, List.append_nil]

theorem grantOf_replay (hset : ∀ c ∈ commits, c.single = true) (k : TableKey) :
    grantOf (replay {} commits) k = ((editsOf k commits).foldl onGrant none).getD {} := by
  rw [grantOf, grantAt_replay hset]
  rfl

/-- **The calls make the stated grants**, if no denial finds settings without a verb. -/
theorem grantOf_eq_stated (hset : ∀ c ∈ commits, c.single = true) (hclean : ∀ c ∈ commits, c.Clean)
    (hkeep : ∀ before c, before ++ [c] <+: commits → ¬ c.LosesSettings (replay {} before))
    (k : TableKey) : grantOf (replay {} commits) k = stated (sinceTaken (editsOf k commits)) := by
  rw [grantOf_replay hset]
  refine foldl_onGrant (fun c hc => hclean c (List.mem_filter.1 hc).1) fun before c h hlose => ?_
  obtain ⟨before', hpre, rfl, hk⟩ := prefix_of_editsOf h
  refine hkeep before' c hpre ⟨k, hk, ?_⟩
  have hset' : ∀ c ∈ before', c.single = true := fun c hc =>
    hset c (hpre.subset (List.mem_append_left _ hc))
  rw [grantAt_replay hset']
  exact hlose

/-- A denial that finds settings without a verb loses them. -/
theorem not_stated_of_losesSettings (hset : ∀ c' ∈ commits ++ [c], c'.single = true)
    (hclean : ∀ c' ∈ commits ++ [c], c'.Clean) (hlose : c.LosesSettings (replay {} commits)) :
    ∃ k, grantOf (replay {} commits) k = stated (sinceTaken (editsOf k commits)) →
      grantOf (replay {} (commits ++ [c])) k ≠ stated (sinceTaken (editsOf k (commits ++ [c]))) := by
  obtain ⟨k, hk, hlose⟩ := hlose
  refine ⟨k, fun hbefore hafter => ?_⟩
  cases c with
  | verb t v resolved facts =>
    obtain ⟨hr, g, hg, hverbs, hsettings⟩ := hlose
    obtain rfl : resolved = {} := hclean _ (List.mem_append_right _ List.mem_cons_self) hr
    have hgrant : grantOf (replay {} commits) k = g := by rw [grantOf, hg]; rfl
    rw [hgrant] at hbefore
    have hbare : grantedBy (sinceTaken (editsOf k commits)) = ∅ := by
      rw [← hverbs, hbefore]
      rfl
    have ht : takesLast (sinceTaken (editsOf k commits)) (verb t v {} facts) = false := by
      rw [takesLast, hbare]
      simp
    -- the call erases the grant, where its settings are stated to stay
    have hgone : grantOf (replay {} (commits ++ [verb t v {} facts])) k = {} := by
      rw [grantOf_replay hset, editsOf_concat, if_pos hk, List.foldl_append]
      have hs : ∀ c ∈ commits, c.single = true := fun c hc => hset c (List.mem_append_left _ hc)
      have hfold : (editsOf k commits).foldl onGrant none = some g := by
        rw [← hg, grantAt_replay hs]
        rfl
      rw [hfold]
      simp [onGrant, installVerb, hverbs, Option.filter]
    rw [hgone, editsOf_concat, if_pos hk, sinceTaken_concat, ht, if_neg Bool.false_ne_true,
      stated_concat, ← hbefore] at hafter
    rcases hsettings with hkey | hforeign
    · have := congrArg SourceGrant.keySet hafter
      rw [install, installVerb] at this
      simp [hkey] at this
    · exact hforeign (congrArg SourceGrant.allowedForeignKeys hafter).symm
  | _ => exact hlose

/-- **When the calls make the stated grants**, all along. -/
theorem lastWriter_iff (hset : ∀ c ∈ commits, c.single = true) (hclean : ∀ c ∈ commits, c.Clean) :
    (∀ before, before <+: commits → ∀ k,
        grantOf (replay {} before) k = stated (sinceTaken (editsOf k before))) ↔
      ∀ before c, before ++ [c] <+: commits → ¬ c.LosesSettings (replay {} before) := by
  constructor
  · intro h before c hpre hlose
    obtain ⟨k, hk⟩ := not_stated_of_losesSettings (fun c hc => hset c (hpre.subset hc))
      (fun c hc => hclean c (hpre.subset hc)) hlose
    exact hk (h before ((List.prefix_append _ _).trans hpre) k) (h _ hpre k)
  · intro h before hpre k
    exact grantOf_eq_stated (fun c hc => hset c (hpre.subset hc))
      (fun c hc => hclean c (hpre.subset hc)) (fun b c hb => h b c (hb.trans hpre)) k

/-- The calls one by one. -/
theorem lastWriterWins {state : PolicyState} (hsame : state.Same (replay {} commits))
    (hset : ∀ c ∈ commits, c.single = true) (hclean : ∀ c ∈ commits, c.Clean)
    (hkeep : ∀ before c, before ++ [c] <+: commits → ¬ c.LosesSettings (replay {} before)) :
    LastWriterWins commits state where
  replayed := hsame
  stated k := by
    rw [← grantOf_eq_stated hset hclean hkeep, grantOf, hsame.tables]
    rfl
  independent before c hpre k σ hother := by
    have hall := (lastWriter_iff hset hclean).2 hkeep
    rw [hall _ hpre, hall before ((List.prefix_append _ _).trans hpre), editsOf_concat]
    by_cases hk : c.target = some k
    · rw [if_pos hk, sinceTaken_concat]
      by_cases ht : takesLast (sinceTaken (editsOf k before)) c = true
      · exact .inl ⟨hk, ht⟩
      · rw [if_neg ht, stated_concat]
        exact .inr (setting_install fun hσ => hother ⟨hk, hσ⟩)
    · rw [if_neg hk]
      exact .inr rfl

namespace Registry

/-! ### Every run -/

variable {s s' : Registry} {agent : Agent} {nonce : String} {r : Nat}

/-- A policy starts empty, and is that of the edits committed since. -/
structure Replayed (r : Nat) (s : Registry) : Prop where
  policy : ∀ state f, s.HasPolicy r state f → state.Same (replay {} (commitsOf r s.history))
  unregistered : s.registrations ≤ r → commitsOf r s.history = []

/-- A move makes no registration, or one without policies. -/
theorem Move.registrations_or (hm : Move agent s s') : s'.registrations = s.registrations ∨
    ∃ id p, p.registration = s.registrations ∧ p.state = {} ∧ s' = s.addPending id p := by
  cases hm with
  | register id p ha hp hl hr hf hstate => exact .inr ⟨id, p, hr, hstate, rfl⟩
  | wrongToken id token p => exact .inl (by rw [wrongToken_eq])
  | destroySource b bridge =>
    obtain ⟨live, heq⟩ := s.destroySource_eq b bridge
    exact .inl (by rw [heq]; rfl)
  | _ => exact .inl rfl

/-- A policy that was not there before the move is empty. -/
theorem HasPolicy.new (hs : s.Registered) (hm : Move agent s s') {state : PolicyState} {f : Bool}
    (hp : s'.HasPolicy r state f) (hr : s.registrations ≤ r) : state = {} := by
  rcases hm.registrations_or with hn | ⟨id, p, hreg, hstate, rfl⟩
  · have := hp.lt (hs.move hm)
    omega
  · cases hp with
    | pending hq hreg' =>
      rw [pending_addPending] at hq
      split_ifs at hq with hid
      · cases hq
        exact hstate
      · have := hs.numbered _ _ hq
        omega
    | live hb hreg' =>
      have := (hs.books _ _ hb).1
      omega

/-- Nothing is committed to a registration that comes now, or later. -/
theorem commitsOf_unregistered (h : commitsOf r s.history = []) (hs : s.Registered)
    (hm : Move agent s s') (hr : ¬ r < s.registrations) : commitsOf r s'.history = [] := by
  rcases hm.history with hh | ⟨e, hh, hcommit, -⟩
  · rw [hh]
    exact h
  · rw [hh, ← List.singleton_append, commitsOf_append, h, commitsOf, List.filterMap_cons,
      List.filterMap_nil]
    cases hc : commitOf r e with
    | none => rfl
    | some c =>
      obtain ⟨state, hp⟩ := hcommit r c hc
      exact absurd (hp.lt hs) hr

theorem Replayed.move (h : s.Replayed r) (hs : s.Registered) (hm : CalmMove agent r s s') :
    s'.Replayed r := by
  by_cases hr : r < s.registrations
  · -- a policy that was there already
    obtain ⟨hn, events, hh, hp⟩ := Evolves.of_move hs hm.1 hm.2
    refine ⟨fun state' f' hp' => ?_, fun hle => absurd (hr.trans_le hn) hle.not_gt⟩
    obtain ⟨state, f, hbefore, hsame⟩ := hp state' f' hp' hr
    rw [hh, commitsOf_append, replay, List.foldl_append]
    exact hsame.trans ((h.policy state f hbefore).replay _)
  · have hcommits := commitsOf_unregistered (h.unregistered (not_lt.1 hr)) hs hm.1 hr
    refine ⟨fun state f hp => ?_, fun _ => hcommits⟩
    rw [hcommits, hp.new hs hm.1 (not_lt.1 hr)]
    exact .refl _

theorem Replayed.next {l : RegistryLabel} (h : s.Replayed r) (hs : s.Registered) (hl : NoDdl r s l)
    (hn : s.next nonce l = some s') : s'.Replayed r := by
  have hm := next_calm hl hn
  clear hn
  generalize s.agent l = agent at hm
  suffices s'.Replayed r ∧ s'.Registered from this.1
  induction hm with
  | refl => exact ⟨h, hs⟩
  | tail _ hm ih => exact ⟨ih.1.move ih.2 hm, ih.2.move hm.1⟩

/-- The edits that are resolved or committed carry nothing where they deny. -/
structure CleanEdits (s : Registry) : Prop where
  calls : ∀ call c, .policy call ∈ s.calls → call.stage = .resolved c → c.Clean
  commits : ∀ r l c, (r, .committed l c) ∈ s.history → c.Clean

theorem clean_of_resolve {request : PolicyRequest} {view : SourceView} {values : ContextValues}
    {c : PolicyCommit} (h : request.resolve view values = .ok c) : c.Clean := by
  cases request with
  | configure config =>
    cases hs : resolvePolicy view values config with
    | error e => rw [PolicyRequest.resolve, hs] at h; cases h
    | ok state =>
      rw [PolicyRequest.resolve, hs] at h
      cases h
      trivial
  | set edit =>
    rw [PolicyRequest.resolve] at h
    cases edit with
    | verb target v value =>
      rw [resolveEdit] at h
      split_ifs at h with hg
      · obtain ⟨entry, -, h⟩ := bind_eq_ok h
        obtain ⟨resolved, hresolved, h⟩ := bind_eq_ok h
        cases h
        intro hr
        rw [resolveVerb_granted hresolved] at hr
        cases hr
      · cases h
        exact fun _ => rfl
    | create target granted =>
      rw [resolveEdit] at h
      split_ifs at h
      · obtain ⟨_, -, h⟩ := bind_eq_ok (x := throwUnlessSchemaExists view target) h
        cases h
        trivial
      · cases h
        trivial
    | primaryKey target key =>
      cases key with
      | none => cases h; trivial
      | some key =>
        obtain ⟨entry, -, h⟩ := bind_eq_ok h
        obtain ⟨resolved, -, h⟩ := bind_eq_ok h
        cases h
        trivial
    | foreignKeys target op parents =>
      rw [resolveEdit] at h
      split_ifs at h
      · obtain ⟨entry, -, h⟩ := bind_eq_ok (x := grantableEntry view target) h
        obtain ⟨_, -, h⟩ := bind_eq_ok (x := parents.forM (throwUnlessForeignKey view entry target)) h
        cases h
        trivial
      · cases h
        trivial
    | whitelist op functions => cases h; trivial

/-- `P` holds of the edits that are resolved or committed. -/
structure EditsHave (P : PolicyCommit → Prop) (s : Registry) : Prop where
  calls : ∀ call c, .policy call ∈ s.calls → call.stage = .resolved c → P c
  commits : ∀ r l c, (r, .committed l c) ∈ s.history → P c

section

variable {P : PolicyCommit → Prop}

/-- Another call is in flight, or another event is noted. -/
theorem EditsHave.of_sub (h : s.EditsHave P)
    (hc : ∀ call c, .policy call ∈ s'.calls → call.stage = .resolved c → .policy call ∈ s.calls ∨ P c)
    (hh : ∀ r l c, (r, .committed l c) ∈ s'.history → (r, .committed l c) ∈ s.history ∨ P c) :
    s'.EditsHave P where
  calls call c hcall hs := (hc call c hcall hs).elim (fun hcall => h.calls call c hcall hs) id
  commits r l c he := (hh r l c he).elim (h.commits r l c) id

theorem EditsHave.move
    (hP : ∀ {request : PolicyRequest} {view : SourceView} {values : ContextValues} {c : PolicyCommit},
      request.resolve view values = .ok c → P c)
    (h : s.EditsHave P) (hm : Move agent s s') : s'.EditsHave P := by
  have same : ∀ r l c, (r, RegistryEvent.committed l c) ∈ s.history →
      (r, .committed l c) ∈ s.history ∨ P c := fun _ _ _ he => .inl he
  have calls : ∀ call c, RegistryCall.policy call ∈ s.calls → call.stage = .resolved c →
      .policy call ∈ s.calls ∨ P c := fun _ _ hcall _ => .inl hcall
  cases hm with
  -- only a resolved call carries a commit, and only `commitPolicy` notes one
  | beginPolicy call target ha ht hr hsrc hst =>
    refine h.of_sub (fun call' c hcall hs => ?_) same
    rcases List.mem_append.1 hcall with hcall | hcall
    · exact .inl hcall
    · cases List.mem_singleton.1 hcall
      rw [hst] at hs
      cases hs
  | snapshotPolicy i call hi hst =>
    refine h.of_sub (fun call' c hcall hs => ?_) same
    rcases List.mem_or_eq_of_mem_set hcall with hcall | hcall
    · exact .inl hcall
    · cases hcall
      cases hs
  | resolvePolicy i call values view commit hi hst hok =>
    refine h.of_sub (fun call' c hcall hs => ?_) same
    rcases List.mem_or_eq_of_mem_set hcall with hcall | hcall
    · exact .inl hcall
    · cases hcall
      cases hs
      -- the one label that makes a commit
      exact .inr (hP hok)
  | beginContext call =>
    refine h.of_sub (fun call' c hcall hs => ?_) same
    rcases List.mem_append.1 hcall with hcall | hcall
    · exact .inl hcall
    · cases List.mem_singleton.1 hcall
  | advanceContext i call =>
    refine h.of_sub (fun call' c hcall hs => ?_) same
    rcases List.mem_or_eq_of_mem_set hcall with hcall | hcall
    · exact .inl hcall
    · cases hcall
  | endCall i => exact h.of_sub (fun _ _ hcall _ => .inl (List.mem_of_mem_eraseIdx hcall)) same
  | wrongToken id token p =>
    rw [wrongToken_eq]
    refine h.of_sub calls fun r l c he => ?_
    rcases List.mem_cons.1 he with he | he
    · cases he
    · exact .inl he
  | attach id p =>
    refine h.of_sub calls fun r l c he => ?_
    rcases List.mem_cons.1 he with he | he
    · cases he
    · exact .inl he
  | destroySource b bridge =>
    obtain ⟨live, heq⟩ := s.destroySource_eq b bridge
    rw [heq]
    exact h.of_sub calls same
  | commitPending call commit p hcall hst =>
    refine h.of_sub calls fun r l c he => ?_
    rcases List.mem_cons.1 he with he | he
    -- the edit noted is the one its call carried
    · cases he
      exact .inr (h.calls call commit hcall hst)
    · exact .inl he
  | commitLive call commit entry bridge book hcall hst =>
    refine h.of_sub calls fun r l c he => ?_
    rcases List.mem_cons.1 he with he | he
    · cases he
      exact .inr (h.calls call commit hcall hst)
    · exact .inl he
  | finalizePending id p =>
    refine h.of_sub calls fun r l c he => ?_
    rcases List.mem_cons.1 he with he | he
    · cases he
    · exact .inl he
  | finalizeLive b bridge =>
    refine h.of_sub calls fun r l c he => ?_
    rcases List.mem_cons.1 he with he | he
    · cases he
    · exact .inl he
  | _ => exact h.of_sub calls same

theorem EditsHave.moves
    (hP : ∀ {request : PolicyRequest} {view : SourceView} {values : ContextValues} {c : PolicyCommit},
      request.resolve view values = .ok c → P c)
    (h : s.EditsHave P) (hm : Moves agent s s') : s'.EditsHave P := by
  induction hm with
  | refl => exact h
  | tail _ hm ih => exact ih.move hP hm

end

/-- What every resolved edit is, every committed one is too. -/
theorem editsHave_of_reachable {C : Registry → RegistryLabel → Prop} {P : PolicyCommit → Prop}
    (hP : ∀ {request : PolicyRequest} {view : SourceView} {values : ContextValues} {c : PolicyCommit},
      request.resolve view values = .ok c → P c)
    (h : (registryMachine nonce).ReachableBy C {} s) : s.EditsHave P := by
  refine h.invariant (I := fun s => s.EditsHave P) ⟨fun _ _ hc => ?_, fun _ _ _ hc => ?_⟩
    fun s l t hi _ hn => hi.moves hP (next_moves hn)
  · cases hc
  · cases hc

theorem CleanEdits.of_have (h : s.EditsHave PolicyCommit.Clean) : s.CleanEdits :=
  ⟨h.calls, h.commits⟩

/-- What holds of every run without DDL on `r`. -/
theorem replayed_of_reachable (h : (registryMachine nonce).ReachableBy (NoDdl r) {} s) :
    s.Registered ∧ s.Replayed r ∧ s.CleanEdits := by
  have hreplayed : s.Registered ∧ s.Replayed r := by
    refine h.invariant (I := fun s => s.Registered ∧ s.Replayed r)
      ⟨registered_empty, ⟨fun state f hp => ?_, fun _ => rfl⟩⟩
      fun s l t hi hl hn => ⟨hi.1.moves (next_moves hn), hi.2.next hi.1 hl hn⟩
    cases hp with
    | pending hp => cases hp
    | live hb => cases hb
  exact ⟨hreplayed.1, hreplayed.2, .of_have (editsHave_of_reachable clean_of_resolve h)⟩

theorem mem_commitsOf {events : List (Nat × RegistryEvent)} {c : PolicyCommit}
    (h : c ∈ commitsOf r events) : ∃ l, (r, .committed l c) ∈ events := by
  obtain ⟨⟨r', e⟩, he, hc⟩ := List.mem_filterMap.1 (List.mem_reverse.1 h)
  cases e with
  | committed l c' =>
    simp only [commitOf, Option.ite_none_right_eq_some, Option.some.injEq] at hc
    obtain ⟨rfl, rfl⟩ := hc
    exact ⟨l, he⟩
  | _ => cases hc

/-- **Last writer wins**: after any run without DDL of the target in which the policy was only set one
setting at a time, if no call denied a verb of a table that had settings but no verb. -/
theorem last_writer_wins (h : (registryMachine nonce).ReachableBy (NoDdl r) {} s)
    {state : PolicyState} {f : Bool} (hp : s.HasPolicy r state f)
    (hset : ∀ c ∈ commitsOf r s.history, c.single = true)
    (hkeep : ∀ before c, before ++ [c] <+: commitsOf r s.history →
      ¬ c.LosesSettings (replay {} before)) :
    LastWriterWins (commitsOf r s.history) state := by
  obtain ⟨-, hreplayed, hclean⟩ := replayed_of_reachable h
  refine lastWriterWins (hreplayed.policy state f hp) hset (fun c hc => ?_) hkeep
  obtain ⟨l, he⟩ := mem_commitsOf hc
  exact hclean.commits r l c he

namespace Sample

/-- A table of the people. -/
def peopleName : PolicyName := ⟨"", "main", "people"⟩

/-- The sections of one call. -/
def setting (edit : PolicyEdit) : List RegistryLabel :=
  [.setPolicy 0 "b" (.set edit), .snapshot 0, .resolve 0 people, .finish 0]

/-- The owner registers a source and sets a key; then it grants a verb and denies another. -/
def keeping : List RegistryLabel :=
  [.register 0 "b" (.ok ⟨0, "first"⟩) (some "token") ""] ++
    setting (.primaryKey peopleName (some { columns := ["id"] })) ++
    setting (.verb peopleName .select { granted := true, usingText := "true" }) ++
    setting (.verb peopleName .insert {})

/-- The owner registers a source and sets a key; then it denies a verb that was never granted. -/
def denying : List RegistryLabel :=
  [.register 0 "b" (.ok ⟨0, "first"⟩) (some "token") ""] ++
    setting (.primaryKey peopleName (some { columns := ["id"] })) ++
    setting (.verb peopleName .insert {})

/-- The label is a step of a session. -/
def isSession : RegistryLabel → Bool
  | .session _ _ _ => true
  | _ => false

theorem run_of_exec {ls : List RegistryLabel} (h : (registryMachine nonce).exec s ls = some s')
    (hls : ls.all fun l => !isSession l) : (registryMachine nonce).Run (NoDdl r) s ls s' := by
  refine Machine.run_of_exec_forall h fun l hl s => ?_
  cases l with
  | session b i op => cases List.all_eq_true.1 hls _ hl
  | _ => trivial

theorem denied : commitsOf 0 (after denying).history =
    [.primaryKey peopleName ⟨true, ["id"], false⟩, .verb peopleName .insert {} {}] := rfl

theorem kept : commitsOf 0 (after keeping).history = [.primaryKey peopleName ⟨true, ["id"], false⟩,
    .verb peopleName .select ⟨true, some (.constant (.boolean true)), none, true⟩ {},
      .verb peopleName .insert {} {}] := rfl

end Sample

/-- Denying a verb that was never granted erases the key. -/
theorem not_last_writer_wins : ¬ ∀ (nonce : String) (s : Registry) (r : Nat) (state : PolicyState)
    (f : Bool), (registryMachine nonce).ReachableBy (NoDdl r) {} s → s.HasPolicy r state f →
      (∀ c ∈ commitsOf r s.history, c.single = true) →
        LastWriterWins (commitsOf r s.history) state := by
  intro h
  have run : (registryMachine "n").ReachableBy (NoDdl 0) {} (Sample.after Sample.denying) :=
    ⟨Sample.denying, Sample.run_of_exec rfl rfl⟩
  have policy : (Sample.after Sample.denying).HasPolicy 0 {} false :=
    @HasPolicy.pending (Sample.after Sample.denying) 0 "b"
      { registration := 0, sourceDb := 0, token := "token", source := ⟨0, "first"⟩, lastTouched := 0 }
      rfl rfl
  have hset : ∀ c ∈ commitsOf 0 (Sample.after Sample.denying).history, c.single = true := by
    rw [Sample.denied]
    simp [single]
  have hkey := congrArg SourceGrant.keySet
    ((h "n" _ 0 {} false run policy hset).stated (tableKey "main" "people"))
  rw [Sample.denied] at hkey
  cases hkey

/-- The owner grants a verb before it denies another. -/
theorem last_writer_wins_keeping : ∃ state f, (Sample.after Sample.keeping).HasPolicy 0 state f ∧
    LastWriterWins (commitsOf 0 (Sample.after Sample.keeping).history) state := by
  have run : (registryMachine "n").ReachableBy (NoDdl 0) {} (Sample.after Sample.keeping) :=
    ⟨Sample.keeping, Sample.run_of_exec rfl rfl⟩
  obtain ⟨p, hp, hr⟩ : ∃ p, (Sample.after Sample.keeping).pending "b" = some p ∧
    p.registration = 0 := ⟨_, rfl, rfl⟩
  have policy : (Sample.after Sample.keeping).HasPolicy 0 p.state p.policyFinalized := .pending hp hr
  refine ⟨_, _, policy, last_writer_wins run policy ?_ ?_⟩
  · rw [Sample.kept]
    simp [single]
  · rw [Sample.kept]
    rintro before c ⟨rest, hrest⟩ ⟨k, hk, hlose⟩
    rcases before with _ | ⟨c₁, _ | ⟨c₂, _ | ⟨c₃, before⟩⟩⟩
    · cases hrest
      exact hlose
    · cases hrest
      cases hlose.1
    · cases hrest
      cases hk
      obtain ⟨-, g, hg, hverbs, -⟩ := hlose
      cases hg
      revert hverbs
      decide
    · simp at hrest

end Registry

end VirtualCatalog
