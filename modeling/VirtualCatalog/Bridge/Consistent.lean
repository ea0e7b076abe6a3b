import VirtualCatalog.Bridge.Rollback

/-!
# The live grant set stays valid

A policy edit checks that every foreign-key parent of a writable table is readable; a DDL rewrites
the same grants without checking, and a rollback puts back grants that it took away.  The grants
stay valid as long as no DDL takes away a table that a grant of another table rests on.

* `SourceGrant.RestsOn` : the grant filed under a key needs a table to be readable.
* `LeavesParents` : a DDL that takes away no such table.
* `Lawful` : the invariant: whichever sessions roll back, the grants are valid.
* `live_valid` : the live grants of every run whose DDL leaves the parents are valid.
-/

namespace VirtualCatalog

/-! ### The law by key -/

/-- What `validateGrantSet` asks of the grants by key. -/
def ValidLaw (m : TableKey → Option SourceGrant) : Prop :=
  ∀ k g, m k = some g →
    g.verbs ≠ ∅ ∧ ∀ parent, g.needs parent → ∃ p, m (k.1, parent) = some p ∧ p.readsAll

/-- The grant filed under `k` needs the table `q` to be readable. -/
def SourceGrant.RestsOn (g : SourceGrant) (k q : TableKey) : Prop := k.1 = q.1 ∧ g.needs q.2

/-- Two grants that the law does not tell apart. -/
structure SameLaw (g g' : SourceGrant) : Prop where
  verbs : g'.verbs = g.verbs
  selectUnrestricted : g'.selectUnrestricted = g.selectUnrestricted
  foreignKeyParents : g'.foreignKeyParents = g.foreignKeyParents
  allowedForeignKeys : g'.allowedForeignKeys = g.allowedForeignKeys

/-- The grants of the same tables, none of which the law tells apart. -/
def SameLaws (m m' : TableKey → Option SourceGrant) : Prop :=
  ∀ k, Option.Rel SameLaw (m k) (m' k)

theorem SameLaw.refl (g : SourceGrant) : SameLaw g g := ⟨rfl, rfl, rfl, rfl⟩

theorem SameLaw.needs {g g' : SourceGrant} (h : SameLaw g g') {parent : List Char}
    (hn : g'.needs parent) : g.needs parent := by
  rw [SourceGrant.needs, SourceGrant.writes, h.verbs, h.foreignKeyParents, h.allowedForeignKeys] at hn
  exact hn

theorem SameLaw.readsAll {g g' : SourceGrant} (h : SameLaw g g') (hr : g.readsAll) :
    g'.readsAll := by
  rw [SourceGrant.readsAll, h.verbs, h.selectUnrestricted]
  exact hr

theorem SameLaws.refl (m : TableKey → Option SourceGrant) : SameLaws m m := by
  intro k
  cases m k with
  | none => exact .none
  | some g => exact .some (.refl g)

/-- The law looks at nothing but verbs and foreign keys. -/
theorem ValidLaw.same {m m' : TableKey → Option SourceGrant} (h : ValidLaw m)
    (hs : SameLaws m m') : ValidLaw m' := by
  intro k g' hk
  have hrel := hs k
  rw [hk] at hrel
  cases hm : m k with
  | none => rw [hm] at hrel; cases hrel
  | some g =>
    rw [hm] at hrel
    obtain ⟨hsame⟩ := hrel
    obtain ⟨hverbs, hneeds⟩ := h k g hm
    refine ⟨by rw [hsame.verbs]; exact hverbs, fun parent hn => ?_⟩
    obtain ⟨p, hp, hr⟩ := hneeds parent (hsame.needs hn)
    have hrel := hs (k.1, parent)
    rw [hp] at hrel
    cases hm' : m' (k.1, parent) with
    | none => rw [hm'] at hrel; cases hrel
    | some p' =>
      rw [hm'] at hrel
      obtain ⟨hsame'⟩ := hrel
      exact ⟨p', rfl, hsame'.readsAll hr⟩

/-! ### Changes that keep the law -/

theorem select_mem_createdGrant (key : List String) : .select ∈ (createdGrant key).verbs := by
  cases key <;> simp [createdGrant, crossingVerbs, SourceGrant.allow]

/-- The grant of a created table has no foreign keys. -/
theorem createdGrant_needs (key : List String) (parent : List Char) :
    ¬ (createdGrant key).needs parent := by
  have hnil : (createdGrant key).foreignKeyParents = [] := by
    cases key <;> simp [createdGrant, crossingVerbs, SourceGrant.allow]
  rintro ⟨-, p, hp, -⟩
  rw [hnil] at hp
  cases hp

section

variable {m : TableKey → Option SourceGrant} {t n : TableKey} {g : SourceGrant}

/-- A grant that no other rests on is replaced by none, or by one without foreign keys. -/
theorem ValidLaw.update (h : ValidLaw m)
    (hrests : ∀ k g, k ≠ t → m k = some g → ¬ g.RestsOn k t) {r : Option SourceGrant}
    (hr : ∀ g ∈ r, g.verbs ≠ ∅ ∧ ∀ parent, ¬ g.needs parent) :
    ValidLaw (Function.update m t r) := by
  intro k g hk
  by_cases hkt : k = t
  · rw [hkt, Function.update_self] at hk
    exact ⟨(hr g hk).1, fun parent hn => absurd hn ((hr g hk).2 parent)⟩
  · rw [Function.update_of_ne hkt] at hk
    obtain ⟨hverbs, hneeds⟩ := h k g hk
    refine ⟨hverbs, fun parent hn => ?_⟩
    have hne : (k.1, parent) ≠ t := fun heq => hrests k g hkt hk (heq ▸ ⟨rfl, hn⟩)
    rw [Function.update_of_ne hne]
    exact hneeds parent hn

/-- A grant that no grant rests on, itself included, moves within its schema. -/
theorem ValidLaw.move (h : ValidLaw m) (hn : n.1 = t.1) (hne : n ≠ t) (hg : m t = some g)
    (hrests : ∀ k g, k ≠ n → m k = some g → ¬ g.RestsOn k t)
    (hover : m n ≠ none → ∀ k g, k ≠ n → m k = some g → ¬ g.RestsOn k n) :
    ValidLaw (Function.update (Function.update m t none) n (some g)) := by
  -- what a grant rests on is neither of the two tables
  have parents : ∀ k g', k ≠ n → m k = some g' → ∀ parent, g'.needs parent →
      ∃ p, Function.update (Function.update m t none) n (some g) (k.1, parent) = some p ∧
        p.readsAll := by
    intro k g' hkn hk parent hneeds
    obtain ⟨p, hp, hr⟩ := (h k g' hk).2 parent hneeds
    have hnt : (k.1, parent) ≠ t := fun heq => hrests k g' hkn hk (heq ▸ ⟨rfl, hneeds⟩)
    have hnn : (k.1, parent) ≠ n := by
      intro heq
      have hsome : m n ≠ none := by rw [← heq, hp]; exact Option.some_ne_none p
      exact hover hsome k g' hkn hk (heq ▸ ⟨rfl, hneeds⟩)
    exact ⟨p, by rw [Function.update_of_ne hnn, Function.update_of_ne hnt, hp], hr⟩
  intro k g' hk
  by_cases hkn : k = n
  · rw [hkn, Function.update_self] at hk
    cases hk
    refine ⟨(h t g hg).1, fun parent hneeds => ?_⟩
    rw [hkn, hn]
    exact parents t g (Ne.symm hne) hg parent hneeds
  · rw [Function.update_of_ne hkn] at hk
    by_cases hkt : k = t
    · rw [hkt, Function.update_self] at hk
      cases hk
    · rw [Function.update_of_ne hkt] at hk
      exact ⟨(h k g' hk).1, parents k g' hkn hk⟩

end

/-! ### What a log puts back -/

namespace GrantUndo

/-- The entry puts the grant `g` back under `k`. -/
def Holds : GrantUndo → TableKey → SourceGrant → Prop
  | created s t replaced, k, g => k = tableKey s t ∧ replaced = some g
  | dropped s t grant, k, g => k = tableKey s t ∧ grant = g
  | renamed _ _ _, _, _ => False

variable {N : Set TableKey} {m : TableKey → Option SourceGrant} {k : TableKey} {g : SourceGrant}

/-- A grant after one entry is put back by it, or was there before, in the same schema. -/
theorem restore_origin {undo : GrantUndo} (hN : undo.names ⊆ N) (hk : k ∈ N)
    (h : undo.restore m k = some g) :
    (∃ k' ∈ N, k'.1 = k.1 ∧ m k' = some g) ∨ ∃ k', k'.1 = k.1 ∧ undo.Holds k' g := by
  cases undo with
  | created s t replaced =>
    rw [restore, Function.update_apply] at h
    split_ifs at h with hkt
    · exact .inr ⟨k, rfl, hkt, h⟩
    · exact .inl ⟨k, hk, rfl, h⟩
  | dropped s t grant =>
    rw [restore, Function.update_apply] at h
    split_ifs at h with hkt
    · exact .inr ⟨k, rfl, hkt, Option.some.inj h⟩
    · exact .inl ⟨k, hk, rfl, h⟩
  | renamed s o n =>
    rw [restore] at h
    cases hn : m (tableKey s n) with
    | none => rw [hn] at h; exact .inl ⟨k, hk, rfl, h⟩
    | some p =>
      simp only [hn, Function.update_apply] at h
      split_ifs at h with hko hkn
      · refine .inl ⟨tableKey s n, hN (.inr rfl), ?_, hn.trans h⟩
        rw [hko]
        rfl
      · exact .inl ⟨k, hk, rfl, h⟩

/-- A grant after a log is put back by one of its entries, or was there before. -/
theorem rollBack_origin {undos : List GrantUndo} (hN : ∀ undo ∈ undos, undo.names ⊆ N)
    (hk : k ∈ N) (h : rollBack (undos.map restore) m k = some g) :
    (∃ k' ∈ N, k'.1 = k.1 ∧ m k' = some g) ∨
      ∃ undo ∈ undos, ∃ k', k'.1 = k.1 ∧ undo.Holds k' g := by
  induction undos generalizing m with
  | nil => exact .inl ⟨k, hk, rfl, h⟩
  | cons undo undos ih =>
    rcases ih (fun u hu => hN u (List.mem_cons_of_mem _ hu)) h with
      ⟨k', hk', hs, h'⟩ | ⟨u, hu, h'⟩
    · rcases restore_origin (hN undo List.mem_cons_self) hk' h' with
        ⟨k'', hk'', hs', h''⟩ | ⟨k'', hs', h''⟩
      · exact .inl ⟨k'', hk'', hs'.trans hs, h''⟩
      · exact .inr ⟨undo, List.mem_cons_self, k'', hs'.trans hs, h''⟩
    · exact .inr ⟨u, List.mem_cons_of_mem _ hu, h'⟩

end GrantUndo

/-- Every grant has the property. -/
def AllGrants (P : SourceGrant → Prop) (m : TableKey → Option SourceGrant) : Prop :=
  ∀ k g, m k = some g → P g

/-- Every grant that a log would put back has it. -/
def AllHeld (P : SourceGrant → Prop) (undos : List GrantUndo) : Prop :=
  ∀ undo ∈ undos, ∀ k g, undo.Holds k g → P g

/-- **An operation of a session moves grants between the book and its log**, or makes the grant of a
table it creates. -/
theorem DuckDBSession.Logs.all {P : SourceGrant → Prop} {session : DuckDBSession}
    {m m' : TableKey → Option SourceGrant} {op : SessionOp} {undos : List GrantUndo}
    (hcreated : ∀ key, P (createdGrant key)) (h : session.Logs m op m' undos) (hm : AllGrants P m)
    (hu : AllHeld P session.grantUndo) : AllGrants P m' ∧ AllHeld P undos := by
  cases h with
  | keep => exact ⟨hm, hu⟩
  | forget => exact ⟨hm, fun undo hundo => by cases hundo⟩
  | undo =>
    refine ⟨fun k g hk => ?_, fun undo hundo => by cases hundo⟩
    -- a grant that is rolled back to was in the book or in the log
    rcases GrantUndo.rollBack_origin (fun _ _ => Set.subset_univ _) (Set.mem_univ k) hk with
      ⟨k', -, -, hk'⟩ | ⟨undo, hundo, k', -, hholds⟩
    · exact hm k' g hk'
    · exact hu undo hundo k' g hholds
  | @change ddl answer m' undo hrec hc =>
    have log : (∀ k g, undo.Holds k g → P g) → AllHeld P (undo :: session.grantUndo) := by
      intro h undo' hundo
      rcases List.mem_cons.1 hundo with rfl | hundo
      · exact h
      · exact hu undo' hundo
    rcases grantChange_eq_some hc with ⟨-, rfl, rfl⟩ | ⟨-, g, hg, rfl, rfl⟩ | ⟨n, g, -, hg, rfl, rfl⟩
    · refine ⟨fun k g hk => ?_, log fun k g hh => hm ddl.tableKey g hh.2⟩
      rw [Function.update_apply] at hk
      split_ifs at hk
      · cases hk
        exact hcreated _
      · exact hm k g hk
    · refine ⟨fun k g' hk => ?_, log fun k g' hh => hh.2 ▸ hm ddl.tableKey g hg⟩
      rw [Function.update_apply] at hk
      split_ifs at hk
      exact hm k g' hk
    · refine ⟨fun k g' hk => ?_, log fun k g' hh => hh.elim⟩
      rw [Function.update_apply, Function.update_apply] at hk
      split_ifs at hk
      · cases hk
        exact hm ddl.tableKey g hg
      · exact hm k g' hk

/-! ### The logs of all sessions -/

/-- The logs of all sessions. -/
abbrev GrantLogs := Nat → List GrantUndo

namespace GrantLogs

/-- The tables that the log of a session is about. -/
def touched (E : GrantLogs) (i : Nat) : Set TableKey := {k | ∃ undo ∈ E i, k ∈ undo.names}

/-- What the log of a session restores. -/
def restores (E : GrantLogs) (i : Nat) :
    List ((TableKey → Option SourceGrant) → TableKey → Option SourceGrant) :=
  (E i).map GrantUndo.restore

variable {E E' : GrantLogs} {i j : Nat}

theorem touched_congr (h : E' j = E j) : E'.touched j = E.touched j := by rw [touched, h]; rfl

theorem restores_congr (h : E' j = E j) : E'.restores j = E.restores j := by
  rw [restores, h]; rfl

theorem touched_nil (h : E i = []) : E.touched i = ∅ := by
  ext k
  simp [touched, h]

theorem touched_cons {undo : GrantUndo} (h : E' i = undo :: E i) :
    E'.touched i = undo.names ∪ E.touched i := by
  ext k
  simp [touched, h]

theorem names_subset {undo : GrantUndo} (h : undo ∈ E i) : undo.names ⊆ E.touched i :=
  fun _ hk => ⟨undo, h, hk⟩

theorem restores_local (E : GrantLogs) (j : Nat) : ∀ u ∈ E.restores j, LocalOn (E.touched j) u := by
  intro u hu
  obtain ⟨undo, hundo, rfl⟩ := List.mem_map.1 hu
  exact undo.restore_local.mono (names_subset hundo)

end GrantLogs

/-- The table that a DDL leaves under a name, or takes from there. -/
def CrossingDdl.target (ddl : CrossingDdl) : TableKey :=
  VirtualCatalog.tableKey ddl.schema (ddl.newName.getD ddl.table)

/-- A `RENAME` that changes no more than the case of the name. -/
def CrossingDdl.Recases (ddl : CrossingDdl) : Prop :=
  ddl.newName.isSome = true ∧ ddl.target = ddl.tableKey

/-- A DDL of the session `i` takes away no table that another grant rests on, be it live or to be
put back by a log. -/
structure LeavesParents (E : GrantLogs) (m : TableKey → Option SourceGrant) (i : Nat)
    (ddl : CrossingDdl) : Prop where
  /-- No other session works on the same tables. -/
  apart : ∀ j ≠ i, ∀ undo ∈ E j, Disjoint undo.names ddl.names
  /-- The table is no parent, not even of itself if it changes its name. -/
  live : ¬ ddl.Recases →
    ∀ k g, k ≠ ddl.target → m k = some g → ¬ g.RestsOn k ddl.tableKey
  /-- Nor will it be when another session rolls back. -/
  held : ¬ ddl.Recases →
    ∀ j ≠ i, ∀ undo ∈ E j, ∀ k g, undo.Holds k g → ¬ g.RestsOn k ddl.tableKey
  /-- Nor is a table whose grant a new name overwrites, and the session did not put it there. -/
  overwritten : ddl.target ≠ ddl.tableKey → m ddl.target ≠ none →
    (∀ undo ∈ E i, ddl.target ∉ undo.names) ∧
      (∀ k g, k ≠ ddl.target → m k = some g → ¬ g.RestsOn k ddl.target) ∧
        ∀ j, ∀ undo ∈ E j, ∀ k g, undo.Holds k g → ¬ g.RestsOn k ddl.target

/-- Whichever sessions roll back, the grants are valid. -/
structure Lawful (E : GrantLogs) (m : TableKey → Option SourceGrant) : Prop where
  apart : ∀ i j, i ≠ j → Disjoint (E.touched i) (E.touched j)
  valid : ∀ S m', RolledBack E.touched E.restores S m m' → ValidLaw m'

section

variable {E E' : GrantLogs} {m m' m₀ m₁ : TableKey → Option SourceGrant} {i : Nat} {S : Set Nat}
  {ddl : CrossingDdl} {answer : SourceAnswer} {undo : GrantUndo}

/-- Without logs, the grants need only be valid. -/
theorem lawful_of_empty (hE : ∀ j, E j = []) (h : ValidLaw m) : Lawful E m := by
  refine ⟨fun i j _ => ?_, fun S m' hm => ?_⟩
  · rw [GrantLogs.touched_nil (hE i)]
    exact Set.empty_disjoint _
  · have : m' = m := funext fun k => hm.frame k fun j _ hk => by
      rw [GrantLogs.touched_nil (hE j)] at hk
      exact hk
    rwa [this]

theorem Lawful.live (h : Lawful E m) : ValidLaw m :=
  h.valid ∅ m ⟨fun _ hj => hj.elim, fun _ _ => rfl⟩

theorem Lawful.forget (h : Lawful E m) (hi : E' i = []) (hE : ∀ j ≠ i, E' j = E j) :
    Lawful E' m := by
  have hN : ∀ j ≠ i, E'.touched j = E.touched j := fun j hj => GrantLogs.touched_congr (hE j hj)
  refine ⟨fun j j' hjj' => ?_, fun S m' hm => ?_⟩
  · by_cases hj : j = i
    · rw [hj, GrantLogs.touched_nil hi]
      exact Set.empty_disjoint _
    · by_cases hj' : j' = i
      · rw [hj', GrantLogs.touched_nil hi]
        exact Set.disjoint_empty _
      · rw [hN j hj, hN j' hj']
        exact h.apart j j' hjj'
  · exact h.valid _ m' (hm.forget (GrantLogs.touched_nil hi) hN fun j hj =>
      GrantLogs.restores_congr (hE j hj))

theorem Lawful.undone (h : Lawful E m) (hi : E' i = []) (hE : ∀ j ≠ i, E' j = E j) :
    Lawful E' (rollBack (E.restores i) m) := by
  refine ⟨(h.forget hi hE).apart, fun S m' hm => ?_⟩
  exact h.valid _ m' (hm.undo (GrantLogs.touched_nil hi)
    (fun j hj => GrantLogs.touched_congr (hE j hj)) (fun j hj => GrantLogs.restores_congr (hE j hj))
    E.restores_local fun j hj => h.apart i j (Ne.symm hj))

/-- Where neither a live nor a held grant rests on a table, no rollback makes one rest on it. -/
theorem not_restsOn_of_rolledBack {f q : TableKey} (h : RolledBack E.touched E.restores S m m₀)
    (hf : ∀ j ∈ S, f ∉ E.touched j)
    (hlive : ∀ k g, k ≠ f → m k = some g → ¬ g.RestsOn k q)
    (hheld : ∀ j ∈ S, ∀ undo ∈ E j, ∀ k g, undo.Holds k g → ¬ g.RestsOn k q) :
    ∀ k g, k ≠ f → m₀ k = some g → ¬ g.RestsOn k q := by
  intro k g hkf hk hrests
  by_cases hS : ∀ j ∈ S, k ∉ E.touched j
  · exact hlive k g hkf ((h.frame k hS).symm.trans hk) hrests
  · push Not at hS
    obtain ⟨j, hj, hkj⟩ := hS
    rw [h.undone j hj k hkj] at hk
    rcases GrantUndo.rollBack_origin (fun _ => GrantLogs.names_subset) hkj hk with
      ⟨k', hk', hs, hm⟩ | ⟨undo, hundo, k', hs, hh⟩
    · have hk'f : k' ≠ f := fun heq => hf j hj (heq ▸ hk')
      exact hlive k' g hk'f hm ⟨hs.trans hrests.1, hrests.2⟩
    · exact hheld j hj undo hundo k' g hh ⟨hs.trans hrests.1, hrests.2⟩

/-- Without a new name the target is the table itself. -/
theorem target_eq (h : ddl.newName = none) : ddl.target = ddl.tableKey := by
  rw [CrossingDdl.target, h]
  rfl

theorem target_mem (ddl : CrossingDdl) : ddl.target ∈ ddl.names := by
  cases hn : ddl.newName with
  | none => exact .inl (target_eq hn)
  | some n => exact .inr ⟨n, hn, by rw [CrossingDdl.target, hn]; rfl⟩

/-- Undoing a `RENAME` leaves nothing under the new name. -/
theorem restore_rename {n : String} (hc : grantChange ddl answer m = some (m', undo))
    (hn : ddl.newName = some n) (hne : ddl.target ≠ ddl.tableKey) :
    undo.restore m' = Function.update m ddl.target none := by
  have htarget : tableKey ddl.schema n = ddl.target := by rw [CrossingDdl.target, hn]; rfl
  rcases grantChange_eq_some hc with ⟨⟨oc, hoc⟩, -⟩ | ⟨hdrop, -⟩ | ⟨n', g, hn', hg, rfl, rfl⟩
  · rw [CrossingDdl.newName, hoc] at hn; cases hn
  · rw [CrossingDdl.newName, hdrop] at hn; cases hn
  · rw [hn] at hn'
    cases hn'
    funext k
    have htable : tableKey ddl.schema ddl.table = ddl.tableKey := rfl
    simp only [GrantUndo.restore, htable, htarget, Function.update_self]
    by_cases hk : k = ddl.tableKey
    · rw [hk, Function.update_self, Function.update_of_ne (Ne.symm hne), hg]
    · rw [Function.update_of_ne hk]
      by_cases hkn : k = ddl.target
      · rw [hkn, Function.update_self, Function.update_self]
      · simp only [Function.update_of_ne hkn, Function.update_of_ne hk]

/-- A change that takes away no parent keeps the law, wherever it shows. -/
theorem ValidLaw.change (h : ValidLaw m₀) (hc : grantChange ddl answer m = some (m', undo))
    (hnames : ∀ k ∈ ddl.names, m₀ k = m k ∧ m₁ k = m' k) (hframe : ∀ k ∉ ddl.names, m₁ k = m₀ k)
    (hlive : ¬ ddl.Recases → ∀ k g, k ≠ ddl.target → m₀ k = some g → ¬ g.RestsOn k ddl.tableKey)
    (hover : ddl.target ≠ ddl.tableKey → m ddl.target ≠ none →
      ∀ k g, k ≠ ddl.target → m₀ k = some g → ¬ g.RestsOn k ddl.target) : ValidLaw m₁ := by
  have hmem : ddl.tableKey ∈ ddl.names := .inl rfl
  -- without a new name, one grant is replaced
  have replaced : ∀ r, ddl.newName = none → m' = Function.update m ddl.tableKey r →
      (∀ g ∈ r, g.verbs ≠ ∅ ∧ ∀ parent, ¬ g.needs parent) → ValidLaw m₁ := by
    rintro r hnew rfl hr
    have hm₁ : m₁ = Function.update m₀ ddl.tableKey r := by
      funext k
      by_cases hk : k = ddl.tableKey
      · rw [hk, (hnames _ hmem).2, Function.update_self, Function.update_self]
      · have hk' : k ∉ ddl.names := by
          rintro (h | ⟨n, hn, -⟩)
          · exact hk h
          · rw [hnew] at hn; cases hn
        rw [hframe k hk', Function.update_of_ne hk]
    rw [hm₁]
    refine h.update (fun k g hk => ?_) hr
    have hrec : ¬ ddl.Recases := fun hr => by rw [CrossingDdl.Recases, hnew] at hr; cases hr.1
    rw [← target_eq hnew] at hk
    exact hlive hrec k g hk
  rcases grantChange_eq_some hc with ⟨⟨oc, hoc⟩, hm', -⟩ | ⟨hdrop, g, -, hm', -⟩ |
    ⟨n, g, hn, hg, hm', -⟩
  · refine replaced _ (by rw [CrossingDdl.newName, hoc]) hm' fun g hg => ?_
    cases hg
    exact ⟨Finset.ne_empty_of_mem (select_mem_createdGrant _), createdGrant_needs _⟩
  · exact replaced none (by rw [CrossingDdl.newName, hdrop]) hm' fun g hg => by cases hg
  · have htarget : tableKey ddl.schema n = ddl.target := by rw [CrossingDdl.target, hn]; rfl
    rw [htarget] at hm'
    have hmemn : ddl.target ∈ ddl.names := .inr ⟨n, hn, htarget.symm⟩
    have hm₁ : m₁ = Function.update (Function.update m₀ ddl.tableKey none) ddl.target (some g) := by
      funext k
      by_cases hkn : k = ddl.target
      · rw [hkn, (hnames _ hmemn).2, hm', Function.update_self, Function.update_self]
      · rw [Function.update_of_ne hkn]
        by_cases hk : k = ddl.tableKey
        · rw [hk, (hnames _ hmem).2, hm', Function.update_of_ne (hk ▸ hkn), Function.update_self,
            Function.update_self]
        · have hk' : k ∉ ddl.names := by
            rintro (h | ⟨n', hn', h⟩)
            · exact hk h
            · rw [hn] at hn'; cases hn'; exact hkn (h.trans htarget)
          rw [hframe k hk', Function.update_of_ne hk]
    have hg₀ : m₀ ddl.tableKey = some g := (hnames _ hmem).1.trans hg
    by_cases hrec : ddl.target = ddl.tableKey
    · have : m₁ = m₀ := by
        rw [hm₁, hrec, Function.update_idem, ← hg₀, Function.update_eq_self]
      rwa [this]
    · rw [hm₁]
      refine h.move rfl hrec hg₀ (hlive fun hr => hrec hr.2) fun hne => hover hrec ?_
      rwa [← (hnames _ hmemn).1]

/-- **A DDL that takes away no parent keeps the grants lawful.** -/
theorem Lawful.change (h : Lawful E m) (hl : LeavesParents E m i ddl)
    (hc : grantChange ddl answer m = some (m', undo)) (hi : E' i = undo :: E i)
    (hE : ∀ j ≠ i, E' j = E j) : Lawful E' m' := by
  -- nothing of another session's log changes, and the DDL stays apart from it
  have hN : ∀ j ≠ i, E'.touched j = E.touched j := fun j hj => GrantLogs.touched_congr (hE j hj)
  have hL : ∀ j ≠ i, E'.restores j = E.restores j :=
    fun j hj => GrantLogs.restores_congr (hE j hj)
  have hNi := GrantLogs.touched_cons hi
  have hapart : ∀ j ≠ i, Disjoint ddl.names (E.touched j) := by
    intro j hj
    refine Set.disjoint_left.2 fun k hk => ?_
    rintro ⟨u, hu, hku⟩
    exact Set.disjoint_left.1 (hl.apart j hj u hu) hku hk
  have hundo : ∀ j ≠ i, Disjoint undo.names (E.touched j) :=
    fun j hj => (hapart j hj).mono_left (grantChange_names hc)
  refine ⟨fun j j' hjj' => ?_, fun S m₁ hm => ?_⟩
  · by_cases hj : j = i
    · subst hj
      rw [hNi, hN j' (Ne.symm hjj'), Set.disjoint_union_left]
      exact ⟨hundo j' (Ne.symm hjj'), h.apart j j' hjj'⟩
    · by_cases hj' : j' = i
      · subst hj'
        rw [hNi, hN j hj, Set.disjoint_union_right]
        exact ⟨(hundo j hj).symm, h.apart j j' hjj'⟩
      · rw [hN j hj, hN j' hj']
        exact h.apart j j' hjj'
  by_cases hS : i ∈ S
  · -- the session itself takes its change back
    have hback := hm.push hS hN hNi hL (by rw [GrantLogs.restores, hi]; rfl) E.restores_local hundo
      fun k hk => undo.restore_local.frame m' k hk
    by_cases hfree : ∀ n, ddl.newName = some n →
        m (tableKey ddl.schema n) = none ∨ tableKey ddl.schema n = ddl.tableKey
    · rw [restore_grantChange hc hfree] at hback
      exact h.valid S m₁ hback
    · -- but for the grant that a new name overwrote
      push Not at hfree
      obtain ⟨n, hn, hsome, hne⟩ := hfree
      have htarget : tableKey ddl.schema n = ddl.target := by rw [CrossingDdl.target, hn]; rfl
      rw [htarget] at hsome hne
      obtain ⟨hown, hlive, hheld⟩ := hl.overwritten hne hsome
      have hout : ∀ j ∈ S, ddl.target ∉ E.touched j := by
        rintro j - ⟨u, hu, hk⟩
        by_cases hj : j = i
        · exact hown u (hj ▸ hu) hk
        · exact Set.disjoint_left.1 (hl.apart j hj u hu) hk (.inr ⟨n, hn, htarget.symm⟩)
      obtain ⟨m₀, hm₀, hnames, hframe⟩ := hback.change (A := {ddl.target}) (fun _ _ => rfl)
        (fun _ _ => rfl) E.restores_local
        (fun j hj => Set.disjoint_singleton_left.2 (hout j hj)) fun k hk => by
          rw [restore_rename hc hn hne, Function.update_of_ne hk]
      have hm₁ : m₁ = Function.update m₀ ddl.target none := by
        funext k
        by_cases hk : k = ddl.target
        · rw [hk, (hnames _ rfl).2, restore_rename hc hn hne, Function.update_self,
            Function.update_self]
        · rw [hframe k hk, Function.update_of_ne hk]
      rw [hm₁]
      exact (h.valid S m₀ hm₀).update
        (not_restsOn_of_rolledBack hm₀ hout hlive fun j _ => hheld j) fun g hg => by cases hg
  -- the session stays: its grants, with those that others take back
  · have hout : ∀ j ∈ S, j ≠ i := fun j hj hji => hS (hji ▸ hj)
    obtain ⟨m₀, hm₀, hnames, hframe⟩ := hm.change (fun j hj => hN j (hout j hj))
      (fun j hj => hL j (hout j hj)) E.restores_local (fun j hj => hapart j (hout j hj))
      fun k hk => grantChange_frame hc hk
    have hout' : ∀ j ∈ S, ddl.target ∉ E.touched j :=
      fun j hj hk => Set.disjoint_left.1 (hapart j (hout j hj)) (target_mem ddl) hk
    refine (h.valid S m₀ hm₀).change hc hnames hframe (fun hrec => ?_) fun hne hsome => ?_
    · exact not_restsOn_of_rolledBack hm₀ hout' (hl.live hrec) fun j hj =>
        hl.held hrec j (hout j hj)
    · obtain ⟨-, hlive, hheld⟩ := hl.overwritten hne hsome
      exact not_restsOn_of_rolledBack hm₀ hout' hlive fun j _ => hheld j

end

/-! ### Runs -/

namespace Live

/-- The logs of a list of sessions. -/
def logsOf (sessions : List DuckDBSession) : GrantLogs :=
  fun i => ((sessions[i]?).map (·.grantUndo)).getD []

/-- The logs of the sessions. -/
def grantLogs (s : Live) : GrantLogs := logsOf s.sessions

/-- The live grants are valid whichever sessions roll back. -/
structure Consistent (s : Live) : Prop where
  sound : s.Sound
  lawful : Lawful s.grantLogs s.tables.grantAt

end Live

/-- A DDL that a session records and that changes a grant takes away no parent. -/
def KeepsParents (s : Live) : LiveLabel → Prop
  | .session i .record => ∀ session ddl answer, s.sessions[i]? = some session →
      session.recording = some (ddl, answer) →
        ((∃ oc, ddl.statement = .create oc) ∨
          (ddl.statement = .drop ∨ ddl.newName.isSome = true) ∧
            s.tables.findGrant ddl.schema ddl.table ≠ none) →
        LeavesParents s.grantLogs s.tables.grantAt i ddl
  | _ => True

namespace Live

variable {bridgeId : String} {s s' : Live} {l : LiveLabel}

theorem logsOf_of_getElem? {sessions : List DuckDBSession} {i : Nat} {session : DuckDBSession}
    (h : sessions[i]? = some session) : logsOf sessions i = session.grantUndo := by
  rw [logsOf, h]
  rfl

theorem logsOf_set {sessions : List DuckDBSession} {i j : Nat} (session : DuckDBSession)
    (h : j ≠ i) : logsOf (sessions.set i session) j = logsOf sessions j := by
  rw [logsOf, logsOf, List.getElem?_set_ne (Ne.symm h)]

/-- A new session has nothing in its log. -/
theorem logsOf_begin (sessions : List DuckDBSession) :
    logsOf (sessions ++ [({} : DuckDBSession)]) = logsOf sessions := by
  funext i
  rw [logsOf, logsOf, List.getElem?_append]
  split_ifs with hlt
  · rfl
  · rw [List.getElem?_eq_none (Nat.le_of_not_lt hlt)]
    cases i - sessions.length <;> rfl

/-- Without uncommitted DDL all logs are empty. -/
theorem Sound.grantLogs_nil (h : s.Sound) (hz : s.store.book.uncommittedDdl = 0) (i : Nat) :
    s.grantLogs i = [] := by
  cases hi : s.sessions[i]? with
  | none => rw [grantLogs, logsOf, hi]; rfl
  | some session =>
    have hlen := length_le_logged hi
    rw [← h.count, hz] at hlen
    rw [grantLogs, logsOf_of_getElem? hi]
    exact List.length_eq_zero_iff.1 (Nat.le_zero.1 hlen)

/-- A commit of the owner installs a valid set, or the grants that there are. -/
theorem Consistent.owner {store' : Store} {label : OwnerLabel} (h : s.Consistent)
    (hs : s.store.next bridgeId label = some store') :
    Lawful s.grantLogs store'.book.tables.grantAt := by
  cases Store.next_effect hs with
  | quiet hbook => rw [hbook]; exact h.lawful
  | policy commit hbook =>
    obtain ⟨-, hzero, state, happly, hvalid, hb⟩ := commitPolicy_ok_iff.1 hbook
    rw [hb]
    by_cases ht : commit.touchesTables = true
    · exact lawful_of_empty (h.sound.grantLogs_nil (hzero ht)) hvalid
    · cases commit with
      | whitelist op names =>
        cases happly
        have : (copyPolicy s.store.book.state).tables.grantAt = s.tables.grantAt :=
          funext (GrantTables.grantAt_copyTables _)
        change Lawful s.grantLogs (copyPolicy s.store.book.state).tables.grantAt
        rw [this]
        exact h.lawful
      | _ => exact absurd rfl ht
  | context hbook => rw [hbook]; exact h.lawful

/-- **Every step that keeps the parents keeps a bridge consistent.** -/
theorem Consistent.next (h : s.Consistent) (hc : KeepsParents s l)
    (hs : s.next bridgeId l = some s') : s'.Consistent := by
  refine ⟨h.sound.next hs, ?_⟩
  cases l with
  | owner label =>
    obtain ⟨store', hstore, rfl⟩ := Option.map_eq_some_iff.1 hs
    exact h.owner hstore
  | begin =>
    cases hs
    have : Lawful (logsOf (s.sessions ++ [({} : DuckDBSession)])) s.tables.grantAt := by
      rw [logsOf_begin]
      exact h.lawful
    exact this
  | session i op =>
    obtain ⟨session, book, session', hi, hd, hstep, rfl⟩ := next_session hs
    have hEi : s.grantLogs i = session.grantUndo := logsOf_of_getElem? hi
    have hE : ∀ j ≠ i, logsOf (s.sessions.set i session') j = s.grantLogs j :=
      fun j hj => logsOf_set session' hj
    have hEi' : logsOf (s.sessions.set i session') i = session'.grantUndo :=
      logsOf_of_getElem? (List.getElem?_set_self (List.getElem?_eq_some_iff.1 hi).1)
    change Lawful (logsOf (s.sessions.set i session')) book.tables.grantAt
    have hlogs := hstep.logs
    generalize book.tables.grantAt = m' at hlogs ⊢
    generalize session'.grantUndo = undos at hlogs hEi'
    cases hlogs with
    | keep =>
      have : logsOf (s.sessions.set i session') = s.grantLogs := by
        funext j
        by_cases hj : j = i
        · rw [hj, hEi', hEi]
        · exact hE j hj
      rw [this]
      exact h.lawful
    | forget => exact h.lawful.forget hEi' hE
    | undo =>
      have : rollBack session.log = rollBack (s.grantLogs.restores i) := by
        rw [GrantLogs.restores, hEi]; rfl
      rw [this]
      exact h.lawful.undone hEi' hE
    | change hrec hch =>
      refine h.lawful.change (hc session _ _ hi hrec ?_) hch (hEi ▸ hEi') hE
      rcases grantChange_eq_some hch with ⟨hcreate, -⟩ | ⟨hdrop, g, hg, -⟩ | ⟨n, g, hn, hg, -⟩
      · exact .inl hcreate
      · refine .inr ⟨.inl hdrop, ?_⟩
        rw [GrantTables.findGrant_eq]
        exact hg ▸ Option.some_ne_none g
      · refine .inr ⟨.inr (by rw [hn]; rfl), ?_⟩
        rw [GrantTables.findGrant_eq]
        exact hg ▸ Option.some_ne_none g

end Live

/-! ### Edits that leave verbs and foreign keys alone -/

/-- The edit is about verbs or foreign keys. -/
def PolicyCommit.setsLaw : PolicyCommit → Bool
  | verb .. | foreignKeys .. | configure _ => true
  | create .. | primaryKey .. | whitelist .. => false

theorem sameLaws_set {T T' : GrantTables} {schema table : String} {g g' : SourceGrant}
    (hT : T'.grantAt = T.grantAt) (hg : T'.findGrant schema table = some g) (hs : SameLaw g g') :
    SameLaws T.grantAt (T'.set schema table g').grantAt := by
  intro k
  rw [GrantTables.grantAt_set, ← hT]
  split_ifs with hk
  · rw [hk, ← GrantTables.findGrant_eq, hg]
    exact .some hs
  · exact SameLaws.refl T'.grantAt k

/-- Such an edit changes nothing the law looks at. -/
theorem sameLaws_of_apply {bridgeId : String} {state state' : PolicyState} {commit : PolicyCommit}
    (hc : commit.setsLaw = false) (h : commit.apply bridgeId (copyPolicy state) = .ok state') :
    SameLaws state.tables.grantAt state'.tables.grantAt := by
  have hcopy : (copyPolicy state).tables.grantAt = state.tables.grantAt :=
    funext (GrantTables.grantAt_copyTables _)
  cases commit with
  | create schema granted =>
    cases h
    change SameLaws _ (copyPolicy state).tables.grantAt
    rw [hcopy]
    exact .refl _
  | whitelist op names =>
    cases h
    change SameLaws _ (copyPolicy state).tables.grantAt
    rw [hcopy]
    exact .refl _
  | primaryKey target resolved =>
    rw [PolicyCommit.apply] at h
    split_ifs at h
    · cases h
      rw [hcopy]
      exact .refl _
    · obtain ⟨g, hg, h⟩ := bind_eq_ok h
      cases h
      exact sameLaws_set hcopy (PolicyCommit.grantToConfigure_ok hg) ⟨rfl, rfl, rfl, rfl⟩
  | _ => cases hc

/-- What passes at attach passes later. -/
theorem validateGrantSet_attached {T : GrantTables} {createSchemas : CISet} {bridgeId : String}
    (h : validateGrantSet T createSchemas bridgeId true = .ok ()) :
    validateGrantSet T createSchemas bridgeId false = .ok () := by
  rw [validateGrantSet, bind_unit_ok_iff] at h ⊢
  exact ⟨h.1, throwIf_eq_ok.2 (by simp)⟩

/-- **The live grant set stays valid**, in every run whose DDL takes away no parent: it passes
`validateGrantSet`, and so does every edit that leaves verbs and foreign keys as they are. -/
theorem live_valid {bridgeId : String} {s₀ s : Live} (hfresh : s₀.Fresh)
    (hattach : validateGrantSet s₀.tables s₀.store.book.state.createSchemas bridgeId true = .ok ())
    (hreach : (liveMachine bridgeId).ReachableBy KeepsParents s₀ s) :
    validateGrantSet s.tables s.store.book.state.createSchemas bridgeId false = .ok () ∧
      ∀ (commit : PolicyCommit) (state : PolicyState),
        commit.apply bridgeId (copyPolicy s.store.book.state) = .ok state →
        commit.setsLaw = false ∨ SameLaws s.tables.grantAt state.tables.grantAt →
          validateGrantSet state.tables state.createSchemas bridgeId false = .ok () := by
  have hvalid₀ : ValidGrants s₀.tables :=
    validateGrantSet_ok_iff.1 (validateGrantSet_attached hattach)
  have hempty : ∀ i, s₀.grantLogs i = [] := hfresh.sound.grantLogs_nil hfresh.count
  have hstart : s₀.Consistent := ⟨hfresh.sound, lawful_of_empty hempty hvalid₀⟩
  have hcons : s.Consistent := hreach.invariant hstart fun _ _ _ h hc hs => h.next hc hs
  have hlaw : ValidLaw s.tables.grantAt := hcons.lawful.live
  refine ⟨validateGrantSet_ok_iff.2 hlaw, fun commit state happly hsame => ?_⟩
  have hsame : SameLaws s.tables.grantAt state.tables.grantAt :=
    hsame.elim (fun hc => sameLaws_of_apply hc happly) id
  exact validateGrantSet_ok_iff.2 (hlaw.same hsame)

namespace Sample

/-- A grant to insert into a table with a foreign key to `customers`. -/
def insertGrant : SourceGrant where
  verbs := {.insert, .drop}
  foreignKeyParents := ["customers"]

/-- A bridge that grants `customers`, and `orders` with a foreign key to it. -/
def withParent : Live where
  store :=
    { book := { state := { tables := (tables insertGrant).set "main" "customers" openGrant } }
      context := {}
      installed := []
      contexts := [] }
  sessions := []

end Sample

/-- A `DROP` of a parent leaves behind a grant whose own table its owner has dropped before. -/
theorem live_not_valid :
    ¬ ∀ (bridgeId : String) (s₀ s : Live), s₀.Fresh →
        validateGrantSet s₀.tables s₀.store.book.state.createSchemas bridgeId true = .ok () →
        (liveMachine bridgeId).ReachableBy Machine.Free s₀ s →
        validateGrantSet s.tables s.store.book.state.createSchemas bridgeId false = .ok () := by
  intro h
  let ls := LiveLabel.begin :: Sample.runs ⟨"main", "customers", .drop⟩ 0
  let s := Sample.afterSteps Sample.withParent ls
  have hreach : (liveMachine "b").ReachableBy Machine.Free Sample.withParent s :=
    ⟨ls, Machine.run_of_exec rfl⟩
  have := h "b" _ s ⟨rfl, rfl⟩ (by decide) hreach
  cases this

/-- The table with the foreign key goes, and comes back with a rollback. -/
theorem live_valid_drop : validateGrantSet
    (Sample.afterSteps Sample.withParent (.begin :: Sample.runs ⟨"main", "orders", .drop⟩ 0 ++
      [.session 0 .rollback])).tables ∅ "b" false = .ok () := by
  let ls := LiveLabel.begin :: Sample.runs ⟨"main", "orders", .drop⟩ 0 ++ [.session 0 .rollback]
  let s := Sample.afterSteps Sample.withParent ls
  have hleaves : ∀ E : GrantLogs, E = (fun _ => []) →
      LeavesParents E Sample.withParent.tables.grantAt 0 ⟨"main", "orders", .drop⟩ := by
    rintro E rfl
    refine ⟨fun _ _ _ hu => (by cases hu), fun _ k g hk hg => ?_, fun _ _ _ _ hu => (by cases hu),
      fun hne => absurd rfl hne⟩
    rintro ⟨-, hwrites, -⟩
    change ((Sample.tables Sample.insertGrant).set "main" "customers" Sample.openGrant).grantAt k =
      some g at hg
    rw [GrantTables.grantAt_set, Sample.tables, GrantTables.grantAt_set] at hg
    split_ifs at hg with h₁ h₂
    · cases hg
      rcases hwrites with h | h <;> simp [Sample.openGrant] at h
    · exact hk h₂
    · cases hg
  have hrun : (liveMachine "b").Run KeepsParents Sample.withParent ls s := by
    refine .cons trivial rfl (.cons trivial rfl (.cons trivial rfl (.cons ?_ rfl
      (.single trivial rfl))))
    intro session ddl answer hi hrec _
    cases hi
    cases hrec
    refine hleaves _ (funext fun i => ?_)
    cases i <;> rfl
  exact (live_valid ⟨rfl, rfl⟩ rfl ⟨ls, hrun⟩).1

end VirtualCatalog
