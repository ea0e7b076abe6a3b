import VirtualCatalog.Bridge.Probing

/-!
# What the transactions leave

A rollback brings back grants together with their tables, and a commit lets the new ones stand.
Which table a predicate of the policy will be left on thus depends on which of the open transactions
end how.

* `Versions.Leaves` : what lies under a name once some sessions have rolled back.
* `Versions.Exclusive` : the transactions on the source change different tables.
* `Versions.Binding` : whichever sessions roll back, the predicates of the grants bind on the tables
  that are left.
* `FittingRecord` : what the recording of a DDL must not do.
* `begins`, `opens`, `continues`, `runs`, `records`, `commits_binding`, `closes` : every step of a
  session keeps both.
-/

namespace VirtualCatalog

/-! ### What the transactions leave -/

namespace Versions

/-- What a session has changed under a name, and recorded. -/
def changed (s : Versions) (i : Nat) (k : TableKey) : Option (Option Nat) :=
  (s.transactions i).bind fun tx => tx.changes k

/-- The table under a name once the sessions of `S` have rolled back and the others committed. -/
def Leaves (s : Versions) (S : Set Nat) (k : TableKey) (v : Option Nat) : Prop :=
  (∃ i ∉ S, s.changed i k = some v) ∨ (∀ i ∉ S, s.changed i k = none) ∧ s.committed k = v

/-- No two transactions work on the same table, and none on a table that has changed since it
began. -/
structure Exclusive (s : Versions) : Prop where
  sound : s.live.Sound
  there : ∀ i, (s.transactions i).isSome = true → i < s.live.sessions.length
  apart : ∀ i j tx other, i ≠ j → s.transactions i = some tx → s.transactions j = some other →
    ∀ k, tx.touches k = true → other.touches k = false
  base : ∀ i tx, s.transactions i = some tx → ∀ k, tx.touches k = true →
    s.committed k = tx.snapshot k
  /-- A table whose grant a session has changed, it has changed itself. -/
  logged : ∀ i, ∀ k ∈ s.live.grantLogs.touched i, (s.changed i k).isSome = true
  /-- A DDL that is to be recorded has changed what it changes. -/
  running : ∀ i session ddl answer, s.live.sessions[i]? = some session →
    session.recording = some (ddl, answer) → ∃ tx version, s.transactions i = some tx ∧
      ddl.reshapes version tx = some tx.running

/-- Whichever sessions roll back, every predicate of a grant binds: `B v p` says that `p` does on
the version `v`. -/
structure Binding (B : Nat → Expr → Prop) (s : Versions) : Prop where
  binds : ∀ S m, RolledBack s.live.grantLogs.touched s.live.grantLogs.restores S s.grants m →
    ∀ k g p, m k = some g → g.HasPredicate p → ∃ v, s.Leaves S k (some v) ∧ B v p
  /-- Where a session has taken a table away, it has taken the grant away. -/
  gone : ∀ i, ∀ k ∈ s.live.grantLogs.touched i, s.changed i k = some none → s.grants k = none

variable {s s' : Versions} {B : Nat → Expr → Prop} {S : Set Nat} {i j : Nat} {k : TableKey}
  {v : Option Nat} {tx : SourceTransaction}

theorem changed_of_transaction (h : s.transactions i = some tx) : s.changed i = tx.changes := by
  funext k
  rw [changed, h]
  rfl

theorem changed_of_none (h : s.transactions i = none) : s.changed i k = none := by
  rw [changed, h]
  rfl

theorem changed_congr (h : s'.transactions i = s.transactions i) : s'.changed i = s.changed i := by
  funext k
  rw [changed, changed, h]

/-- A session that has changed a table is in a transaction that touches it. -/
theorem touches_of_changed (h : (s.changed i k).isSome = true) :
    ∃ tx, s.transactions i = some tx ∧ tx.touches k = true := by
  cases hi : s.transactions i with
  | none =>
    rw [changed_of_none hi] at h
    cases h
  | some tx =>
    rw [changed_of_transaction hi] at h
    exact ⟨tx, rfl, by rw [SourceTransaction.touches, h]; rfl⟩

/-- Nobody else has changed a table that a transaction touches. -/
theorem Exclusive.changed_apart (h : s.Exclusive) (hi : s.transactions i = some tx)
    (hk : tx.touches k = true) (hj : j ≠ i) : s.changed j k = none := by
  by_contra hne
  obtain ⟨other, hother, hk'⟩ := touches_of_changed (Option.isSome_iff_ne_none.2 hne)
  rw [h.apart i j tx other (Ne.symm hj) hi hother k hk] at hk'
  cases hk'

theorem Exclusive.apart_logs (h : s.Exclusive) (hij : i ≠ j) :
    Disjoint (s.live.grantLogs.touched i) (s.live.grantLogs.touched j) := by
  refine Set.disjoint_left.2 fun k hi hj => ?_
  obtain ⟨tx, htx, hk⟩ := touches_of_changed (h.logged i k hi)
  have hsome := h.logged j k hj
  rw [h.changed_apart htx hk (Ne.symm hij)] at hsome
  cases hsome

/-- What a session leaves of a table that it touches, if it does not roll back, is what it sees. -/
theorem Exclusive.leaves_view (h : s.Exclusive) (hl : s.Leaves S k v) (hS : i ∉ S)
    (hi : s.transactions i = some tx) (hk : tx.touches k = true) : tx.view k = v := by
  rw [SourceTransaction.view]
  rcases hl with ⟨j, -, hj⟩ | ⟨hnone, hcommitted⟩
  · by_cases hji : j = i
    · rw [hji, changed_of_transaction hi] at hj
      rw [hj]
      rfl
    · rw [h.changed_apart hi hk hji] at hj
      cases hj
  · have hnone := hnone i hS
    rw [changed_of_transaction hi] at hnone
    rw [hnone, Option.getD_none, ← h.base i tx hi k hk, hcommitted]

/-! ### Steps that leave the grants alone -/

theorem Leaves.congr (h : s.Leaves S k v) (hcommitted : s'.committed k = s.committed k)
    (hchanged : ∀ i ∉ S, s'.changed i k = s.changed i k) : s'.Leaves S k v := by
  rcases h with ⟨i, hi, hv⟩ | ⟨hnone, hv⟩
  · exact .inl ⟨i, hi, (hchanged i hi).trans hv⟩
  · exact .inr ⟨fun i hi => (hchanged i hi).trans (hnone i hi), hcommitted.trans hv⟩

theorem Binding.quiet (h : s.Binding B) (hgrants : s'.grants = s.grants)
    (hlogs : s'.live.grantLogs = s.live.grantLogs) (hcommitted : s'.committed = s.committed)
    (hchanged : s'.changed = s.changed) : s'.Binding B := by
  refine ⟨fun S m hm k g p hk hp => ?_, fun i k hk hnone => ?_⟩
  · rw [hlogs, hgrants] at hm
    obtain ⟨v, hl, hb⟩ := h.binds S m hm k g p hk hp
    exact ⟨v, hl.congr (by rw [hcommitted]) fun i _ => by rw [hchanged], hb⟩
  · rw [hlogs] at hk
    rw [hchanged] at hnone
    rw [hgrants]
    exact h.gone i k hk hnone

/-! ### The end of a transaction -/

theorem Binding.commit (h : s.Binding B) (hx : s.Exclusive) (hgrants : s'.grants = s.grants)
    (hlog : s'.live.grantLogs i = []) (hlogs : ∀ j ≠ i, s'.live.grantLogs j = s.live.grantLogs j)
    (hcommitted : ∀ k, s'.committed k = (s.changed i k).getD (s.committed k))
    (hclosed : ∀ k, s'.changed i k = none) (hothers : ∀ j ≠ i, s'.changed j = s.changed j) :
    s'.Binding B := by
  refine ⟨fun S m hm k g p hk hp => ?_, fun j k hk hnone => ?_⟩
  · rw [hgrants] at hm
    have hm := hm.forget (GrantLogs.touched_nil hlog)
      (fun j hj => GrantLogs.touched_congr (hlogs j hj))
      fun j hj => GrantLogs.restores_congr (hlogs j hj)
    obtain ⟨v, hl, hb⟩ := h.binds _ m hm k g p hk hp
    refine ⟨v, ?_, hb⟩
    have hself : i ∉ S \ {i} := fun hi => hi.2 rfl
    rcases hl with ⟨j, hj, hv⟩ | ⟨hnone, hv⟩
    · by_cases hji : j = i
      -- what the session has changed is committed now
      · subst hji
        obtain ⟨tx, htx, htouch⟩ := touches_of_changed (by rw [hv]; rfl)
        refine .inr ⟨fun j' _ => ?_, by rw [hcommitted, hv]; rfl⟩
        by_cases hj' : j' = j
        · rw [hj', hclosed]
        · rw [hothers j' hj', hx.changed_apart htx htouch hj']
      · refine .inl ⟨j, fun hjS => hj ⟨hjS, hji⟩, ?_⟩
        rw [hothers j hji, hv]
    · refine .inr ⟨fun j hj => ?_, by rw [hcommitted, hnone i hself, hv]; rfl⟩
      by_cases hji : j = i
      · rw [hji, hclosed]
      · rw [hothers j hji, hnone j fun hjS => hj hjS.1]
  · by_cases hji : j = i
    · rw [hji, GrantLogs.touched_nil hlog] at hk
      exact hk.elim
    · rw [GrantLogs.touched_congr (hlogs j hji)] at hk
      rw [hothers j hji] at hnone
      rw [hgrants]
      exact h.gone j k hk hnone

theorem Binding.close (h : s.Binding B) (hx : s.Exclusive)
    (hgrants : s'.grants = rollBack (s.live.grantLogs.restores i) s.grants)
    (hlog : s'.live.grantLogs i = []) (hlogs : ∀ j ≠ i, s'.live.grantLogs j = s.live.grantLogs j)
    (hcommitted : s'.committed = s.committed)
    (hclosed : ∀ k, s'.changed i k = none) (hothers : ∀ j ≠ i, s'.changed j = s.changed j) :
    s'.Binding B := by
  refine ⟨fun S m hm k g p hk hp => ?_, fun j k hk hnone => ?_⟩
  · rw [hgrants] at hm
    have hm := hm.undo (GrantLogs.touched_nil hlog)
      (fun j hj => GrantLogs.touched_congr (hlogs j hj))
      (fun j hj => GrantLogs.restores_congr (hlogs j hj)) s.live.grantLogs.restores_local
      fun j hj => hx.apart_logs (Ne.symm hj)
    obtain ⟨v, hl, hb⟩ := h.binds _ m hm k g p hk hp
    refine ⟨v, ?_, hb⟩
    have hout : ∀ {j}, j ≠ i → j ∉ S → j ∉ insert i S := fun hji hj hins =>
      hins.elim hji hj
    rcases hl with ⟨j, hj, hv⟩ | ⟨hnone, hv⟩
    · have hji : j ≠ i := fun hji => hj (.inl hji)
      exact .inl ⟨j, fun hjS => hj (.inr hjS), by rw [hothers j hji, hv]⟩
    · refine .inr ⟨fun j hj => ?_, by rw [hcommitted, hv]⟩
      by_cases hji : j = i
      · rw [hji, hclosed]
      · rw [hothers j hji, hnone j (hout hji hj)]
  · by_cases hji : j = i
    · rw [hji, GrantLogs.touched_nil hlog] at hk
      exact hk.elim
    · rw [GrantLogs.touched_congr (hlogs j hji)] at hk
      rw [hothers j hji] at hnone
      rw [hgrants, rollBack_frame (s.live.grantLogs.restores_local i) fun hki =>
        Set.disjoint_left.1 (hx.apart_logs hji) hk hki]
      exact h.gone j k hk hnone

/-! ### A recorded DDL -/

end Versions

/-- An `ALTER` that is no `RENAME` changes its own table, and every other DDL what it always
does. -/
theorem CrossingDdl.reshapes_cases {ddl : CrossingDdl} {version : Nat} {tx : SourceTransaction}
    {effect : TableKey → Option (Option Nat)} (h : ddl.reshapes version tx = some effect) :
    ((∃ info, ddl.statement = .alter info) ∧ ddl.newName = none ∧
      ∀ k v, effect k = some v → k = ddl.tableKey ∧ v = some version) ∨
    ddl.Changes version tx effect := by
  rw [reshapes] at h
  split at h
  next info hs hn =>
    refine .inl ⟨⟨info, hs⟩, hn, fun k v hk => ?_⟩
    split at h
    · cases h
      by_cases hkey : k = ddl.tableKey
      · subst hkey
        rw [Function.update_self] at hk
        cases hk
        exact ⟨rfl, rfl⟩
      · rw [Function.update_of_ne hkey] at hk
        cases hk
    · cases h
      cases hk
  · exact .inr (changes_of_effect h)

theorem CrossingDdl.mem_keys_of_reshapes {ddl : CrossingDdl} {version : Nat}
    {tx : SourceTransaction} {effect : TableKey → Option (Option Nat)}
    (h : ddl.reshapes version tx = some effect)
    {k : TableKey} (hk : (effect k).isSome = true) : k ∈ ddl.keys := by
  rcases ddl.reshapes_cases h with ⟨-, -, honly⟩ | hchanges
  · obtain ⟨v, hv⟩ := Option.isSome_iff_exists.1 hk
    exact (honly k v hv).1 ▸ List.mem_cons_self
  · exact hchanges.keys hk

theorem CrossingDdl.names_of_keys {ddl : CrossingDdl} {k : TableKey} (h : k ∈ ddl.keys) :
    k ∈ ddl.names := by
  rcases List.mem_cons.1 h with rfl | h
  · exact .inl rfl
  · obtain ⟨n, hn, rfl⟩ := List.mem_map.1 h
    exact .inr ⟨n, Option.mem_toList.1 hn, rfl⟩

/-- What the recording of a DDL must not do. -/
structure FittingRecord (B : Nat → Expr → Prop) (s : Versions) (tx : SourceTransaction)
    (ddl : CrossingDdl) (answer : SourceAnswer) : Prop where
  /-- A DDL that changed nothing on the source changes no grant. -/
  idle : (∀ k, tx.running k = none) → grantChange ddl answer s.grants = none
  /-- A predicate of the table that binds before an `ALTER` binds after it. -/
  alter : ddl.newName = none → (∃ info, ddl.statement = .alter info) → ∀ v w g p,
    tx.view ddl.tableKey = some v → tx.running ddl.tableKey = some (some w) →
      s.grants ddl.tableKey = some g → g.HasPredicate p → B v p → B w p

namespace FittingRecord

variable {B : Nat → Expr → Prop} {s : Versions} {tx : SourceTransaction} {ddl : CrossingDdl}
  {answer : SourceAnswer} {m : TableKey → Option SourceGrant} {undo : GrantUndo} {version : Nat}

/-- A DDL that changes a grant is a `CREATE`, a `DROP` or a `RENAME`. -/
theorem changes (hreshapes : ddl.reshapes version tx = some tx.running)
    (hchange : grantChange ddl answer s.grants = some (m, undo)) :
    ddl.Changes version tx tx.running := by
  rcases ddl.reshapes_cases hreshapes with ⟨⟨info, hs⟩, hn, -⟩ | hchanges
  · rcases grantChange_eq_some hchange with ⟨⟨oc, hs'⟩, -⟩ | ⟨hs', -⟩ | ⟨n, g, hn', -⟩
    · rw [hs] at hs'
      cases hs'
    · rw [hs] at hs'
      cases hs'
    · rw [hn] at hn'
      cases hn'
  · exact hchanges

/-- It changes all that it names on the source. -/
theorem active (hfits : FittingRecord B s tx ddl answer)
    (hreshapes : ddl.reshapes version tx = some tx.running)
    (hchange : grantChange ddl answer s.grants = some (m, undo)) :
    (∀ k ∈ ddl.names, (tx.running k).isSome = true) ∧ ∀ n, ddl.newName = some n →
      tx.view (tableKey ddl.schema n) = none ∨ tableKey ddl.schema n = ddl.tableKey := by
  refine (changes hreshapes hchange).active fun hidle => ?_
  rw [hfits.idle hidle] at hchange
  cases hchange

end FittingRecord

namespace Versions

variable {s s' : Versions} {B : Nat → Expr → Prop} {S : Set Nat} {i j : Nat} {k : TableKey}
  {v : Option Nat} {tx : SourceTransaction} {ddl : CrossingDdl} {answer : SourceAnswer}
  {undo : GrantUndo} {version : Nat}

/-- The change of session `i` is recorded. -/
structure Recorded (s s' : Versions) (i : Nat) (tx : SourceTransaction) : Prop where
  transaction : s.transactions i = some tx
  committed : s'.committed = s.committed
  self : ∀ k, s'.changed i k = (tx.running k).or (tx.changes k)
  others : ∀ j ≠ i, s'.changed j = s.changed j

namespace Recorded

theorem self_of_none (h : s.Recorded s' i tx) (hk : tx.running k = none) :
    s'.changed i k = s.changed i k := by
  rw [h.self, hk, changed_of_transaction h.transaction]
  rfl

/-- A name that the DDL does not change, or that the session rolls back. -/
theorem leaves (h : s.Recorded s' i tx) (hl : s.Leaves S k v)
    (hk : i ∉ S → tx.running k = none) : s'.Leaves S k v := by
  refine hl.congr (by rw [h.committed]) fun j hj => ?_
  by_cases hji : j = i
  · subst hji
    exact h.self_of_none (hk hj)
  · rw [h.others j hji]

theorem leaves_running (h : s.Recorded s' i tx) (hS : i ∉ S) (hk : tx.running k = some v) :
    s'.Leaves S k v := .inl ⟨i, hS, by rw [h.self, hk]; rfl⟩

theorem touches (hk : (tx.running k).isSome = true) : tx.touches k = true := by
  rw [SourceTransaction.touches, hk, Bool.or_true]

end Recorded

/-- A DDL that changes no grant. -/
theorem Binding.record_unchanged (h : s.Binding B) (hx : s.Exclusive) (hr : s.Recorded s' i tx)
    (hreshapes : ddl.reshapes version tx = some tx.running)
    (hfits : FittingRecord B s tx ddl answer) (hnone : grantChange ddl answer s.grants = none)
    (hgrants : s'.grants = s.grants) (hlogs : s'.live.grantLogs = s.live.grantLogs) :
    s'.Binding B := by
  refine ⟨fun S m hm k g p hk hp => ?_, fun j k hk hgone => ?_⟩
  · rw [hlogs, hgrants] at hm
    obtain ⟨w, hl, hb⟩ := h.binds S m hm k g p hk hp
    by_cases hS : i ∈ S
    · exact ⟨w, hr.leaves hl fun hS' => absurd hS hS', hb⟩
    cases hrun : tx.running k with
    | none => exact ⟨w, hr.leaves hl fun _ => hrun, hb⟩
    | some x =>
      have htouch := Recorded.touches (by rw [hrun]; rfl)
      have hview := hx.leaves_view hl hS hr.transaction htouch
      -- nobody who rolls back has a grant of that table in his log
      have hmk : s.grants k = some g := by
        rw [← hk, hm.frame k fun j hj hkj => ?_]
        have hsome := hx.logged j k hkj
        rw [hx.changed_apart hr.transaction htouch fun hji => hS (hji ▸ hj)] at hsome
        cases hsome
      rcases ddl.reshapes_cases hreshapes with ⟨hinfo, hname, honly⟩ | hchanges
      · obtain ⟨rfl, rfl⟩ := honly k x hrun
        exact ⟨version, hr.leaves_running hS hrun,
          hfits.alter hname hinfo _ _ _ _ hview hrun hmk hp hb⟩
      · cases x with
        | none => rw [(hchanges.taken hrun).1 hnone] at hmk; cases hmk
        | some x =>
          exfalso
          rcases hchanges.cases_some hrun with ⟨⟨oc, hs⟩, -, -⟩ | ⟨n, hn, rfl, -⟩
          · rw [grantChange, hs] at hnone
            cases hnone
          · -- the table came under a free name, and had no grant
            have hfree := (hchanges.active fun hidle => by rw [hidle] at hrun; cases hrun).2 n hn
            rw [hview] at hfree
            rcases grantChange_eq_none hnone with ⟨info, -, hn'⟩ | ⟨-, hkey⟩
            · rw [hn] at hn'
              cases hn'
            · rw [hfree.resolve_left (Option.some_ne_none _), hkey] at hmk
              cases hmk
  · rw [hlogs] at hk
    rw [hgrants]
    by_cases hji : j = i
    · subst hji
      cases hrun : tx.running k with
      | none => exact h.gone j k hk ((hr.self_of_none hrun).symm.trans hgone)
      | some x =>
        rw [hr.self, hrun] at hgone
        obtain rfl : x = none := Option.some.inj hgone
        rcases ddl.reshapes_cases hreshapes with ⟨-, -, honly⟩ | hchanges
        · cases (honly k none hrun).2
        · exact (hchanges.taken hrun).1 hnone
    · rw [hr.others j hji] at hgone
      exact h.gone j k hk hgone

/-- The change of session `i` is recorded, and it has changed grants. -/
structure RecordedGrants (s s' : Versions) (i : Nat) (tx : SourceTransaction) (ddl : CrossingDdl)
    (answer : SourceAnswer) (undo : GrantUndo) : Prop extends s.Recorded s' i tx where
  changes : ∃ version, ddl.Changes version tx tx.running
  change : grantChange ddl answer s.grants = some (s'.grants, undo)
  log : s'.live.grantLogs i = undo :: s.live.grantLogs i
  logs : ∀ j ≠ i, s'.live.grantLogs j = s.live.grantLogs j
  /-- It changes all that it names on the source, -/
  ran : ∀ k ∈ ddl.names, (tx.running k).isSome = true
  /-- and renames to a free name. -/
  free : ∀ n, ddl.newName = some n →
    tx.view (tableKey ddl.schema n) = none ∨ tableKey ddl.schema n = ddl.tableKey

namespace RecordedGrants

theorem touch (hr : s.RecordedGrants s' i tx ddl answer undo) (hk : k ∈ ddl.names) :
    tx.touches k = true := Recorded.touches (hr.ran k hk)

theorem touched (hr : s.RecordedGrants s' i tx ddl answer undo) :
    ∀ j ≠ i, s'.live.grantLogs.touched j = s.live.grantLogs.touched j :=
  fun j hj => GrantLogs.touched_congr (hr.logs j hj)

theorem restores (hr : s.RecordedGrants s' i tx ddl answer undo) :
    ∀ j ≠ i, s'.live.grantLogs.restores j = s.live.grantLogs.restores j :=
  fun j hj => GrantLogs.restores_congr (hr.logs j hj)

theorem running_of_unnamed (hr : s.RecordedGrants s' i tx ddl answer undo) (hk : k ∉ ddl.names) :
    tx.running k = none := by
  obtain ⟨version, hchanges⟩ := hr.changes
  exact Option.not_isSome_iff_eq_none.1 fun hsome => hk (ddl.names_of_keys (hchanges.keys hsome))

/-- Nobody else has anything to restore under a name of the DDL. -/
theorem apart (hr : s.RecordedGrants s' i tx ddl answer undo) (hx : s.Exclusive) (hj : j ≠ i) :
    Disjoint ddl.names (s.live.grantLogs.touched j) := by
  refine Set.disjoint_left.2 fun k hk hkj => ?_
  have hsome := hx.logged j k hkj
  rw [hx.changed_apart hr.transaction (hr.touch hk) hj] at hsome
  cases hsome

/-- A table that the session has taken away has no grant. -/
theorem gone (hr : s.RecordedGrants s' i tx ddl answer undo) (h : s.Binding B) (hx : s.Exclusive)
    (hk : k ∈ s.live.grantLogs.touched i) (hview : tx.view k = none) : s.grants k = none := by
  refine h.gone i k hk ?_
  obtain ⟨x, hsome⟩ := Option.isSome_iff_exists.1 (hx.logged i k hk)
  rw [changed_of_transaction hr.transaction] at hsome ⊢
  rw [SourceTransaction.view, hsome] at hview
  rw [hsome, ← hview]
  rfl

end RecordedGrants

/-- A session that rolls back takes the change of its DDL back. -/
theorem Binding.record_undone (h : s.Binding B) (hx : s.Exclusive)
    (hr : s.RecordedGrants s' i tx ddl answer undo) (hS : i ∈ S) {m : TableKey → Option SourceGrant}
    (hm : RolledBack s'.live.grantLogs.touched s'.live.grantLogs.restores S s'.grants m)
    {g : SourceGrant} {p : Expr} (hk : m k = some g) (hp : g.HasPredicate p) :
    ∃ w, s'.Leaves S k (some w) ∧ B w p := by
  have hleaves : ∀ {w}, s.Leaves S k (some w) → s'.Leaves S k (some w) := fun hl =>
    hr.leaves hl fun hS' => absurd hS hS'
  have hback := hm.push hS hr.touched (GrantLogs.touched_cons hr.log) hr.restores
    (by rw [GrantLogs.restores, hr.log]; rfl) s.live.grantLogs.restores_local
    (fun j hj => (hr.apart hx hj).mono_left (grantChange_names hr.change))
    fun k hk => undo.restore_local.frame s'.grants k hk
  by_cases hname : ∀ n, ddl.newName = some n → s.grants (tableKey ddl.schema n) = none ∨
      tableKey ddl.schema n = ddl.tableKey
  · rw [restore_grantChange hr.change hname] at hback
    obtain ⟨w, hl, hb⟩ := h.binds S m hback k g p hk hp
    exact ⟨w, hleaves hl, hb⟩
  -- all but a grant without a table, which a new name has overwritten
  · push Not at hname
    obtain ⟨n, hn, hsome, hne⟩ := hname
    have htarget : tableKey ddl.schema n = ddl.target := by rw [CrossingDdl.target, hn]; rfl
    rw [htarget] at hsome hne
    have hview : tx.view ddl.target = none := by
      rw [← htarget] at hne ⊢
      exact (hr.free n hn).resolve_right hne
    have hout : ∀ j ∈ S, ddl.target ∉ s.live.grantLogs.touched j := by
      intro j hj hkj
      by_cases hji : j = i
      · exact hsome (hr.gone h hx (hji ▸ hkj) hview)
      · exact Set.disjoint_left.1 (hr.apart hx hji) (target_mem ddl) hkj
    obtain ⟨m₀, hm₀, hnames, hframe⟩ := hback.change (A := {ddl.target}) (fun _ _ => rfl)
      (fun _ _ => rfl) s.live.grantLogs.restores_local
      (fun j hj => Set.disjoint_singleton_left.2 (hout j hj)) fun k hk => by
        rw [restore_rename hr.change hn hne, Function.update_of_ne hk]
    have hkt : k ≠ ddl.target := by
      rintro rfl
      rw [(hnames _ rfl).2, restore_rename hr.change hn hne, Function.update_self] at hk
      cases hk
    rw [hframe k hkt] at hk
    obtain ⟨w, hl, hb⟩ := h.binds S m₀ hm₀ k g p hk hp
    exact ⟨w, hleaves hl, hb⟩

/-- A session that stays: its grants are of its own tables, or have come with them. -/
theorem Binding.record_kept (h : s.Binding B) (hx : s.Exclusive)
    (hr : s.RecordedGrants s' i tx ddl answer undo) (hS : i ∉ S) {m : TableKey → Option SourceGrant}
    (hm : RolledBack s'.live.grantLogs.touched s'.live.grantLogs.restores S s'.grants m)
    {g : SourceGrant} {p : Expr} (hk : m k = some g) (hp : g.HasPredicate p) :
    ∃ w, s'.Leaves S k (some w) ∧ B w p := by
  obtain ⟨version, hchanges⟩ := hr.changes
  have hji : ∀ j ∈ S, j ≠ i := fun j hj hji => hS (hji ▸ hj)
  obtain ⟨m₀, hm₀, hnames, hframe⟩ := hm.change (fun j hj => hr.touched j (hji j hj))
    (fun j hj => hr.restores j (hji j hj)) s.live.grantLogs.restores_local
    (fun j hj => hr.apart hx (hji j hj)) fun k hk => grantChange_frame hr.change hk
  by_cases hkn : k ∈ ddl.names
  · rw [(hnames k hkn).2] at hk
    obtain ⟨x, hrun⟩ := Option.isSome_iff_exists.1 (hr.ran k hkn)
    cases x with
    | none =>
      rw [(hchanges.taken hrun).2 _ _ hr.change] at hk
      cases hk
    | some x =>
      rcases hchanges.granted hrun hr.change hk with ⟨-, rfl⟩ | ⟨hview, hgrant⟩
      · exact absurd hp (not_hasPredicate_created _)
      -- the grant has come with its table
      · have hmem : ddl.tableKey ∈ ddl.names := .inl rfl
        rw [← (hnames _ hmem).1] at hgrant
        obtain ⟨w, hl, hb⟩ := h.binds S m₀ hm₀ _ g p hgrant hp
        have hw := hx.leaves_view hl hS hr.transaction (hr.touch hmem)
        rw [hview] at hw
        cases hw
        exact ⟨x, hr.leaves_running hS hrun, hb⟩
  · rw [hframe k hkn] at hk
    obtain ⟨w, hl, hb⟩ := h.binds S m₀ hm₀ k g p hk hp
    exact ⟨w, hr.leaves hl fun _ => hr.running_of_unnamed hkn, hb⟩

/-- A DDL that changes grants. -/
theorem Binding.record_changed (h : s.Binding B) (hx : s.Exclusive)
    (hr : s.RecordedGrants s' i tx ddl answer undo) : s'.Binding B := by
  refine ⟨fun S m hm k g p hk hp => ?_, fun j k hk hgone => ?_⟩
  · by_cases hS : i ∈ S
    · exact h.record_undone hx hr hS hm hk hp
    · exact h.record_kept hx hr hS hm hk hp
  · by_cases hji : j = i
    · subst hji
      cases hrun : tx.running k with
      | none =>
        have hkn : k ∉ ddl.names := fun hkn => by
          have hsome := hr.ran k hkn
          rw [hrun] at hsome
          cases hsome
        rw [GrantLogs.touched_cons hr.log] at hk
        rw [grantChange_frame hr.change hkn]
        rcases hk with hk | hk
        · exact absurd (grantChange_names hr.change hk) hkn
        · exact h.gone j k hk ((hr.self_of_none hrun).symm.trans hgone)
      | some x =>
        rw [hr.self, hrun] at hgone
        obtain rfl : x = none := Option.some.inj hgone
        obtain ⟨version, hchanges⟩ := hr.changes
        exact (hchanges.taken hrun).2 _ _ hr.change
    · rw [hr.touched j hji] at hk
      rw [hr.others j hji] at hgone
      rw [grantChange_frame hr.change fun hkn => Set.disjoint_left.1 (hr.apart hx hji) hkn hk]
      exact h.gone j k hk hgone

end Versions

/-! ### The steps of a session -/

namespace Live

variable {s s' : Live} {i j : Nat} {session session' : DuckDBSession}

theorem grantLogs_self (hi : s.sessions[i]? = some session)
    (hs : s'.sessions = s.sessions.set i session') : s'.grantLogs i = session'.grantUndo := by
  rw [grantLogs, hs]
  exact logsOf_of_getElem? (List.getElem?_set_self (List.getElem?_eq_some_iff.1 hi).1)

theorem grantLogs_other (hs : s'.sessions = s.sessions.set i session') (hj : j ≠ i) :
    s'.grantLogs j = s.grantLogs j := by
  rw [grantLogs, hs]
  exact logsOf_set session' hj

theorem grantLogs_quiet (hi : s.sessions[i]? = some session)
    (hs : s'.sessions = s.sessions.set i session')
    (hundo : session'.grantUndo = session.grantUndo) : s'.grantLogs = s.grantLogs := by
  funext j
  by_cases hj : j = i
  · rw [hj, grantLogs_self hi hs, hundo, ← logsOf_of_getElem? hi]
    rfl
  · exact grantLogs_other hs hj

end Live

namespace Versions

variable {bridgeId : String} {s s' : Versions} {B : Nat → Expr → Prop} {i j : Nat}
  {tx : SourceTransaction} {session session' : DuckDBSession} {op : SessionOp} {live : Live}

/-- A step of one session. -/
theorem Exclusive.step (h : s.Exclusive) (hi : s.live.sessions[i]? = some session)
    (hsessions : s'.live.sessions = s.live.sessions.set i session') (hsound : s'.live.Sound)
    (hothers : ∀ j ≠ i, s'.transactions j = s.transactions j)
    (hcommitted : ∀ k, s'.committed k = s.committed k ∨ (s.changed i k).isSome = true)
    (hmine : ∀ tx', s'.transactions i = some tx' → ∀ k, tx'.touches k = true →
      s'.committed k = tx'.snapshot k ∧
        ∀ j ≠ i, ∀ other, s.transactions j = some other → other.touches k = false)
    (hlogged : ∀ k ∈ s'.live.grantLogs.touched i, (s'.changed i k).isSome = true)
    (hrunning : ∀ ddl answer, session'.recording = some (ddl, answer) → ∃ tx version,
      s'.transactions i = some tx ∧ ddl.reshapes version tx = some tx.running) : s'.Exclusive := by
  have hlt : i < s.live.sessions.length := (List.getElem?_eq_some_iff.1 hi).1
  refine ⟨hsound, fun j hj => ?_, fun j j' tx other hjj' hj hj' k hk => ?_,
    fun j tx hj k hk => ?_, fun j k hk => ?_, fun j sess ddl answer hj hrec => ?_⟩
  · rw [hsessions, List.length_set]
    by_cases hji : j = i
    · exact hji ▸ hlt
    · rw [hothers j hji] at hj
      exact h.there j hj
  · by_cases hji : j = i
    · subst hji
      rw [hothers j' (Ne.symm hjj')] at hj'
      exact (hmine tx hj k hk).2 j' (Ne.symm hjj') other hj'
    · rw [hothers j hji] at hj
      -- the two transactions are named the other way round
      by_cases hji' : j' = i
      · subst hji'
        by_contra hne
        have hfree := (hmine other hj' k (by simpa using hne)).2 j hji tx hj
        rw [hfree] at hk
        cases hk
      · rw [hothers j' hji'] at hj'
        exact h.apart j j' tx other hjj' hj hj' k hk
  · by_cases hji : j = i
    · subst hji
      exact (hmine tx hj k hk).1
    · rw [hothers j hji] at hj
      rcases hcommitted k with he | hchanged
      · rw [he]
        exact h.base j tx hj k hk
      · obtain ⟨own, hown, htouch⟩ := touches_of_changed hchanged
        rw [h.apart i j own tx (Ne.symm hji) hown hj k htouch] at hk
        cases hk
  · by_cases hji : j = i
    · subst hji
      exact hlogged k hk
    · rw [GrantLogs.touched_congr (Live.grantLogs_other hsessions hji)] at hk
      rw [changed_congr (hothers j hji)]
      exact h.logged j k hk
  · rw [hsessions] at hj
    rcases Live.getElem?_step hj with ⟨rfl, rfl⟩ | ⟨hji, hj⟩
    · exact hrunning ddl answer hrec
    · rw [hothers j hji]
      exact h.running j sess ddl answer hj hrec

/-- The transaction of a session keeps to tables that nobody else touches. -/
theorem Exclusive.own (h : s.Exclusive) (hi : s.transactions i = some tx) (k : TableKey)
    (hk : tx.touches k = true) : s.committed k = tx.snapshot k ∧
      ∀ j ≠ i, ∀ other, s.transactions j = some other → other.touches k = false :=
  ⟨h.base i tx hi k hk, fun j hj other hother => h.apart i j tx other (Ne.symm hj) hi hother k hk⟩

theorem begins (hx : s.Exclusive) (hb : s.Binding B) (hs : s.next bridgeId .begin = some s') :
    s'.Exclusive ∧ s'.Binding B := by
  rw [next, Option.map_eq_some_iff] at hs
  obtain ⟨live, hlive, rfl⟩ := hs
  have hsound : live.Sound := hx.sound.next hlive
  obtain rfl : { s.live with sessions := s.live.sessions ++ [{}] } = live := Option.some.inj hlive
  have hlogs : Live.grantLogs { s.live with sessions := s.live.sessions ++ [{}] } =
      s.live.grantLogs := Live.logsOf_begin _
  refine ⟨⟨hsound, fun i hi => ?_, hx.apart, hx.base, fun i k hk => ?_,
    fun i session ddl answer hi hrec => ?_⟩, hb.quiet rfl hlogs rfl rfl⟩
  · refine (hx.there i hi).trans_le ?_
    show _ ≤ (s.live.sessions ++ [({} : DuckDBSession)]).length
    rw [List.length_append]
    exact Nat.le_add_right _ _
  · replace hk : k ∈ GrantLogs.touched (Live.grantLogs
      { s.live with sessions := s.live.sessions ++ [{}] }) i := hk
    rw [hlogs] at hk
    exact hx.logged i k hk
  · rcases Live.getElem?_begin hi with hi | rfl
    · exact hx.running i session ddl answer hi hrec
    · cases hrec

/-- A step of a session that leaves the grants, its log and its changes as they are. -/
theorem stays (hx : s.Exclusive) (hb : s.Binding B) (hi : s.live.sessions[i]? = some session)
    (hsessions : s'.live.sessions = s.live.sessions.set i session') (hsound : s'.live.Sound)
    (hgrants : s'.grants = s.grants) (hundo : session'.grantUndo = session.grantUndo)
    (hcommitted : s'.committed = s.committed)
    (hothers : ∀ j ≠ i, s'.transactions j = s.transactions j) (hself : s'.changed i = s.changed i)
    (hmine : ∀ tx', s'.transactions i = some tx' → ∀ k, tx'.touches k = true →
      s'.committed k = tx'.snapshot k ∧
        ∀ j ≠ i, ∀ other, s.transactions j = some other → other.touches k = false)
    (hrunning : ∀ ddl answer, session'.recording = some (ddl, answer) → ∃ tx version,
      s'.transactions i = some tx ∧ ddl.reshapes version tx = some tx.running) :
    s'.Exclusive ∧ s'.Binding B := by
  have hlogs := Live.grantLogs_quiet hi hsessions hundo
  have hchanged : s'.changed = s.changed := by
    funext j
    by_cases hj : j = i
    · rw [hj, hself]
    · exact changed_congr (hothers j hj)
  refine ⟨hx.step hi hsessions hsound hothers (fun k => .inl (by rw [hcommitted])) hmine
    (fun k hk => ?_) hrunning, hb.quiet hgrants hlogs hcommitted hchanged⟩
  rw [hlogs] at hk
  rw [hself]
  exact hx.logged i k hk

/-- A statement, or a DDL that begins. -/
theorem opens (hx : s.Exclusive) (hb : s.Binding B) (hop : op = .statement ∨
    ∃ ddl existing folds, op = .ddl ddl existing folds)
    (hlive : s.live.next bridgeId (.session i op) = some live) :
    ((s.withLive live).opened i).Exclusive ∧ ((s.withLive live).opened i).Binding B := by
  have hsound : live.Sound := hx.sound.next hlive
  obtain ⟨session, r, hi, hd, hstep, hl⟩ := Live.session_step hlive
  obtain ⟨hbook, hundo, hconn, hrec⟩ := DuckDBSession.step_opens hop hstep
  have hlive' : ((s.withLive live).opened i).live = live := live_opened _ i
  have hbegun := transaction_opened (s.withLive live) i
  refine stays hx hb hi (by rw [hlive', hl]) (by rwa [hlive']) ?_ hundo
    (congrFun (view_opened (s.withLive live) i) none)
    (fun j hj => transactions_opened (s.withLive live) hj) ?_ (fun tx hi' k hk => ?_)
    fun ddl answer hsome => ?_
  · show ((s.withLive live).opened i).live.tables.grantAt = _
    rw [hlive', hl]
    exact congrArg (fun b : GrantBook => b.tables.grantAt) hbook
  · rcases hbegun with ⟨he, -⟩ | ⟨hnone, he⟩
    · exact changed_congr he
    · rw [changed_of_transaction he]
      funext k
      exact (changed_of_none hnone).symm
  · rcases hbegun with ⟨he, -⟩ | ⟨-, he⟩
    · have hcommitted := congrFun (view_opened (s.withLive live) i) none
      rw [show ((s.withLive live).opened i).committed = s.committed from hcommitted]
      exact hx.own (he.symm.trans hi') k hk
    -- a transaction that has just begun touches nothing
    · obtain rfl := Option.some.inj (he.symm.trans hi')
      cases hk
  · rw [hrec] at hsome
    cases hsome

/-- A DDL goes on, and is not to be recorded yet. -/
theorem continues (hx : s.Exclusive) (hb : s.Binding B)
    (hop : op = .check ∨ ∃ answer, op = .run answer)
    (hlive : s.live.next bridgeId (.session i op) = some live)
    (hrec : (live.sessions[i]?).bind DuckDBSession.recording = none) :
    (s.withLive live).Exclusive ∧ (s.withLive live).Binding B := by
  have hsound : live.Sound := hx.sound.next hlive
  obtain ⟨session, r, hi, hd, hstep, hl⟩ := Live.session_step hlive
  obtain ⟨hbook, hundo, hconn, -⟩ := DuckDBSession.step_continues hop hstep
  refine stays hx hb hi (congrArg Live.sessions hl) hsound ?_ hundo rfl (fun _ _ => rfl) rfl
    (fun tx hi' => hx.own hi') fun ddl answer hsome => ?_
  · show live.tables.grantAt = _
    rw [hl]
    exact congrArg (fun b : GrantBook => b.tables.grantAt) hbook
  · have hself : live.sessions[i]? = some r.2 := by
      rw [hl]
      exact List.getElem?_set_self (List.getElem?_eq_some_iff.1 hi).1
    rw [hself, Option.bind_some, hsome] at hrec
    cases hrec

/-- What the source runs, it runs on tables that nobody else touches. -/
theorem reshaped_eq {ddl : CrossingDdl} (h : s.reshaped i ddl = some s') : ∃ tx effect,
    s.transactions i = some tx ∧ ddl.reshapes s.versions tx = some effect ∧
      (∀ k ∈ ddl.keys, (effect k).isSome = true → s.conflicts i tx k = false) ∧
      s' = { s.withTransaction i (some { tx with running := effect }) with
        versions := s.versions + 1 } := by
  rw [reshaped] at h
  split at h
  · cases h
  next tx htx =>
    split at h
    · cases h
    next effect heffect =>
      split_ifs at h with hconflict
      refine ⟨tx, effect, htx, heffect, fun k hk hsome => ?_, (Option.some.inj h).symm⟩
      by_contra hne
      refine hconflict (List.any_eq_true.2 ⟨k, hk, ?_⟩)
      rw [hsome, Bool.true_and]
      simpa using hne

/-- The source runs a DDL that is to be recorded. -/
theorem runs (hx : s.Exclusive) (hb : s.Binding B) {answer' : SourceAnswer}
    (hlive : s.live.next bridgeId (.session i (.run answer')) = some live) {ddl : CrossingDdl}
    {answer : SourceAnswer}
    (hrec : (live.sessions[i]?).bind DuckDBSession.recording = some (ddl, answer))
    (hs : (s.withLive live).reshaped i ddl = some s') : s'.Exclusive ∧ s'.Binding B := by
  have hsound : live.Sound := hx.sound.next hlive
  obtain ⟨session, r, hi, hd, hstep, hl⟩ := Live.session_step hlive
  obtain ⟨hbook, hundo, hconn, -⟩ := DuckDBSession.step_continues (.inr ⟨_, rfl⟩) hstep
  have hself : live.sessions[i]? = some r.2 := by
    rw [hl]
    exact List.getElem?_set_self (List.getElem?_eq_some_iff.1 hi).1
  rw [hself, Option.bind_some] at hrec
  obtain ⟨tx, effect, htx, heffect, hfree, rfl⟩ := reshaped_eq hs
  replace htx : s.transactions i = some tx := htx
  have hi' : Function.update s.transactions i (some { tx with running := effect }) i =
      some { tx with running := effect } := Function.update_self ..
  refine stays hx hb hi (congrArg Live.sessions hl) hsound ?_ hundo rfl
    (fun j hj => Function.update_of_ne hj _ _) ?_ (fun tx' htx' k hk => ?_)
    fun ddl' answer'' hsome => ?_
  · show live.tables.grantAt = _
    rw [hl]
    exact congrArg (fun b : GrantBook => b.tables.grantAt) hbook
  · rw [changed_of_transaction hi', changed_of_transaction htx]
  · obtain rfl := Option.some.inj (hi'.symm.trans htx')
    rcases Bool.or_eq_true_iff.1 hk with hchanged | hran
    · have htouch : tx.touches k = true := by
        rw [SourceTransaction.touches, show (tx.changes k).isSome = true from hchanged]
        rfl
      exact hx.own htx k htouch
    -- what it runs now, the source has found free of conflicts
    · have hfree := hfree k (CrossingDdl.mem_keys_of_reshapes heffect hran) hran
      rw [conflicts, Bool.or_eq_false_iff] at hfree
      have hbase : (s.withLive live).committed k = tx.snapshot k := by simpa using hfree.2
      refine ⟨hbase, fun j hj other hother => ?_⟩
      have hlt : j < live.sessions.length := by
        rw [hl, List.length_set]
        exact hx.there j (by rw [hother]; rfl)
      have hnot := List.any_eq_false.1 hfree.1 j (List.mem_range.2 hlt)
      rw [show (s.withLive live).transactions j = some other from hother] at hnot
      simpa [hj] using hnot
  · obtain ⟨rfl, rfl⟩ := Prod.mk.inj (Option.some.inj (hrec.symm.trans hsome))
    exact ⟨_, s.versions, hi', heffect⟩

/-- A DDL is recorded. -/
theorem records (hx : s.Exclusive) (hb : s.Binding B)
    (hfits : ∀ session tx ddl answer, s.live.sessions[i]? = some session →
      session.recording = some (ddl, answer) → s.transactions i = some tx →
        FittingRecord B s tx ddl answer)
    (hlive : s.live.next bridgeId (.session i .record) = some live) :
    ((s.withLive live).withTransaction i
      ((s.transactions i).map SourceTransaction.recorded)).Exclusive ∧
    ((s.withLive live).withTransaction i
      ((s.transactions i).map SourceTransaction.recorded)).Binding B := by
  have hsound : live.Sound := hx.sound.next hlive
  obtain ⟨session, book, session', hi, hd, hstep, hl⟩ := Live.next_session hlive
  obtain ⟨ddl, answer, hrec, hconn, hpending, hgrants⟩ := hstep.records
  obtain ⟨tx, version, htx, hreshapes⟩ := hx.running i session ddl answer hi hrec
  have hfits := hfits session tx ddl answer hi hrec htx
  have hsessions : live.sessions = s.live.sessions.set i session' := congrArg Live.sessions hl
  have hlogi := Live.grantLogs_self hi hsessions
  have hlogs : ∀ j ≠ i, live.grantLogs j = s.live.grantLogs j :=
    fun j hj => Live.grantLogs_other hsessions hj
  rw [htx, Option.map_some]
  have hi' : ((s.withLive live).withTransaction i (some tx.recorded)).transactions i =
      some tx.recorded := Function.update_self ..
  have hothers : ∀ j ≠ i, ((s.withLive live).withTransaction i (some tx.recorded)).transactions j =
      s.transactions j := fun j hj => Function.update_of_ne hj _ _
  have hrecorded : s.Recorded ((s.withLive live).withTransaction i (some tx.recorded)) i tx :=
    ⟨htx, rfl, fun k => by rw [changed_of_transaction hi']; rfl,
      fun j hj => changed_congr (hothers j hj)⟩
  have hgrants' : live.tables.grantAt = book.tables.grantAt := by rw [hl]
  rw [← hgrants'] at hgrants
  have hbefore : s.live.grantLogs i = session.grantUndo := Live.logsOf_of_getElem? hi
  have hkept : ∀ k, (s.changed i k).isSome = true →
      (((s.withLive live).withTransaction i (some tx.recorded)).changed i k).isSome = true := by
    intro k hk
    rw [changed_of_transaction htx] at hk
    rw [hrecorded.self, Option.isSome_or, hk, Bool.or_true]
  have hexclusive : (∀ k ∈ live.grantLogs.touched i,
      (((s.withLive live).withTransaction i (some tx.recorded)).changed i k).isSome = true) →
      ((s.withLive live).withTransaction i (some tx.recorded)).Exclusive := by
    intro hlogged
    refine hx.step hi hsessions hsound hothers (fun _ => .inl rfl) (fun tx' htx' k hk => ?_) hlogged
      fun ddl' answer' hrec' => ?_
    · obtain rfl := Option.some.inj (hi'.symm.trans htx')
      rw [SourceTransaction.touches_recorded] at hk
      exact hx.own htx k hk
    · rw [DuckDBSession.recording_of_pending_none hpending] at hrec'
      cases hrec'
  rcases hgrants with ⟨hnone, hsame, hundo⟩ | ⟨undo, hchange, hundo⟩
  · have hlogs' : live.grantLogs = s.live.grantLogs := Live.grantLogs_quiet hi hsessions hundo
    exact ⟨hexclusive fun k hk => hkept k (hx.logged i k (by rwa [hlogs'] at hk)),
      hb.record_unchanged hx hrecorded hreshapes hfits hnone hsame hlogs'⟩
  · have hcons : live.grantLogs i = undo :: s.live.grantLogs i := by rw [hlogi, hundo, hbefore]
    obtain ⟨hran, hfree⟩ := hfits.active hreshapes hchange
    refine ⟨hexclusive fun k hk => ?_, hb.record_changed hx
      ⟨hrecorded, ⟨version, FittingRecord.changes hreshapes hchange⟩, hchange, hcons, hlogs, hran,
        hfree⟩⟩
    rw [GrantLogs.touched_cons hcons] at hk
    rcases hk with hk | hk
    · -- what the DDL gives or takes a grant, it has changed on the source
      rw [hrecorded.self, Option.isSome_or, hran k (grantChange_names hchange hk), Bool.true_or]
    · exact hkept k (hx.logged i k hk)

/-- A session commits. -/
theorem commits_binding (hx : s.Exclusive) (hb : s.Binding B)
    (hlive : s.live.next bridgeId (.session i (.commit true)) = some live) :
    ((s.withLive live).commits i).Exclusive ∧ ((s.withLive live).commits i).Binding B := by
  have hsound : live.Sound := hx.sound.next hlive
  obtain ⟨session, book, session', hi, hd, hstep, hl⟩ := Live.next_session hlive
  obtain ⟨hgrants, hundo, hpending, hconn⟩ := hstep.commits (hx.sound.linked i session hi)
  obtain ⟨hlive', -, -⟩ := commits_frame (s.withLive live) i
  have hsessions : ((s.withLive live).commits i).live.sessions =
      s.live.sessions.set i session' := by
    rw [hlive']
    exact congrArg Live.sessions hl
  have htransactions := transactions_commits (s.withLive live) i
  have hi' : ((s.withLive live).commits i).transactions i = none := by
    rw [htransactions]
    exact Function.update_self ..
  have hothers : ∀ j ≠ i, ((s.withLive live).commits i).transactions j = s.transactions j := by
    intro j hj
    rw [htransactions]
    exact Function.update_of_ne hj _ _
  have hlog : ((s.withLive live).commits i).live.grantLogs i = [] := by
    rw [Live.grantLogs_self hi hsessions, hundo]
  have hcommitted : ∀ k, ((s.withLive live).commits i).committed k =
      (s.changed i k).getD (s.committed k) := by
    intro k
    rw [commits]
    cases htx : s.transactions i with
    | none =>
      rw [show (s.withLive live).transactions i = none from htx, changed_of_none htx]
      rfl
    | some tx =>
      rw [show (s.withLive live).transactions i = some tx from htx, changed_of_transaction htx]
      rfl
  refine ⟨hx.step hi hsessions (by rwa [hlive']) hothers (fun k => ?_)
    (fun tx' htx' => by rw [hi'] at htx'; cases htx') (fun k hk => ?_) fun ddl answer hrec => ?_,
    hb.commit hx ?_ hlog (fun j hj => Live.grantLogs_other hsessions hj) hcommitted
      (fun k => changed_of_none hi') fun j hj => changed_congr (hothers j hj)⟩
  · rw [hcommitted]
    cases hc : s.changed i k with
    | none => exact .inl rfl
    | some v => exact .inr rfl
  · rw [GrantLogs.touched_nil hlog] at hk
    exact hk.elim
  · rw [DuckDBSession.recording_of_pending_none hpending] at hrec
    cases hrec
  · show ((s.withLive live).commits i).live.tables.grantAt = s.grants
    rw [hlive', hl]
    exact hgrants

/-- A session rolls back, or is destroyed with nothing to undo. -/
theorem closes (hx : s.Exclusive) (hb : s.Binding B)
    (hop : op = .rollback ∨ op = .commit false ∨ op = .destroy ∧ s.live.grantLogs i = [])
    (hlive : s.live.next bridgeId (.session i op) = some live) :
    ((s.withLive live).withTransaction i none).Exclusive ∧
      ((s.withLive live).withTransaction i none).Binding B := by
  have hsound : live.Sound := hx.sound.next hlive
  obtain ⟨session, book, session', hi, hd, hstep, hl⟩ := Live.next_session hlive
  have hbefore : s.live.grantLogs i = session.grantUndo := Live.logsOf_of_getElem? hi
  obtain ⟨hgrants, hundo, hpending⟩ : book.tables.grantAt =
      rollBack (s.live.grantLogs.restores i) s.grants ∧ session'.grantUndo = [] ∧
        session'.pending = none := by
    rw [GrantLogs.restores, hbefore]
    have hlinked := hx.sound.linked i session hi
    rcases hop with rfl | rfl | ⟨rfl, hnil⟩
    · obtain ⟨hgrants, hundo, hpending, -⟩ := hstep.rollsBack hlinked (.inl rfl)
      exact ⟨hgrants, hundo, hpending⟩
    · obtain ⟨hgrants, hundo, hpending, -⟩ := hstep.rollsBack hlinked (.inr rfl)
      exact ⟨hgrants, hundo, hpending⟩
    · obtain ⟨hgrants, hundo, hpending, -⟩ := hstep.destroys
      rw [← hbefore, hnil]
      exact ⟨hgrants, hundo, hpending⟩
  have hsessions : live.sessions = s.live.sessions.set i session' := congrArg Live.sessions hl
  have hi' : ((s.withLive live).withTransaction i none).transactions i = none :=
    Function.update_self ..
  have hothers : ∀ j ≠ i, ((s.withLive live).withTransaction i none).transactions j =
      s.transactions j := fun j hj => Function.update_of_ne hj _ _
  have hlog : live.grantLogs i = [] := by rw [Live.grantLogs_self hi hsessions, hundo]
  refine ⟨hx.step hi hsessions hsound hothers (fun _ => .inl rfl)
    (fun tx' htx' => by rw [hi'] at htx'; cases htx') (fun k hk => ?_) fun ddl answer hrec => ?_,
    hb.close hx ?_ hlog (fun j hj => Live.grantLogs_other hsessions hj) rfl
      (fun k => changed_of_none hi') fun j hj => changed_congr (hothers j hj)⟩
  · have hk : k ∈ live.grantLogs.touched i := hk
    rw [GrantLogs.touched_nil hlog] at hk
    exact hk.elim
  · rw [DuckDBSession.recording_of_pending_none hpending] at hrec
    cases hrec
  · show live.tables.grantAt = _
    rw [hl]
    exact hgrants

/-- What happens on the source leaves the bridge as it is. -/
theorem live_answers (h : s.answers i op = some s') : s'.live = s.live := by
  cases op with
  | statement =>
    cases h
    exact live_opened s i
  | ddl ddl existing folds =>
    change s.source i (.ddl ddl existing folds) = some s' at h
    rw [source, Option.ite_none_right_eq_some] at h
    obtain ⟨-, h⟩ := h
    cases h
    exact live_opened s i
  | run answer =>
    rw [answers] at h
    split at h
    · cases h
      rfl
    · obtain ⟨tx, effect, -, -, -, rfl⟩ := reshaped_eq h
      rfl
  | commit succeeds =>
    cases h
    cases succeeds with
    | true => exact (commits_frame s i).1
    | false => rfl
  | _ =>
    cases h
    rfl

end Versions

end VirtualCatalog
