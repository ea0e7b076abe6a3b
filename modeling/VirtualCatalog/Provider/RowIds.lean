import VirtualCatalog.Provider.KeyBuffer

/-!
# Row ids are written once

Any number of scans write row ids at once, each on several threads; an id is written by the call
that appended its key.

* `Scans.Distinct` : no row id is written twice, by calls that returned or that are still open.
* `Scans.Distinct.reachable` : it holds in every run.
* `Scans.Ok.key_of_mem` : what the buffer holds at an id that was emitted.
-/

namespace VirtualCatalog

namespace Provider

variable {V T A B : Type} {D : ValueOps V T A B} {s s' : Scans V T A}

/-- The row ids that a thread's call has written. -/
def Scans.idsOf (s : Scans V T A) (t : Nat) : List Nat := ((s.calls t).map ScanCall.rowIds).getD []

/-- The row ids that were written by calls that returned. -/
def Scans.finishedIds (s : Scans V T A) : List Nat := s.finished.flatMap ScanCall.rowIds

/-- No row id was written twice. -/
structure Scans.Distinct (s : Scans V T A) : Prop where
  finished : s.finishedIds.Nodup
  calls : ∀ t, (s.idsOf t).Nodup
  apart : ∀ t, ∀ id ∈ s.idsOf t, id ∉ s.finishedIds
  threads : ∀ t t', t ≠ t' → ∀ id ∈ s.idsOf t, id ∉ s.idsOf t'
  bound : ∀ id, id ∈ s.finishedIds ∨ (∃ t, id ∈ s.idsOf t) → id < s.buffer.rows.length

namespace Scans

theorem idsOf_update (s : Scans V T A) (t t' : Nat) (c : Option (ScanCall T A))
    (buffer : ProviderPKBuffer V) (finished : List (ScanCall T A)) (emitted : List (Emission T A)) :
    (⟨buffer, Function.update s.calls t c, finished, emitted⟩ : Scans V T A).idsOf t' =
      if t' = t then (c.map ScanCall.rowIds).getD [] else s.idsOf t' := by
  unfold idsOf
  dsimp only
  split_ifs with h
  · subst h
    rw [Function.update_self]
  · rw [Function.update_of_ne h]

/-- A call that begins or is gone has written nothing. -/
theorem Distinct.dropCall (h : s.Distinct) (t : Nat) {c : Option (ScanCall T A)}
    (hc : (c.map ScanCall.rowIds).getD [] = []) :
    Distinct { s with calls := Function.update s.calls t c } := by
  have hsub : ∀ t', ∀ id ∈ ({ s with calls := Function.update s.calls t c } : Scans V T A).idsOf t',
      id ∈ s.idsOf t' := by
    intro t' id hid
    rw [idsOf_update] at hid
    split_ifs at hid with ht
    · rw [hc] at hid
      cases hid
    · exact hid
  refine ⟨h.finished, fun t' => ?_, fun t' id hid => h.apart t' id (hsub t' id hid),
    fun t₁ t₂ hne id hid hid' => h.threads t₁ t₂ hne id (hsub t₁ id hid) (hsub t₂ id hid'),
    fun id hid => h.bound id (hid.imp_right fun ⟨t', hid⟩ => ⟨t', hsub t' id hid⟩)⟩
  rw [idsOf_update]
  split_ifs
  · rw [hc]
    exact List.nodup_nil
  · exact h.calls t'

theorem idsOf_eq {t : Nat} {c : ScanCall T A} (hc : s.calls t = some c) :
    s.idsOf t = c.rowIds := by
  rw [idsOf, hc]
  rfl

/-- A new row id is one that nobody has written. -/
theorem Distinct.push (h : s.Distinct) {t : Nat} {c : ScanCall T A} (hc : s.calls t = some c)
    (key : List V) (emitted : List (Emission T A)) :
    Distinct (⟨(s.buffer.append key).1, Function.update s.calls t
      (some { c with rowIds := c.rowIds ++ [(s.buffer.append key).2] }), s.finished, emitted⟩ :
      Scans V T A) := by
  have hnew : (s.buffer.append key).2 = s.buffer.rows.length := s.buffer.append_snd key
  have hlength : (s.buffer.append key).1.rows.length = s.buffer.rows.length + 1 := by
    show (s.buffer.rows ++ [key]).length = _
    rw [List.length_append, List.length_singleton]
  have hids : ∀ t', (⟨(s.buffer.append key).1, Function.update s.calls t
      (some { c with rowIds := c.rowIds ++ [(s.buffer.append key).2] }), s.finished, emitted⟩ :
      Scans V T A).idsOf t' =
      if t' = t then s.idsOf t ++ [s.buffer.rows.length] else s.idsOf t' := by
    intro t'
    rw [idsOf_update, idsOf_eq hc, ← hnew]
    rfl
  have hmem : ∀ t' id, id ∈ (if t' = t then s.idsOf t ++ [s.buffer.rows.length] else s.idsOf t') →
      id ∈ s.idsOf t' ∨ t' = t ∧ id = s.buffer.rows.length := by
    intro t' id hid
    split_ifs at hid with ht
    · subst ht
      rcases List.mem_append.1 hid with hid | hid
      · exact .inl hid
      · exact .inr ⟨rfl, List.mem_singleton.1 hid⟩
    · exact .inl hid
  -- the id just given is the length of the buffer, above every id there was
  refine ⟨h.finished, fun t' => ?_, fun t' id hid hfin => ?_, fun t₁ t₂ hne id hid hid' => ?_,
    fun id hid => ?_⟩
  · rw [hids]
    split_ifs
    · refine List.nodup_append'.2 ⟨h.calls t, List.nodup_singleton _, ?_⟩
      intro id hid hid'
      rw [List.mem_singleton.1 hid'] at hid
      exact absurd (h.bound _ (.inr ⟨t, hid⟩)) (lt_irrefl _)
    · exact h.calls t'
  · rw [hids] at hid
    rcases hmem t' id hid with hid | ⟨-, rfl⟩
    · exact h.apart t' id hid hfin
    · exact absurd (h.bound _ (.inl hfin)) (lt_irrefl _)
  · rw [hids] at hid hid'
    rcases hmem t₁ id hid with hold | ⟨ht, hlast⟩
    · rcases hmem t₂ id hid' with hold' | ⟨-, hlast'⟩
      · exact h.threads t₁ t₂ hne id hold hold'
      · have hlt := h.bound id (.inr ⟨t₁, hold⟩)
        omega
    · rcases hmem t₂ id hid' with hold' | ⟨ht', -⟩
      · have hlt := h.bound id (.inr ⟨t₂, hold'⟩)
        omega
      · exact hne (ht.trans ht'.symm)
  · show id < (s.buffer.append key).1.rows.length
    rw [hlength]
    rcases hid with hid | ⟨t', hid⟩
    · exact Nat.lt_succ_of_lt (h.bound id (.inl hid))
    · rw [hids] at hid
      rcases hmem t' id hid with hid | ⟨-, rfl⟩
      · exact Nat.lt_succ_of_lt (h.bound id (.inr ⟨t', hid⟩))
      · exact Nat.lt_succ_self _

/-- A call that returns leaves its row ids. -/
theorem Distinct.finish (h : s.Distinct) {t : Nat} {c : ScanCall T A} (hc : s.calls t = some c) :
    Distinct { s with calls := Function.update s.calls t none, finished := s.finished ++ [c] } := by
  have hids : ∀ t', ({ s with
      calls := Function.update s.calls t none, finished := s.finished ++ [c] } :
      Scans V T A).idsOf t' = if t' = t then [] else s.idsOf t' :=
    fun t' => idsOf_update s t t' none _ _ _
  have hfin : ({ s with
      calls := Function.update s.calls t none, finished := s.finished ++ [c] } :
      Scans V T A).finishedIds = s.finishedIds ++ s.idsOf t := by
    rw [idsOf_eq hc]
    simp [finishedIds]
  have hsub : ∀ t' id, id ∈ (if t' = t then [] else s.idsOf t') → t' ≠ t ∧ id ∈ s.idsOf t' := by
    intro t' id hid
    split_ifs at hid with ht
    · cases hid
    · exact ⟨ht, hid⟩
  refine ⟨?_, fun t' => ?_, fun t' id hid hmem => ?_, fun t₁ t₂ hne id hid hid' => ?_,
    fun id hid => ?_⟩
  · rw [hfin]
    exact List.nodup_append'.2 ⟨h.finished, h.calls t, fun id hid hid' => h.apart t id hid' hid⟩
  · rw [hids]
    split_ifs
    · exact List.nodup_nil
    · exact h.calls t'
  · rw [hids] at hid
    rw [hfin] at hmem
    obtain ⟨ht, hid⟩ := hsub t' id hid
    rcases List.mem_append.1 hmem with hmem | hmem
    · exact h.apart t' id hid hmem
    · exact h.threads t' t ht id hid hmem
  · rw [hids] at hid hid'
    exact h.threads t₁ t₂ hne id (hsub t₁ id hid).2 (hsub t₂ id hid').2
  · rw [hfin] at hid
    refine h.bound id ?_
    rcases hid with hid | ⟨t', hid⟩
    · exact (List.mem_append.1 hid).imp (fun h => h) fun hid => ⟨t, hid⟩
    · rw [hids] at hid
      exact .inr ⟨t', (hsub t' id hid).2⟩

theorem Distinct.step (h : s.Distinct) {l : Label T A} (hs : (scanning D).next s l = some s') :
    s'.Distinct := by
  cases l with
  | begin t scan batch chunkOffset count =>
    simp only [scanning, next] at hs
    split at hs
    · cases hs
    · cases hs
      exact h
    · cases hs
      exact h.dropCall t rfl
  | row t =>
    simp only [scanning, next] at hs
    split at hs
    · cases hs
    next c hc =>
      split at hs
      · split at hs
        · cases hs
          exact h.dropCall t rfl
        next key hkey =>
          cases hs
          exact h.push hc key _
      · cases hs
  | finish t =>
    simp only [scanning, next] at hs
    split at hs
    · cases hs
    next c hc =>
      split at hs
      · cases hs
        exact h.finish hc
      · cases hs

/-- No row id is written twice, in any run. -/
theorem Distinct.reachable (h : (scanning D).ReachableBy Machine.Free {} s) : s.Distinct :=
  h.invariant
    ⟨List.nodup_nil, fun _ => List.nodup_nil, nofun, nofun, by rintro id (h | ⟨t, h⟩) <;> cases h⟩
    fun _ _ _ hs _ hn => hs.step hn

/-- The buffer holds the key of the row that an id was emitted for. -/
theorem Ok.key_of_mem (h : s.Ok D) {e : Emission T A} (he : e ∈ s.emitted) :
    ∃ key, s.buffer.rows[e.id]? = some key ∧ e.key D = .ok key := by
  obtain ⟨i, hi, rfl⟩ := List.getElem_of_mem he
  have hlt : i < s.buffer.rows.length := by
    rw [← h.keys.length_eq]
    exact hi
  have hid : (s.emitted[i]).id = i := by
    have hget := List.getElem_of_eq h.ids (i := i) (by simpa using hi)
    rwa [List.getElem_map, List.getElem_range] at hget
  refine ⟨s.buffer.rows[i], ?_, h.keys.get hi hlt⟩
  rw [hid]
  exact List.getElem?_eq_getElem hlt

end Scans

end Provider

end VirtualCatalog
