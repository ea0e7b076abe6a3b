import Mathlib.Data.Set.Lattice
import Mathlib.Data.Set.Piecewise
import Mathlib.Order.CompletePartialOrder
import Mathlib.Tactic.TypeStar

/-!
# Undo logs over keyed stores

A store is a function from keys to contents.  A party that changes it under a log pushes the
inverse of each change and rolls back newest first; other parties change the store meanwhile, at
other keys.

* `LocalOn N f` : `f` reads and writes a store only at the keys of `N`.
* `rollBack undos` : the inverses of a log, newest first.
* `Restores N undos m₀ m` : rolling back `m` gives what `m₀` had at the keys of `N`; `push` says
  that logging a change keeps it, and `frame` that the changes of others do.
* `RolledBack N log S m m'` : the same of several parties with a log each, of which those of `S`
  roll back; `forget`, `undo`, `push` and `change` carry it over the steps of a party.
-/

namespace VirtualCatalog

variable {κ α : Type*}

/-- `f` changes a store only at `N`, by what the store has at `N`. -/
structure LocalOn (N : Set κ) (f : (κ → α) → κ → α) : Prop where
  frame : ∀ m, ∀ k ∉ N, f m k = m k
  congr : ∀ m m', (∀ k ∈ N, m k = m' k) → ∀ k ∈ N, f m k = f m' k

/-- Undo the changes of a log, newest first. -/
def rollBack (undos : List ((κ → α) → κ → α)) (m : κ → α) : κ → α :=
  undos.foldl (fun m undo => undo m) m

/-- Rolling back gives the contents of `m₀` at `N`. -/
def Restores (N : Set κ) (undos : List ((κ → α) → κ → α)) (m₀ m : κ → α) : Prop :=
  ∀ k ∈ N, rollBack undos m k = m₀ k

variable {N N' : Set κ} {f : (κ → α) → κ → α} {undos : List ((κ → α) → κ → α)} {m m' m₀ : κ → α}

theorem LocalOn.mono (h : LocalOn N f) (hN : N ⊆ N') : LocalOn N' f where
  frame m k hk := h.frame m k fun hk' => hk (hN hk')
  congr m m' hm k hk := by
    by_cases hkN : k ∈ N
    · exact h.congr m m' (fun k hk => hm k (hN hk)) k hkN
    · rw [h.frame m k hkN, h.frame m' k hkN, hm k hk]

@[simp] theorem rollBack_nil (m : κ → α) : rollBack [] m = m := rfl

@[simp] theorem rollBack_cons (undo : (κ → α) → κ → α) (m : κ → α) :
    rollBack (undo :: undos) m = rollBack undos (undo m) := rfl

/-- Rolling back changes only what the log may change. -/
theorem rollBack_frame (h : ∀ undo ∈ undos, LocalOn N undo) {k : κ} (hk : k ∉ N) :
    rollBack undos m k = m k := by
  induction undos generalizing m with
  | nil => rfl
  | cons undo undos ih =>
    rw [rollBack_cons, ih fun u hu => h u (List.mem_cons_of_mem _ hu)]
    exact (h undo List.mem_cons_self).frame m k hk

/-- Rolling back is determined by what the store has where the log may change it. -/
theorem rollBack_congr (h : ∀ undo ∈ undos, LocalOn N undo) (hm : ∀ k ∈ N, m k = m' k) :
    ∀ k ∈ N, rollBack undos m k = rollBack undos m' k := by
  induction undos generalizing m m' with
  | nil => exact hm
  | cons undo undos ih =>
    exact ih (fun u hu => h u (List.mem_cons_of_mem _ hu))
      ((h undo List.mem_cons_self).congr m m' hm)

namespace Restores

/-- A change goes with an inverse that takes it back at `N`. -/
theorem push {undo : (κ → α) → κ → α} (h : Restores N undos m₀ m)
    (hl : ∀ u ∈ undos, LocalOn N u) (hinv : ∀ k ∈ N, undo m' k = m k) :
    Restores N (undo :: undos) m₀ m' := by
  intro k hk
  rw [rollBack_cons, rollBack_congr hl hinv k hk, h k hk]

/-- A change outside `N` does not concern the log. -/
theorem frame (h : Restores N undos m₀ m) (hl : ∀ u ∈ undos, LocalOn N u)
    (hm : ∀ k ∈ N, m' k = m k) : Restores N undos m₀ m' := by
  intro k hk
  rw [rollBack_congr hl hm k hk, h k hk]

end Restores

/-! ### Several logs -/

/-- `m'` is what becomes of `m` when the parties of `S` roll back; the party `i` works on `N i`. -/
structure RolledBack {ι : Type*} (N : ι → Set κ) (log : ι → List ((κ → α) → κ → α)) (S : Set ι)
    (m m' : κ → α) : Prop where
  undone : ∀ i ∈ S, ∀ k ∈ N i, m' k = rollBack (log i) m k
  frame : ∀ k, (∀ i ∈ S, k ∉ N i) → m' k = m k

namespace RolledBack

variable {ι : Type*} {N N' : ι → Set κ} {log log' : ι → List ((κ → α) → κ → α)} {S : Set ι}
  {i : ι} {A : Set κ} {inv : (κ → α) → κ → α} {m₁ : κ → α}

/-- A party that has forgotten its log does not roll back. -/
theorem forget (hi : N' i = ∅) (hN : ∀ j ≠ i, N' j = N j) (hl : ∀ j ≠ i, log' j = log j)
    (h : RolledBack N' log' S m m') : RolledBack N log (S \ {i}) m m' where
  undone j hj k hk := by
    rw [← hl j hj.2]
    exact h.undone j hj.1 k (by rwa [hN j hj.2])
  frame k hk := by
    refine h.frame k fun j hj hk' => ?_
    by_cases hji : j = i
    · rw [hji, hi] at hk'
      exact hk'
    · exact hk j ⟨hj, hji⟩ (hN j hji ▸ hk')

/-- A party that has rolled back may as well do so with the others. -/
theorem undo (hi : N' i = ∅) (hN : ∀ j ≠ i, N' j = N j) (hl : ∀ j ≠ i, log' j = log j)
    (hloc : ∀ j, ∀ u ∈ log j, LocalOn (N j) u) (hdis : ∀ j ≠ i, Disjoint (N i) (N j))
    (h : RolledBack N' log' S (rollBack (log i) m) m') :
    RolledBack N log (insert i S) m m' where
  undone j hj k hk := by
    by_cases hji : j = i
    · subst hji
      refine h.frame k fun j' hj' hk' => ?_
      by_cases hj'i : j' = j
      · rw [hj'i, hi] at hk'
        exact hk'
      · exact Set.disjoint_left.1 (hdis j' hj'i) hk (hN j' hj'i ▸ hk')
    · rw [h.undone j (hj.resolve_left hji) k (by rwa [hN j hji]), hl j hji]
      refine rollBack_congr (hloc j) (fun k hk => ?_) k hk
      exact rollBack_frame (hloc i) fun hk' => Set.disjoint_left.1 (hdis j hji) hk' hk
  frame k hk := by
    rw [h.frame k fun j hj hk' => ?_]
    · exact rollBack_frame (hloc i) (hk i (.inl rfl))
    · by_cases hji : j = i
      · rw [hji, hi] at hk'
        exact hk'
      · exact hk j (.inr hj) (hN j hji ▸ hk')

/-- A party that rolls back undoes its newest change first. -/
theorem push (hi : i ∈ S) (hN : ∀ j ≠ i, N' j = N j) (hNi : N' i = A ∪ N i)
    (hl : ∀ j ≠ i, log' j = log j) (hli : log' i = inv :: log i)
    (hloc : ∀ j, ∀ u ∈ log j, LocalOn (N j) u) (hdis : ∀ j ≠ i, Disjoint A (N j))
    (hinv : ∀ k ∉ A, inv m k = m k) (h : RolledBack N' log' S m m') :
    RolledBack N log S (inv m) m' where
  undone j hj k hk := by
    by_cases hji : j = i
    · subst hji
      rw [h.undone j hj k (by rw [hNi]; exact .inr hk), hli, rollBack_cons]
    · rw [h.undone j hj k (by rwa [hN j hji]), hl j hji]
      refine rollBack_congr (hloc j) (fun k hk => ?_) k hk
      exact (hinv k fun hk' => Set.disjoint_left.1 (hdis j hji) hk' hk).symm
  frame k hk := by
    by_cases hkA : k ∈ A
    · rw [h.undone i hi k (by rw [hNi]; exact .inl hkA), hli, rollBack_cons]
      exact rollBack_frame (hloc i) (hk i hi)
    · rw [hinv k hkA]
      refine h.frame k fun j hj hk' => ?_
      by_cases hji : j = i
      · rw [hji, hNi] at hk'
        exact hk'.elim hkA (hk i hi)
      · exact hk j hj (hN j hji ▸ hk')

/-- A change where no party of `S` works shows after they roll back just as it does before. -/
theorem change (hN : ∀ j ∈ S, N' j = N j) (hl : ∀ j ∈ S, log' j = log j)
    (hloc : ∀ j, ∀ u ∈ log j, LocalOn (N j) u) (hdis : ∀ j ∈ S, Disjoint A (N j))
    (hm : ∀ k ∉ A, m₁ k = m k) (h : RolledBack N' log' S m₁ m') :
    ∃ m₀, RolledBack N log S m m₀ ∧ (∀ k ∈ A, m₀ k = m k ∧ m' k = m₁ k) ∧
      ∀ k ∉ A, m' k = m₀ k := by
  classical
  have hA : ∀ k ∈ A, ∀ j ∈ S, k ∉ N j := fun k hk j hj => Set.disjoint_left.1 (hdis j hj) hk
  refine ⟨A.piecewise m m', ⟨fun j hj k hk => ?_, fun k hk => ?_⟩, fun k hk => ⟨?_, ?_⟩,
    fun k hk => ?_⟩
  · have hkA : k ∉ A := fun hkA => hA k hkA j hj hk
    rw [Set.piecewise_eq_of_notMem A m m' hkA, h.undone j hj k (by rwa [hN j hj]), hl j hj]
    exact rollBack_congr (hloc j) (fun k hk => hm k fun hkA => hA k hkA j hj hk) k hk
  · by_cases hkA : k ∈ A
    · rw [Set.piecewise_eq_of_mem A m m' hkA]
    · rw [Set.piecewise_eq_of_notMem A m m' hkA, ← hm k hkA]
      exact h.frame k fun j hj hk' => hk j hj (hN j hj ▸ hk')
  · rw [Set.piecewise_eq_of_mem A m m' hk]
  · exact h.frame k fun j hj hk' => hA k hk j hj (hN j hj ▸ hk')
  · rw [Set.piecewise_eq_of_notMem A m m' hk]

end RolledBack

end VirtualCatalog
