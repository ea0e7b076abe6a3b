import Mathlib.Data.List.Basic

/-!
# Cutting a growing list into chunks

A writer collects elements in a current chunk, which is put aside when it has `n` elements.

* `Chunked.toList` : the elements so far, in order.
* `Chunked.toList_push`, `Chunked.toList_flush` : nothing is lost or moved at the edge of a chunk.
* `Chunked.Sized` : every chunk put aside has between 1 and `n` elements and the current one has
  room.
-/

namespace VirtualCatalog

variable {α : Type}

/-- Chunks put aside, and the current one, which is made when it is needed. -/
structure Chunked (α : Type) where
  chunks : List (List α) := []
  current : Option (List α) := none

namespace Chunked

/-- The elements so far. -/
def toList (c : Chunked α) : List α := c.chunks.flatten ++ c.current.getD []

/-- Make the current chunk if there is none. -/
def begin (c : Chunked α) : Chunked α := { c with current := some (c.current.getD []) }

/-- Put the current chunk aside, unless it is empty. -/
def flush (c : Chunked α) : Chunked α :=
  match c.current with
  | some (a :: as) => ⟨c.chunks ++ [a :: as], none⟩
  | _ => ⟨c.chunks, none⟩

/-- Add an element; a chunk of `n` elements is put aside. -/
def push (n : Nat) (c : Chunked α) (a : α) : Chunked α :=
  if n ≤ (c.current.getD [] ++ [a]).length then
    flush { c with current := some (c.current.getD [] ++ [a]) }
  else { c with current := some (c.current.getD [] ++ [a]) }

@[simp] theorem toList_begin (c : Chunked α) : c.begin.toList = c.toList := rfl

@[simp] theorem toList_flush (c : Chunked α) : c.flush.toList = c.toList := by
  unfold flush
  split
  next a as h => simp [toList, h]
  next h =>
    cases hc : c.current with
    | none => simp [toList, hc]
    | some as =>
      cases as with
      | nil => simp [toList, hc]
      | cons a as => exact absurd hc (h a as)

@[simp] theorem toList_push (n : Nat) (c : Chunked α) (a : α) :
    (c.push n a).toList = c.toList ++ [a] := by
  have h : ({ c with current := some (c.current.getD [] ++ [a]) } : Chunked α).toList
      = c.toList ++ [a] := by
    simp [toList]
  unfold push
  split
  · rw [toList_flush, h]
  · exact h

/-- After a flush everything is in the chunks. -/
theorem flatten_chunks_flush (c : Chunked α) : c.flush.chunks.flatten = c.toList := by
  have h : c.flush.current = none := by
    unfold flush
    split <;> rfl
  rw [← toList_flush, toList, h, Option.getD_none, List.append_nil]

/-- Every chunk put aside has between 1 and `n` elements and the current one has room. -/
structure Sized (n : Nat) (c : Chunked α) : Prop where
  chunks : ∀ chunk ∈ c.chunks, 1 ≤ chunk.length ∧ chunk.length ≤ n
  current : (c.current.getD []).length < n

variable {n : Nat} {c : Chunked α}

theorem Sized.begin (h : c.Sized n) : c.begin.Sized n := ⟨h.chunks, h.current⟩

/-- Putting a chunk of at most `n` elements aside. -/
theorem chunks_flush (h : ∀ chunk ∈ c.chunks, 1 ≤ chunk.length ∧ chunk.length ≤ n)
    (hc : (c.current.getD []).length ≤ n) :
    ∀ chunk ∈ c.flush.chunks, 1 ≤ chunk.length ∧ chunk.length ≤ n := by
  unfold flush
  split
  next a as hcur =>
    intro chunk hm
    rcases List.mem_append.1 hm with hm | hm
    · exact h chunk hm
    · rw [List.mem_singleton.1 hm]
      rw [hcur, Option.getD_some] at hc
      exact ⟨Nat.succ_le_succ (Nat.zero_le _), hc⟩
  next => exact h

theorem Sized.push (h : c.Sized n) (a : α) : (c.push n a).Sized n := by
  have hlen : (c.current.getD [] ++ [a]).length ≤ n := by
    have := h.current
    simp only [List.length_append, List.length_singleton]
    omega
  unfold Chunked.push
  split
  · refine ⟨chunks_flush h.chunks hlen, ?_⟩
    have : 0 < n := Nat.lt_of_le_of_lt (Nat.zero_le _) h.current
    unfold flush
    split <;> exact this
  next hn => exact ⟨h.chunks, Nat.lt_of_not_le hn⟩

theorem Sized.start (h : 0 < n) : ({} : Chunked α).Sized n := ⟨nofun, h⟩

end Chunked

end VirtualCatalog
