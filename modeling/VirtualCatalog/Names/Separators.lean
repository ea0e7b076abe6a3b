import Mathlib.Data.List.Basic

/-!
# Text joined and cut at a separator

Texts are lists over any alphabet with a decidable equality.

* `pieces` : the pieces `getline` reads: everything between two separators, without an empty
  last piece; `pieces_intercalate` : it undoes a join of non-empty texts free of the separator.
* `cutFirst`, `cutLast` : the two sides of the first and of the last separator; each is
  characterised by which side is free of it.
-/

namespace VirtualCatalog

namespace Separators

variable {α : Type*} [DecidableEq α] {sep : α}

/-- The pieces `getline` reads from `s`: a separator at the end opens no piece of its own. -/
def pieces (sep : α) (s : List α) : List (List α) :=
  if (s.splitOn sep).getLast? = some [] then (s.splitOn sep).dropLast else s.splitOn sep

/-- `s` on either side of its first separator. -/
def cutFirst (sep : α) : List α → Option (List α × List α)
  | [] => none
  | c :: cs => if c = sep then some ([], cs) else (cutFirst sep cs).map fun p => (c :: p.1, p.2)

/-- `s` on either side of its last separator. -/
def cutLast (sep : α) (s : List α) : Option (List α × List α) :=
  (cutFirst sep s.reverse).map fun p => (p.2.reverse, p.1.reverse)

/-! ### Pieces -/

theorem not_mem_of_mem_splitOn {s p : List α} (h : p ∈ s.splitOn sep) : sep ∉ p := by
  induction s generalizing p with
  | nil =>
    have hp : p = [] := by simpa using h
    simp [hp]
  | cons c cs ih =>
    rw [List.splitOn_cons_eq_if_modifyHead] at h
    split_ifs at h with hc
    · rcases List.mem_cons.1 h with rfl | h
      · simp
      · exact ih h
    · obtain ⟨q, qs, hq⟩ := List.exists_cons_of_ne_nil (List.splitOn_ne_nil sep cs)
      rw [hq, List.modifyHead_cons] at h
      rcases List.mem_cons.1 h with rfl | h
      · have hcs : sep ∉ q := ih (by rw [hq]; exact List.mem_cons_self)
        have hne : ¬ sep = c := fun e => hc (by simp [e])
        simp [hne, hcs]
      · exact ih (by rw [hq]; exact List.mem_cons_of_mem _ h)

/-- A piece is free of the separator. -/
theorem not_mem_of_mem_pieces {s p : List α} (h : p ∈ pieces sep s) : sep ∉ p := by
  unfold pieces at h
  split_ifs at h with hlast
  · exact not_mem_of_mem_splitOn ((List.dropLast_sublist _).subset h)
  · exact not_mem_of_mem_splitOn h

@[simp] theorem pieces_nil : pieces sep [] = [] := by simp [pieces]

/-- **Cutting undoes joining**, for texts that are not empty and free of the separator. -/
theorem pieces_intercalate {ls : List (List α)} (hsep : ∀ l ∈ ls, sep ∉ l)
    (hne : ∀ l ∈ ls, l ≠ []) : pieces sep ([sep].intercalate ls) = ls := by
  by_cases hls : ls = []
  · subst hls
    exact pieces_nil
  · have hsplit := List.splitOn_intercalate sep hsep hls
    have hlast : ls.getLast? ≠ some [] :=
      fun h => hne [] (List.mem_of_getLast? h) rfl
    rw [pieces, hsplit, if_neg hlast]

/-! ### The two sides of a separator -/

theorem cutFirst_eq_some {s a b : List α} :
    cutFirst sep s = some (a, b) ↔ s = a ++ sep :: b ∧ sep ∉ a := by
  induction s generalizing a b with
  | nil => simp [cutFirst]
  | cons c cs ih =>
    unfold cutFirst
    split_ifs with hc
    · subst hc
      cases a with
      | nil => simp
      | cons x xs => simp +contextual
    · cases a with
      | nil => simp [hc]
      | cons x xs =>
        have hne : ∀ x : α, c = x → ¬ sep = x := fun x hx e => hc (hx.trans e.symm)
        simp only [Option.map_eq_some_iff, Prod.exists, Prod.mk.injEq, ih, List.cons.injEq,
          List.cons_append, List.mem_cons, not_or]
        constructor
        · rintro ⟨p, q, ⟨rfl, hp⟩, ⟨rfl, rfl⟩, rfl⟩
          exact ⟨⟨rfl, rfl⟩, hne c rfl, hp⟩
        · rintro ⟨⟨rfl, rfl⟩, -, hp⟩
          exact ⟨xs, b, ⟨rfl, hp⟩, ⟨rfl, rfl⟩, rfl⟩

theorem cutLast_eq_some {s a b : List α} :
    cutLast sep s = some (a, b) ↔ s = a ++ sep :: b ∧ sep ∉ b := by
  simp only [cutLast, Option.map_eq_some_iff, Prod.exists, cutFirst_eq_some, Prod.mk.injEq]
  constructor
  · rintro ⟨p, q, ⟨hs, hp⟩, rfl, rfl⟩
    refine ⟨?_, by simpa using hp⟩
    have := congrArg List.reverse hs
    simpa using this
  · rintro ⟨rfl, hb⟩
    exact ⟨b.reverse, a.reverse, ⟨by simp, by simpa using hb⟩, by simp, by simp⟩

theorem cutFirst_eq_none {s : List α} : cutFirst sep s = none ↔ sep ∉ s := by
  induction s with
  | nil => simp [cutFirst]
  | cons c cs ih =>
    unfold cutFirst
    split_ifs with hc
    · simp [hc]
    · have hne : ¬ sep = c := fun e => hc e.symm
      simp [ih, hne]

theorem cutLast_eq_none {s : List α} : cutLast sep s = none ↔ sep ∉ s := by
  simp [cutLast, cutFirst_eq_none]

end Separators

end VirtualCatalog
