import Mathlib.Logic.Relation
import Mathlib.Tactic.TypeStar

/-!
# Labelled machines and their conditioned runs

A `Machine S L` is an executable transition function: in state `s` the label `l` either leads to
one state or is impossible.  All nondeterminism is in the labels, so an interleaving of several
parties is a list of labels and every scheduler is a choice of that list.

* `Machine.Run M C s ls s'` : performing `ls` from `s` leads to `s'`, and every step of it meets
  the condition `C`, a predicate of the state before the step and of its label.
* `Run.invariant` : a predicate that holds initially and is preserved by every step meeting `C`
  holds at the end of every run meeting `C`.
* `Run.relate` : the same for a reflexive and transitive relation between the two ends of a run.
-/

namespace VirtualCatalog

/-- A machine with states `S` and labels `L`; `next s l = none` when `l` is impossible in `s`. -/
structure Machine (S L : Type*) where
  /-- The state that `l` leads to. -/
  next : S → L → Option S

namespace Machine

variable {S L : Type*} (M : Machine S L)

/-- The runs of `M` all of whose steps meet `C`. -/
inductive Run (C : S → L → Prop) : S → List L → S → Prop
  | nil (s : S) : Run C s [] s
  | cons {s t u : S} {l : L} {ls : List L} (hc : C s l) (hs : M.next s l = some t)
      (hr : Run C t ls u) : Run C s (l :: ls) u

/-- The condition that every step meets. -/
def Free : S → L → Prop := fun _ _ => True

/-- `s'` is reachable from `s` by steps meeting `C`. -/
def ReachableBy (C : S → L → Prop) (s s' : S) : Prop := ∃ ls, M.Run C s ls s'

/-- The state after performing `ls`, computed. -/
def exec (s : S) : List L → Option S
  | [] => some s
  | l :: ls => (M.next s l).bind fun t => exec t ls

variable {M} {C D : S → L → Prop} {s t u : S} {l : L} {ls ls' : List L}

namespace Run

theorem single (hc : C s l) (hs : M.next s l = some t) : M.Run C s [l] t :=
  .cons hc hs (.nil t)

theorem append (h : M.Run C s ls t) (h' : M.Run C t ls' u) : M.Run C s (ls ++ ls') u := by
  induction h with
  | nil => exact h'
  | cons hc hs _ ih => exact .cons hc hs (ih h')

theorem mono (hCD : ∀ s l, C s l → D s l) (h : M.Run C s ls t) : M.Run D s ls t := by
  induction h with
  | nil => exact .nil _
  | cons hc hs _ ih => exact .cons (hCD _ _ hc) hs ih

theorem free (h : M.Run C s ls t) : M.Run Free s ls t := h.mono fun _ _ _ => trivial

/-- An inductive invariant of the steps that meet `C`. -/
theorem invariant {I : S → Prop} (h : M.Run C s ls t) (h₀ : I s)
    (step : ∀ s l t, I s → C s l → M.next s l = some t → I t) : I t := by
  induction h with
  | nil => exact h₀
  | cons hc hs _ ih => exact ih (step _ _ _ h₀ hc hs)

/-- An invariant whose steps may use which labels the run performs. -/
theorem invariant_mem {I : S → Prop} (h : M.Run C s ls t) (h₀ : I s)
    (step : ∀ s l t, l ∈ ls → I s → C s l → M.next s l = some t → I t) : I t := by
  induction h with
  | nil => exact h₀
  | cons hc hs _ ih =>
    exact ih (step _ _ _ List.mem_cons_self h₀ hc hs) fun s l t hl =>
      step s l t (List.mem_cons_of_mem _ hl)

/-- A reflexive and transitive relation that every step respects holds between the ends. -/
theorem relate {R : S → S → Prop} (h : M.Run C s ls t) (refl : ∀ s, R s s)
    (trans : ∀ s t u, R s t → R t u → R s u)
    (step : ∀ s l t, C s l → M.next s l = some t → R s t) : R s t := by
  induction h with
  | nil => exact refl _
  | cons hc hs _ ih => exact trans _ _ _ (step _ _ _ hc hs) ih

end Run

/-- An execution is a run, if its labels meet the condition in every state. -/
theorem run_of_exec_forall (h : M.exec s ls = some t) (hC : ∀ l ∈ ls, ∀ s, C s l) :
    M.Run C s ls t := by
  induction ls generalizing s with
  | nil => cases h; exact .nil _
  | cons l ls ih =>
    obtain ⟨s', hs, h'⟩ := Option.bind_eq_some_iff.1 h
    exact .cons (hC l List.mem_cons_self s) hs (ih h' fun l hl => hC l (List.mem_cons_of_mem _ hl))

theorem run_of_exec (h : M.exec s ls = some t) : M.Run Free s ls t :=
  run_of_exec_forall h fun _ _ _ => trivial

namespace ReachableBy

@[refl] theorem refl (s : S) : M.ReachableBy C s s := ⟨[], .nil s⟩

theorem trans (h : M.ReachableBy C s t) (h' : M.ReachableBy C t u) : M.ReachableBy C s u := by
  obtain ⟨ls, h⟩ := h
  obtain ⟨ls', h'⟩ := h'
  exact ⟨ls ++ ls', h.append h'⟩

theorem invariant {I : S → Prop} (h : M.ReachableBy C s t) (h₀ : I s)
    (step : ∀ s l t, I s → C s l → M.next s l = some t → I t) : I t :=
  h.elim fun _ h => h.invariant h₀ step

end ReachableBy

end Machine

end VirtualCatalog
