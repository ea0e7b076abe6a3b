import VirtualCatalog.Machine.Basic
import VirtualCatalog.Machine.Fallible

/-!
# Runs side by side, and edits that leave elements alone

Two runs of the same labels are compared step by step: a relation that every pair of steps
preserves holds at their ends.  A list is edited element by element: an edit leaves an element or
puts some elements in its place.

* `Run.lockstep` : what two runs of the same labels have in common.
* `Run.congr_labels` : labels that do the same can be put in one another's place.
* `mapM_unique` : two sequences of calls that return the same.
* `editAll` : the edited list, and how many elements were replaced.
* `filter_sublist_editAll` : elements that are left alone are still there, in their order.
* `editAll_filter` : elements that are left alone have no influence on the others.
* `mem_editAll` : where an element of the edited list comes from.
-/

namespace VirtualCatalog

/-! ### Two runs of the same labels -/

namespace Machine

variable {S L : Type} {M : Machine S L} {C D : S → L → Prop} {s s' t t' : S} {ls : List L}

/-- **A relation that every pair of steps preserves** holds at the ends of two runs of the same
labels; the steps may use which labels the runs perform. -/
theorem Run.lockstep {R : S → S → Prop} (h : M.Run C s ls t) (h' : M.Run D s' ls t')
    (h₀ : R s s') (step : ∀ s s' l t t', l ∈ ls → R s s' → C s l → D s' l →
      M.next s l = some t → M.next s' l = some t' → R t t') : R t t' := by
  induction h generalizing s' with
  | nil =>
    cases h'
    exact h₀
  | cons hc hs _ ih =>
    cases h' with
    | cons hc' hs' hr' =>
      exact ih hr' (step _ _ _ _ _ List.mem_cons_self h₀ hc hc' hs hs') fun s s' l t t' hl =>
        step s s' l t t' (List.mem_cons_of_mem _ hl)

/-- Labels that do the same, and meet `D` where the others meet `C`. -/
theorem Run.congr_labels {s t : S} {ls' : List L} (h : M.Run C s ls' t)
    (hls : List.Forall₂ (fun l l' => ∀ s, M.next s l' = M.next s l ∧ (C s l' → D s l)) ls ls') :
    M.Run D s ls t := by
  induction hls generalizing s with
  | nil =>
    cases h
    exact .nil _
  | cons hl _ ih =>
    cases h with
    | cons hc hs hr => exact .cons ((hl s).2 hc) ((hl s).1 ▸ hs) (ih hr)

end Machine

/-! ### Two sequences of calls -/

/-- Calls that return the same return the same lists. -/
theorem mapM_unique {ε α β : Type} {f g : α → Except ε β} {as : List α} {bs bs' : List β}
    (h : ∀ a ∈ as, ∀ b b', f a = .ok b → g a = .ok b' → b = b') (hf : as.mapM f = .ok bs)
    (hg : as.mapM g = .ok bs') : bs = bs' := by
  rw [mapM_eq_ok] at hf hg
  induction hf generalizing bs' with
  | nil =>
    cases hg
    rfl
  | cons hb _ ih =>
    cases hg with
    | cons hb' hbs' =>
      rw [h _ List.mem_cons_self _ _ hb hb',
        ih (fun a ha => h a (List.mem_cons_of_mem _ ha)) hbs']

/-! ### Edited lists -/

section

variable {ε α : Type} {edit : α → Except ε (Option (List α))} {p : α → Bool}
  {as out : List α} {n : Nat}

/-- Edit the elements one after the other: `none` leaves an element, `some` puts elements in its
place.  The count is of the elements replaced. -/
def editAll (edit : α → Except ε (Option (List α))) : List α → Except ε (List α × Nat)
  | [] => .ok ([], 0)
  | a :: as => do
    let change ← edit a
    let (rest, count) ← editAll edit as
    return match change with
      | none => (a :: rest, count)
      | some replaced => (replaced ++ rest, count + 1)

theorem editAll_cons {a : α} : editAll edit (a :: as) = .ok (out, n) ↔
    ∃ rest count, editAll edit as = .ok (rest, count) ∧
      ((edit a = .ok none ∧ out = a :: rest ∧ n = count) ∨
        ∃ replaced, edit a = .ok (some replaced) ∧ out = replaced ++ rest ∧ n = count + 1) := by
  rw [editAll, bind_eq_ok_iff]
  constructor
  · rintro ⟨change, hchange, h⟩
    obtain ⟨⟨rest, count⟩, hrest, h⟩ := bind_eq_ok h
    refine ⟨rest, count, hrest, ?_⟩
    cases change with
    | none =>
      cases h
      exact .inl ⟨hchange, rfl, rfl⟩
    | some replaced =>
      cases h
      exact .inr ⟨replaced, hchange, rfl, rfl⟩
  · rintro ⟨rest, count, hrest, ⟨hchange, rfl, rfl⟩ | ⟨replaced, hchange, rfl, rfl⟩⟩
    · exact ⟨none, hchange, bind_eq_ok_iff.2 ⟨_, hrest, rfl⟩⟩
    · exact ⟨some replaced, hchange, bind_eq_ok_iff.2 ⟨_, hrest, rfl⟩⟩

/-- Elements that an edit leaves alone are still there, in their order. -/
theorem filter_sublist_editAll (h : editAll edit as = .ok (out, n))
    (hkept : ∀ a ∈ as, p a = true → ∀ change, edit a = .ok change → change = none) :
    (as.filter p).Sublist out := by
  induction as generalizing out n with
  | nil => exact List.nil_sublist out
  | cons a as ih =>
    obtain ⟨rest, count, hrest, hhead⟩ := editAll_cons.1 h
    have htail := ih hrest fun b hb => hkept b (List.mem_cons_of_mem a hb)
    rcases hhead with ⟨-, rfl, rfl⟩ | ⟨replaced, hchange, rfl, rfl⟩
    · rw [List.filter_cons]
      split_ifs
      · exact htail.cons_cons a
      · exact htail.cons a
    · cases hp : p a with
      | true => cases hkept a List.mem_cons_self hp _ hchange
      | false =>
        rw [List.filter_cons_of_neg (by simp [hp])]
        exact htail.trans (List.sublist_append_right replaced rest)

/-- Elements that an edit leaves alone have no influence on the others. -/
theorem editAll_filter (h : editAll edit as = .ok (out, n))
    (hkept : ∀ a ∈ as, p a = false → ∀ change, edit a = .ok change → change = none) :
    ∃ seen, editAll edit (as.filter p) = .ok (seen, n) ∧ seen.filter p = out.filter p := by
  induction as generalizing out n with
  | nil =>
    cases h
    exact ⟨[], rfl, rfl⟩
  | cons a as ih =>
    obtain ⟨rest, count, hrest, hhead⟩ := editAll_cons.1 h
    obtain ⟨seen, hseen, heq⟩ := ih hrest fun b hb => hkept b (List.mem_cons_of_mem a hb)
    cases hp : p a with
    | true =>
      rw [List.filter_cons_of_pos hp]
      rcases hhead with ⟨hchange, rfl, rfl⟩ | ⟨replaced, hchange, rfl, rfl⟩
      · refine ⟨a :: seen, editAll_cons.2 ⟨seen, _, hseen, .inl ⟨hchange, rfl, rfl⟩⟩, ?_⟩
        rw [List.filter_cons_of_pos hp, List.filter_cons_of_pos hp, heq]
      · refine ⟨replaced ++ seen,
          editAll_cons.2 ⟨seen, _, hseen, .inr ⟨replaced, hchange, rfl, rfl⟩⟩, ?_⟩
        rw [List.filter_append, List.filter_append, heq]
    | false =>
      rw [List.filter_cons_of_neg (by simp [hp])]
      rcases hhead with ⟨hchange, rfl, rfl⟩ | ⟨replaced, hchange, rfl, rfl⟩
      · exact ⟨seen, hseen, by rw [List.filter_cons_of_neg (by simp [hp]), heq]⟩
      · cases hkept a List.mem_cons_self hp _ hchange

/-- An element of the edited list was there, or was put in the place of one that was. -/
theorem mem_editAll (h : editAll edit as = .ok (out, n)) {b : α} (hb : b ∈ out) :
    b ∈ as ∨ ∃ a ∈ as, ∃ replaced, edit a = .ok (some replaced) ∧ b ∈ replaced := by
  induction as generalizing out n with
  | nil =>
    cases h
    cases hb
  | cons a as ih =>
    obtain ⟨rest, count, hrest, hhead⟩ := editAll_cons.1 h
    have htail (hb : b ∈ rest) : b ∈ a :: as ∨
        ∃ c ∈ a :: as, ∃ replaced, edit c = .ok (some replaced) ∧ b ∈ replaced := by
      rcases ih hrest hb with hb | ⟨c, hc, hreplaced⟩
      · exact .inl (List.mem_cons_of_mem a hb)
      · exact .inr ⟨c, List.mem_cons_of_mem a hc, hreplaced⟩
    rcases hhead with ⟨-, rfl, -⟩ | ⟨replaced, hchange, rfl, -⟩
    · rcases List.mem_cons.1 hb with rfl | hb
      · exact .inl List.mem_cons_self
      · exact htail hb
    · rcases List.mem_append.1 hb with hb | hb
      · exact .inr ⟨a, List.mem_cons_self, replaced, hchange, hb⟩
      · exact htail hb

end

end VirtualCatalog
