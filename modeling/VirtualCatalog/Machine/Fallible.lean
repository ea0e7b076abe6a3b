import Mathlib.Data.List.Forall2

/-!
# Computations that may throw

A function of the code that throws returns `Except`.  A sequence of such calls succeeds exactly if
each of them does, and what it returns is made of what they return.
-/

namespace VirtualCatalog

theorem bind_eq_ok {ε α β : Type} {x : Except ε α} {f : α → Except ε β} {b : β}
    (h : (x >>= f) = .ok b) : ∃ a, x = .ok a ∧ f a = .ok b := by
  cases x with
  | error e => cases h
  | ok a => exact ⟨a, rfl, h⟩

theorem bind_eq_ok_iff {ε α β : Type} {x : Except ε α} {f : α → Except ε β} {b : β} :
    (x >>= f) = .ok b ↔ ∃ a, x = .ok a ∧ f a = .ok b := by
  refine ⟨bind_eq_ok, ?_⟩
  rintro ⟨a, rfl, h⟩
  exact h

theorem mapM_eq_ok {α β ε : Type} {f : α → Except ε β} {as : List α} {bs : List β} :
    as.mapM f = .ok bs ↔ List.Forall₂ (fun a b => f a = .ok b) as bs := by
  induction as generalizing bs with
  | nil => simp [pure, Except.pure, eq_comm]
  | cons a as ih =>
    rw [List.mapM_cons, bind_eq_ok_iff]
    constructor
    · rintro ⟨b, hb, h⟩
      obtain ⟨bs, hbs, h⟩ := bind_eq_ok_iff.1 h
      cases h
      exact .cons hb (ih.1 hbs)
    · rintro (_ | ⟨hb, hbs⟩)
      exact ⟨_, hb, bind_eq_ok_iff.2 ⟨_, ih.2 hbs, rfl⟩⟩

/-- Calls that all succeed. -/
theorem mapM_eq_ok_map {α β ε : Type} {f : α → Except ε β} {g : α → β} {as : List α}
    (h : ∀ a ∈ as, f a = .ok (g a)) : as.mapM f = .ok (as.map g) := by
  rw [mapM_eq_ok, List.forall₂_map_right_iff, List.forall₂_same]
  exact h

/-- Calls on elements that give the same. -/
theorem mapM_congr_forall₂ {α β γ ε : Type} {f : α → Except ε γ} {g : β → Except ε γ}
    {as : List α} {bs : List β} (h : List.Forall₂ (fun a b => f a = g b) as bs) :
    as.mapM f = bs.mapM g := by
  induction h with
  | nil => rfl
  | cons hab _ ih => rw [List.mapM_cons, List.mapM_cons, hab, ih]

theorem exists_of_forall₂ {α β : Type} {R : α → β → Prop} {as : List α} {bs : List β} {b : β}
    (h : List.Forall₂ R as bs) (hb : b ∈ bs) : ∃ a ∈ as, R a b := by
  induction h with
  | nil => cases hb
  | cons hp _ ih =>
    rcases List.mem_cons.1 hb with rfl | hb
    · exact ⟨_, List.mem_cons_self, hp⟩
    · obtain ⟨a, ha, hp⟩ := ih hb
      exact ⟨a, List.mem_cons_of_mem _ ha, hp⟩

theorem exists_of_mapM {α β ε : Type} {f : α → Except ε β} {as : List α} {bs : List β} {b : β}
    (h : as.mapM f = .ok bs) (hb : b ∈ bs) : ∃ a ∈ as, f a = .ok b :=
  exists_of_forall₂ (R := fun a b => f a = .ok b) (mapM_eq_ok.1 h) hb

theorem exists_mapM {α β ε : Type} {f : α → Except ε β} {as : List α} :
    (∃ bs, as.mapM f = .ok bs) ↔ ∀ a ∈ as, ∃ b, f a = .ok b := by
  simp only [mapM_eq_ok]
  induction as with
  | nil => simp
  | cons a as ih =>
    rw [List.forall_mem_cons, ← ih]
    constructor
    · rintro ⟨_, _ | ⟨h, hs⟩⟩
      exact ⟨⟨_, h⟩, _, hs⟩
    · rintro ⟨⟨b, h⟩, bs, hs⟩
      exact ⟨b :: bs, .cons h hs⟩

/-- A loop that collects what a call returns for each element. -/
theorem foldlM_collect {α β ε : Type} {f : α → Except ε (List β)} {as : List α}
    {acc r : List β} (h : as.foldlM (fun acc a => do let bs ← f a; pure (acc ++ bs)) acc = .ok r) :
    ∃ bss, as.mapM f = .ok bss ∧ r = acc ++ bss.flatten := by
  induction as generalizing acc with
  | nil =>
    cases h
    exact ⟨[], rfl, (List.append_nil _).symm⟩
  | cons a as ih =>
    rw [List.foldlM_cons] at h
    obtain ⟨acc', ha, h⟩ := bind_eq_ok h
    obtain ⟨bs, hbs, ha⟩ := bind_eq_ok ha
    cases ha
    obtain ⟨bss, hbss, rfl⟩ := ih h
    refine ⟨bs :: bss, mapM_eq_ok.2 (.cons hbs (mapM_eq_ok.1 hbss)), ?_⟩
    rw [List.flatten_cons, List.append_assoc]

end VirtualCatalog
