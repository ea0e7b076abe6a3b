import VirtualCatalog.Machine.Fallible

/-!
# Computations that record what fails

A check can stop at the first failure, or note it and go on.  `Recording` is the second kind: it
returns with its notes, and still throws what is not to be noted.

* `Recording.attempt` : a call whose failure is noted.
* `Recording.Grows` : notes are only added.
* `Recording.Predicts` : a recording notes something other than harmless remarks exactly if the
  throwing computation that it goes with throws, and returns the same otherwise.
* `Predicts.bind`, `Predicts.foldlM`, `Predicts.attempt` : it is kept by sequences and loops, and by
  a call that is noted here and throws there.
-/

namespace VirtualCatalog

/-- A computation that returns with the notes so far, or throws. -/
def Recording (ε ι α : Type) := List ι → Except ε (α × List ι)

namespace Recording

variable {ε ι α β : Type}

instance : Monad (Recording ε ι) where
  pure a notes := .ok (a, notes)
  bind x f notes := (x notes).bind fun r => f r.1 r.2

/-- Add a note. -/
def note (i : ι) : Recording ε ι Unit := fun notes => .ok ((), notes ++ [i])

/-- A call whose failure is noted, unless there is no note for it. -/
def attempt (noted : ε → Option ι) (x : Except ε α) : Recording ε ι (Option α) := fun notes =>
  match x with
  | .ok a => .ok (some a, notes)
  | .error e =>
    match noted e with
    | none => .error e
    | some i => .ok (none, notes ++ [i])

theorem pure_apply (a : α) (notes : List ι) :
    (pure a : Recording ε ι α) notes = .ok (a, notes) := rfl

theorem bind_apply (x : Recording ε ι α) (f : α → Recording ε ι β) (notes : List ι) :
    (x >>= f) notes = (x notes).bind fun r => f r.1 r.2 := rfl

theorem attempt_noted {noted : ε → Option ι} {e : ε} {i : ι} (h : noted e = some i)
    (notes : List ι) :
    (attempt noted (.error e) : Recording ε ι (Option α)) notes = .ok (none, notes ++ [i]) := by
  simp [attempt, h]

theorem attempt_thrown {noted : ε → Option ι} {e : ε} (h : noted e = none) (notes : List ι) :
    (attempt noted (.error e) : Recording ε ι (Option α)) notes = .error e := by
  simp [attempt, h]

/-- It only adds notes. -/
def Grows (x : Recording ε ι α) : Prop :=
  ∀ notes a notes', x notes = .ok (a, notes') → ∃ more, notes' = notes ++ more

theorem grows_pure (a : α) : (pure a : Recording ε ι α).Grows := by
  intro notes a' notes' h
  cases h
  exact ⟨[], (List.append_nil _).symm⟩

theorem grows_note (i : ι) : (note i : Recording ε ι Unit).Grows := by
  intro notes a notes' h
  cases h
  exact ⟨[i], rfl⟩

theorem Grows.bind {x : Recording ε ι α} {f : α → Recording ε ι β} (hx : x.Grows)
    (hf : ∀ a, (f a).Grows) : (x >>= f).Grows := by
  intro notes b notes' h
  rw [bind_apply] at h
  obtain ⟨r, hr, h⟩ := bind_eq_ok h
  obtain ⟨more, hmore⟩ := hx notes r.1 r.2 hr
  obtain ⟨more', hmore'⟩ := hf r.1 r.2 b notes' h
  exact ⟨more ++ more', by rw [hmore', hmore, List.append_assoc]⟩

theorem grows_foldlM {f : β → α → Recording ε ι β} (hf : ∀ b a, (f b a).Grows) (as : List α)
    (b : β) : (as.foldlM f b).Grows := by
  induction as generalizing b with
  | nil => exact grows_pure b
  | cons a as ih =>
    rw [List.foldlM_cons]
    exact (hf b a).bind ih

theorem grows_attempt (noted : ε → Option ι) (x : Except ε α) : (attempt noted x).Grows := by
  intro notes a notes' h
  cases x with
  | ok a' =>
    cases h
    exact ⟨[], (List.append_nil _).symm⟩
  | error e =>
    cases hi : noted e with
    | none =>
      rw [attempt_thrown hi] at h
      cases h
    | some i =>
      rw [attempt_noted hi] at h
      cases h
      exact ⟨[i], rfl⟩

/-- The recording `x` makes other than harmless notes exactly if `y` throws; otherwise they return
the same. -/
structure Predicts (harmless : ι → Prop) (x : Recording ε ι α) (y : Except ε α) : Prop where
  grows : x.Grows
  quiet : ∀ a, y = .ok a → ∀ notes, ∃ more, x notes = .ok (a, notes ++ more) ∧
    ∀ i ∈ more, harmless i
  found : (∀ a, y ≠ .ok a) → ∀ notes a notes', x notes = .ok (a, notes') →
    ∃ more, notes' = notes ++ more ∧ ∃ i ∈ more, ¬ harmless i

namespace Predicts

variable {harmless : ι → Prop} {x : Recording ε ι α} {y : Except ε α}

theorem pure (a : α) : Predicts harmless (Pure.pure a : Recording ε ι α) (.ok a) where
  grows := grows_pure a
  quiet a' h notes := by
    cases h
    exact ⟨[], by rw [pure_apply, List.append_nil], fun i hi => by cases hi⟩
  found h := absurd rfl (h a)

/-- A harmless note. -/
theorem note {i : ι} (h : harmless i) :
    Predicts harmless (Recording.note i : Recording ε ι Unit) (.ok ()) where
  grows := grows_note i
  quiet _ _ _ := ⟨[i], rfl, fun _ hj => List.mem_singleton.1 hj ▸ h⟩
  found h := absurd rfl (h ())

/-- What is thrown does not matter. -/
theorem congr {y' : Except ε α} (h : Predicts harmless x y) (hy : ∀ a, y' = .ok a ↔ y = .ok a) :
    Predicts harmless x y' where
  grows := h.grows
  quiet a ha := h.quiet a ((hy a).1 ha)
  found hno := h.found fun a ha => hno a ((hy a).2 ha)

theorem bind {f : α → Recording ε ι β} {g : α → Except ε β} (hx : Predicts harmless x y)
    (hf : ∀ a, y = .ok a → Predicts harmless (f a) (g a)) (hgrows : ∀ a, (f a).Grows) :
    Predicts harmless (x >>= f) (y >>= g) where
  grows := hx.grows.bind hgrows
  quiet b hb notes := by
    obtain ⟨a, ha, hb⟩ := bind_eq_ok hb
    obtain ⟨more, hmore, hquiet⟩ := hx.quiet a ha notes
    obtain ⟨more', hmore', hquiet'⟩ := (hf a ha).quiet b hb (notes ++ more)
    refine ⟨more ++ more', ?_, fun i hi => (List.mem_append.1 hi).elim (hquiet i) (hquiet' i)⟩
    rw [bind_apply, hmore, ← List.append_assoc]
    exact hmore'
  found hno notes b notes' h := by
    rw [bind_apply] at h
    obtain ⟨⟨a, notes₁⟩, ha, h⟩ := bind_eq_ok h
    by_cases hy : ∃ a, y = .ok a
    · obtain ⟨a', hy⟩ := hy
      obtain ⟨more, hmore, -⟩ := hx.quiet a' hy notes
      rw [hmore] at ha
      cases ha
      have hthrows : ∀ b, g a ≠ .ok b := fun b hb => hno b (bind_eq_ok_iff.2 ⟨a, hy, hb⟩)
      obtain ⟨more', hmore', i, hi, hbad⟩ := (hf a hy).found hthrows _ _ _ h
      exact ⟨more ++ more', by rw [hmore', List.append_assoc], i, List.mem_append_right _ hi, hbad⟩
    · obtain ⟨more, hmore, i, hi, hbad⟩ := hx.found (not_exists.1 hy) _ _ _ ha
      obtain ⟨more', hmore'⟩ := hgrows a _ _ _ h
      refine ⟨more ++ more', ?_, i, List.mem_append_left _ hi, hbad⟩
      rw [hmore', hmore, List.append_assoc]

theorem foldlM {f : β → α → Recording ε ι β} {g : β → α → Except ε β} {as : List α}
    (h : ∀ a ∈ as, ∀ b, Predicts harmless (f b a) (g b a)) (hgrows : ∀ b a, (f b a).Grows) (b : β) :
    Predicts harmless (as.foldlM f b) (as.foldlM g b) := by
  induction as generalizing b with
  | nil => exact .pure b
  | cons a as ih =>
    obtain ⟨ha, has⟩ := List.forall_mem_cons.1 h
    rw [List.foldlM_cons, List.foldlM_cons]
    exact (ha b).bind (fun b' _ => ih has b') fun b' => grows_foldlM hgrows as b'

/-- A call whose failure is noted goes with one that throws it. -/
theorem attempt {noted : ε → Option ι} {otherwise : Recording ε ι β} {f : α → Recording ε ι β}
    {g : α → Except ε β} (hnoted : ∀ e i, noted e = some i → ¬ harmless i)
    (hf : ∀ a, y = .ok a → Predicts harmless (f a) (g a)) (hgrows : ∀ a, (f a).Grows)
    (hotherwise : otherwise.Grows) :
    Predicts harmless (Recording.attempt noted y >>= fun r => r.elim otherwise f) (y >>= g) := by
  have hcases : ∀ r : Option α, (r.elim otherwise f).Grows := by
    rintro (_ | a)
    · exact hotherwise
    · exact hgrows a
  refine ⟨(grows_attempt noted y).bind hcases, fun b hb notes => ?_, fun hno notes b notes' h => ?_⟩
  · obtain ⟨a, rfl, hb⟩ := bind_eq_ok hb
    exact (hf a rfl).quiet b hb notes
  · cases y with
    | ok a => exact (hf a rfl).found (fun b hb => hno b hb) notes b notes' h
    | error e =>
      rw [bind_apply] at h
      cases hi : noted e with
      | none =>
        rw [attempt_thrown hi] at h
        cases h
      | some i =>
        rw [attempt_noted hi] at h
        obtain ⟨more, hmore⟩ := hotherwise _ _ _ h
        refine ⟨i :: more, ?_, i, List.mem_cons_self, hnoted e i hi⟩
        rw [hmore, List.append_assoc]
        rfl

/-- Only harmless notes are made exactly if `y` returns. -/
theorem iff (h : Predicts harmless x y) :
    (∃ a notes, x [] = .ok (a, notes) ∧ ∀ i ∈ notes, harmless i) ↔ ∃ a, y = .ok a := by
  constructor
  · rintro ⟨a, notes, ha, hquiet⟩
    by_contra hno
    obtain ⟨more, hmore, i, hi, hbad⟩ := h.found (not_exists.1 hno) _ _ _ ha
    exact hbad (hquiet i (hmore ▸ hi))
  · rintro ⟨a, ha⟩
    obtain ⟨more, hmore, hquiet⟩ := h.quiet a ha []
    exact ⟨a, more, hmore, hquiet⟩

end Predicts

end Recording

end VirtualCatalog
