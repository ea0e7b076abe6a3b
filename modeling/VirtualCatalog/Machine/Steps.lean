import Mathlib.Control.Monad.Basic
import Mathlib.Data.List.Induction
import Mathlib.Data.Set.Defs

/-!
# Sequences of changes that are not undone

A program makes one change after another.  A change that throws ends the sequence, and what was changed
by then stays.

* `Lasting` : a computation that keeps the state it has reached when it throws.
* `change`, `changes` : one change, and several.
* `Separate` : each change concerns a part of the state of its own, so none takes back another.
* `ReadsOnly`, `Sees` : what decides whether a change is accepted, and what it finds there.
* `FailsEarly` : a change is refused before anything was changed.
* `changes_undivided_iff` : separate changes are made all or not at all exactly if each is accepted in the
  state that it sees, or one fails early.
-/

namespace VirtualCatalog

variable {ε σ γ κ α β : Type}

/-- A computation over a state; what it changed before it throws stays changed. -/
abbrev Lasting (ε σ : Type) := ExceptT ε (StateM σ)

namespace Lasting

/-- What a computation returns or throws, and the state that it leaves. -/
def outcome (p : Lasting ε σ α) (s : σ) : Except ε α × σ := p.run s

@[simp] theorem outcome_pure (a : α) (s : σ) :
    (pure a : Lasting ε σ α).outcome s = (.ok a, s) := rfl

@[simp] theorem outcome_get (s : σ) : (get : Lasting ε σ σ).outcome s = (.ok s, s) := rfl

theorem outcome_bind_ok {p : Lasting ε σ α} {f : α → Lasting ε σ β} {s s' : σ} {a : α}
    (h : p.outcome s = (.ok a, s')) : (p >>= f).outcome s = (f a).outcome s' := by
  show (ExceptT.bindCont f (p s).1) (p s).2 = _
  rw [show p s = (.ok a, s') from h]
  rfl

theorem outcome_bind_error {p : Lasting ε σ α} {f : α → Lasting ε σ β} {s s' : σ} {e : ε}
    (h : p.outcome s = (.error e, s')) : (p >>= f).outcome s = (.error e, s') := by
  show (ExceptT.bindCont f (p s).1) (p s).2 = _
  rw [show p s = (.error e, s') from h]
  rfl

/-- Attempt a change; one that throws may leave something, too. -/
def change (attempt : σ → Except ε Unit × σ) : Lasting ε σ Unit := ExceptT.mk attempt

/-- A check or a query, which changes nothing. -/
def ofExcept (x : Except ε α) : Lasting ε σ α := ExceptT.mk fun s => (x, s)

theorem outcome_ofExcept (x : Except ε α) (s : σ) :
    (ofExcept x : Lasting ε σ α).outcome s = (x, s) := rfl

variable (attempt : γ → σ → Except ε Unit × σ)

/-- Make some changes one after the other, until one throws. -/
def changes : List γ → Lasting ε σ Unit
  | [] => pure ()
  | c :: cs => do
    change (attempt c)
    changes cs

/-- The change is made in the state `s`. -/
def Accepts (c : γ) (s : σ) : Prop := (attempt c s).1 = .ok ()

/-- A change throws and leaves the state as it is, and those before it find nothing to change. -/
def FailsEarly (cs : List γ) (s : σ) : Prop :=
  ∃ before c after, cs = before ++ c :: after ∧ (∀ b ∈ before, attempt b s = (.ok (), s)) ∧
    ∃ e, attempt c s = (.error e, s)

/-- The change `c` concerns only the part `key c` of a state. -/
structure Separate (key : γ → κ) (part : σ → κ → α) : Prop where
  ext : ∀ s s', (∀ k, part s k = part s' k) → s = s'
  frame : ∀ c s k, k ≠ key c → part (attempt c s).2 k = part s k

/-- Whether a change is made depends on the parts `reads c` only. -/
def ReadsOnly (part : σ → κ → α) (reads : γ → Set κ) : Prop :=
  ∀ c s s', (∀ k ∈ reads c, part s k = part s' k) → (Accepts attempt c s ↔ Accepts attempt c s')

/-- `sees c s` has what the change `c` reads when its turn comes and all before it were made. -/
def Sees (part : σ → κ → α) (reads : γ → Set κ) (sees : γ → σ → σ) (cs : List γ) (s : σ) : Prop :=
  ∀ before c after, cs = before ++ c :: after → ((changes attempt before).outcome s).1 = .ok () →
    ∀ k ∈ reads c, part ((changes attempt before).outcome s).2 k = part (sees c s) k

variable {attempt} {key : γ → κ} {part : σ → κ → α} {reads : γ → Set κ} {sees : γ → σ → σ}
  {cs : List γ} {c : γ} {s s' : σ}

theorem outcome_changes_cons_ok (h : attempt c s = (.ok (), s')) :
    (changes attempt (c :: cs)).outcome s = (changes attempt cs).outcome s' :=
  outcome_bind_ok h

theorem outcome_changes_cons_error {e : ε} (h : attempt c s = (.error e, s')) :
    (changes attempt (c :: cs)).outcome s = (.error e, s') :=
  outcome_bind_error h

theorem not_failsEarly_nil : ¬ FailsEarly attempt [] s := by
  rintro ⟨before, c, after, h, -⟩
  cases before <;> cases h

theorem failsEarly_cons : FailsEarly attempt (c :: cs) s ↔
    (∃ e, attempt c s = (.error e, s)) ∨ attempt c s = (.ok (), s) ∧ FailsEarly attempt cs s := by
  constructor
  · rintro ⟨before, d, after, h, hbefore, hd⟩
    cases before with
    | nil =>
      obtain ⟨rfl, -⟩ := List.cons.inj h
      exact .inl hd
    | cons b before =>
      obtain ⟨rfl, rfl⟩ := List.cons.inj h
      exact .inr ⟨hbefore c List.mem_cons_self, before, d, after, rfl,
        fun b hb => hbefore b (List.mem_cons_of_mem _ hb), hd⟩
  · rintro (hc | ⟨hc, before, d, after, rfl, hbefore, hd⟩)
    · exact ⟨[], c, cs, rfl, by simp, hc⟩
    · exact ⟨c :: before, d, after, rfl, List.forall_mem_cons.2 ⟨hc, hbefore⟩, hd⟩

/-- What some changes leave at a part that none of them concerns. -/
theorem Separate.frame_changes (sep : Separate attempt key part) {k : κ}
    (hk : ∀ c ∈ cs, k ≠ key c) : part ((changes attempt cs).outcome s).2 k = part s k := by
  induction cs generalizing s with
  | nil => rfl
  | cons c cs ih =>
    have hframe := sep.frame c s k (hk c List.mem_cons_self)
    cases h : attempt c s with
    | mk r s' =>
      rw [h] at hframe
      cases r with
      | error e => rw [outcome_changes_cons_error h, hframe]
      | ok u => rw [outcome_changes_cons_ok h, ih fun c hc => hk c (List.mem_cons_of_mem _ hc), hframe]

theorem changes_concat_eq_ok : ((changes attempt (cs ++ [c])).outcome s).1 = .ok () ↔
    ((changes attempt cs).outcome s).1 = .ok () ∧
      Accepts attempt c ((changes attempt cs).outcome s).2 := by
  induction cs generalizing s with
  | nil =>
    show ((changes attempt [c]).outcome s).1 = .ok () ↔
      (.ok () : Except ε Unit) = .ok () ∧ Accepts attempt c s
    rw [eq_self, true_and]
    cases h : attempt c s with
    | mk r s' =>
      cases r with
      | error e => simp [outcome_changes_cons_error h, Accepts, h]
      | ok u =>
        rw [outcome_changes_cons_ok h, changes, outcome_pure, Accepts, h]
  | cons d cs ih =>
    cases h : attempt d s with
    | mk r s' =>
      cases r with
      | error e => simp [outcome_changes_cons_error h]
      | ok u => rw [List.cons_append, outcome_changes_cons_ok h, outcome_changes_cons_ok h, ih]

/-- **The changes are all made exactly if each is accepted** in the state that it sees. -/
theorem ReadsOnly.changes_eq_ok_iff (hreads : ReadsOnly attempt part reads)
    (hsees : Sees attempt part reads sees cs s) :
    ((changes attempt cs).outcome s).1 = .ok () ↔ ∀ c ∈ cs, Accepts attempt c (sees c s) := by
  induction cs using List.reverseRecOn with
  | nil => exact iff_of_true rfl (by simp)
  | append_singleton cs c ih =>
    have hsees' : Sees attempt part reads sees cs s := by
      intro before d after h
      exact hsees before d (after ++ [c]) (by rw [h, List.append_assoc, List.cons_append])
    rw [changes_concat_eq_ok, ih hsees', List.forall_mem_append, List.forall_mem_singleton]
    refine and_congr_right fun hacc => hreads c _ _ ?_
    exact hsees cs c [] rfl ((ih hsees').2 hacc)

/-- What a change always leaves at its part is there after all changes were made. -/
theorem Separate.part_of_changes (sep : Separate attempt key part) (hcs : (cs.map key).Nodup)
    (hgo : ((changes attempt cs).outcome s).1 = .ok ()) (hc : c ∈ cs) {P : α → Prop}
    (hP : ∀ s, Accepts attempt c s → P (part (attempt c s).2 (key c))) :
    P (part ((changes attempt cs).outcome s).2 (key c)) := by
  induction cs generalizing s with
  | nil => cases hc
  | cons d cs ih =>
    rw [List.map_cons, List.nodup_cons] at hcs
    cases h : attempt d s with
    | mk r s' =>
      cases r with
      | error e =>
        rw [outcome_changes_cons_error h] at hgo
        cases hgo
      | ok u =>
        rw [outcome_changes_cons_ok h] at hgo ⊢
        rcases List.mem_cons.1 hc with rfl | hc
        · have hother : ∀ d ∈ cs, key c ≠ key d := fun d hd heq =>
            hcs.1 (heq ▸ List.mem_map_of_mem hd)
          have hmade := hP s (by rw [Accepts, h])
          rw [sep.frame_changes hother]
          rwa [h] at hmade
        · exact ih hcs.2 hgo hc

/-- Changes that end in the state they started in, one of them having thrown. -/
theorem Separate.changes_back_iff (sep : Separate attempt key part) (hcs : (cs.map key).Nodup) :
    ((∃ e, ((changes attempt cs).outcome s).1 = .error e) ∧
      ((changes attempt cs).outcome s).2 = s) ↔ FailsEarly attempt cs s := by
  induction cs generalizing s with
  | nil =>
    refine iff_of_false ?_ not_failsEarly_nil
    rintro ⟨⟨e, he⟩, -⟩
    cases he
  | cons c cs ih =>
    rw [List.map_cons, List.nodup_cons] at hcs
    rw [failsEarly_cons]
    cases h : attempt c s with
    | mk r s' =>
      cases r with
      | error e => simp [outcome_changes_cons_error h]
      | ok u =>
        rw [outcome_changes_cons_ok h]
        simp only [Prod.mk.injEq, reduceCtorEq, false_and, exists_false, false_or, true_and]
        constructor
        · rintro ⟨he, hs⟩
          -- the later changes leave the part of `c` alone, and `c` leaves the others alone
          have hback : s' = s := by
            refine sep.ext _ _ fun k => ?_
            by_cases hk : k = key c
            · have hother : ∀ d ∈ cs, k ≠ key d := by
                rintro d hd rfl
                exact hcs.1 (hk ▸ List.mem_map_of_mem hd)
              rw [← sep.frame_changes hother, hs]
            · have hframe := sep.frame c s k hk
              rwa [h] at hframe
          subst hback
          exact ⟨rfl, (ih hcs.2).1 ⟨he, hs⟩⟩
        · rintro ⟨rfl, hf⟩
          exact (ih hcs.2).2 hf

/-- **Separate changes are all made or leave everything as it was exactly if each is accepted in the
state that it sees, or one is refused before anything was changed.** -/
theorem Separate.changes_undivided_iff (sep : Separate attempt key part)
    (hreads : ReadsOnly attempt part reads) (hcs : (cs.map key).Nodup)
    (hsees : Sees attempt part reads sees cs s) :
    (((changes attempt cs).outcome s).1 = .ok () ∨
      (∃ e, ((changes attempt cs).outcome s).1 = .error e) ∧
        ((changes attempt cs).outcome s).2 = s) ↔
      (∀ c ∈ cs, Accepts attempt c (sees c s)) ∨ FailsEarly attempt cs s := by
  rw [hreads.changes_eq_ok_iff hsees, sep.changes_back_iff hcs]

end Lasting

end VirtualCatalog
