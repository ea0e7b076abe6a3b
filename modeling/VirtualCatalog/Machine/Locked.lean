import Mathlib.Logic.Relation

/-!
# Programs of lock sections over a shared store

A `Prog τ σ ε α` is a sequential program that reads a shared store `σ` only inside critical
sections: each section sees one state of the store, and between two sections other parties may
change it.  Sections carry a tag in `τ`, by which a condition can speak about what happens while
the program waits for a given section.

* `Prog.run` : the outcome when nothing changes the store.
* `Prog.Exec R s p s' r` : some interleaving of `p` with the environment `R.env` starts in `s`,
  ends in `s'` and has the outcome `r`; the environment may take any number of steps before each
  section.
* `Prog.Step` : the same interleavings one step at a time; `Prog.exec_iff_steps` says that the two
  descriptions agree, so a statement about `Exec` is one about every order of steps.
-/

namespace VirtualCatalog

/-- A program of lock sections: `sect t k` waits for the lock, then continues with `k s` where `s`
is the store it found. -/
inductive Prog (τ σ ε α : Type) where
  | ret (a : α)
  | throw (e : ε)
  | sect (t : τ) (k : σ → Prog τ σ ε α)

/-- What the environment may do while a program waits for a section tagged `t`, and what must hold
of the store when that section runs. -/
structure Rely (τ σ : Type) where
  /-- One step of the environment. -/
  env : τ → σ → σ → Prop
  /-- The store a section may find. -/
  pre : τ → σ → Prop

/-- An environment that is unrestricted but for its own steps. -/
def Rely.any {τ σ : Type} (env : σ → σ → Prop) : Rely τ σ := ⟨fun _ => env, fun _ _ => True⟩

namespace Prog

open Relation

variable {τ σ ε α β γ : Type}

/-- Sequential composition. -/
def bind : Prog τ σ ε α → (α → Prog τ σ ε β) → Prog τ σ ε β
  | ret a, f => f a
  | throw e, _ => throw e
  | sect t k, f => sect t fun s => (k s).bind f

instance : Monad (Prog τ σ ε) where
  pure := ret
  bind := bind

/-- One section that computes `f` of the store. -/
def look (t : τ) (f : σ → α) : Prog τ σ ε α := sect t fun s => ret (f s)

/-- The program of an outcome that needs no section. -/
def ofExcept : Except ε α → Prog τ σ ε α
  | .ok a => ret a
  | .error e => throw e

/-- The outcome when the store stays as it is. -/
def run (s : σ) : Prog τ σ ε α → Except ε α
  | ret a => .ok a
  | throw e => .error e
  | sect _ k => (k s).run s

@[simp] theorem pure_eq (a : α) : (pure a : Prog τ σ ε α) = ret a := rfl

@[simp] theorem bind_eq (p : Prog τ σ ε α) (f : α → Prog τ σ ε β) : (p >>= f) = p.bind f := rfl

@[simp] theorem ret_bind (a : α) (f : α → Prog τ σ ε β) : (ret a : Prog τ σ ε α).bind f = f a := rfl

@[simp] theorem throw_bind (e : ε) (f : α → Prog τ σ ε β) :
    (throw e : Prog τ σ ε α).bind f = throw e := rfl

@[simp] theorem sect_bind (t : τ) (k : σ → Prog τ σ ε α) (f : α → Prog τ σ ε β) :
    (sect t k).bind f = sect t fun s => (k s).bind f := rfl

@[simp] theorem look_bind (t : τ) (g : σ → α) (f : α → Prog τ σ ε β) :
    (look t g).bind f = sect t fun s => f (g s) := rfl

@[simp] theorem bind_ret (p : Prog τ σ ε α) : p.bind ret = p := by
  induction p with
  | ret => rfl
  | throw => rfl
  | sect t k ih => simp only [sect_bind, ih]

theorem bind_assoc (p : Prog τ σ ε α) (f : α → Prog τ σ ε β) (g : β → Prog τ σ ε γ) :
    (p.bind f).bind g = p.bind fun a => (f a).bind g := by
  induction p with
  | ret => rfl
  | throw => rfl
  | sect t k ih => simp only [sect_bind, ih]

theorem run_bind (s : σ) (p : Prog τ σ ε α) (f : α → Prog τ σ ε β) :
    (p.bind f).run s = (p.run s).bind fun a => (f a).run s := by
  induction p with
  | ret => rfl
  | throw => rfl
  | sect t k ih => exact ih s

@[simp] theorem run_ofExcept (s : σ) (x : Except ε α) :
    (ofExcept x : Prog τ σ ε α).run s = x := by cases x <;> rfl

/-- The interleaved executions of a program with an environment. -/
inductive Exec (R : Rely τ σ) : σ → Prog τ σ ε α → σ → Except ε α → Prop
  | ret (s : σ) (a : α) : Exec R s (ret a) s (.ok a)
  | throw (s : σ) (e : ε) : Exec R s (throw e) s (.error e)
  | sect {s s₁ s' : σ} {t : τ} {k : σ → Prog τ σ ε α} {r : Except ε α}
      (henv : ReflTransGen (R.env t) s s₁) (hpre : R.pre t s₁) (h : Exec R s₁ (k s₁) s' r) :
      Exec R s (sect t k) s' r

variable {R R' : Rely τ σ} {s s' : σ} {p : Prog τ σ ε α} {r : Except ε α}

@[simp] theorem exec_ret_iff {a : α} :
    Exec R s (.ret a : Prog τ σ ε α) s' r ↔ s' = s ∧ r = .ok a := by
  constructor
  · rintro ⟨⟩; exact ⟨rfl, rfl⟩
  · rintro ⟨rfl, rfl⟩; exact .ret _ _

@[simp] theorem exec_throw_iff {e : ε} :
    Exec R s (.throw e : Prog τ σ ε α) s' r ↔ s' = s ∧ r = .error e := by
  constructor
  · rintro ⟨⟩; exact ⟨rfl, rfl⟩
  · rintro ⟨rfl, rfl⟩; exact .throw _ _

theorem exec_sect_iff {t : τ} {k : σ → Prog τ σ ε α} :
    Exec R s (.sect t k) s' r ↔
      ∃ s₁, ReflTransGen (R.env t) s s₁ ∧ R.pre t s₁ ∧ Exec R s₁ (k s₁) s' r := by
  constructor
  · rintro ⟨⟩; exact ⟨_, ‹_›, ‹_›, ‹_›⟩
  · rintro ⟨s₁, henv, hpre, h⟩; exact .sect henv hpre h

@[simp] theorem exec_ofExcept_iff {x : Except ε α} :
    Exec R s (ofExcept x : Prog τ σ ε α) s' r ↔ s' = s ∧ r = x := by
  cases x <;> simp [ofExcept]

/-- An execution of `p` followed by `f` is one of `p` and, if `p` returned, one of `f`. -/
theorem exec_bind_iff {f : α → Prog τ σ ε β} {r : Except ε β} :
    Exec R s (p.bind f) s' r ↔
      (∃ e, r = .error e ∧ Exec R s p s' (.error e)) ∨
        ∃ a s₁, Exec R s p s₁ (.ok a) ∧ Exec R s₁ (f a) s' r := by
  induction p generalizing s with
  | ret a =>
    simp only [ret_bind, exec_ret_iff, reduceCtorEq, and_false, exists_false, false_or]
    constructor
    · intro h; exact ⟨a, s, ⟨rfl, rfl⟩, h⟩
    · rintro ⟨a', s₁, ⟨rfl, h⟩, h'⟩; cases h; exact h'
  | throw e =>
    constructor
    · rintro ⟨⟩; exact .inl ⟨e, rfl, .throw _ _⟩
    · rintro (⟨e', rfl, h⟩ | ⟨a, s₁, h, -⟩)
      · cases h; exact .throw _ _
      · cases h
  | sect t k ih =>
    simp only [sect_bind, exec_sect_iff, ih]
    constructor
    · rintro ⟨s₁, henv, hpre, ⟨e, rfl, h⟩ | ⟨a, s₂, h, h'⟩⟩
      · exact .inl ⟨e, rfl, s₁, henv, hpre, h⟩
      · exact .inr ⟨a, s₂, ⟨s₁, henv, hpre, h⟩, h'⟩
    · rintro (⟨e, rfl, s₁, henv, hpre, h⟩ | ⟨a, s₂, ⟨s₁, henv, hpre, h⟩, h'⟩)
      · exact ⟨s₁, henv, hpre, .inl ⟨e, rfl, h⟩⟩
      · exact ⟨s₁, henv, hpre, .inr ⟨a, s₂, h, h'⟩⟩

/-- Fewer environment steps and stronger preconditions leave fewer executions. -/
theorem Exec.mono (h : Exec R s p s' r) (henv : ∀ t s s', R.env t s s' → R'.env t s s')
    (hpre : ∀ t s, R.pre t s → R'.pre t s) : Exec R' s p s' r := by
  induction h with
  | ret => exact .ret _ _
  | throw => exact .throw _ _
  | sect he hp _ ih => exact .sect (ReflTransGen.mono (henv _) _ _ he) (hpre _ _ hp) ih

/-- A property of the store that one step keeps is kept by any number of steps. -/
theorem keep_of_steps {E : σ → σ → Prop} {I : σ → Prop} {s₁ : σ} (h : ReflTransGen E s s₁)
    (step : ∀ s s', E s s' → I s → I s') (h₀ : I s) : I s₁ := by
  induction h with
  | refl => exact h₀
  | tail _ hs ih => exact step _ _ hs ih

/-- A store property that the environment keeps holds at the end. -/
theorem Exec.invariant {I : σ → Prop} (h : Exec R s p s' r) (h₀ : I s)
    (step : ∀ t s s', R.env t s s' → I s → I s') : I s' := by
  induction h with
  | ret => exact h₀
  | throw => exact h₀
  | sect he _ _ ih => exact ih (keep_of_steps he (step _) h₀)

/-- The undisturbed run is one of the executions. -/
theorem exec_run (s : σ) (hpre : ∀ t, R.pre t s) (p : Prog τ σ ε α) : Exec R s p s (p.run s) := by
  induction p with
  | ret => exact .ret _ _
  | throw => exact .throw _ _
  | sect t k ih => exact .sect .refl (hpre t) (ih s)

/-! ### Programs that depend on a part of the store -/

/-- The sections of the program depend on the store through `view` alone. -/
def Reads {ρ : Type} (view : σ → ρ) : Prog τ σ ε α → Prop
  | ret _ => True
  | throw _ => True
  | sect _ k => (∀ s s', view s = view s' → k s = k s') ∧ ∀ s, (k s).Reads view

section

variable {ρ : Type} {view : σ → ρ}

theorem reads_ofExcept (x : Except ε α) : (ofExcept x : Prog τ σ ε α).Reads view := by
  cases x <;> trivial

theorem Reads.bind {f : α → Prog τ σ ε β} (hp : p.Reads view) (hf : ∀ a, (f a).Reads view) :
    (p.bind f).Reads view := by
  induction p with
  | ret a => exact hf a
  | throw => trivial
  | sect t k ih =>
    refine ⟨fun s s' h => ?_, fun s => ih s (hp.2 s)⟩
    dsimp only
    rw [hp.1 s s' h]

theorem Reads.run_congr (hp : p.Reads view) (h : view s = view s') : p.run s = p.run s' := by
  induction p with
  | ret => rfl
  | throw => rfl
  | sect t k ih =>
    rw [run, run, ← hp.1 s s' h]
    exact ih s (hp.2 s)

/-- An environment that keeps what the program depends on leaves it the undisturbed outcome. -/
theorem Exec.eq_run_of_reads (h : Exec R s p s' r) (hp : p.Reads view)
    (hR : ∀ t s s', R.env t s s' → view s' = view s) : r = p.run s := by
  induction h with
  | ret => rfl
  | throw => rfl
  | @sect s s₁ _ t k _ he _ _ ih =>
    have hv : view s₁ = view s :=
      keep_of_steps (I := fun x => view x = view s) he (fun x y hs hx => (hR _ _ _ hs).trans hx) rfl
    rw [ih (hp.2 s₁), (hp.2 s₁).run_congr hv, hp.1 s₁ s hv]
    rfl

end

/-! ### One step at a time -/

/-- A step of the environment, while the program waits for a section, or of the program. -/
inductive Step (R : Rely τ σ) : σ × Prog τ σ ε α → σ × Prog τ σ ε α → Prop
  | env {s s₁ : σ} {t : τ} {k : σ → Prog τ σ ε α} (h : R.env t s s₁) :
      Step R (s, .sect t k) (s₁, .sect t k)
  | go {s : σ} {t : τ} {k : σ → Prog τ σ ε α} (h : R.pre t s) : Step R (s, .sect t k) (s, k s)

theorem steps_env {s s₁ : σ} {t : τ} {k : σ → Prog τ σ ε α} (h : ReflTransGen (R.env t) s s₁) :
    ReflTransGen (Step R) (s, .sect t k) (s₁, .sect t k) := by
  induction h with
  | refl => exact .refl
  | tail _ hs ih => exact ih.tail (.env hs)

/-- The two descriptions of the interleavings agree. -/
theorem exec_iff_steps :
    Exec R s p s' r ↔ ReflTransGen (Step R) (s, p) (s', ofExcept r) := by
  constructor
  · intro h
    induction h with
    | ret => exact .refl
    | throw => exact .refl
    | sect he hp _ ih => exact (steps_env he).trans (.head (.go hp) ih)
  · intro h
    generalize hc : (s', (ofExcept r : Prog τ σ ε α)) = c at h
    generalize ha : (s, p) = a at h
    induction h using ReflTransGen.head_induction_on generalizing s p with
    | refl =>
      subst hc
      obtain ⟨rfl, rfl⟩ := Prod.mk.inj ha
      simp
    | head hs _ ih =>
      cases hs with
      | env he =>
        obtain ⟨rfl, rfl⟩ := Prod.mk.inj ha
        obtain ⟨s₁, h₁, hp, h⟩ := exec_sect_iff.1 (ih rfl)
        exact .sect (.head he h₁) hp h
      | go hp =>
        obtain ⟨rfl, rfl⟩ := Prod.mk.inj ha
        exact .sect .refl hp (ih rfl)

end Prog

end VirtualCatalog
