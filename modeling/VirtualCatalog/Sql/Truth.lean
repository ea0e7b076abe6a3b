import Mathlib.Data.List.Basic

/-!
# Three-valued logic

Truth values of SQL: `some true`, `some false`, and `none` for `NULL`.

* `Truth.and`, `Truth.or` : `FALSE` decides a conjunction and `TRUE` a disjunction, then `NULL`.
* `Truth.all`, `Truth.any` : over a list.
-/

namespace VirtualCatalog

namespace Truth

/-- `AND`. -/
def and : Option Bool → Option Bool → Option Bool
  | some true, t => t
  | some false, _ => some false
  | none, some false => some false
  | none, _ => none

/-- `OR`. -/
def or : Option Bool → Option Bool → Option Bool
  | some false, t => t
  | some true, _ => some true
  | none, some true => some true
  | none, _ => none

/-- `AND` over a list. -/
def all (ts : List (Option Bool)) : Option Bool := ts.foldr and (some true)

/-- `OR` over a list. -/
def any (ts : List (Option Bool)) : Option Bool := ts.foldr or (some false)

theorem and_assoc (a b c : Option Bool) : and (and a b) c = and a (and b c) := by
  rcases a with _ | _ | _ <;> rcases b with _ | _ | _ <;> rcases c with _ | _ | _ <;> rfl

@[simp] theorem and_true (a : Option Bool) : and a (some true) = a := by
  rcases a with _ | _ | _ <;> rfl

@[simp] theorem true_and (a : Option Bool) : and (some true) a = a := rfl

theorem and_eq_true {a b : Option Bool} :
    and a b = some true ↔ a = some true ∧ b = some true := by
  rcases a with _ | _ | _ <;> rcases b with _ | _ | _ <;> simp [and]

@[simp] theorem all_nil : all [] = some true := rfl

@[simp] theorem all_cons (t : Option Bool) (ts : List (Option Bool)) :
    all (t :: ts) = and t (all ts) := rfl

theorem all_append (ts us : List (Option Bool)) : all (ts ++ us) = and (all ts) (all us) := by
  induction ts with
  | nil => rfl
  | cons t ts ih => rw [List.cons_append, all_cons, all_cons, ih, and_assoc]

theorem or_eq_true {a b : Option Bool} :
    or a b = some true ↔ a = some true ∨ b = some true := by
  rcases a with _ | _ | _ <;> rcases b with _ | _ | _ <;> simp [or]

/-- A disjunction is `TRUE` when one of its operands is. -/
theorem any_eq_true {ts : List (Option Bool)} :
    any ts = some true ↔ ∃ t ∈ ts, t = some true := by
  induction ts with
  | nil => simp [any]
  | cons t ts ih =>
    show or t (any ts) = some true ↔ _
    rw [or_eq_true, ih, List.exists_mem_cons_iff]

/-- A conjunction is `TRUE` when each of its operands is. -/
theorem all_eq_true {ts : List (Option Bool)} :
    all ts = some true ↔ ∀ t ∈ ts, t = some true := by
  induction ts with
  | nil => simp
  | cons t ts ih => rw [all_cons, and_eq_true, ih, List.forall_mem_cons]

end Truth

end VirtualCatalog
