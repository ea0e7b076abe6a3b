import VirtualCatalog.Bridge.Rows
import VirtualCatalog.Sql.Plan

/-!
# An `ALTER` over a fully visible table

A guest alters a table only if it sees the whole of it: the alter and select predicates must fold to
`TRUE` on the source.  `PredicateFoldsToTrue` looks for that in the rewritten plan of
`SELECT * FROM table WHERE predicate`.

* `predicateFoldsToTrue` : the check, over the planner and rewriter of the source.
* `PreservesResults` : what the check relies on.
* `isTrue_of_foldsToTrue` : a predicate that folds is `TRUE` on every row.
* `alter_fullyVisible` : an accepted `ALTER` has both grants, and both predicates hold of every row.
-/

namespace VirtualCatalog

/-- The rows of `SELECT * FROM t WHERE predicate`. -/
def selectWhere {t : SourceTable} (sem : Semantics) (predicate : Expr) (rows : List t.Row) :
    Except EvalError (List t.Row) :=
  keepRows (fun r => do
    let v ← (← predicate.eval sem (Scope.read [r.scope]) []).toValue
    return Den.isTrue (.value v)) rows

/-- Two results are the same: both fail, or both have the same rows in some order. -/
def SameRows {ρ : Type} : Except EvalError (List ρ) → Except EvalError (List ρ) → Prop
  | .ok a, .ok b => a.Perm b
  | .error _, .error _ => True
  | _, _ => False

/-- `PredicateFoldsToTrue`; `plan` plans `SELECT * FROM table WHERE predicate` and rewrites it. -/
def predicateFoldsToTrue {ε : Type} (plan : Expr → LogicalOperator ε) (predicate : Expr) : Bool :=
  (plan predicate).onlyTrueFilters

/-- Planning and rewriting keep the rows of a query, and push no filter into the scan of the table.
`tableStates` are the states the table can be in, and `embed` is a row as a plan carries it. -/
structure PreservesResults {ε ρ : Type} (t : SourceTable) (sem : Semantics)
    (planSem : PlanSemantics ε ρ) (embed : t.Row → ρ) (tableStates : Set (List t.Row))
    (plan : Expr → LogicalOperator ε) : Prop where
  fullScan : ∀ e, (plan e).FullScan t.schema t.name
  sameRows : ∀ e, ∀ rows ∈ tableStates,
    SameRows ((plan e).run planSem t.schema t.name (rows.map embed))
      ((selectWhere sem e rows).map (List.map embed))

section

variable {ε ρ : Type} {t : SourceTable} {sem : Semantics} {planSem : PlanSemantics ε ρ}
  {embed : t.Row → ρ} {tableStates : Set (List t.Row)} {plan : Expr → LogicalOperator ε}

/-- **A predicate that folds to `TRUE` is `TRUE` on every row** of every state of the table. -/
theorem isTrue_of_foldsToTrue (hplan : PreservesResults t sem planSem embed tableStates plan)
    {e : Expr} (h : predicateFoldsToTrue plan e = true) {rows : List t.Row}
    (hrows : rows ∈ tableStates) :
    ∀ r ∈ rows, IsTrue (e.eval sem (Scope.read [r.scope]) []) := by
  obtain ⟨out, hout, hlen⟩ := @LogicalOperator.length_run ε ρ planSem t.schema t.name (plan e) h
    (hplan.fullScan e) (rows.map embed)
  have hsame := hplan.sameRows e rows hrows
  rw [hout] at hsame
  -- the query has as many rows as the table
  cases hselect : selectWhere sem e rows with
  | error x => rw [hselect] at hsame; exact hsame.elim
  | ok kept =>
    rw [hselect] at hsame
    have hkept : kept.length = rows.length := by
      have hperm := List.Perm.length_eq hsame
      rw [hlen, List.length_map, List.length_map] at hperm
      exact hperm.symm
    intro r hr
    have hpass := of_length_keepRows hselect hkept r hr
    cases heval : e.eval sem (Scope.read [r.scope]) [] with
    | error x => rw [heval] at hpass; cases hpass
    | ok d =>
      rw [heval] at hpass
      cases d with
      | value v => exact ⟨_, rfl, Except.ok.inj hpass⟩
      | closure f => cases hpass

end

/-! ### The check of an `ALTER` -/

section

variable {folds : Expr → Bool} {values : ContextValues} {verb : CrossingVerb}

theorem holdsEverywhere_ok_iff {g : Option SourceGrant} :
    holdsEverywhere folds values g verb = .ok true ↔ ∃ g', g = some g' ∧ g'.has verb = true ∧
      ∀ p, g'.usingPredicates verb = some p →
        ∃ e, fillContext values p = .ok e ∧ folds e = true := by
  cases g with
  | none => simp [holdsEverywhere]
  | some g =>
    rw [holdsEverywhere]
    cases hverb : g.has verb with
    | false => simp [hverb, -SourceGrant.has_iff]
    | true =>
      simp only [Option.any_some, hverb, Bool.true_eq_false, if_false, Option.bind_some,
        SourceGrant.copyUsing, Option.some.injEq, exists_eq_left', true_and]
      cases g.usingPredicates verb with
      | none => simp
      | some p =>
        cases hfill : fillContext values p with
        | error x => simp [hfill, Except.map]
        | ok e => simp [hfill, Except.map]

/-- **`ThrowUnlessAlterGrantedOverFullTable` accepts** when both verbs hold everywhere: for the grant
of its first lock section, under the context of its second. -/
theorem exec_alter_ok {R : Rely Moment Store} {s s' : Store} {schema table : String}
    (h : Prog.Exec R s (alter folds schema table) s' (.ok ())) :
    ∃ s₁ s₂, Relation.ReflTransGen (R.env ⟨.ddlGrant, [], []⟩) s s₁ ∧
      Relation.ReflTransGen (R.env ⟨.snapshot, [], []⟩) s₁ s₂ ∧
        ∀ verb ∈ [CrossingVerb.alter, .select], holdsEverywhere folds s₂.context.values
          (s₁.book.tables.findGrant schema table) verb = .ok true := by
  obtain ⟨s₁, henv₁, -, h⟩ := Prog.exec_sect_iff.1 h
  obtain ⟨s₂, henv₂, -, h⟩ := Prog.exec_sect_iff.1 h
  refine ⟨s₁, s₂, henv₁, henv₂, ?_⟩
  obtain ⟨-, h⟩ := Prog.exec_ofExcept_iff.1 h
  obtain ⟨alters, halters, h⟩ := bind_eq_ok h.symm
  obtain ⟨_, hthrow, h⟩ := bind_eq_ok h
  obtain ⟨selects, hselects, h⟩ := bind_eq_ok h
  rw [throwIf_eq_ok, Bool.not_eq_false] at hthrow h
  subst alters selects
  simp [halters, hselects]

end

/-- **An accepted `ALTER` is one over a fully visible table**: alter and select are granted, and every
row of every state of the table satisfies both predicates under the snapshot, in any interleaving of
the check with other parties.  A plan with another operator, or with a filter that is not the
constant `TRUE`, never folds. -/
theorem alter_fullyVisible {ε ρ : Type} {t : SourceTable} {sem : Semantics}
    {planSem : PlanSemantics ε ρ} {embed : t.Row → ρ} {tableStates : Set (List t.Row)}
    {plan : Expr → LogicalOperator ε}
    (hplan : PreservesResults t sem planSem embed tableStates plan) {R : Rely Moment Store}
    {s s' : Store}
    (h : Prog.Exec R s (alter (predicateFoldsToTrue plan) t.schema t.name) s' (.ok ())) :
    (∃ s₁ s₂, Relation.ReflTransGen (R.env ⟨.ddlGrant, [], []⟩) s s₁ ∧
      Relation.ReflTransGen (R.env ⟨.snapshot, [], []⟩) s₁ s₂ ∧
        ∃ g, s₁.book.tables.findGrant t.schema t.name = some g ∧
          ∀ verb ∈ [CrossingVerb.alter, .select], g.has verb = true ∧
            ∀ p, g.usingPredicates verb = some p →
              ∃ e, fillContext s₂.context.values p = .ok e ∧
                ∀ rows ∈ tableStates, ∀ r ∈ rows,
                  IsTrue (e.eval sem (Scope.read [r.scope]) [])) ∧
      ∀ p, predicateFoldsToTrue plan p = true → ∀ o ∈ (plan p).operators, o.DropsNothing := by
  refine ⟨?_, fun p hp => LogicalOperator.onlyTrueFilters_iff.1 hp⟩
  obtain ⟨s₁, s₂, henv₁, henv₂, hholds⟩ := exec_alter_ok h
  obtain ⟨g, hg, -⟩ := holdsEverywhere_ok_iff.1 (hholds .alter List.mem_cons_self)
  refine ⟨s₁, s₂, henv₁, henv₂, g, hg, fun verb hverb => ?_⟩
  obtain ⟨g', hg', hgranted, hpredicate⟩ := holdsEverywhere_ok_iff.1 (hholds verb hverb)
  rw [hg] at hg'
  cases hg'
  refine ⟨hgranted, fun p hp => ?_⟩
  obtain ⟨e, he, hfolds⟩ := hpredicate p hp
  exact ⟨e, he, fun rows hrows => isTrue_of_foldsToTrue hplan hfolds hrows⟩

namespace Sample

/-- A constant is bound as one. -/
def ordersFilter : Expr → BoundExpression Expr
  | .constant v => .constant v
  | e => .other e

/-- The plan of a query over the orders, with its filter. -/
def ordersPlan (e : Expr) : LogicalOperator Expr :=
  .projection [] (.filter [ordersFilter e] (.get ⟨"main", "orders", []⟩ []))

/-- Rows of the table itself, in every operator. -/
def ordersSemantics : PlanSemantics Expr ordersTable.Row where
  eval e r := do (← e.eval semantics (Scope.read [r.scope]) []).toValue
  project _ r := r
  other _ _ := .ok []

theorem ordersFilter_cases (e : Expr) : (∃ v, e = .constant v) ∨ ordersFilter e = .other e := by
  unfold ordersFilter
  split
  · exact .inl ⟨_, rfl⟩
  · exact .inr rfl

theorem passes_ordersFilter (e : Expr) :
    ordersSemantics.passes [ordersFilter e] = fun r : ordersTable.Row => do
      let v ← (← e.eval semantics (Scope.read [r.scope]) []).toValue
      return Den.isTrue (.value v) := by
  funext r
  rcases ordersFilter_cases e with ⟨v, rfl⟩ | h
  · change (if Den.isTrue (.value v) then Except.ok true else .ok false) = .ok (Den.isTrue (.value v))
    cases Den.isTrue (.value v) <;> rfl
  · simp only [h, PlanSemantics.passes, ordersSemantics]
    cases e.eval semantics (Scope.read [r.scope]) [] with
    | error x => rfl
    | ok d =>
      cases d with
      | closure f => rfl
      | value v =>
        cases hv : Den.isTrue (.value v) <;> simp [Den.toValue, hv, bind, Except.bind, pure, Except.pure]

theorem preservesResults_orders :
    PreservesResults ordersTable semantics ordersSemantics id Set.univ ordersPlan where
  fullScan e := ⟨rfl, rfl⟩
  sameRows e rows _ := by
    have hscan : (LogicalOperator.get ⟨"main", "orders", []⟩ []).run ordersSemantics "main" "orders"
        rows = .ok rows := by
      rw [LogicalOperator.run, if_pos ⟨rfl, rfl⟩]
      exact keepRows_all fun r _ => rfl
    have hmap : (List.map id : List ordersTable.Row → _) = id := List.map_id_fun
    rw [hmap]
    change SameRows ((((LogicalOperator.get ⟨"main", "orders", []⟩ []).run ordersSemantics "main"
      "orders" rows).bind (keepRows (ordersSemantics.passes [ordersFilter e]))).map (List.map id)) _
    rw [hscan, passes_ordersFilter, hmap]
    change SameRows ((selectWhere semantics e rows).map id) ((selectWhere semantics e rows).map id)
    cases selectWhere semantics e rows with
    | error x => trivial
    | ok kept => exact List.Perm.refl kept

/-- A guest may alter the orders, and read those that satisfy `TRUE`. -/
def ordersGrant : SourceGrant where
  verbs := {.alter, .select}
  usingPredicates v := if v = .select then some (.constant (.boolean true)) else none

/-- The store with that grant. -/
def ordersStore : Store where
  book := { state := { tables := GrantTables.set ∅ "main" "orders" ordersGrant } }
  context := {}
  installed := []
  contexts := []

end Sample

/-- The guest alters the orders, all of which it may read. -/
theorem alter_fullyVisible_orders :
    ∃ g, Sample.ordersStore.book.tables.findGrant "main" "orders" = some g ∧
      ∀ verb ∈ [CrossingVerb.alter, .select], g.has verb = true ∧
        ∀ p, g.usingPredicates verb = some p →
          ∃ e, fillContext Sample.ordersStore.context.values p = .ok e ∧
            ∀ rows : List Sample.ordersTable.Row, ∀ r ∈ rows,
              IsTrue (e.eval Sample.semantics (Scope.read [r.scope]) []) := by
  have hrun : Prog.Exec (Rely.any fun _ _ => False) Sample.ordersStore
      (alter (predicateFoldsToTrue Sample.ordersPlan) "main" "orders") Sample.ordersStore (.ok ()) :=
    Prog.exec_run Sample.ordersStore (fun _ => trivial) (alter _ "main" "orders")
  obtain ⟨⟨s₁, s₂, henv₁, henv₂, g, hg, h⟩, -⟩ :=
    alter_fullyVisible Sample.preservesResults_orders hrun
  obtain rfl := (Relation.reflTransGen_iff_eq fun _ => id).1 henv₁
  obtain rfl := (Relation.reflTransGen_iff_eq fun _ => id).1 henv₂
  refine ⟨g, hg, fun verb hverb => ⟨(h verb hverb).1, fun p hp => ?_⟩⟩
  obtain ⟨e, he, hrows⟩ := (h verb hverb).2 p hp
  exact ⟨e, he, fun rows => hrows rows (Set.mem_univ rows)⟩

end VirtualCatalog
