import VirtualCatalog.Sql.Eval

/-!
# Logical plans that keep every row

A plan is a tree of scans, projections, filters and other operators.  A plan of scans, projections
and filters of the constant `TRUE` drops no row; nothing is known of another plan.

* `LogicalOperator` : a plan; a projection and a filter have one child by construction.
* `LogicalOperator.onlyTrueFilters` : the check of a whole tree; `onlyTrueFilters_iff` says which
  trees pass.
* `LogicalOperator.run` : the rows of a plan in one state of its table.  What other operators do is
  the source's own: `PlanSemantics` gives it.
* `length_run` : a plan that passes, over a full scan, has as many rows as the table.
-/

namespace VirtualCatalog

/-- A bound expression, as far as it is a constant. -/
inductive BoundExpression (ε : Type) where
  | constant (v : Value)
  | other (e : ε)

/-- `LogicalOperatorType` of an operator that does not scan, project or filter. -/
inductive LogicalOperatorType where
  | aggregate | window | unnest | limit | orderBy | topN | distinct | sample
  | chunkGet | delimGet | expressionGet | dummyScan | emptyResult | cteRef
  | delimJoin | comparisonJoin | anyJoin | crossProduct | positionalJoin | asofJoin | dependentJoin
  | union | except | intersect | recursiveCte | materializedCte
  | other
deriving DecidableEq

/-- A scan of a table, with the filters that were pushed into it. -/
structure TableScan (ε : Type) where
  schema : String
  table : String
  tableFilters : List (BoundExpression ε) := []

/-- A logical plan. -/
inductive LogicalOperator (ε : Type) where
  | get (scan : TableScan ε) (children : List (LogicalOperator ε))
  | projection (expressions : List (BoundExpression ε)) (child : LogicalOperator ε)
  | filter (expressions : List (BoundExpression ε)) (child : LogicalOperator ε)
  | other (type : LogicalOperatorType) (expressions : List (BoundExpression ε))
      (children : List (LogicalOperator ε))

/-- `IsConstantTrue`. -/
def BoundExpression.isConstantTrue {ε : Type} : BoundExpression ε → Bool
  | constant (.boolean b) => b
  | _ => false

theorem BoundExpression.isConstantTrue_iff {ε : Type} {e : BoundExpression ε} :
    e.isConstantTrue = true ↔ e = .constant (.boolean true) := by
  cases e with
  | constant v => cases v <;> simp [isConstantTrue]
  | other e => simp [isConstantTrue]

namespace LogicalOperator

variable {ε : Type}

/-- Induction over a plan. -/
@[elab_as_elim]
theorem ind {P : LogicalOperator ε → Prop}
    (get : ∀ scan children, (∀ c ∈ children, P c) → P (get scan children))
    (projection : ∀ es child, P child → P (projection es child))
    (filter : ∀ es child, P child → P (filter es child))
    (other : ∀ type es children, (∀ c ∈ children, P c) → P (other type es children)) :
    ∀ op, P op :=
  @LogicalOperator.rec ε P (fun cs => ∀ c ∈ cs, P c) get projection filter other
    (fun _ h => absurd h List.not_mem_nil) fun _ _ h hs c hc => by
      rcases List.mem_cons.1 hc with rfl | hc
      · exact h
      · exact hs c hc

mutual

/-- `OnlyTrueFilters`. -/
def onlyTrueFilters : LogicalOperator ε → Bool
  | projection _ child => onlyTrueFilters child
  | get _ children => onlyTrueFiltersList children
  | filter expressions child =>
    expressions.all BoundExpression.isConstantTrue && onlyTrueFilters child
  | other _ _ _ => false

/-- The loop over the children. -/
def onlyTrueFiltersList : List (LogicalOperator ε) → Bool
  | [] => true
  | c :: cs => onlyTrueFilters c && onlyTrueFiltersList cs

end

mutual

/-- The operators of a plan. -/
def operators : LogicalOperator ε → List (LogicalOperator ε)
  | get scan children => get scan children :: operatorsList children
  | projection es child => projection es child :: operators child
  | filter es child => filter es child :: operators child
  | other type es children => other type es children :: operatorsList children

/-- The operators of the plans of a list. -/
def operatorsList : List (LogicalOperator ε) → List (LogicalOperator ε)
  | [] => []
  | c :: cs => operators c ++ operatorsList cs

end

@[simp] theorem onlyTrueFiltersList_iff {cs : List (LogicalOperator ε)} :
    onlyTrueFiltersList cs = true ↔ ∀ c ∈ cs, c.onlyTrueFilters = true := by
  induction cs with
  | nil => simp [onlyTrueFiltersList]
  | cons c cs ih => simp [onlyTrueFiltersList, ih]

@[simp] theorem operatorsList_eq (cs : List (LogicalOperator ε)) :
    operatorsList cs = cs.flatMap operators := by
  induction cs with
  | nil => rfl
  | cons c cs ih => rw [operatorsList, ih, List.flatMap_cons]

/-- An operator that drops no row: a scan, a projection, or a filter of the constant `TRUE`. -/
def DropsNothing : LogicalOperator ε → Prop
  | get _ _ => True
  | projection _ _ => True
  | filter expressions _ => ∀ e ∈ expressions, e = .constant (.boolean true)
  | other _ _ _ => False

/-- **The check passes when no operator of the plan drops rows.** -/
theorem onlyTrueFilters_iff {op : LogicalOperator ε} :
    op.onlyTrueFilters = true ↔ ∀ o ∈ op.operators, o.DropsNothing := by
  have list : ∀ cs : List (LogicalOperator ε), (∀ c ∈ cs, c.onlyTrueFilters = true ↔
      ∀ o ∈ c.operators, o.DropsNothing) →
      (onlyTrueFiltersList cs = true ↔ ∀ o ∈ operatorsList cs, o.DropsNothing) := by
    intro cs ih
    rw [onlyTrueFiltersList_iff, operatorsList_eq, List.forall_mem_flatMap]
    exact forall₂_congr ih
  induction op using ind with
  | get scan children ih =>
    rw [onlyTrueFilters, operators, list children ih, List.forall_mem_cons]
    exact (and_iff_right trivial).symm
  | projection es child ih =>
    rw [onlyTrueFilters, operators, List.forall_mem_cons]
    exact Iff.trans ih (and_iff_right trivial).symm
  | filter es child ih =>
    rw [onlyTrueFilters, operators, Bool.and_eq_true, List.forall_mem_cons, List.all_eq_true]
    exact and_congr (forall₂_congr fun e _ => BoundExpression.isConstantTrue_iff) ih
  | other type es children ih =>
    rw [onlyTrueFilters, operators, List.forall_mem_cons]
    exact ⟨fun h => absurd h Bool.false_ne_true, fun h => h.1.elim⟩

end LogicalOperator

/-! ### The rows of a plan -/

/-- The rows that satisfy a condition; the first failure is one of the whole. -/
def keepRows {α : Type} (p : α → Except EvalError Bool) : List α → Except EvalError (List α)
  | [] => .ok []
  | a :: as => do
    let kept ← p a
    let rest ← keepRows p as
    return if kept then a :: rest else rest

theorem keepRows_all {α : Type} {p : α → Except EvalError Bool} {as : List α}
    (h : ∀ a ∈ as, p a = .ok true) : keepRows p as = .ok as := by
  induction as with
  | nil => rfl
  | cons a as ih =>
    rw [keepRows, h a List.mem_cons_self, ih fun b hb => h b (List.mem_cons_of_mem _ hb)]
    rfl

theorem length_keepRows_le {α : Type} {p : α → Except EvalError Bool} {as bs : List α}
    (h : keepRows p as = .ok bs) : bs.length ≤ as.length := by
  induction as generalizing bs with
  | nil => cases h; exact le_refl _
  | cons a as ih =>
    rw [keepRows] at h
    cases hp : p a with
    | error x => rw [hp] at h; cases h
    | ok kept =>
      cases hr : keepRows p as with
      | error x => rw [hp, hr] at h; cases h
      | ok rest =>
        rw [hp, hr] at h
        have hle := ih hr
        cases kept with
        | false => cases h; exact Nat.le_succ_of_le hle
        | true => cases h; exact Nat.succ_le_succ hle

/-- As many rows as there were: all of them satisfy the condition. -/
theorem of_length_keepRows {α : Type} {p : α → Except EvalError Bool} {as bs : List α}
    (h : keepRows p as = .ok bs) (hlen : bs.length = as.length) : ∀ a ∈ as, p a = .ok true := by
  induction as generalizing bs with
  | nil => exact fun a ha => absurd ha List.not_mem_nil
  | cons a as ih =>
    rw [keepRows] at h
    cases hp : p a with
    | error x => rw [hp] at h; cases h
    | ok kept =>
      cases hr : keepRows p as with
      | error x => rw [hp, hr] at h; cases h
      | ok rest =>
        rw [hp, hr] at h
        have hle := length_keepRows_le hr
        cases kept with
        | false =>
          cases h
          change rest.length = as.length + 1 at hlen
          omega
        | true =>
          cases h
          exact List.forall_mem_cons.2 ⟨hp, ih hr (Nat.succ_injective hlen)⟩

/-- What a source does with the expressions and operators it has: `other` gives the rows of any
other operator when the table has the given rows.  The projection of `*` cannot fail. -/
structure PlanSemantics (ε ρ : Type) where
  eval : ε → ρ → Except EvalError Value
  project : List (BoundExpression ε) → ρ → ρ
  other : List ρ → LogicalOperator ε → Except EvalError (List ρ)

namespace PlanSemantics

variable {ε ρ : Type} (sem : PlanSemantics ε ρ)

/-- The expressions of a filter are all `TRUE`. -/
def passes : List (BoundExpression ε) → ρ → Except EvalError Bool
  | [], _ => .ok true
  | .constant v :: es, r => if Den.isTrue (.value v) then passes es r else .ok false
  | .other e :: es, r => do
    if Den.isTrue (.value (← sem.eval e r)) then passes es r else return false

theorem passes_true {es : List (BoundExpression ε)} (h : ∀ e ∈ es, e = .constant (.boolean true))
    (r : ρ) : sem.passes es r = .ok true := by
  induction es with
  | nil => rfl
  | cons e es ih =>
    rw [h e List.mem_cons_self]
    exact ih fun e he => h e (List.mem_cons_of_mem _ he)

end PlanSemantics

namespace LogicalOperator

variable {ε ρ : Type} (sem : PlanSemantics ε ρ) (schema table : String)

/-- The rows of a plan when the table `schema.table` has the given rows. -/
def run (rows : List ρ) : LogicalOperator ε → Except EvalError (List ρ)
  | get scan [] =>
    if scan.schema = schema ∧ scan.table = table then keepRows (sem.passes scan.tableFilters) rows
    else sem.other rows (get scan [])
  | projection expressions child => (run rows child).map (List.map (sem.project expressions))
  | filter expressions child => (run rows child).bind (keepRows (sem.passes expressions))
  | op => sem.other rows op

/-- The scan below projections and filters, if there is one, is of the whole table. -/
def FullScan : LogicalOperator ε → Prop
  | get scan children => scan = ⟨schema, table, []⟩ ∧ children = []
  | projection _ child => child.FullScan
  | filter _ child => child.FullScan
  | other _ _ _ => True

variable {sem schema table}

/-- **A plan that passes the check keeps every row of the table.** -/
theorem length_run {op : LogicalOperator ε} (h : op.onlyTrueFilters = true)
    (hscan : op.FullScan schema table) (rows : List ρ) :
    ∃ out, op.run sem schema table rows = .ok out ∧ out.length = rows.length := by
  induction op using ind with
  | get scan children =>
    obtain ⟨rfl, rfl⟩ := hscan
    refine ⟨rows, ?_, rfl⟩
    rw [run, if_pos ⟨rfl, rfl⟩]
    exact keepRows_all fun r _ => rfl
  | projection es child ih =>
    obtain ⟨out, hout, hlen⟩ := ih h hscan
    refine ⟨out.map (sem.project es), ?_, by rw [List.length_map, hlen]⟩
    rw [run, hout]
    rfl
  | filter es child ih =>
    rw [onlyTrueFilters, Bool.and_eq_true, List.all_eq_true] at h
    obtain ⟨out, hout, hlen⟩ := ih h.2 hscan
    refine ⟨out, ?_, hlen⟩
    rw [run, hout]
    exact keepRows_all fun r _ => sem.passes_true
      (fun e he => BoundExpression.isConstantTrue_iff.1 (h.1 e he)) r
  | other type es children => cases h

end LogicalOperator

end VirtualCatalog
