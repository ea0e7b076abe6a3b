import VirtualCatalog.Bridge.Rows

/-!
# The rows a policy reaches

A read goes through `SELECT columns FROM table WHERE using`; an update or delete carries the USING
predicates in its own condition, qualified with the table's name, over the join with the seam.

* `FloorPlan.rows`, `CrossingWriteStatement.changed` : the rows a floor yields and the rows an
  `UPDATE` or `DELETE` changes.
* `verdict` : what a predicate of the policy, filled from the context, says of a row.
* `run_read_reach`, `run_write_reach` : the statements while the grants and the context stay as
  they are.
* `lambdaFree_of_selects` : a qualified predicate with a lambda does not bind, for `QualifyColumns`
  takes the parameter of a lambda for a column.
* `policy_reach_iff` : a read yields exactly the rows on which the predicates of the grants are
  `TRUE`, and a write changes exactly those if no predicate it consults has a lambda.
-/

namespace VirtualCatalog

/-! ### Keeping rows -/

/-- The elements that `p` keeps, unless it fails on one. -/
def keep {α ε : Type} (p : α → Except ε Bool) : List α → Except ε (List α)
  | [] => .ok []
  | a :: as => do
    let kept ← p a
    let rest ← keep p as
    return if kept then a :: rest else rest

/-- The outcome is `TRUE`. -/
def truth {ε : Type} : Except ε Bool → Bool
  | .ok b => b
  | .error _ => false

theorem keep_eq_ok_iff {α ε : Type} {p : α → Except ε Bool} {as kept : List α} :
    keep p as = .ok kept ↔
      (∀ a ∈ as, ∃ b, p a = .ok b) ∧ kept = as.filter fun a => truth (p a) := by
  induction as generalizing kept with
  | nil => simp [keep, eq_comm]
  | cons a as ih =>
    rw [keep, bind_eq_ok_iff]
    simp only [List.forall_mem_cons]
    constructor
    · rintro ⟨b, hb, h⟩
      obtain ⟨rest, hrest, h⟩ := bind_eq_ok_iff.1 h
      obtain ⟨hall, rfl⟩ := ih.1 hrest
      cases h
      refine ⟨⟨⟨b, hb⟩, hall⟩, ?_⟩
      cases b <;> simp [hb, truth]
    · rintro ⟨⟨⟨b, hb⟩, hall⟩, rfl⟩
      refine ⟨b, hb, bind_eq_ok_iff.2 ⟨_, ih.2 ⟨hall, rfl⟩, ?_⟩⟩
      cases b <;> simp [hb, truth, pure, Except.pure]

/-- Whether a condition holds in a scope; a missing one does. -/
def selects (sem : Semantics) (scope : Scope) : Option Expr → Except EvalError Bool
  | none => .ok true
  | some e =>
    if e.binds scope.read [] then (e.eval sem scope.read []).map Den.isTrue else .error .unbound

/-- The condition is `TRUE` in the scope, or missing. -/
def holds (sem : Semantics) (scope : Scope) (condition : Option Expr) : Bool :=
  truth (selects sem scope condition)

section

variable {sem : Semantics} {scope : Scope}

theorem holds_some {e : Expr} : holds sem scope (some e) = true ↔
    e.binds scope.read [] = true ∧ IsTrue (e.eval sem scope.read []) := by
  rw [holds, selects]
  split_ifs with h
  · cases he : e.eval sem scope.read [] <;> simp [truth, Except.map, h]
  · simp [truth, h]

/-- `And` holds where both operands do. -/
theorem holds_andWith (condition : Option Expr) (e : Expr) :
    holds sem scope (some (andWith condition e)) =
      (holds sem scope condition && holds sem scope (some e)) := by
  cases condition with
  | none => exact (Bool.true_and _).symm
  | some l =>
    rw [Bool.eq_iff_iff, Bool.and_eq_true, holds_some, holds_some, holds_some, andWith, Expr.binds,
      Expr.bindsList_iff, Expr.eval, Expr.evalList_eq, Op.result, isTrue_andResult]
    simp only [List.forall_mem_cons, List.map_cons, List.map_nil, List.not_mem_nil,
      IsEmpty.forall_iff, implies_true, and_true]
    tauto

theorem selects_some_ok {e : Expr} : (∃ b, selects sem scope (some e) = .ok b) ↔
    e.binds scope.read [] = true ∧ ∃ d, e.eval sem scope.read [] = .ok d := by
  rw [selects]
  split_ifs with h
  · cases he : e.eval sem scope.read [] <;> simp [Except.map, h]
  · simp [h]

/-- `And` has a value where both operands do. -/
theorem selects_andWith {condition : Option Expr} {e : Expr}
    (hc : ∃ b, selects sem scope condition = .ok b)
    (he : ∃ b, selects sem scope (some e) = .ok b) :
    ∃ b, selects sem scope (some (andWith condition e)) = .ok b := by
  cases condition with
  | none => exact he
  | some l =>
    obtain ⟨hbl, dl, hl⟩ := selects_some_ok.1 hc
    obtain ⟨hbe, de, he⟩ := selects_some_ok.1 he
    refine selects_some_ok.2 ⟨by simp [andWith, Expr.binds, hbl, hbe], ?_⟩
    rw [andWith, Expr.eval, Expr.evalList_eq, Op.result]
    refine andResult_ok fun r hr => ?_
    simp only [List.map_cons, List.map_nil, List.mem_cons, List.not_mem_nil, or_false] at hr
    rcases hr with rfl | rfl
    · exact ⟨dl, hl⟩
    · exact ⟨de, he⟩

end

/-! ### The rows of a statement -/

variable {t : SourceTable}

/-- The rows a floor yields; its select list takes the columns of them. -/
def FloorPlan.rows (plan : FloorPlan) (sem : Semantics) (rows : List t.Row) :
    Except EvalError (List t.Row) :=
  match plan.restriction with
  | none => .ok rows
  | some f => keep (fun r => selects sem [r.scope] (some f.filled)) rows

namespace CrossingWriteStatement

variable (statement : CrossingWriteStatement)

/-- What the condition is evaluated over for one row: the row itself, joined with each row of the
seam if there is one. -/
def joins (seam : Option (List (List Value))) (r : t.Row) : List Scope :=
  match seam with
  | none => [[r.scope]]
  | some seam => seam.map fun values => [r.scope] ++ [statement.seamScope values]

/-- The rows an `UPDATE` or `DELETE` changes: those that some join selects. -/
def changed (sem : Semantics) (seam : Option (List (List Value))) (rows : List t.Row) :
    Except EvalError (List t.Row) :=
  keep (fun r => (keep (selects sem · statement.condition) (statement.joins seam r)).map
    fun kept => !kept.isEmpty) rows

variable {statement}

theorem changed_eq_ok_iff {sem : Semantics} {seam : Option (List (List Value))}
    {rows kept : List t.Row} : statement.changed sem seam rows = .ok kept ↔
      (∀ r ∈ rows, ∀ scope ∈ statement.joins seam r,
        ∃ b, selects sem scope statement.condition = .ok b) ∧
      kept = rows.filter fun r => (statement.joins seam r).any (holds sem · statement.condition) := by
  have one (r : t.Row) (k : Except EvalError (List Scope))
      (hk : keep (selects sem · statement.condition) (statement.joins seam r) = k) :
      (∃ b, k.map (fun kept => !kept.isEmpty) = .ok b) ↔
        ∀ scope ∈ statement.joins seam r, ∃ b, selects sem scope statement.condition = .ok b := by
    cases k with
    | ok kept =>
      have hall := (keep_eq_ok_iff.1 hk).1
      exact ⟨fun _ => hall, fun _ => ⟨_, rfl⟩⟩
    | error e =>
      simp only [Except.map, reduceCtorEq, exists_false, false_iff]
      intro hall
      rw [keep_eq_ok_iff.2 ⟨hall, rfl⟩] at hk
      cases hk
  rw [changed, keep_eq_ok_iff]
  simp only [one _ _ rfl]
  refine and_congr_right fun hall => ?_
  suffices hf : ∀ r ∈ rows, truth ((keep (selects sem · statement.condition)
      (statement.joins seam r)).map fun kept => !kept.isEmpty) =
        (statement.joins seam r).any (holds sem · statement.condition) by
    rw [List.filter_congr hf]
  intro r hr
  rw [keep_eq_ok_iff.2 ⟨hall r hr, rfl⟩, Except.map, truth, Bool.eq_iff_iff]
  simp [List.filter_eq_nil_iff, holds]

end CrossingWriteStatement

/-! ### The law -/

/-- What a predicate of the policy, filled from the context, says of a row of the source. -/
def verdict (sem : Semantics) (values : ContextValues) (p : Option Expr) (r : t.Row) :
    Except EvalError Bool :=
  match fillOption values p with
  | .ok f => selects sem [r.scope] (f.map (·.filled))
  | .error _ => .error .unbound

/-- The policy shows the row: the filled predicate is `TRUE` on it, or there is none. -/
def admits (sem : Semantics) (values : ContextValues) (p : Option Expr) (r : t.Row) : Bool :=
  truth (verdict sem values p r)

@[simp] theorem verdict_none (sem : Semantics) (values : ContextValues) (r : t.Row) :
    verdict sem values none r = .ok true := rfl

@[simp] theorem admits_none (sem : Semantics) (values : ContextValues) (r : t.Row) :
    admits sem values none r = true := rfl

/-- `work` picks exactly the rows that satisfy the law, with their multiplicity; it does so
whenever every row is evaluated without an error. -/
structure Picks (work : List t.Row → Except EvalError (List t.Row)) (law : t.Row → Bool)
    (evaluates : t.Row → Prop) : Prop where
  exactly : ∀ rows kept, work rows = .ok kept → kept = rows.filter law
  always : ∀ rows, (∀ r ∈ rows, evaluates r) → ∃ kept, work rows = .ok kept

/-- `c` is a column. -/
def SourceTable.hasColumn (t : SourceTable) (c : String) : Bool :=
  (t.stored ++ t.generated.map Prod.fst).any (ciEq · c)

/-- A predicate without lambdas over the columns of a table that names them without a qualifier,
outside subqueries. -/
structure PlainPredicate (t : SourceTable) (p : Expr) : Prop where
  lambdaFree : p.lambdaFree = true
  outer : p.outerRefs = []
  columns : ∀ path, .columnRef path ∈ p.leaves →
    path.isQualified = false ∧ t.hasColumn path.name = true

/-- The seam's names do not occur in the predicate. -/
def SeamFree (built : CrossingWriteStatement) (p : Expr) : Prop :=
  ∀ path, .columnRef path ∈ p.leaves → ∀ n ∈ path.names, FreshName built n

theorem PlainPredicate.of_bareOver {p : Expr} (hl : p.lambdaFree = true)
    (h : p.bareOver t.hasColumn [] = true) : PlainPredicate t p :=
  ⟨hl, (Expr.bare_of_bareOver hl h).1, (Expr.bare_of_bareOver hl h).2⟩

theorem SourceTable.Row.exists_column {r : t.Row} {c : String} (h : t.hasColumn c = true) :
    ∃ v, r.scope.column? c = some v := by
  have hnames : r.columns.map Prod.fst = t.stored ++ t.generated.map Prod.fst := by
    simp [Row.columns, r.map_fst_stored, Function.comp_def]
  rw [hasColumn, ← hnames, List.any_map, List.any_eq_true] at h
  rw [TableScope.column?, ← Option.isSome_iff_exists, Option.isSome_map, List.find?_isSome]
  exact h

/-- Filling keeps a predicate plain and free of the seam's names. -/
theorem PlainPredicate.fill {values : ContextValues} {p e : Expr} (h : PlainPredicate t p)
    (he : fillContext values p = .ok e) : PlainPredicate t e where
  lambdaFree := (shape_of_fillContext he).1.trans h.lambdaFree
  outer := (shape_of_fillContext he).2.2.trans h.outer
  columns path hp := h.columns path (columnRef_of_fillContext he hp)

theorem SeamFree.fill {built : CrossingWriteStatement} {values : ContextValues} {p e : Expr}
    (h : SeamFree built p) (he : fillContext values p = .ok e) : SeamFree built e :=
  fun path hp => h path (columnRef_of_fillContext he hp)

/-! ### Qualified predicates -/

section

variable {sem : Semantics} {built : CrossingWriteStatement} {e : Expr} {r : t.Row}

/-- A qualified reference reads the row of the source, whatever the seam carries. -/
theorem read_qualifyLeaf {scope : Scope} {seam : Option (List (List Value))} {path : ColumnPath}
    (hs : scope ∈ built.joins seam r) (hq : path.isQualified = false)
    (hc : t.hasColumn path.name = true) (hf : ∀ n ∈ path.names, FreshName built n) :
    ∃ path', pointLeaf t.name [] built 0 (.columnRef path) = .columnRef path' ∧
      scope.read [] false path' = Scope.read [r.scope] [] false path := by
  obtain ⟨v, hv⟩ := r.exists_column hc
  refine ⟨⟨[t.name], path.name⟩, by simp [pointLeaf, hq], ?_⟩
  have hplain : Scope.read [r.scope] [] false path = some (.column v, []) := by
    rw [ColumnPath.eq_plain hq, Scope.read_bare, hv]
    rfl
  have hrow : Scope.tableColumn [r.scope] none t.name path.name = some v := by
    simp [Scope.tableColumn, TableScope.isCalled, SourceTable.Row.scope, Scope.unique_single]
    exact hv
  rw [hplain]
  refine Scope.read_of_tableColumn ?_
  cases seam with
  | none => rw [List.mem_singleton.1 hs, hrow]
  | some seam =>
    obtain ⟨values, -, rfl⟩ := List.mem_map.1 hs
    rw [Scope.tableColumn_append_of_none, hrow]
    exact CrossingWriteStatement.seamScope_column?_none (hf _ (by simp [ColumnPath.names]))

/-- **A qualified predicate means over the join what the predicate means over the row.** -/
theorem selects_qualifyColumns {scope : Scope} {seam : Option (List (List Value))}
    (hp : PlainPredicate t e) (hf : SeamFree built e) (hs : scope ∈ built.joins seam r) :
    selects sem scope (some (qualifyColumns e t.name built)) =
      selects sem [r.scope] (some e) := by
  have leaf : ∀ path, Expr.columnRef path ∈ e.leaves →
      ∃ path', pointLeaf t.name [] built 0 (.columnRef path) = .columnRef path' ∧
        scope.read [] false path' = Scope.read [r.scope] [] false path := fun path hl =>
    read_qualifyLeaf hs (hp.columns path hl).1 (hp.columns path hl).2 (hf path hl)
  have hbinds : (qualifyColumns e t.name built).binds scope.read [] =
      e.binds (Scope.read [r.scope]) [] := by
    refine Expr.binds_mapLeaves hp.lambdaFree (fun l hl => ?_) fun path ho => ?_
    · rcases Expr.leaf_cases hl with ⟨v, rfl⟩ | ⟨n, rfl⟩ | ⟨path, rfl⟩
      · rfl
      · rfl
      · obtain ⟨path', hpath, hr⟩ := leaf path hl
        rw [hpath, Expr.binds, Expr.binds, hr]
    · rw [hp.outer] at ho
      cases ho
  have heval : (qualifyColumns e t.name built).eval sem scope.read [] =
      e.eval sem (Scope.read [r.scope]) [] := by
    refine Expr.eval_mapLeaves hp.lambdaFree (fun l hl => ?_) fun path ho => ?_
    · rcases Expr.leaf_cases hl with ⟨v, rfl⟩ | ⟨n, rfl⟩ | ⟨path, rfl⟩
      · rfl
      · rfl
      · obtain ⟨path', hpath, hr⟩ := leaf path hl
        rw [hpath, Expr.eval, Expr.eval, Expr.readRef, Expr.readRef, List.map_nil, hr]
    · rw [hp.outer] at ho
      cases ho
  rw [selects, selects, hbinds, heval]

/-- A qualified predicate with a lambda has no value: the parameter is qualified like a column, and
a lambda whose parameter is qualified does not bind. -/
theorem lambdaFree_of_selects {table : String} {scope : Scope} {condition : Option Expr}
    (h : ∃ b, selects sem scope (some (andWith condition (qualifyColumns e table built))) = .ok b) :
    e.lambdaFree = true := by
  have hb := (selects_some_ok.1 h).1
  have hq : (qualifyColumns e table built).binds scope.read [] = true := by
    cases condition with
    | none => exact hb
    | some c =>
      simp only [andWith, Expr.binds, Expr.bindsList, Bool.and_eq_true] at hb
      exact hb.2.1
  exact Expr.lambdaFree_of_binds_mapLeaves (fun l hl => lambdaParams_pointLeaf hl _ _ _ _) hq

end

/-! ### The shaped statement -/

theorem fillContext_and (values : ContextValues) (l r : Expr) :
    fillContext values (.node .conjunctionAnd [l, r]) = (fillContext values l).bind fun l' =>
      (fillContext values r).map fun r' => .node .conjunctionAnd [l', r'] := by
  simp only [fillContext, Expr.traverseLeaves, Expr.traverseLeavesList, bind, pure]
  cases l.traverseLeaves (fillLeaf values) <;> cases r.traverseLeaves (fillLeaf values) <;> rfl

section

variable {sem : Semantics} {values : ContextValues} {r : t.Row} {u v : Option Expr}
  {f : Option Filled}

theorem verdict_ok (h : fillOption values u = .ok f) :
    verdict sem values u r = selects sem [r.scope] (f.map (·.filled)) := by
  rw [verdict, h]

/-- A restriction that is filled was made of two predicates that can be filled. -/
theorem fillOption_restrict (h : fillOption values (restrict v u) = .ok f) :
    ∃ fu fv, fillOption values u = .ok fu ∧ fillOption values v = .ok fv ∧
      f.map (·.filled) = restrict (fv.map (·.filled)) (fu.map (·.filled)) := by
  cases v with
  | none => exact ⟨f, none, h, rfl, rfl⟩
  | some v =>
    cases u with
    | none =>
      refine ⟨none, f, rfl, h, ?_⟩
      cases f <;> rfl
    | some u =>
      simp only [restrict, andWith, fillOption, fillContext_and] at h
      cases hv : fillContext values v with
      | error e => rw [hv] at h; cases h
      | ok v' =>
        cases hu : fillContext values u with
        | error e => rw [hv, hu] at h; cases h
        | ok u' =>
          rw [hv, hu] at h
          cases h
          exact ⟨some ⟨u, u'⟩, some ⟨v, v'⟩, by rw [fillOption, hu]; rfl,
            by rw [fillOption, hv]; rfl, rfl⟩

/-- The restriction holds where the verb's predicate and what select shows do. -/
theorem holds_restrict {scope : Scope} (u v : Option Expr) :
    holds sem scope (restrict v u) = (holds sem scope u && holds sem scope v) := by
  cases v with
  | none => exact (Bool.and_true _).symm
  | some v =>
    cases u with
    | none => exact (Bool.true_and _).symm
    | some u => rw [restrict, holds_andWith, Bool.and_comm]

theorem selects_restrict {scope : Scope} (hu : ∃ b, selects sem scope u = .ok b)
    (hv : ∃ b, selects sem scope v = .ok b) : ∃ b, selects sem scope (restrict v u) = .ok b := by
  cases v with
  | none => exact hu
  | some v =>
    cases u with
    | none => exact hv
    | some u => exact selects_andWith hv hu

end

/-- An `UPDATE` or `DELETE` is shaped to its own condition and the qualified restriction, over the
seam it came with. -/
theorem graft_narrow {target : CrossingWriteTarget} (restriction check : Option Expr)
    (built : CrossingWriteStatement) (h : target.verb = .update ∨ target.verb = .delete) :
    (graft target restriction check built).condition =
        (narrow target restriction built).condition ∧
      (graft target restriction check built).seamAlias = built.seamAlias ∧
        (graft target restriction check built).seamColumns = built.seamColumns := by
  rcases h with h | h <;> cases restriction <;> cases check <;>
    simp [graft, h, narrow, guardStatement]

theorem joins_congr {statement built : CrossingWriteStatement}
    (ha : statement.seamAlias = built.seamAlias) (hc : statement.seamColumns = built.seamColumns)
    (seam : Option (List (List Value))) (r : t.Row) :
    statement.joins seam r = built.joins seam r := by
  simp only [CrossingWriteStatement.joins, CrossingWriteStatement.seamScope, ha, hc]

/-- The predicates of a restriction are plain and free of the seam's names if both parts are. -/
theorem plain_restrict {built : CrossingWriteStatement} {u v : Option Expr}
    (hu : ∀ p, u = some p → PlainPredicate t p ∧ SeamFree built p)
    (hv : ∀ p, v = some p → PlainPredicate t p ∧ SeamFree built p) :
    ∀ p, restrict v u = some p → PlainPredicate t p ∧ SeamFree built p := by
  intro p hp
  cases v with
  | none => exact hu p hp
  | some v =>
    cases u with
    | none => exact hv p hp
    | some u =>
      cases hp
      obtain ⟨⟨hlu, hou, hcu⟩, hfu⟩ := hu u rfl
      obtain ⟨⟨hlv, hov, hcv⟩, hfv⟩ := hv v rfl
      have mem : ∀ path, Expr.columnRef path ∈ (andWith (some v) u).leaves →
          .columnRef path ∈ v.leaves ∨ .columnRef path ∈ u.leaves := by
        intro path hp
        simpa [andWith, Expr.leaves] using hp
      refine ⟨⟨?_, ?_, fun path hp => ?_⟩, fun path hp => ?_⟩
      · simp [andWith, Expr.lambdaFree, hlu, hlv]
      · simp [andWith, Expr.outerRefs, hou, hov]
      · exact (mem path hp).elim (hcv path) (hcu path)
      · exact (mem path hp).elim (hfv path) (hfu path)

section

variable {sem : Semantics} {target : CrossingWriteTarget} {values : ContextValues}
  {built : CrossingWriteStatement} {u v c : Option Expr} {shaped : ShapedWrite}

/-- **A shaped `UPDATE` or `DELETE` changes the rows of its own condition that the verb's
predicate and, where it is looked up, the select predicate admit.** -/
theorem changed_shaped (sem : Semantics) (hverb : target.verb = .update ∨ target.verb = .delete)
    (htable : target.table = t.name)
    (hu : ∀ p, u = some p → PlainPredicate t p ∧ SeamFree built p)
    (hv : ∀ p, v = some p → PlainPredicate t p ∧ SeamFree built p)
    (h : finishShape target values built u c v = .ok shaped) (seam : Option (List (List Value))) :
    Picks (shaped.statement.changed sem seam)
      (fun r : t.Row => (built.joins seam r).any (holds sem · built.condition) &&
        (admits sem values u r && admits sem values v r))
      (fun r => (∀ scope ∈ built.joins seam r, ∃ b, selects sem scope built.condition = .ok b) ∧
        (∃ b, verdict sem values u r = .ok b) ∧ ∃ b, verdict sem values v r = .ok b) := by
  obtain ⟨restriction, hr, h⟩ := bind_eq_ok h
  obtain ⟨check, -, h⟩ := bind_eq_ok h
  cases h
  obtain ⟨fu, fv, hfu, hfv, hf⟩ := fillOption_restrict hr
  obtain ⟨hcond, halias, hcolumns⟩ :=
    graft_narrow (restriction.map (·.filled)) (check.map (·.filled)) built hverb
  have hplain : ∀ e, restriction.map (·.filled) = some e → PlainPredicate t e ∧ SeamFree built e := by
    intro e he
    obtain ⟨f, rfl, rfl⟩ := Option.map_eq_some_iff.1 he
    cases hrestr : restrict v u with
    | none => rw [hrestr] at hr; cases hr
    | some p =>
      obtain ⟨hp, hs⟩ := plain_restrict hu hv p hrestr
      rw [hrestr, fillOption] at hr
      cases hfill : fillContext values p with
      | error x => rw [hfill] at hr; cases hr
      | ok e =>
        rw [hfill] at hr
        cases hr
        exact ⟨hp.fill hfill, hs.fill hfill⟩
  -- over any join, the shaped condition is the own condition and the restriction on the row
  have hholds : ∀ r : t.Row, ∀ scope ∈ built.joins seam r,
      holds sem scope (narrow target (restriction.map (·.filled)) built).condition =
        (holds sem scope built.condition && (admits sem values u r && admits sem values v r)) := by
    intro r scope hs
    rw [admits, admits, verdict_ok hfu, verdict_ok hfv, ← holds, ← holds, ← holds_restrict, ← hf]
    cases hm : restriction.map (·.filled) with
    | none => exact (Bool.and_true _).symm
    | some e =>
      obtain ⟨hp, hsf⟩ := hplain e hm
      rw [narrow, holds_andWith, htable]
      congr 1
      rw [holds, holds, selects_qualifyColumns hp hsf hs]
  constructor
  · intro rows kept hk
    obtain ⟨-, rfl⟩ := CrossingWriteStatement.changed_eq_ok_iff.1 hk
    refine List.filter_congr fun r _ => ?_
    rw [joins_congr halias hcolumns, hcond, Bool.eq_iff_iff, Bool.and_eq_true, List.any_eq_true,
      List.any_eq_true]
    constructor
    · rintro ⟨scope, hs, hh⟩
      rw [hholds r scope hs, Bool.and_eq_true] at hh
      exact ⟨⟨scope, hs, hh.1⟩, hh.2⟩
    · rintro ⟨⟨scope, hs, hh⟩, hlaw⟩
      exact ⟨scope, hs, by rw [hholds r scope hs, hh, hlaw]; rfl⟩
  · intro rows hrows
    refine ⟨_, CrossingWriteStatement.changed_eq_ok_iff.2 ⟨fun r hr scope hs => ?_, rfl⟩⟩
    rw [joins_congr halias hcolumns] at hs
    obtain ⟨hown, hvu, hvv⟩ := hrows r hr
    rw [verdict_ok hfu] at hvu
    rw [verdict_ok hfv] at hvv
    have hrestr := selects_restrict hvu hvv
    rw [← hf] at hrestr
    rw [hcond]
    cases hm : restriction.map (·.filled) with
    | none => exact hown scope hs
    | some e =>
      obtain ⟨hp, hsf⟩ := hplain e hm
      rw [hm] at hrestr
      rw [narrow, htable]
      exact selects_andWith (hown scope hs) (selects_qualifyColumns hp hsf hs ▸ hrestr)

end

/-- **A shaped `UPDATE` or `DELETE` whose condition has a value had predicates without lambdas.** -/
theorem lambdaFree_of_selects_shaped {sem : Semantics} {target : CrossingWriteTarget}
    {values : ContextValues} {built : CrossingWriteStatement} {u v c : Option Expr}
    {shaped : ShapedWrite} {scope : Scope} (hverb : target.verb = .update ∨ target.verb = .delete)
    (h : finishShape target values built u c v = .ok shaped)
    (hs : ∃ b, selects sem scope shaped.statement.condition = .ok b) :
    (∀ p, u = some p → p.lambdaFree = true) ∧ ∀ p, v = some p → p.lambdaFree = true := by
  obtain ⟨restriction, hr, h⟩ := bind_eq_ok h
  obtain ⟨check, -, h⟩ := bind_eq_ok h
  cases h
  rw [(graft_narrow _ _ built hverb).1] at hs
  have hfree : ∀ p, restrict v u = some p → p.lambdaFree = true := by
    intro p hp
    rw [hp, fillOption] at hr
    cases hfill : fillContext values p with
    | error x => rw [hfill] at hr; cases hr
    | ok e =>
      rw [hfill] at hr
      cases hr
      rw [← (shape_of_fillContext hfill).1]
      exact lambdaFree_of_selects hs
  cases v with
  | none => exact ⟨hfree, fun p hp => by cases hp⟩
  | some v =>
    cases u with
    | none => exact ⟨fun p hp => (by cases hp), hfree⟩
    | some u =>
      have hand := hfree _ rfl
      simp only [andWith, Expr.lambdaFree, Expr.lambdaFreeList, Bool.and_eq_true] at hand
      constructor
      · rintro p ⟨rfl⟩
        exact hand.2.1
      · rintro p ⟨rfl⟩
        exact hand.1

/-! ### Statements while the policy stays as it is -/

/-- What a statement reads of the store: the grants and the context. -/
def Store.policy (s : Store) : GrantTables × ContextValues := (s.book.tables, s.context.values)

/-- What a floor binds to under the grants and the context of the store. -/
def Store.bindFloor (s : Store) (floor : CrossingFloor) : Except BridgeError FloorPlan :=
  if s.book.grants floor.schema floor.table .select then
    (fillOption s.context.values (s.book.lookup floor.lookup)).map (⟨floor, ·⟩)
  else .error (noPermission (quoted floor.schema floor.table) .select)

namespace Prog

section

variable {s : Store} {earlier : List Lookup} {after : List (ContextValues × Lookup)}
  {values : ContextValues}

theorem reads_resolveFloor (floor : CrossingFloor) :
    (resolveFloor earlier after values floor).Reads Store.policy := by
  refine ⟨fun s s' h => ?_, fun s => ?_⟩
  · dsimp only
    rw [grants_congr (congrArg Prod.fst h)]
  · dsimp only
    split_ifs
    · refine ⟨fun s s' h => ?_, fun s => (reads_ofExcept _).bind fun _ => trivial⟩
      dsimp only
      rw [lookup_congr (congrArg Prod.fst h)]
    · trivial

theorem reads_resolveFloors (floors : List CrossingFloor) :
    (resolveFloors earlier after values floors).Reads Store.policy := by
  induction floors with
  | nil => trivial
  | cons floor floors ih =>
    exact (reads_resolveFloor floor).bind fun _ => ih.bind fun _ => trivial

theorem reads_readFragments (taken : List Lookup) (fragments : List (List CrossingFloor)) :
    (readFragments taken fragments).Reads Store.policy := by
  induction fragments generalizing taken with
  | nil => trivial
  | cons fragment fragments ih =>
    refine ⟨fun s s' h => ?_, fun s => (reads_resolveFloors _).bind fun _ => (ih _).bind fun _ => trivial⟩
    have hv : s.context.values = s'.context.values := congrArg Prod.snd h
    simp only [hv]

theorem reads_shape (target : CrossingWriteTarget) (built : CrossingWriteStatement) :
    (shape target values built).Reads Store.policy := by
  have same : ∀ {s s' : Store}, s.policy = s'.policy → ∀ l, s.book.lookup l = s'.book.lookup l :=
    fun h l => lookup_congr (congrArg Prod.fst h) l
  refine ⟨fun s s' h => by simp only [same h], fun s => ⟨fun s₁ s₂ h => by simp only [same h],
    fun s₁ => ?_⟩⟩
  dsimp only
  split_ifs
  · exact ⟨fun s s' h => by simp only [same h], fun s => reads_ofExcept _⟩
  · exact reads_ofExcept _

theorem reads_policyShaper (target : CrossingWriteTarget) (again : Bool) :
    (policyShaper target again).Reads Store.policy := by
  refine ⟨fun s s' h => ?_, fun s => ?_⟩
  · have hv : s.context.values = s'.context.values := congrArg Prod.snd h
    simp only [hv]
  · dsimp only
    cases target.readsItsRows with
    | false => trivial
    | true =>
      refine ⟨fun s s' h => ?_, fun s => ?_⟩
      · dsimp only
        rw [grants_congr (congrArg Prod.fst h)]
      · dsimp only
        split_ifs <;> trivial

theorem reads_write (target : CrossingWriteTarget) (plan : Option (List CrossingFloor))
    (built : CrossingWriteStatement) : (write target plan built).Reads Store.policy := by
  refine (reads_policyShaper target _).bind fun values => ?_
  cases plan with
  | none => exact (reads_shape target built).bind fun _ => trivial
  | some floors =>
    refine ⟨fun s s' h => ?_, fun s => (reads_resolveFloors _).bind fun _ =>
      (reads_shape target built).bind fun _ => trivial⟩
    have hv : s.context.values = s'.context.values := congrArg Prod.snd h
    simp only [hv]

theorem run_resolveFloor (floor : CrossingFloor) :
    (resolveFloor earlier after s.context.values floor).run s = s.bindFloor floor := by
  rw [resolveFloor, run, Store.bindFloor]
  split_ifs
  · rw [run, run_bind, run_ofExcept]
    rfl
  · rfl

theorem run_resolveFloors (floors : List CrossingFloor) :
    (resolveFloors earlier after s.context.values floors).run s = floors.mapM s.bindFloor := by
  induction floors with
  | nil => rfl
  | cons floor floors ih =>
    rw [resolveFloors, run_bind, run_resolveFloor, List.mapM_cons]
    refine congrArg _ (funext fun plan => ?_)
    rw [run_bind, ih]
    rfl

theorem run_readFragments (taken : List Lookup) (fragments : List (List CrossingFloor)) :
    (readFragments taken fragments).run s = fragments.mapM fun f => f.mapM s.bindFloor := by
  induction fragments generalizing taken with
  | nil => rfl
  | cons fragment fragments ih =>
    rw [readFragments, run, run_bind, run_resolveFloors, List.mapM_cons]
    refine congrArg _ (funext fun plans => ?_)
    rw [run_bind, ih]
    rfl

theorem run_shape (target : CrossingWriteTarget) (built : CrossingWriteStatement) :
    (shape target values built).run s = finishShape target values built
      (s.book.lookup target.usingLookup) (s.book.lookup target.checkLookup)
      (if target.readsItsRows then s.book.lookup target.visibleLookup else none) := by
  rw [shape, run, run]
  split_ifs <;> simp [run]

theorem run_policyShaper (target : CrossingWriteTarget) (again : Bool) :
    (policyShaper target again).run s =
      if target.readsItsRows = true ∧ s.book.grants target.schema target.table .select = false then
        .error (noPermission (quoted target.schema target.table) .select)
      else .ok s.context.values := by
  rw [policyShaper, run]
  cases hr : target.readsItsRows with
  | false => simp [run]
  | true =>
    rw [if_pos rfl, run]
    cases hg : s.book.grants target.schema target.table .select <;> simp [run]

/-- A write is refused without the select grant it needs, then for a floor it may not read; else it
is shaped. -/
theorem run_write (target : CrossingWriteTarget) (plan : Option (List CrossingFloor))
    (built : CrossingWriteStatement) :
    (write target plan built).run s = ((policyShaper target plan.isSome).run s).bind fun values =>
      ((plan.getD []).mapM s.bindFloor).bind fun plans =>
        ((shape target values built).run s).map fun shaped => (plans, shaped) := by
  rw [write, run_bind]
  refine congrArg _ (funext fun values => ?_)
  have tail : ∀ plans : List FloorPlan, ((shape target values built).bind fun shaped =>
      (.ret (plans, shaped) : Stmt (List FloorPlan × ShapedWrite))).run s =
        ((shape target values built).run s).map fun shaped => (plans, shaped) := by
    intro plans
    rw [run_bind]
    rfl
  cases plan with
  | none => exact tail []
  | some floors =>
    dsimp only
    rw [run, run_bind, run_resolveFloors]
    exact congrArg _ (funext tail)

end

end Prog


/-! ### Reach -/

section

variable {sem : Semantics} {s : Store}

/-- With its predicates filled, a floor that may be read binds. -/
theorem Closed.bindFloor (h : Closed s) {floor : CrossingFloor} :
    (∃ plan, s.bindFloor floor = .ok plan) ↔
      s.book.grants floor.schema floor.table .select = true := by
  rw [Store.bindFloor]
  split_ifs with hg
  · obtain ⟨f, hf⟩ := exists_fillOption fun p hp => h.lookup (l := floor.lookup) hp
    simp [hf, hg, Except.map]
  · simpa using hg

theorem bindFloor_eq_ok {floor : CrossingFloor} {plan : FloorPlan}
    (h : s.bindFloor floor = .ok plan) : plan.floor = floor ∧
      fillOption s.context.values (s.book.usingFor floor.schema floor.table .select) =
        .ok plan.restriction := by
  rw [Store.bindFloor] at h
  split_ifs at h
  cases hf : fillOption s.context.values (s.book.lookup floor.lookup) with
  | error e => rw [hf] at h; cases h
  | ok f =>
    rw [hf] at h
    cases h
    exact ⟨rfl, hf⟩

/-- **A bound floor yields exactly the rows that the select predicate admits.** -/
theorem rows_bindFloor (t : SourceTable) (sem : Semantics) {floor : CrossingFloor}
    {plan : FloorPlan} (h : s.bindFloor floor = .ok plan) :
    Picks (plan.rows sem)
      (fun r : t.Row => admits sem s.context.values
        (s.book.usingFor floor.schema floor.table .select) r)
      (fun r => ∃ b, verdict sem s.context.values
        (s.book.usingFor floor.schema floor.table .select) r = .ok b) := by
  obtain ⟨-, hf⟩ := bindFloor_eq_ok h
  cases hr : plan.restriction with
  | none =>
    rw [hr] at hf
    constructor
    · intro rows kept hk
      rw [FloorPlan.rows, hr] at hk
      cases hk
      rw [List.filter_eq_self.2]
      intro r _
      rw [admits, verdict_ok hf]
      rfl
    · exact fun rows _ => ⟨rows, by rw [FloorPlan.rows, hr]⟩
  | some f =>
    rw [hr] at hf
    have hrows : plan.rows sem = keep fun r : t.Row => selects sem [r.scope] (some f.filled) := by
      funext rows
      rw [FloorPlan.rows, hr]
    simp only [admits, verdict_ok hf, hrows]
    exact ⟨fun rows kept hk => (keep_eq_ok_iff.1 hk).2,
      fun rows hall => ⟨_, keep_eq_ok_iff.2 ⟨hall, rfl⟩⟩⟩

/-- The USING predicate of the verb shows the row: it is `TRUE`, or the verb has none. -/
def Store.shows (s : Store) (sem : Semantics) (verb : CrossingVerb) (r : t.Row) : Bool :=
  admits sem s.context.values (s.book.usingFor t.schema t.name verb) r

/-- The USING predicate of the verb has a value on the row. -/
def Store.Evaluates (s : Store) (sem : Semantics) (verb : CrossingVerb) (r : t.Row) : Prop :=
  ∃ b, verdict sem s.context.values (s.book.usingFor t.schema t.name verb) r = .ok b

/-- The predicates a write looks up: its verb's, and select's if it reads rows. -/
def Store.Consults (s : Store) (target : CrossingWriteTarget) (p : Expr) : Prop :=
  s.book.usingFor target.schema target.table target.verb = some p ∨
    target.readsRows = true ∧ s.book.usingFor target.schema target.table .select = some p

/-- The rows an `UPDATE` or `DELETE` is to change: those of its own condition that the predicates
it looks up show. -/
def Store.writeLaw (s : Store) (sem : Semantics) (target : CrossingWriteTarget)
    (built : CrossingWriteStatement) (seam : Option (List (List Value))) (r : t.Row) : Bool :=
  (built.joins seam r).any (holds sem · built.condition) &&
    (s.shows sem target.verb r && (!target.readsRows || s.shows sem .select r))

/-- On the row, the statement's own condition and the predicates have values. -/
def Store.WriteEvaluates (s : Store) (sem : Semantics) (target : CrossingWriteTarget)
    (built : CrossingWriteStatement) (seam : Option (List (List Value))) (r : t.Row) : Prop :=
  (∀ scope ∈ built.joins seam r, ∃ b, selects sem scope built.condition = .ok b) ∧
    s.Evaluates sem target.verb r ∧ (target.readsRows = true → s.Evaluates sem .select r)

/-- The floors of a plan bind exactly if each may be read. -/
theorem Closed.mapM_bindFloor (h : Closed s) {floors : List CrossingFloor} :
    (∃ plans, floors.mapM s.bindFloor = .ok plans) ↔
      ∀ floor ∈ floors, s.book.grants floor.schema floor.table .select = true := by
  rw [exists_mapM]
  simp only [h.bindFloor]

/-- A read is refused without the select grants, and else yields what select shows. -/
theorem run_read_reach (hc : Closed s) (fragments : List (List CrossingFloor)) :
    ((∃ plans, (read fragments).run s = .ok plans) ↔ ∀ floor ∈ fragments.flatten,
        s.book.grants floor.schema floor.table .select = true) ∧
      ∀ plans, (read fragments).run s = .ok plans → ∀ plan ∈ plans.flatten,
        plan.floor.schema = t.schema → plan.floor.table = t.name →
          Picks (plan.rows sem) (s.shows sem .select) (fun r : t.Row => s.Evaluates sem .select r) := by
  rw [read, Prog.run_readFragments, exists_mapM]
  constructor
  · simp only [hc.mapM_bindFloor, List.mem_flatten]
    exact ⟨fun h floor ⟨fragment, hf, hm⟩ => h fragment hf floor hm,
      fun h fragment hf floor hm => h floor ⟨fragment, hf, hm⟩⟩
  · intro plans hplans plan hplan hschema htable
    obtain ⟨bound, hbound, hplan⟩ := List.mem_flatten.1 hplan
    obtain ⟨fragment, -, hfragment⟩ := exists_of_mapM hplans hbound
    obtain ⟨floor, -, hfloor⟩ := exists_of_mapM hfragment hplan
    obtain ⟨rfl, -⟩ := bindFloor_eq_ok hfloor
    have := rows_bindFloor t sem hfloor
    rwa [hschema, htable] at this

section

variable {target : CrossingWriteTarget} {plan : Option (List CrossingFloor)}
  {built : CrossingWriteStatement}

/-- A write is refused without the select grants of what it reads. -/
theorem run_write_ok_iff (hc : Closed s) (hverb : target.verb ≠ .insert) :
    (∃ out, (write target plan built).run s = .ok out) ↔
      (target.readsRows = true → s.book.grants target.schema target.table .select = true) ∧
        ∀ floor ∈ plan.getD [], s.book.grants floor.schema floor.table .select = true := by
  have hreads : target.readsItsRows = target.readsRows := by
    simp [CrossingWriteTarget.readsItsRows, hverb]
  obtain ⟨shaped, hshaped⟩ : ∃ shaped, (shape target s.context.values built).run s = .ok shaped := by
    rw [Prog.run_shape]
    refine finishShape_succeeds target built (fun e he => hc.lookup he) (fun e he => hc.lookup he)
      fun e he => ?_
    split_ifs at he
    exact hc.lookup he
  rw [Prog.run_write, Prog.run_policyShaper, hreads, ← hc.mapM_bindFloor]
  cases hr : target.readsRows with
  | false =>
    cases hm : (plan.getD []).mapM s.bindFloor <;>
      simp [Except.bind, Except.map, hshaped]
  | true =>
    cases hg : s.book.grants target.schema target.table .select with
    | false => simp [Except.bind]
    | true =>
      cases hm : (plan.getD []).mapM s.bindFloor <;>
        simp [Except.bind, Except.map, hshaped]

/-- What a write that is not refused was shaped to. -/
theorem finishShape_of_write {plans : List FloorPlan} {shaped : ShapedWrite}
    (hverb : target.verb = .update ∨ target.verb = .delete)
    (hschema : target.schema = t.schema) (htable : target.table = t.name)
    (h : (write target plan built).run s = .ok (plans, shaped)) :
    finishShape target s.context.values built (s.book.usingFor t.schema t.name target.verb)
      (s.book.lookup target.checkLookup)
      (if target.readsRows then s.book.usingFor t.schema t.name .select else none) = .ok shaped := by
  have hreads : target.readsItsRows = target.readsRows := by
    rcases hverb with hv | hv <;> simp [CrossingWriteTarget.readsItsRows, hv]
  rw [Prog.run_write] at h
  obtain ⟨values, hvalues, h⟩ := bind_eq_ok h
  have hv : values = s.context.values := by
    rw [Prog.run_policyShaper] at hvalues
    split_ifs at hvalues
    exact (Except.ok.inj hvalues).symm
  subst hv
  obtain ⟨plans', -, h⟩ := bind_eq_ok h
  cases hs : (shape target s.context.values built).run s with
  | error e => rw [hs] at h; cases h
  | ok shaped' =>
    rw [hs] at h
    cases h
    rw [Prog.run_shape, hreads] at hs
    have hlookup : ∀ v, s.book.lookup ⟨target.schema, target.table, v, false⟩ =
        s.book.usingFor t.schema t.name v := fun v => by rw [hschema, htable]; rfl
    rwa [CrossingWriteTarget.usingLookup, CrossingWriteTarget.visibleLookup, hlookup,
      hlookup] at hs

/-- And else changes what its own condition, the verb's predicate and select admit. -/
theorem run_write_reach (hverb : target.verb = .update ∨ target.verb = .delete)
    (hschema : target.schema = t.schema) (htable : target.table = t.name)
    (hplain : ∀ p, s.Consults target p → PlainPredicate t p ∧ SeamFree built p)
    {plans : List FloorPlan} {shaped : ShapedWrite}
    (h : (write target plan built).run s = .ok (plans, shaped)) (seam : Option (List (List Value))) :
    Picks (shaped.statement.changed sem seam) (s.writeLaw (t := t) sem target built seam)
      (s.WriteEvaluates sem target built seam) := by
  simp only [Store.Consults, hschema, htable] at hplain
  have hvisible : ∀ p, (if target.readsRows = true then s.book.usingFor t.schema t.name .select
      else none) = some p → PlainPredicate t p ∧ SeamFree built p := by
    intro p hp
    split_ifs at hp with hr
    exact hplain p (.inr ⟨hr, hp⟩)
  have hpicks := changed_shaped sem hverb htable (fun p hp => hplain p (.inl hp)) hvisible
    (finishShape_of_write hverb hschema htable h) seam
  unfold Store.writeLaw Store.WriteEvaluates
  cases hr : target.readsRows with
  | false => simpa [hr, Store.shows, Store.Evaluates] using hpicks
  | true => simpa [hr, Store.shows, Store.Evaluates] using hpicks

/-- **It does so exactly if no predicate it looks up has a lambda**, unless there is no row at all
on which they have a value. -/
theorem run_write_reach_iff (hverb : target.verb = .update ∨ target.verb = .delete)
    (hschema : target.schema = t.schema) (htable : target.table = t.name)
    (hbare : ∀ p, s.Consults target p → p.bareOver t.hasColumn [] = true ∧ SeamFree built p)
    {plans : List FloorPlan} {shaped : ShapedWrite}
    (h : (write target plan built).run s = .ok (plans, shaped)) (seam : Option (List (List Value))) :
    Picks (shaped.statement.changed sem seam) (s.writeLaw (t := t) sem target built seam)
        (s.WriteEvaluates sem target built seam) ↔
      (∀ p, s.Consults target p → p.lambdaFree = true) ∨
        ¬ ∃ r : t.Row, built.joins seam r ≠ [] ∧ s.WriteEvaluates sem target built seam r := by
  obtain ⟨-, halias, hcolumns⟩ := graft_narrow none none built hverb
  have hshape := finishShape_of_write hverb hschema htable h
  have hjoins (r : t.Row) : shaped.statement.joins seam r = built.joins seam r := by
    obtain ⟨restriction, -, hs⟩ := bind_eq_ok hshape
    obtain ⟨check, -, hs⟩ := bind_eq_ok hs
    cases hs
    obtain ⟨-, halias, hcolumns⟩ := graft_narrow _ _ built hverb
    exact joins_congr halias hcolumns seam r
  -- where the shaped condition has a value, there was no lambda
  have hfree {scope : Scope} (hs : ∃ b, selects sem scope shaped.statement.condition = .ok b) :
      ∀ p, s.Consults target p → p.lambdaFree = true := by
    obtain ⟨hu, hv⟩ := lambdaFree_of_selects_shaped hverb hshape hs
    rintro p (hp | ⟨hr, hp⟩)
    · exact hu p (by rwa [← hschema, ← htable])
    · exact hv p (by rwa [if_pos hr, ← hschema, ← htable])
  constructor
  · intro hpicks
    rw [or_iff_not_imp_right, not_not]
    rintro ⟨r, hne, hr⟩
    obtain ⟨kept, hk⟩ := hpicks.always [r] fun r' hr' => by rwa [List.mem_singleton.1 hr']
    obtain ⟨scope, hscope⟩ := List.exists_mem_of_ne_nil _ hne
    rw [← hjoins r] at hscope
    exact hfree ((CrossingWriteStatement.changed_eq_ok_iff.1 hk).1 r List.mem_cons_self scope hscope)
  · intro hor
    by_cases hl : ∀ p, s.Consults target p → p.lambdaFree = true
    · exact run_write_reach hverb hschema htable
        (fun p hp => ⟨.of_bareOver (hl p hp) (hbare p hp).1, (hbare p hp).2⟩) h seam
    -- with a lambda, the statement has a value only where it joins with nothing
    have hnone := hor.resolve_left hl
    constructor
    · intro rows kept hk
      obtain ⟨hall, rfl⟩ := CrossingWriteStatement.changed_eq_ok_iff.1 hk
      refine List.filter_congr fun r hr => ?_
      have hempty : built.joins seam r = [] := by
        rw [List.eq_nil_iff_forall_not_mem]
        intro scope hscope
        rw [← hjoins r] at hscope
        exact hl (hfree (hall r hr scope hscope))
      rw [hjoins r, Store.writeLaw, hempty]
      rfl
    · intro rows hrows
      refine ⟨_, CrossingWriteStatement.changed_eq_ok_iff.2 ⟨fun r hr scope hscope => ?_, rfl⟩⟩
      rw [hjoins r] at hscope
      exact absurd ⟨r, List.ne_nil_of_mem hscope, hrows r hr⟩ hnone

end

end

/-- **Reach.** While the grants and the context stay as they are, a read is refused without the
select grant and else yields exactly the rows that select shows.  An `UPDATE` or `DELETE` changes
exactly the rows of its own condition that the verb's predicate shows and, if the statement reads
rows, select shows, too, exactly if none of these predicates has a lambda. -/
theorem policy_reach_iff {sem : Semantics} {R : Rely Moment Store} {s s' : Store} (hc : Closed s)
    (hkeep : ∀ m x y, R.env m x y → y.policy = x.policy) :
    (∀ fragments r, Prog.Exec R s (read fragments) s' r →
      ((∃ plans, r = .ok plans) ↔ ∀ floor ∈ fragments.flatten,
        s.book.grants floor.schema floor.table .select = true) ∧
      ∀ plans, r = .ok plans → ∀ plan ∈ plans.flatten,
        plan.floor.schema = t.schema → plan.floor.table = t.name →
          Picks (plan.rows sem) (s.shows sem .select) (fun r : t.Row => s.Evaluates sem .select r)) ∧
    (∀ target plan built r, target.verb = .update ∨ target.verb = .delete →
      target.schema = t.schema → target.table = t.name →
      (∀ p, s.Consults target p → p.bareOver t.hasColumn [] = true ∧ SeamFree built p) →
      Prog.Exec R s (write target plan built) s' r →
      ((∃ out, r = .ok out) ↔
        (target.readsRows = true → s.book.grants t.schema t.name .select = true) ∧
          ∀ floor ∈ plan.getD [], s.book.grants floor.schema floor.table .select = true) ∧
      ∀ plans shaped, r = .ok (plans, shaped) → ∀ seam,
        (Picks (shaped.statement.changed sem seam) (s.writeLaw (t := t) sem target built seam)
            (s.WriteEvaluates sem target built seam) ↔
          (∀ p, s.Consults target p → p.lambdaFree = true) ∨
            ¬ ∃ r : t.Row, built.joins seam r ≠ [] ∧
              s.WriteEvaluates sem target built seam r)) := by
  constructor
  · intro fragments r h
    rw [h.eq_run_of_reads (Prog.reads_readFragments _ _) hkeep]
    exact run_read_reach hc fragments
  · intro target plan built r hverb hschema htable hbare h
    rw [h.eq_run_of_reads (Prog.reads_write target plan built) hkeep]
    refine ⟨?_, fun plans shaped hs seam =>
      run_write_reach_iff hverb hschema htable hbare hs seam⟩
    rw [← hschema, ← htable]
    exact run_write_ok_iff hc (by rcases hverb with hv | hv <;> simp [hv])

namespace Sample

/-- A row of the given tenant. -/
def row (tenant : Int) : ordersTable.Row := ⟨[.integer tenant, .integer 5], rfl⟩

/-- The bridge whose grants select and update the rows of tenant 1. -/
def ownStore : Store := store (grantOver ownRows) ∅ []

theorem columnRef_ownRows {path : ColumnPath} (h : .columnRef path ∈ ownRows.leaves) :
    path = .plain "tenant" := by
  simpa [ownRows, tenantIs, Expr.leaves] using h

theorem bareOver_ownRows : ownRows.bareOver ordersTable.hasColumn [] = true ∧ SeamFree built ownRows := by
  refine ⟨by decide, fun path hp n hn => ?_⟩
  rw [columnRef_ownRows hp, ColumnPath.names_plain, List.mem_singleton] at hn
  subst hn
  exact ⟨by decide, by decide⟩

/-- The functions of a source that has lists. -/
def listSemantics : Semantics where
  call f args :=
    match f, args with
    | ">", [.value (.integer a), .value (.integer b)] => .ok (.boolean (decide (b < a)))
    | "list_filter", [.value (.list vs), .closure g] =>
      (keep (fun v => (g [v]).map fun b => (Den.value b).isTrue) vs).map .list
    | "list_contains", [.value (.list vs), .value (.integer i)] =>
      .ok (.boolean (vs.any fun v => match v with | .integer j => decide (i = j) | _ => false))
    | "error", [.value (.varchar m)] => .error (.raised m)
    | _, _ => .ok .null
  subquery _ _ _ := .ok .null
  call_error _ := rfl

/-- `list_contains(list_filter(tags, x -> x > 1), 5)`. -/
def taggedFive : Expr :=
  .node (.call "list_contains")
    [.node (.call "list_filter")
      [.columnRef (.plain "tags"),
        .lambda (.columnRef (.plain "x"))
          (.node (.call ">") [.columnRef (.plain "x"), .constant (.integer 1)])],
      .constant (.integer 5)]

def taggedTable : SourceTable := ⟨"main", "orders", ["tags", "amount"], []⟩

/-- A row tagged 1 and 5. -/
def taggedRow : taggedTable.Row := ⟨[.list [.integer 1, .integer 5], .integer 3], rfl⟩

/-- The bridge whose grants select and update the rows tagged 5. -/
def taggedStore : Store :=
  store { verbs := {.select, .update}
          usingPredicates v := if v = .select ∨ v = .update then some taggedFive else none } ∅ []

/-- A read of that table. -/
def taggedFloor : CrossingFloor := ⟨"main", "orders", ["tags", "amount"]⟩

theorem seamFree_taggedFive : SeamFree built taggedFive := by
  intro path hp n hn
  simp only [taggedFive, Expr.leaves, Expr.leavesList, List.append_nil, List.cons_append,
    List.nil_append, List.mem_cons, List.not_mem_nil, reduceCtorEq, Expr.columnRef.injEq, or_false]
    at hp
  rcases hp with rfl | rfl | rfl <;> cases List.mem_singleton.1 hn <;>
    exact ⟨by decide, by decide⟩

end Sample

/-- A read yields, and an update changes, the rows of tenant 1. -/
theorem policy_reach_orders : ∃ plans shaped,
    (read [[Sample.floor]]).run Sample.ownStore = .ok plans ∧
      (∀ plan ∈ plans.flatten, plan.rows Sample.semantics [Sample.row 1, Sample.row 2] =
        .ok [Sample.row 1]) ∧
      (write Sample.target none Sample.built).run Sample.ownStore = .ok ([], shaped) ∧
      shaped.statement.changed Sample.semantics (some [[.integer 7]])
        [Sample.row 1, Sample.row 2] = .ok [Sample.row 1] := by
  have hc : Closed Sample.ownStore :=
    Sample.closed_store (filledBy_iff.2 fun n hn => by cases hn) fun c hc => by cases hc
  obtain ⟨hread, hwrite⟩ := @policy_reach_iff Sample.ordersTable Sample.semantics
    (.any fun x y => y.policy = x.policy) Sample.ownStore Sample.ownStore hc fun _ _ _ h => h
  have hown : ∀ p, Sample.ownStore.Consults Sample.target p → p = Sample.ownRows := by
    rintro p (hp | ⟨hr, -⟩)
    · exact (Option.some.inj hp).symm
    · cases hr
  have hbare : ∀ p, Sample.ownStore.Consults Sample.target p →
      p.bareOver Sample.ordersTable.hasColumn [] = true ∧ SeamFree Sample.built p :=
    fun p hp => hown p hp ▸ Sample.bareOver_ownRows
  refine ⟨_, _, rfl, fun plan hplan => ?_, rfl, ?_⟩
  · obtain ⟨-, hpicks⟩ := hread [[Sample.floor]] _ (Prog.exec_run _ (fun _ => trivial) _)
    have hplan' : plan.floor = Sample.floor := by
      rw [List.mem_singleton.1 hplan]
    have hpicks := hpicks _ rfl plan hplan (by rw [hplan']; rfl) (by rw [hplan']; rfl)
    obtain ⟨kept, hk⟩ := hpicks.always [Sample.row 1, Sample.row 2] fun r hr => by
      simp only [List.mem_cons, List.not_mem_nil, or_false] at hr
      rcases hr with rfl | rfl <;> exact ⟨_, rfl⟩
    rw [hk, hpicks.exactly _ _ hk]
    rfl
  · obtain ⟨-, hpicks⟩ := hwrite Sample.target none Sample.built _ (.inl rfl) rfl rfl hbare
      (Prog.exec_run _ (fun _ => trivial) _)
    have hpicks := (hpicks [] _ rfl (some [[.integer 7]])).2
      (.inl fun p hp => hown p hp ▸ rfl)
    obtain ⟨kept, hk⟩ := hpicks.always [Sample.row 1, Sample.row 2] fun r hr => by
      simp only [List.mem_cons, List.not_mem_nil, or_false] at hr
      rcases hr with rfl | rfl <;> exact ⟨fun _ _ => ⟨_, rfl⟩, ⟨_, rfl⟩, fun h => by cases h⟩
    rw [hk, hpicks.exactly _ _ hk]
    rfl

/-- A predicate whose only lambda names its own parameter: select shows the row, and the update it
is to narrow does not bind. -/
theorem not_policy_reach : ∃ plans shaped,
    Sample.taggedFive.bareOver Sample.taggedTable.hasColumn [] = true ∧
      SeamFree Sample.built Sample.taggedFive ∧
      Sample.taggedStore.book.usingFor "main" "orders" .select = some Sample.taggedFive ∧
      Sample.taggedStore.book.usingFor "main" "orders" .update = some Sample.taggedFive ∧
      (read [[Sample.taggedFloor]]).run Sample.taggedStore = .ok plans ∧
      (∀ plan ∈ plans.flatten, plan.rows Sample.listSemantics [Sample.taggedRow] =
        .ok [Sample.taggedRow]) ∧
      Sample.taggedStore.shows Sample.listSemantics .update Sample.taggedRow = true ∧
      (write Sample.target none Sample.built).run Sample.taggedStore = .ok ([], shaped) ∧
      shaped.statement.changed Sample.listSemantics (some [[.integer 7]]) [Sample.taggedRow] =
        .error .unbound := by
  refine ⟨_, _, by decide, Sample.seamFree_taggedFive, rfl, rfl, rfl, fun plan hplan => ?_, rfl, rfl,
    rfl⟩
  rw [List.mem_singleton.1 hplan]
  rfl

end VirtualCatalog
