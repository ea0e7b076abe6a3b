import VirtualCatalog.Bridge.SourceRows

/-!
# Statements without subqueries

A subquery sees the whole source, so what a predicate with one says of a row depends on other rows.
Predicates and statements without subqueries mean the same over any two sources that have the same
functions.

* `SourceEngine.SameFunctions` : two engines differ in their subqueries only.
* `Store.SubqueryFree`, `GuestStatement.SubqueryFree` : no subquery is evaluated.
* `subqueryFree_of_write` : the policy grafts none onto a statement that has none.
* `perform_congr` : such a statement does the same on both engines.
-/

namespace VirtualCatalog

/-! ### Expressions -/

section

variable {sem sem' : Semantics}

/-- The value of an expression without subqueries depends on the functions only. -/
theorem Expr.eval_congr_call (hcall : sem.call = sem'.call) {e : Expr}
    (h : e.subqueryFree = true) (read : Reading) (env : List (String × Value)) :
    e.eval sem read env = e.eval sem' read env := by
  induction e using ind generalizing env with
  | constant v => rfl
  | parameter n => rfl
  | columnRef p => rfl
  | node op children ih =>
    rw [subqueryFree, subqueryFreeList_iff] at h
    have hchildren : children.map (eval sem read env) = children.map (eval sem' read env) :=
      List.map_congr_left fun e he => ih e he (h e he) env
    rw [eval, eval, evalList_eq, evalList_eq, hchildren]
    cases op with
    | call f => rw [Op.result, Op.result, hcall]
    | conjunctionAnd => rfl
    | caseWhen => rfl
  | lambda lhs body _ ihb =>
    rw [subqueryFree, Bool.and_eq_true] at h
    simp only [eval]
    cases lhs.lambdaParams with
    | none => rfl
    | some xs =>
      refine congrArg (fun f => Except.ok (Den.closure f)) (funext fun args => ?_)
      rw [ihb h.2]
  | subquery child body => cases h

theorem selects_congr_call (hcall : sem.call = sem'.call) {condition : Option Expr}
    (h : ∀ e, condition = some e → e.subqueryFree = true) (scope : Scope) :
    selects sem scope condition = selects sem' scope condition := by
  cases condition with
  | none => rfl
  | some e =>
    rw [selects, selects]
    split_ifs
    · rw [Expr.eval_congr_call hcall (h e rfl)]
    · rfl

theorem valueOf_congr_call (hcall : sem.call = sem'.call) {e : Expr}
    (h : e.subqueryFree = true) (scope : Scope) : valueOf sem scope e = valueOf sem' scope e := by
  rw [valueOf, valueOf, Expr.eval_congr_call hcall h]

end

/-! ### Policies and statements -/

/-- The engines have the same functions, and choose the same join of a row; their subqueries see
different data. -/
structure SourceEngine.SameFunctions (engine engine' : SourceEngine) : Prop where
  call : engine.sem.call = engine'.sem.call
  choose : engine.choose = engine'.choose

/-- No predicate of the policy has a subquery. -/
def Store.SubqueryFree (s : Store) : Prop :=
  ∀ l p, s.book.lookup l = some p → p.subqueryFree = true

/-- Neither the expressions of a statement nor its condition have a subquery. -/
structure CrossingWriteStatement.SubqueryFree (statement : CrossingWriteStatement) : Prop where
  expressions : ∀ e ∈ statement.expressions, e.subqueryFree = true
  condition : ∀ e, statement.condition = some e → e.subqueryFree = true

/-- The statement has no subquery, nor has the policy. -/
def GuestStatement.SubqueryFree (s : Store) : GuestStatement → Prop
  | read _ => s.SubqueryFree
  | write _ _ built => s.SubqueryFree ∧ built.SubqueryFree

section

variable {s : Store} {target : CrossingWriteTarget} {built : CrossingWriteStatement}

theorem subqueryFree_fillOption {values : ContextValues} {p : Option Expr} {f : Option Filled}
    (h : ∀ e, p = some e → e.subqueryFree = true) (hf : fillOption values p = .ok f) :
    ∀ e, f.map (·.filled) = some e → e.subqueryFree = true := by
  cases p with
  | none =>
    cases hf
    exact nofun
  | some p =>
    cases hfill : fillContext values p with
    | error e =>
      rw [fillOption, hfill] at hf
      cases hf
    | ok filled =>
      rw [fillOption, hfill] at hf
      cases hf
      rintro e ⟨⟩
      exact (shape_of_fillContext hfill).2.1.trans (h p rfl)

theorem subqueryFree_restrict {visible usingPredicate : Option Expr}
    (hv : ∀ e, visible = some e → e.subqueryFree = true)
    (hu : ∀ e, usingPredicate = some e → e.subqueryFree = true) :
    ∀ e, restrict visible usingPredicate = some e → e.subqueryFree = true := by
  cases visible with
  | none => exact hu
  | some v =>
    cases usingPredicate with
    | none => exact hv
    | some u =>
      rintro e ⟨⟩
      simp [andWith, Expr.subqueryFree, hv v rfl, hu u rfl]

theorem subqueryFree_pointCheckAtUpdatedRow {e : Expr} (h : e.subqueryFree = true) (table : String)
    (setColumns : List String) (built : CrossingWriteStatement) (keyCount : Nat) :
    (pointCheckAtUpdatedRow e table setColumns built keyCount).subqueryFree = true :=
  (Expr.subqueryFree_mapLeaves fun _ hl =>
    subqueryFree_pointLeaf hl table setColumns built keyCount).trans h

theorem CrossingWriteStatement.SubqueryFree.narrow (h : built.SubqueryFree)
    {restriction : Option Expr} (hr : ∀ e, restriction = some e → e.subqueryFree = true) :
    (narrow target restriction built).SubqueryFree := by
  cases restriction with
  | none => exact h
  | some u =>
    refine ⟨h.expressions, ?_⟩
    rintro e ⟨⟩
    have hu : (qualifyColumns u target.table built).subqueryFree = true :=
      subqueryFree_pointCheckAtUpdatedRow (hr u rfl) _ _ _ _
    cases hc : built.condition with
    | none => exact hu
    | some c => simp [andWith, Expr.subqueryFree, h.condition c hc, hu]

theorem CrossingWriteStatement.SubqueryFree.guarded (h : built.SubqueryFree) {check : Option Expr}
    (hc : ∀ e, check = some e → e.subqueryFree = true) (keyCount : Nat) :
    (guardStatement target check keyCount built).SubqueryFree := by
  cases check with
  | none => exact h
  | some c =>
    refine ⟨fun e he => ?_, h.condition⟩
    have hpointed := subqueryFree_pointCheckAtUpdatedRow (hc c rfl) target.table target.setColumns
      built keyCount
    cases hexpressions : built.expressions with
    | nil =>
      rw [guardStatement, hexpressions] at he
      cases he
    | cons value values =>
      rw [guardStatement, hexpressions] at he
      have hall := h.expressions
      rw [hexpressions] at hall
      rcases List.mem_cons.1 he with rfl | he
      · simp [guardWithCheck, Expr.subqueryFree, hpointed, hall value List.mem_cons_self]
      · exact hall e (List.mem_cons_of_mem _ he)

/-- What the policy grafts onto a statement has no subquery either. -/
theorem subqueryFree_of_write (hs : s.SubqueryFree) (hbuilt : built.SubqueryFree)
    {plan : Option (List CrossingFloor)} {plans : List FloorPlan} {shaped : ShapedWrite}
    (h : (write target plan built).run s = .ok (plans, shaped)) :
    shaped.statement.SubqueryFree := by
  rw [Prog.run_write] at h
  obtain ⟨values, -, h₁⟩ := bind_eq_ok h
  obtain ⟨plans', -, h₂⟩ := bind_eq_ok h₁
  cases hshape : (shape target values built).run s with
  | error e =>
    rw [hshape] at h₂
    cases h₂
  | ok shaped' =>
    rw [hshape] at h₂
    cases h₂
    rw [Prog.run_shape] at hshape
    obtain ⟨restriction, hrestriction, h₃⟩ := bind_eq_ok hshape
    obtain ⟨check, hcheck, h₄⟩ := bind_eq_ok h₃
    cases h₄
    have hvisible : ∀ e, (if target.readsItsRows then s.book.lookup target.visibleLookup
        else none) = some e → e.subqueryFree = true := by
      intro e he
      split_ifs at he
      exact hs _ e he
    have hnarrow := subqueryFree_fillOption
      (subqueryFree_restrict hvisible (hs target.usingLookup)) hrestriction
    have hguard := subqueryFree_fillOption (hs target.checkLookup) hcheck
    dsimp only [graft]
    cases target.verb with
    | insert => exact hbuilt.guarded hguard 0
    | update => exact (hbuilt.narrow hnarrow).guarded hguard _
    | delete => exact hbuilt.narrow hnarrow
    | select | create | alter | drop => exact hbuilt

/-- A floor is restricted without a subquery. -/
theorem subqueryFree_of_bindFloor (hs : s.SubqueryFree) {floor : CrossingFloor} {plan : FloorPlan}
    (h : s.bindFloor floor = .ok plan) :
    ∀ e, plan.restriction.map (·.filled) = some e → e.subqueryFree = true :=
  subqueryFree_fillOption (hs ⟨floor.schema, floor.table, .select, false⟩) (bindFloor_eq_ok h).2

/-! ### Two engines -/

variable {engine engine' : SourceEngine} {data : SourceData}

theorem keep_congr {α : Type} {f g : α → Except EvalError Bool} {as : List α}
    (h : ∀ a ∈ as, f a = g a) : keep f as = keep g as := by
  induction as with
  | nil => rfl
  | cons a as ih =>
    rw [keep, keep, h a List.mem_cons_self, ih fun a ha => h a (List.mem_cons_of_mem _ ha)]

theorem yields_congr (hengine : engine.SameFunctions engine') {plan : FloorPlan}
    (h : ∀ e, plan.restriction.map (·.filled) = some e → e.subqueryFree = true) :
    plan.yields engine.sem data = plan.yields engine'.sem data := by
  have hrows (x : StoredTable) :
      plan.rows engine.sem x.rows = plan.rows engine'.sem x.rows := by
    unfold FloorPlan.rows
    cases hrestriction : plan.restriction with
    | none => rfl
    | some f =>
      refine keep_congr fun r _ => selects_congr_call hengine.call (fun e he => ?_) _
      exact h e (by rw [hrestriction]; exact he)
  unfold FloorPlan.yields
  cases data.find? fun x => decide (x.IsNamed plan.floor.schema plan.floor.table) with
  | none => rfl
  | some x =>
    dsimp only
    rw [hrows x]

theorem applied_congr (hengine : engine.SameFunctions engine') (target : CrossingWriteTarget)
    {statement : CrossingWriteStatement} (h : statement.SubqueryFree)
    (seam : Option (List (List Value))) (x : StoredTable) :
    statement.applied engine target seam x = statement.applied engine' target seam x := by
  have hvalues (scope : Scope) : statement.expressions.mapM (valueOf engine.sem scope) =
      statement.expressions.mapM (valueOf engine'.sem scope) :=
    mapM_congr_forall₂ (List.forall₂_same.2 fun e he =>
      valueOf_congr_call hengine.call (h.expressions e he) scope)
  have hedit : statement.edit engine target seam (t := x.table) =
      statement.edit engine' target seam := by
    funext r
    have hselected : statement.selected engine.sem seam r = statement.selected engine'.sem seam r :=
      keep_congr fun scope _ => selects_congr_call hengine.call h.condition scope
    unfold CrossingWriteStatement.edit
    rw [hselected]
    simp only [hvalues, hengine.choose]
  have hinserted : statement.inserted engine.sem target seam x.defaults =
      statement.inserted engine'.sem target seam x.defaults :=
    mapM_congr_forall₂ (List.forall₂_same.2 fun scope _ => by rw [hvalues])
  rw [CrossingWriteStatement.applied, CrossingWriteStatement.applied, hinserted, hedit]

theorem byBridge_bind_congr {α β : Type} {x : Except BridgeError α} {f g : α → Except Refusal β}
    (h : ∀ a, x = .ok a → f a = g a) : (byBridge x >>= f) = (byBridge x >>= g) := by
  cases x with
  | error e => rfl
  | ok a => exact h a rfl

/-- **A statement without subqueries does the same** on engines with the same functions. -/
theorem perform_congr (hengine : engine.SameFunctions engine') {st : GuestStatement}
    (h : st.SubqueryFree s) (data : SourceData) :
    st.perform engine s data = st.perform engine' s data := by
  have hyields (hs : s.SubqueryFree) {floors : List CrossingFloor} {plans : List FloorPlan}
      (hplans : floors.mapM s.bindFloor = .ok plans) :
      plans.mapM (·.yields engine.sem data) = plans.mapM (·.yields engine'.sem data) := by
    refine mapM_congr_forall₂ (List.forall₂_same.2 fun plan hplan => ?_)
    obtain ⟨floor, -, hfloor⟩ := exists_of_mapM hplans hplan
    exact yields_congr hengine (subqueryFree_of_bindFloor hs hfloor)
  cases st with
  | read fragments =>
    refine byBridge_bind_congr fun plans hplans => ?_
    rw [read, Prog.run_readFragments] at hplans
    have hall : plans.mapM (·.mapM (·.yields engine.sem data)) =
        plans.mapM (·.mapM (·.yields engine'.sem data)) := by
      refine mapM_congr_forall₂ (List.forall₂_same.2 fun bound hbound => ?_)
      obtain ⟨fragment, -, hfragment⟩ := exists_of_mapM hplans hbound
      exact hyields h hfragment
    rw [hall]
  | write target seam built =>
    refine byBridge_bind_congr fun _ _ => byBridge_bind_congr fun out hwrite => ?_
    obtain ⟨plans, shaped⟩ := out
    have happlied := applied_congr hengine target (subqueryFree_of_write h.1 h.2 hwrite)
    dsimp only
    rw [hyields h.1 (plans_of_run_write hwrite)]
    refine bind_congr fun yielded => bind_congr fun rows => ?_
    rw [show shaped.statement.applied engine target rows =
      shaped.statement.applied engine' target rows from funext (happlied rows)]

end

end VirtualCatalog
