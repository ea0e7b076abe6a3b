import VirtualCatalog.Bridge.Grant
import VirtualCatalog.Sql.Eval

/-!
# What the bridge does to a predicate

* `contextNames`, `fillContext` : the `$name`s of a predicate and their replacement by values.
* `pointCheckAtUpdatedRow`, `qualifyColumns` : the rewriting that makes a predicate over a table
  one over the join of the table with the seam of written values.
* `guardWithCheck`, `andWith` : how the results are grafted onto a statement.

All but the last two are one recursion over `EnumerateChildren`, so they are stated through the
leaves of the tree.
-/

namespace VirtualCatalog

/-- The context of a bridge: the values of the `$name`s. -/
abbrev ContextValues := CIMap Value

/-- `MentionsColumn`. -/
def mentionsColumn (e : Expr) : Bool :=
  e.leaves.any fun
    | .columnRef _ => true
    | _ => false

/-- The name of a parameter. -/
def parameterName : Expr → Option String
  | .parameter n => some n
  | _ => none

/-- The names `ContextNames` inserts, in order. -/
def parameterNames (e : Expr) : List String := e.leaves.filterMap parameterName

/-- `ContextNames`. -/
def contextNames (e : Expr) : CISet := .ofList (parameterNames e)

/-- A parameter becomes its value. -/
def fillLeaf (values : ContextValues) : Expr → Except BridgeError Expr
  | .parameter n =>
    match values.find? n with
    | none => .error ⟨.internal, "vcatbridge: context '$" ++ n ++ "' is not set"⟩
    | some v => .ok (.constant v)
  | e => .ok e

/-- `FillContext`. -/
def fillContext (values : ContextValues) (e : Expr) : Except BridgeError Expr :=
  e.traverseLeaves (fillLeaf values)

/-- The names of the predicate are all set. -/
def FilledBy (values : ContextValues) (e : Expr) : Prop :=
  ∀ n, (contextNames e).contains n = true → values.contains n = true

theorem contains_contextNames {e : Expr} {n : String} :
    (contextNames e).contains n = true ↔ ∃ n' ∈ parameterNames e, fold n = fold n' := by
  simp [contextNames, CISet.contains_ofList, ciEq_iff]

theorem mem_parameterNames {e : Expr} {n : String} :
    n ∈ parameterNames e ↔ Expr.parameter n ∈ e.leaves := by
  rw [parameterNames, List.mem_filterMap]
  constructor
  · rintro ⟨l, hl, h⟩
    cases l <;> simp only [parameterName, reduceCtorEq, Option.some.injEq] at h
    exact h ▸ hl
  · exact fun h => ⟨_, h, rfl⟩

theorem filledBy_iff {values : ContextValues} {e : Expr} :
    FilledBy values e ↔ ∀ n ∈ parameterNames e, values.contains n = true := by
  constructor
  · exact fun h n hn => h n (contains_contextNames.2 ⟨n, hn, rfl⟩)
  · intro h n hn
    obtain ⟨n', hn', hf⟩ := contains_contextNames.1 hn
    exact (values.contains_congr hf).trans (h n' hn')

theorem fillLeaf_eq_error {values : ContextValues} {l : Expr} {x : BridgeError}
    (h : fillLeaf values l = .error x) :
    x.kind = .internal ∧ ∃ n, l = .parameter n ∧ values.contains n = false := by
  cases l with
  | parameter n =>
    rw [fillLeaf] at h
    split at h
    next hn => cases h; exact ⟨rfl, n, rfl, by simp [CIMap.contains, hn]⟩
    next => cases h
  | _ => cases h

/-- **Filling fails exactly on a predicate with an unset name.** -/
theorem fillContext_ok_iff {values : ContextValues} {e : Expr} :
    (∃ e', fillContext values e = .ok e') ↔ FilledBy values e := by
  rw [fillContext, Expr.traverseLeaves_eq, filledBy_iff]
  constructor
  · rintro ⟨e', h⟩ n hn
    have hnone : e.leaves.findSome? (Expr.leafError (fillLeaf values)) = none := by
      cases hs : e.leaves.findSome? (Expr.leafError (fillLeaf values)) with
      | none => rfl
      | some x => rw [hs] at h; cases h
    have := List.findSome?_eq_none_iff.1 hnone _ (mem_parameterNames.1 hn)
    simp only [Expr.leafError, fillLeaf] at this
    cases hv : values.find? n with
    | none => simp [hv] at this
    | some v => simp [CIMap.contains, hv]
  · intro h
    have : e.leaves.findSome? (Expr.leafError (fillLeaf values)) = none := by
      rw [List.findSome?_eq_none_iff]
      intro l hl
      cases hf : fillLeaf values l with
      | ok l' => simp [Expr.leafError, hf]
      | error x =>
        obtain ⟨-, n, rfl, hn⟩ := fillLeaf_eq_error hf
        rw [h n (mem_parameterNames.2 hl)] at hn
        cases hn
    exact ⟨_, by rw [this]; rfl⟩

/-- Only names that are not set make filling fail, and it is an internal error. -/
theorem fillContext_error {values : ContextValues} {e : Expr} {x : BridgeError}
    (h : fillContext values e = .error x) : x.kind = .internal ∧ ¬ FilledBy values e := by
  refine ⟨?_, fun hf => ?_⟩
  · rw [fillContext, Expr.traverseLeaves_eq] at h
    cases hs : e.leaves.findSome? (Expr.leafError (fillLeaf values)) with
    | none => rw [hs] at h; cases h
    | some y =>
      rw [hs] at h
      cases h
      obtain ⟨l, -, hl⟩ := List.exists_of_findSome?_eq_some hs
      rw [Expr.leafError] at hl
      split at hl
      · cases hl
      next hx => cases hl; exact (fillLeaf_eq_error hx).1
  · obtain ⟨e', he⟩ := fillContext_ok_iff.2 hf
    rw [he] at h
    cases h

/-- Two contexts that agree on the names of a predicate fill it alike. -/
theorem fillContext_congr {values values' : ContextValues} {e : Expr}
    (h : ∀ n ∈ parameterNames e, values.find? n = values'.find? n) :
    fillContext values e = fillContext values' e := by
  refine Expr.traverseLeaves_congr fun l hl => ?_
  cases l with
  | parameter n => rw [fillLeaf, fillLeaf, h n (mem_parameterNames.2 hl)]
  | _ => rfl

/-- Filling replaces the parameters and leaves everything else. -/
theorem eq_of_fillContext {values : ContextValues} {e e' : Expr}
    (h : fillContext values e = .ok e') : e' = e.mapLeaves (Expr.leafValue (fillLeaf values)) := by
  rw [fillContext, Expr.traverseLeaves_eq] at h
  cases hs : e.leaves.findSome? (Expr.leafError (fillLeaf values)) with
  | none => rw [hs] at h; exact (Except.ok.inj h).symm
  | some x => rw [hs] at h; cases h

theorem leafValue_fillLeaf (values : ContextValues) {e l : Expr} (h : l ∈ e.leaves) :
    Expr.leafValue (fillLeaf values) l = l ∨
      ∃ v, Expr.leafValue (fillLeaf values) l = .constant v := by
  rcases Expr.leaf_cases h with ⟨v, rfl⟩ | ⟨n, rfl⟩ | ⟨p, rfl⟩
  · exact .inl rfl
  · rw [Expr.leafValue, fillLeaf]
    cases values.find? n with
    | none => exact .inl rfl
    | some v => exact .inr ⟨v, rfl⟩
  · exact .inl rfl

/-- A filled predicate has the references of the predicate. -/
theorem columnRef_of_fillContext {values : ContextValues} {e e' : Expr} {p : ColumnPath}
    (h : fillContext values e = .ok e') (hp : .columnRef p ∈ e'.leaves) : .columnRef p ∈ e.leaves := by
  rw [eq_of_fillContext h, Expr.leaves_mapLeaves, List.mem_flatMap] at hp
  obtain ⟨l, hl, hp⟩ := hp
  rcases leafValue_fillLeaf values hl with h | ⟨v, h⟩
  · rw [h] at hp
    rcases Expr.leaf_cases hl with ⟨v, rfl⟩ | ⟨n, rfl⟩ | ⟨q, rfl⟩
    · cases List.mem_singleton.1 hp
    · cases List.mem_singleton.1 hp
    · cases List.mem_singleton.1 hp; exact hl
  · rw [h] at hp
    cases List.mem_singleton.1 hp

theorem shape_of_fillContext {values : ContextValues} {e e' : Expr}
    (h : fillContext values e = .ok e') :
    e'.lambdaFree = e.lambdaFree ∧ e'.subqueryFree = e.subqueryFree ∧
      e'.outerRefs = e.outerRefs := by
  have leaf : ∀ l ∈ e.leaves, (Expr.leafValue (fillLeaf values) l).lambdaFree = true ∧
      (Expr.leafValue (fillLeaf values) l).subqueryFree = true ∧
        (Expr.leafValue (fillLeaf values) l).outerRefs = [] := by
    intro l hl
    rcases leafValue_fillLeaf values hl with h | ⟨v, h⟩
    · rw [h]
      rcases Expr.leaf_cases hl with ⟨v, rfl⟩ | ⟨n, rfl⟩ | ⟨q, rfl⟩ <;> exact ⟨rfl, rfl, rfl⟩
    · rw [h]
      exact ⟨rfl, rfl, rfl⟩
  rw [eq_of_fillContext h]
  exact ⟨Expr.lambdaFree_mapLeaves fun l hl => (leaf l hl).1,
    Expr.subqueryFree_mapLeaves fun l hl => (leaf l hl).2.1,
    Expr.outerRefs_mapLeaves fun l hl => (leaf l hl).2.2⟩

/-! ### Writing -/

/-- Where a write goes and what it writes. -/
structure CrossingWriteTarget where
  catalog : String
  schema : String
  table : String
  verb : CrossingVerb
  keyColumns : List String
  setColumns : List String
  readsRows : Bool

/-- The statement a policy is grafted onto: the select list of an `INSERT` or the `SET`
expressions of an `UPDATE`, and the condition of an `UPDATE` or `DELETE`.  The values it writes
come in through the seam. -/
structure CrossingWriteStatement where
  seamAlias : String
  seamColumns : List String
  expressions : List Expr
  condition : Option Expr

/-- An unqualified reference becomes the seam column of its set column, or one of the table. -/
def pointLeaf (table : String) (setColumns : List String) (built : CrossingWriteStatement)
    (keyCount : Nat) : Expr → Expr
  | .columnRef p =>
    if p.isQualified then .columnRef p
    else
      match setColumns.findIdx? (ciEq · p.name) with
      | some c => .columnRef ⟨[built.seamAlias], built.seamColumns.getD (keyCount + c) ""⟩
      | none => .columnRef ⟨[table], p.name⟩
  | e => e

/-- `PointCheckAtUpdatedRow`. -/
def pointCheckAtUpdatedRow (e : Expr) (table : String) (setColumns : List String)
    (built : CrossingWriteStatement) (keyCount : Nat) : Expr :=
  e.mapLeaves (pointLeaf table setColumns built keyCount)

/-- `QualifyColumns`. -/
def qualifyColumns (e : Expr) (table : String) (built : CrossingWriteStatement) : Expr :=
  pointCheckAtUpdatedRow e table [] built 0

/-- The text of the policy error. -/
def checkViolation : String := "vcatbridge: row violates the check predicate on this table"

/-- `GuardWithCheck`. -/
def guardWithCheck (check value : Expr) : Expr :=
  .node .caseWhen [check, value, .node (.call "error") [.constant (.varchar checkViolation)]]

/-- `And`: a missing left operand is no restriction. -/
def andWith (left : Option Expr) (right : Expr) : Expr :=
  match left with
  | none => right
  | some l => .node .conjunctionAnd [l, right]

/-- A rewritten leaf is a leaf. -/
theorem subqueryFree_pointLeaf {e l : Expr} (h : l ∈ e.leaves) (table : String)
    (setColumns : List String) (built : CrossingWriteStatement) (keyCount : Nat) :
    (pointLeaf table setColumns built keyCount l).subqueryFree = true := by
  rcases Expr.leaf_cases h with ⟨v, rfl⟩ | ⟨n, rfl⟩ | ⟨p, rfl⟩
  · rfl
  · rfl
  · rw [pointLeaf]
    split_ifs
    · rfl
    · split <;> rfl

/-- A rewritten leaf declares no lambda parameter: its references are all qualified. -/
theorem lambdaParams_pointLeaf {e l : Expr} (h : l ∈ e.leaves) (table : String)
    (setColumns : List String) (built : CrossingWriteStatement) (keyCount : Nat) :
    (pointLeaf table setColumns built keyCount l).lambdaParams = none := by
  rcases Expr.leaf_cases h with ⟨v, rfl⟩ | ⟨n, rfl⟩ | ⟨p, rfl⟩
  · rfl
  · rfl
  · rw [pointLeaf]
    split_ifs with hq
    · simp [Expr.lambdaParams, Expr.paramName, hq]
    · split <;> simp [Expr.lambdaParams, Expr.paramName, ColumnPath.isQualified]

@[simp] theorem parameterNames_and (l r : Expr) :
    parameterNames (.node .conjunctionAnd [l, r]) = parameterNames l ++ parameterNames r := by
  simp [parameterNames, Expr.leaves]

end VirtualCatalog
