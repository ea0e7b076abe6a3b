import VirtualCatalog.Sql.Expression

/-!
# What an expression binds to and evaluates to

Functions and subqueries are the source's own: `Semantics` gives their results.  Which value a
reference stands for is a `Reading`, so that one predicate can be evaluated over a row, over the
join of a row with a seam, or over a mixture of two rows.  A bare name is a lambda parameter or a
column; a SQL value function is a call, with or without parentheses.

* `Scope.read` : the reading of the tables a `FROM` puts in scope.
* `Expr.binds`, `Expr.eval` : binding and evaluation under a reading.  `AND` is three-valued and
  `CASE` evaluates the branch it takes.
* `Expr.bareOver` : the references are bare columns, outside subqueries and lambdas.
* `eval_mapLeaves`, `binds_mapLeaves` : rewriting the references of a predicate is changing its
  reading.
-/

namespace VirtualCatalog

/-- Why an evaluation has no value. -/
inductive EvalError where
  | unbound
  | raised (message : String)
deriving DecidableEq

/-- An argument of a function: a value or a lambda. -/
inductive Den where
  | value (v : Value)
  | closure (f : List Value → Except EvalError Value)

/-- A lambda is not a value. -/
def Den.toValue : Den → Except EvalError Value
  | value v => .ok v
  | closure _ => .error .unbound

/-- The source's functions and its data, as subqueries see it. -/
structure Semantics where
  call : String → List Den → Except EvalError Value
  subquery : String → List Value → List Value → Except EvalError Value
  /-- `error(message)` raises. -/
  call_error : ∀ m, call "error" [.value (.varchar m)] = .error (.raised m)

/-- Where a reference points before its struct fields are followed. -/
inductive Anchor where
  | param (name : String)
  | column (v : Value)

/-- What the references of an expression stand for: given the lambda parameters in scope and
whether it stands in the body of a subquery, the anchor of a path and the fields to follow. -/
abbrev Reading := List String → Bool → ColumnPath → Option (Anchor × List String)

/-- Follow struct fields; a field of `NULL` is `NULL`. -/
def Value.fields : Value → List String → Except EvalError Value
  | v, [] => .ok v
  | struct fs, f :: rest =>
    match fs.find? fun e => ciEq e.1 f with
    | some e => fields e.2 rest
    | none => .error .unbound
  | null, _ :: _ => .ok null
  | _, _ :: _ => .error .unbound

/-! ### Scopes -/

/-- A table in scope, with the row it stands for. -/
structure TableScope where
  schema : Option String
  name : String
  columns : List (String × Value)

/-- The tables a statement's expressions can refer to. -/
abbrev Scope := List TableScope

/-- The value of a column. -/
def TableScope.column? (t : TableScope) (c : String) : Option Value :=
  (t.columns.find? fun e => ciEq e.1 c).map Prod.snd

/-- The table is called `s.t`, or `t` when no schema is given. -/
def TableScope.isCalled (t : TableScope) (schema : Option String) (name : String) : Bool :=
  ciEq t.name name && (schema.isNone || t.schema.any fun s => schema.any (ciEq s))

namespace Scope

/-- The one table that has the column; an ambiguous name has none. -/
def unique (tables : List TableScope) (c : String) : Option Value :=
  match tables.filterMap (·.column? c) with
  | [v] => some v
  | _ => none

/-- The column `c` of the table called `s.t`, or `t`. -/
def tableColumn (scope : Scope) (s : Option String) (t c : String) : Option Value :=
  unique (scope.filter (·.isCalled s t)) c

/-- A bare name: a lambda parameter before a column. -/
def bare (scope : Scope) (params : List String) (c : String) : Option Anchor :=
  if params.any (ciEq c) then some (.param c) else (unique scope c).map .column

/-- The reading of a scope: `schema.table.column`, then `table.column`, then a bare name, each
followed by struct fields. -/
def read (scope : Scope) : Reading := fun params _ path =>
  let viaBare (c : String) (fields : List String) := (scope.bare params c).map (·, fields)
  let viaTable (s : Option String) (t c : String) (fields : List String) :=
    (scope.tableColumn s t c).map fun v => (Anchor.column v, fields)
  match path.names with
  | [] => none
  | [c] => viaBare c []
  | [t, c] => viaTable none t c [] <|> viaBare t [c]
  | s :: t :: c :: fields =>
    viaTable (some s) t c fields <|> viaTable none s t (c :: fields) <|> viaBare s (t :: c :: fields)

theorem unique_single (s : TableScope) (c : String) : unique [s] c = s.column? c := by
  cases h : s.column? c <;> simp [unique, h]

end Scope

/-! ### Three-valued logic -/

/-- `TRUE`. -/
def Den.isTrue : Den → Bool
  | value (.boolean b) => b
  | _ => false

/-- The evaluation is `TRUE`, as a `WHERE` clause asks. -/
def IsTrue (r : Except EvalError Den) : Prop := ∃ d, r = .ok d ∧ d.isTrue = true

/-- `AND` of two values: `FALSE` decides, then `NULL`. -/
def Den.and : Den → Den → Den
  | value (.boolean a), value (.boolean b) => value (.boolean (a && b))
  | value (.boolean false), _ => value (.boolean false)
  | _, value (.boolean false) => value (.boolean false)
  | _, _ => value .null

/-- `AND` over its operands, left to right; an operand after `FALSE` is not evaluated. -/
def andResult : List (Except EvalError Den) → Except EvalError Den
  | [] => .ok (.value (.boolean true))
  | r :: rs => do
    match ← r with
    | .value (.boolean false) => return .value (.boolean false)
    | d => return d.and (← andResult rs)

/-- `CASE`: the branch of the first condition that is `TRUE`, else the last operand. -/
def caseResult : List (Except EvalError Den) → Except EvalError Den
  | [] => .ok (.value .null)
  | [e] => e
  | w :: t :: rest => do if (← w).isTrue then t else caseResult rest

/-- What a node computes of its operands. -/
def Op.result (sem : Semantics) : Op → List (Except EvalError Den) → Except EvalError Den
  | call f, rs => do return .value (← sem.call f (← rs.mapM id))
  | conjunctionAnd, rs => andResult rs
  | caseWhen, rs => caseResult rs

/-! ### Binding and evaluation -/

namespace Expr

/-- A reference that may name a lambda's parameter. -/
def paramName : Expr → Option String
  | columnRef p => if p.isQualified then none else some p.name
  | _ => none

/-- The parameters a lambda's left side declares: a name, or a row of names. -/
def lambdaParams : Expr → Option (List String)
  | node (.call "row") (c :: cs) => (c :: cs).mapM paramName
  | e => e.paramName.map ([·])

/-- Values for the parameters, `NULL` where there are too few. -/
def bindParams (params : List String) (args : List Value) : List (String × Value) :=
  params.mapIdx fun i x => (x, args.getD i .null)

mutual

/-- Every name of the expression has a meaning. -/
def binds (read : Reading) (params : List String) : Expr → Bool
  | constant _ => true
  | parameter _ => false
  | columnRef p => (read params false p).isSome
  | node _ children => bindsList read params children
  | lambda lhs body =>
    match lhs.lambdaParams with
    | some xs => binds read (xs ++ params) body
    | none => false
  | subquery child body =>
    bindsList read params child && body.outer.all fun p => (read params true p).isSome

/-- Every name of the expressions has a meaning. -/
def bindsList (read : Reading) (params : List String) : List Expr → Bool
  | [] => true
  | e :: es => binds read params e && bindsList read params es

end

/-- The value of a reference. -/
def readRef (read : Reading) (env : List (String × Value)) (inSubquery : Bool) (p : ColumnPath) :
    Except EvalError Value :=
  match read (env.map Prod.fst) inSubquery p with
  | none => .error .unbound
  | some (.column v, fields) => v.fields fields
  | some (.param x, fields) =>
    match env.find? fun e => ciEq e.1 x with
    | none => .error .unbound
    | some e => e.2.fields fields

mutual

/-- The value of an expression. -/
def eval (sem : Semantics) (read : Reading) (env : List (String × Value)) :
    Expr → Except EvalError Den
  | constant v => .ok (.value v)
  | parameter _ => .error .unbound
  | columnRef p => (readRef read env false p).map .value
  | node op children => op.result sem (evalList sem read env children)
  | lambda lhs body =>
    match lhs.lambdaParams with
    | none => .error .unbound
    | some xs => .ok (.closure fun args => do
        (← eval sem read (bindParams xs args ++ env) body).toValue)
  | subquery child body => do
    let operands ← (evalList sem read env child).mapM fun r => r.bind Den.toValue
    let outer ← (body.outer.map (readRef read env true)).mapM id
    return .value (← sem.subquery body.sql operands outer)

/-- The values of the expressions of a list. -/
def evalList (sem : Semantics) (read : Reading) (env : List (String × Value)) :
    List Expr → List (Except EvalError Den)
  | [] => []
  | e :: es => eval sem read env e :: evalList sem read env es

end

@[simp] theorem evalList_eq (sem : Semantics) (read : Reading) (env : List (String × Value))
    (es : List Expr) : evalList sem read env es = es.map (eval sem read env) := by
  induction es with
  | nil => rfl
  | cons e es ih => rw [evalList, ih, List.map_cons]

@[simp] theorem bindsList_iff {read : Reading} {params : List String} {es : List Expr} :
    bindsList read params es = true ↔ ∀ e ∈ es, e.binds read params = true := by
  induction es with
  | nil => simp [bindsList]
  | cons e es ih => simp [bindsList, ih]

mutual

/-- The references in the bodies of an expression's subqueries to the row outside. -/
def outerRefs : Expr → List ColumnPath
  | node _ children => outerRefsList children
  | lambda lhs body => outerRefs lhs ++ outerRefs body
  | subquery child body => outerRefsList child ++ body.outer
  | _ => []

/-- The references of the subqueries of a list of expressions. -/
def outerRefsList : List Expr → List ColumnPath
  | [] => []
  | e :: es => outerRefs e ++ outerRefsList es

end

@[simp] theorem outerRefsList_eq (es : List Expr) : outerRefsList es = es.flatMap outerRefs := by
  induction es with
  | nil => rfl
  | cons e es ih => rw [outerRefsList, ih, List.flatMap_cons]

mutual

/-- The references are unqualified names of columns, outside subqueries and lambdas: a name inside
a lambda is one of its parameters, with struct fields or without. -/
def bareOver (isColumn : String → Bool) (params : List String) : Expr → Bool
  | columnRef p =>
    if params.isEmpty then !p.isQualified && isColumn p.name
    else params.any (ciEq (p.names.headD ""))
  | node _ children => bareOverList isColumn params children
  | lambda lhs body =>
    match lhs.lambdaParams with
    | some xs => bareOver isColumn (xs ++ params) body
    | none => false
  | subquery child body => bareOverList isColumn params child && body.outer.isEmpty
  | _ => true

/-- The references of the expressions of a list are such names. -/
def bareOverList (isColumn : String → Bool) (params : List String) : List Expr → Bool
  | [] => true
  | e :: es => bareOver isColumn params e && bareOverList isColumn params es

end

@[simp] theorem bareOverList_iff {isColumn : String → Bool} {params : List String}
    {es : List Expr} :
    bareOverList isColumn params es = true ↔ ∀ e ∈ es, e.bareOver isColumn params = true := by
  induction es with
  | nil => simp [bareOverList]
  | cons e es ih => simp [bareOverList, ih]

/-- Without lambdas, every reference of such an expression is a bare column. -/
theorem bare_of_bareOver {isColumn : String → Bool} {e : Expr} (hl : e.lambdaFree = true)
    (h : e.bareOver isColumn [] = true) : e.outerRefs = [] ∧
      ∀ p, columnRef p ∈ e.leaves → p.isQualified = false ∧ isColumn p.name = true := by
  have list : ∀ es : List Expr, (∀ e ∈ es, e.outerRefs = [] ∧
      ∀ p, columnRef p ∈ e.leaves → p.isQualified = false ∧ isColumn p.name = true) →
      es.flatMap outerRefs = [] ∧
        ∀ p, columnRef p ∈ es.flatMap leaves → p.isQualified = false ∧ isColumn p.name = true := by
    intro es hes
    refine ⟨List.flatMap_eq_nil_iff.2 fun e he => (hes e he).1, fun p hp => ?_⟩
    obtain ⟨e, he, hp⟩ := List.mem_flatMap.1 hp
    exact (hes e he).2 p hp
  induction e using ind with
  | constant v => exact ⟨rfl, fun p hp => by cases List.mem_singleton.1 hp⟩
  | parameter n => exact ⟨rfl, fun p hp => by cases List.mem_singleton.1 hp⟩
  | columnRef q =>
    refine ⟨rfl, fun p hp => ?_⟩
    cases List.mem_singleton.1 hp
    simpa [bareOver] using h
  | node op children ih =>
    simp only [lambdaFree, lambdaFreeList_iff, bareOver, bareOverList_iff] at hl h
    simpa only [outerRefs, outerRefsList_eq, leaves, leavesList_eq] using
      list children fun e he => ih e he (hl e he) (h e he)
  | lambda lhs body => cases hl
  | subquery child body ih =>
    simp only [lambdaFree, lambdaFreeList_iff, bareOver, bareOverList_iff, Bool.and_eq_true,
      List.isEmpty_iff] at hl h
    obtain ⟨houter, hleaves⟩ := list child fun e he => ih e he (hl e he) (h.1 e he)
    exact ⟨by rw [outerRefs, outerRefsList_eq, houter, h.2]; rfl, by
      simpa only [leaves, leavesList_eq] using hleaves⟩

theorem outerRefs_mapLeaves {f : Expr → Expr} {e : Expr}
    (h : ∀ l ∈ e.leaves, (f l).outerRefs = []) : (e.mapLeaves f).outerRefs = e.outerRefs := by
  have list : ∀ es : List Expr, (∀ e ∈ es, (e.mapLeaves f).outerRefs = e.outerRefs) →
      (es.map (mapLeaves f)).flatMap outerRefs = es.flatMap outerRefs := by
    intro es hes
    rw [List.flatMap_map]
    exact List.flatMap_congr hes
  induction e using ind with
  | constant v => exact h _ (List.mem_singleton_self _)
  | parameter n => exact h _ (List.mem_singleton_self _)
  | columnRef p => exact h _ (List.mem_singleton_self _)
  | node op children ih =>
    simp only [leaves, leavesList_eq, List.mem_flatMap] at h
    simpa only [mapLeaves, outerRefs, mapLeavesList_eq, outerRefsList_eq] using
      list children fun e he => ih e he fun l hl => h l ⟨e, he, hl⟩
  | lambda lhs body ihl ihb =>
    rw [mapLeaves, outerRefs, outerRefs, ihl fun l hl => h l (List.mem_append_left _ hl),
      ihb fun l hl => h l (List.mem_append_right _ hl)]
  | subquery child body ih =>
    simp only [leaves, leavesList_eq, List.mem_flatMap] at h
    rw [mapLeaves, outerRefs, outerRefs, mapLeavesList_eq, outerRefsList_eq, outerRefsList_eq,
      list child fun e he => ih e he fun l hl => h l ⟨e, he, hl⟩]

/-- A leaf is a constant, a parameter or a reference. -/
theorem leaf_cases {e l : Expr} (h : l ∈ e.leaves) :
    (∃ v, l = constant v) ∨ (∃ n, l = parameter n) ∨ ∃ p, l = columnRef p := by
  induction e using ind with
  | constant v => exact .inl ⟨v, List.mem_singleton.1 h⟩
  | parameter n => exact .inr (.inl ⟨n, List.mem_singleton.1 h⟩)
  | columnRef p => exact .inr (.inr ⟨p, List.mem_singleton.1 h⟩)
  | node op children ih =>
    rw [leaves, leavesList_eq] at h
    obtain ⟨e, he, h⟩ := List.mem_flatMap.1 h
    exact ih e he h
  | lambda lhs body ihl ihb => exact (List.mem_append.1 h).elim ihl ihb
  | subquery child body ih =>
    rw [leaves, leavesList_eq] at h
    obtain ⟨e, he, h⟩ := List.mem_flatMap.1 h
    exact ih e he h

/-- An expression without lambdas that binds has a meaning for each of its references. -/
theorem isSome_of_binds {read : Reading} {params : List String} {e : Expr} {p : ColumnPath}
    (hl : e.lambdaFree = true) (hb : binds read params e = true) (hp : columnRef p ∈ e.leaves) :
    (read params false p).isSome = true := by
  induction e using ind with
  | constant v => cases List.mem_singleton.1 hp
  | parameter n => cases List.mem_singleton.1 hp
  | columnRef q => cases List.mem_singleton.1 hp; exact hb
  | node op children ih =>
    simp only [leaves, leavesList_eq, List.mem_flatMap] at hp
    obtain ⟨e, he, hp⟩ := hp
    simp only [lambdaFree, lambdaFreeList_iff, binds, bindsList_iff] at hl hb
    exact ih e he (hl e he) (hb e he) hp
  | lambda lhs body => cases hl
  | subquery child body ih =>
    simp only [leaves, leavesList_eq, List.mem_flatMap] at hp
    obtain ⟨e, he, hp⟩ := hp
    simp only [lambdaFree, lambdaFreeList_iff, binds, Bool.and_eq_true, bindsList_iff] at hl hb
    exact ih e he (hl e he) (hb.1 e he) hp

/-- And for each reference of its subqueries. -/
theorem isSome_outer_of_binds {read : Reading} {params : List String} {e : Expr} {p : ColumnPath}
    (hl : e.lambdaFree = true) (hb : binds read params e = true) (hp : p ∈ e.outerRefs) :
    (read params true p).isSome = true := by
  induction e using ind with
  | constant v => cases hp
  | parameter n => cases hp
  | columnRef q => cases hp
  | node op children ih =>
    simp only [outerRefs, outerRefsList_eq, List.mem_flatMap] at hp
    obtain ⟨e, he, hp⟩ := hp
    simp only [lambdaFree, lambdaFreeList_iff, binds, bindsList_iff] at hl hb
    exact ih e he (hl e he) (hb e he) hp
  | lambda lhs body => cases hl
  | subquery child body ih =>
    simp only [outerRefs, outerRefsList_eq, List.mem_append, List.mem_flatMap] at hp
    simp only [lambdaFree, lambdaFreeList_iff, binds, Bool.and_eq_true, bindsList_iff,
      List.all_eq_true] at hl hb
    rcases hp with ⟨e, he, hp⟩ | hp
    · exact ih e he (hl e he) (hb.1 e he) hp
    · exact hb.2 p hp

theorem fields_error {v : Value} {fields : List String} {x : EvalError}
    (h : v.fields fields = .error x) : x = .unbound := by
  induction fields generalizing v with
  | nil => cases h
  | cons f rest ih =>
    cases v with
    | struct fs =>
      rw [Value.fields] at h
      split at h
      · exact ih h
      · exact (Except.error.inj h).symm
    | null => cases h
    | _ => exact (Except.error.inj h).symm

/-- A reference has no value only if it has no meaning. -/
theorem readRef_error {read : Reading} {env : List (String × Value)} {inSubquery : Bool}
    {p : ColumnPath} {x : EvalError} (h : readRef read env inSubquery p = .error x) :
    x = .unbound := by
  unfold readRef at h
  split at h
  · exact (Except.error.inj h).symm
  · exact fields_error h
  · split at h
    · exact (Except.error.inj h).symm
    · exact fields_error h

theorem readRef_ne_raised {read : Reading} {env : List (String × Value)} {inSubquery : Bool}
    {p : ColumnPath} (message : String) :
    readRef read env inSubquery p ≠ .error (.raised message) := by
  intro h
  cases readRef_error h

section Rewriting

variable {sem : Semantics} {read read' : Reading} {env : List (String × Value)} {e : Expr}
  {f : Expr → Expr}

/-- Rewriting the leaves of an expression without lambdas is changing its reading. -/
theorem eval_mapLeaves (hl : e.lambdaFree = true)
    (hleaf : ∀ l ∈ e.leaves, eval sem read env (f l) = eval sem read' env l)
    (houter : ∀ p ∈ e.outerRefs, readRef read env true p = readRef read' env true p) :
    eval sem read env (e.mapLeaves f) = eval sem read' env e := by
  have list : ∀ es : List Expr, (∀ e ∈ es, e.lambdaFree = true) →
      (∀ l ∈ es.flatMap leaves, eval sem read env (f l) = eval sem read' env l) →
      (∀ p ∈ es.flatMap outerRefs, readRef read env true p = readRef read' env true p) →
      (∀ e ∈ es, e.lambdaFree = true →
        (∀ l ∈ e.leaves, eval sem read env (f l) = eval sem read' env l) →
        (∀ p ∈ e.outerRefs, readRef read env true p = readRef read' env true p) →
          eval sem read env (e.mapLeaves f) = eval sem read' env e) →
      evalList sem read env (mapLeavesList f es) = evalList sem read' env es := by
    intro es hl hleaf houter ih
    simp only [evalList_eq, mapLeavesList_eq, List.map_map]
    exact List.map_congr_left fun e he => ih e he (hl e he)
      (fun l h => hleaf l (List.mem_flatMap.2 ⟨e, he, h⟩))
      fun p h => houter p (List.mem_flatMap.2 ⟨e, he, h⟩)
  induction e using ind with
  | constant v => exact hleaf _ (List.mem_singleton_self _)
  | parameter n => exact hleaf _ (List.mem_singleton_self _)
  | columnRef p => exact hleaf _ (List.mem_singleton_self _)
  | node op children ih =>
    simp only [lambdaFree, lambdaFreeList_iff, leaves, leavesList_eq, outerRefs,
      outerRefsList_eq] at hl hleaf houter
    rw [mapLeaves, eval, eval, list children hl hleaf houter ih]
  | lambda lhs body => cases hl
  | subquery child body ih =>
    simp only [lambdaFree, lambdaFreeList_iff, leaves, leavesList_eq, outerRefs,
      outerRefsList_eq, List.mem_append] at hl hleaf houter
    have ho : body.outer.map (readRef read env true) = body.outer.map (readRef read' env true) :=
      List.map_congr_left fun p hp => houter p (.inr hp)
    rw [mapLeaves, eval, eval, list child hl hleaf (fun p hp => houter p (.inl hp)) ih, ho]

/-- The names of a rewritten expression without lambdas, in the same way. -/
theorem binds_mapLeaves {params : List String} (hl : e.lambdaFree = true)
    (hleaf : ∀ l ∈ e.leaves, binds read params (f l) = binds read' params l)
    (houter : ∀ p ∈ e.outerRefs, (read params true p).isSome = (read' params true p).isSome) :
    binds read params (e.mapLeaves f) = binds read' params e := by
  have list : ∀ es : List Expr, (∀ e ∈ es, e.lambdaFree = true) →
      (∀ l ∈ es.flatMap leaves, binds read params (f l) = binds read' params l) →
      (∀ p ∈ es.flatMap outerRefs, (read params true p).isSome = (read' params true p).isSome) →
      (∀ e ∈ es, e.lambdaFree = true →
        (∀ l ∈ e.leaves, binds read params (f l) = binds read' params l) →
        (∀ p ∈ e.outerRefs, (read params true p).isSome = (read' params true p).isSome) →
          binds read params (e.mapLeaves f) = binds read' params e) →
      bindsList read params (mapLeavesList f es) = bindsList read' params es := by
    intro es hl hleaf houter ih
    rw [Bool.eq_iff_iff]
    simp only [bindsList_iff, mapLeavesList_eq, List.forall_mem_map]
    refine forall₂_congr fun e he => ?_
    rw [ih e he (hl e he) (fun l h => hleaf l (List.mem_flatMap.2 ⟨e, he, h⟩))
      fun p h => houter p (List.mem_flatMap.2 ⟨e, he, h⟩)]
  induction e using ind with
  | constant v => exact hleaf _ (List.mem_singleton_self _)
  | parameter n => exact hleaf _ (List.mem_singleton_self _)
  | columnRef p => exact hleaf _ (List.mem_singleton_self _)
  | node op children ih =>
    simp only [lambdaFree, lambdaFreeList_iff, leaves, leavesList_eq, outerRefs,
      outerRefsList_eq] at hl hleaf houter
    rw [mapLeaves, binds, binds, list children hl hleaf houter ih]
  | lambda lhs body => cases hl
  | subquery child body ih =>
    simp only [lambdaFree, lambdaFreeList_iff, leaves, leavesList_eq, outerRefs,
      outerRefsList_eq, List.mem_append] at hl hleaf houter
    have ho : (body.outer.all fun p => (read params true p).isSome) =
        body.outer.all fun p => (read' params true p).isSome := by
      rw [Bool.eq_iff_iff, List.all_eq_true, List.all_eq_true]
      exact forall₂_congr fun p hp => by rw [houter p (.inr hp)]
    rw [mapLeaves, binds, binds, list child hl hleaf (fun p hp => houter p (.inl hp)) ih, ho]

/-- Two readings that agree on the references of an expression give it the same value. -/
theorem eval_congr (hl : e.lambdaFree = true)
    (hleaf : ∀ p, columnRef p ∈ e.leaves → readRef read env false p = readRef read' env false p)
    (houter : ∀ p ∈ e.outerRefs, readRef read env true p = readRef read' env true p) :
    eval sem read env e = eval sem read' env e := by
  have leaf : ∀ l ∈ e.leaves, eval sem read env l = eval sem read' env l := by
    intro l hl
    rcases leaf_cases hl with ⟨v, rfl⟩ | ⟨n, rfl⟩ | ⟨p, rfl⟩
    · rfl
    · rfl
    · rw [eval, eval, hleaf p hl]
  simpa using eval_mapLeaves (f := fun l => l) hl leaf houter

/-- Two readings that agree on the references of an expression bind it alike. -/
theorem binds_congr {params : List String} (hl : e.lambdaFree = true)
    (hleaf : ∀ p, columnRef p ∈ e.leaves →
      (read params false p).isSome = (read' params false p).isSome)
    (houter : ∀ p ∈ e.outerRefs, (read params true p).isSome = (read' params true p).isSome) :
    binds read params e = binds read' params e := by
  have leaf : ∀ l ∈ e.leaves, binds read params l = binds read' params l := by
    intro l hl
    rcases leaf_cases hl with ⟨v, rfl⟩ | ⟨n, rfl⟩ | ⟨p, rfl⟩
    · rfl
    · rfl
    · exact hleaf p hl
  simpa using binds_mapLeaves (f := fun l => l) hl leaf houter

end Rewriting

/-! ### Lambdas under a rewriting -/

theorem paramName_eq_none {e : Expr} (h : e.lambdaParams = none) : e.paramName = none := by
  cases e with
  | columnRef p => simpa [lambdaParams] using h
  | _ => rfl

/-- A rewriting that leaves no bare name leaves a lambda no parameters. -/
theorem lambdaParams_mapLeaves {f : Expr → Expr} {e : Expr}
    (hf : ∀ l ∈ e.leaves, (f l).lambdaParams = none) : (e.mapLeaves f).lambdaParams = none := by
  cases e with
  | constant v => exact hf _ (List.mem_singleton_self _)
  | parameter n => exact hf _ (List.mem_singleton_self _)
  | columnRef p => exact hf _ (List.mem_singleton_self _)
  | lambda lhs body => rfl
  | subquery child body => rfl
  | node op children =>
    cases children with
    | nil => rw [mapLeaves, mapLeavesList, lambdaParams]; rfl; simp
    | cons c cs =>
      have hc : (c.mapLeaves f).paramName = none := by
        cases c with
        | constant v => exact paramName_eq_none (hf _ (by simp [leaves]))
        | parameter n => exact paramName_eq_none (hf _ (by simp [leaves]))
        | columnRef p => exact paramName_eq_none (hf _ (by simp [leaves]))
        | _ => rfl
      rw [mapLeaves, mapLeavesList]
      unfold lambdaParams
      split
      · simp_all
      · rfl

/-- So it binds only if it had no lambda. -/
theorem lambdaFree_of_binds_mapLeaves {read : Reading} {params : List String} {f : Expr → Expr}
    {e : Expr} (hf : ∀ l ∈ e.leaves, (f l).lambdaParams = none)
    (h : binds read params (e.mapLeaves f) = true) : e.lambdaFree = true := by
  induction e using ind with
  | constant v => rfl
  | parameter n => rfl
  | columnRef p => rfl
  | node op children ih =>
    simp only [mapLeaves, binds, mapLeavesList_eq, bindsList_iff, List.forall_mem_map] at h
    simp only [lambdaFree, lambdaFreeList_iff]
    exact fun e he => ih e he (fun l hl => hf l (by simpa [leaves] using ⟨e, he, hl⟩)) (h e he)
  | lambda lhs body =>
    rw [mapLeaves, binds, lambdaParams_mapLeaves fun l hl => hf l (List.mem_append_left _ hl)] at h
    cases h
  | subquery child body ih =>
    simp only [mapLeaves, binds, mapLeavesList_eq, Bool.and_eq_true, bindsList_iff,
      List.forall_mem_map] at h
    simp only [lambdaFree, lambdaFreeList_iff]
    exact fun e he => ih e he (fun l hl => hf l (by simpa [leaves] using ⟨e, he, hl⟩)) (h.1 e he)

end Expr

/-! ### `AND` and `CASE` -/

@[simp] theorem isTrue_ok {d : Den} : IsTrue (.ok d) ↔ d.isTrue = true := by simp [IsTrue]

@[simp] theorem isTrue_error {e : EvalError} : ¬ IsTrue (.error e) := by simp [IsTrue]

@[simp] theorem Den.isTrue_and (d d' : Den) : (d.and d').isTrue = (d.isTrue && d'.isTrue) := by
  rcases d with (_ | (_ | _) | _ | _ | _ | _) | _ <;>
    rcases d' with (_ | (_ | _) | _ | _ | _ | _) | _ <;> rfl

/-- An operand of `AND` is `FALSE`, which decides, or the others are evaluated too. -/
theorem andResult_cons (d : Den) (rs : List (Except EvalError Den)) :
    (d = .value (.boolean false) ∧ andResult (.ok d :: rs) = .ok d) ∨
      andResult (.ok d :: rs) = (andResult rs).map d.and := by
  rcases d with (_ | (_ | _) | _ | _ | _ | _) | _
  case value.boolean.false => exact .inl ⟨rfl, rfl⟩
  all_goals exact .inr (by cases h : andResult rs <;> simp [andResult, h, bind, Except.bind,
    pure, Except.pure, Except.map])

theorem isTrue_map_and {d : Den} {r : Except EvalError Den} :
    IsTrue (r.map d.and) ↔ d.isTrue = true ∧ IsTrue r := by
  cases r <;> simp [Except.map]

/-- `AND` is `TRUE` exactly if every operand is. -/
theorem isTrue_andResult {rs : List (Except EvalError Den)} :
    IsTrue (andResult rs) ↔ ∀ r ∈ rs, IsTrue r := by
  induction rs with
  | nil => simp [andResult, Den.isTrue]
  | cons r rs ih =>
    rw [List.forall_mem_cons]
    cases r with
    | error e => simp [andResult, bind, Except.bind]
    | ok d =>
      rcases andResult_cons d rs with ⟨rfl, h⟩ | h
      · simp [h, Den.isTrue]
      · rw [h, isTrue_map_and, ih, isTrue_ok]

/-- If no operand fails, neither does `AND`. -/
theorem andResult_ok {rs : List (Except EvalError Den)} (h : ∀ r ∈ rs, ∃ d, r = .ok d) :
    ∃ d, andResult rs = .ok d := by
  induction rs with
  | nil => exact ⟨_, rfl⟩
  | cons r rs ih =>
    obtain ⟨d, rfl⟩ := h r List.mem_cons_self
    obtain ⟨d', hd'⟩ := ih fun r hr => h r (List.mem_cons_of_mem _ hr)
    rcases andResult_cons d rs with ⟨-, h⟩ | h
    · exact ⟨d, h⟩
    · exact ⟨d.and d', by rw [h, hd']; rfl⟩

end VirtualCatalog
