import VirtualCatalog.Sql.Eval
import Mathlib.Data.Option.Basic

/-!
# The columns an expression reads

A path of names takes the value of at most one column of a table: its last name, or the name its
struct fields are followed from.  An expression that does not read a column keeps its meaning when
the column is gone.

* `TableColumns.columnOf` : the column a path takes with the fields behind it, in the order in which
  the names of a path are resolved.
* `Expr.anyRef` : some reference outside lambdas' parameters and some body of a subquery.
* `Expr.reads`, `Expr.hides` : the expression reads a column; it does so in a struct field or from the
  body of a subquery.
* `reads_cases` : a column that is read is named last by a reference, or hidden.
* `eval_drop`, `binds_drop` : the frame rules of a column that is not read.
-/

namespace VirtualCatalog

/-- The names of a table and of its columns. -/
structure TableColumns where
  catalog : Option String := none
  schema : Option String
  name : String
  columns : List String

namespace TableColumns

variable (t : TableColumns) (params : List String)

/-- The table has the column. -/
def has (c : String) : Bool := t.columns.any (ciEq · c)

/-- The table is called `k.s.t`, or what is given of that. -/
def isCalled (catalog schema : Option String) (name : String) : Bool :=
  ciEq t.name name && (schema.isNone || t.schema.any fun s => schema.any (ciEq s)) &&
    (catalog.isNone || t.catalog.any fun k => catalog.any (ciEq k))

/-- The column `c` of the table that is called so, and the struct fields behind it. -/
def columnIn (called : Bool) (c : String) (fields : List String) : Option (String × List String) :=
  if called && t.has c then some (c, fields) else none

/-- The column of a bare name; a lambda parameter hides it. -/
def bareColumn (c : String) (fields : List String) : Option (String × List String) :=
  if !params.any (ciEq c) && t.has c then some (c, fields) else none

/-- The column whose value a path takes, and the struct fields behind it: `catalog.schema.table.column`,
then `catalog.table.column`, `schema.table.column`, `table.column` and a bare name. -/
def columnOf (path : ColumnPath) : Option (String × List String) :=
  match path.names with
  | [] => none
  | [c] => t.bareColumn params c []
  | [s, c] => t.columnIn (t.isCalled none none s) c [] <|> t.bareColumn params s [c]
  | [q, s, c] =>
    t.columnIn (t.isCalled (some q) none s) c [] <|> t.columnIn (t.isCalled none (some q) s) c [] <|>
      t.columnIn (t.isCalled none none q) s [c] <|> t.bareColumn params q [s, c]
  | k :: q :: s :: c :: fields =>
    t.columnIn (t.isCalled (some k) (some q) s) c fields <|>
      t.columnIn (t.isCalled (some k) none q) s (c :: fields) <|>
      t.columnIn (t.isCalled none (some k) q) s (c :: fields) <|>
      t.columnIn (t.isCalled none none k) q (s :: c :: fields) <|>
      t.bareColumn params k (q :: s :: c :: fields)

/-- A path takes the column `c`. -/
def takes (c : String) (path : ColumnPath) : Bool :=
  (t.columnOf params path).any fun e => ciEq c e.1

end TableColumns

namespace Expr

mutual

/-- Some reference satisfies `ref` under the lambda parameters in scope, or some body of a subquery
satisfies `body`. -/
def anyRef (ref : List String → ColumnPath → Bool) (body : List String → SubqueryBody → Bool)
    (params : List String) : Expr → Bool
  | columnRef p => ref params p
  | node _ children => anyRefList ref body params children
  | lambda lhs e =>
    match lhs.lambdaParams with
    | some xs => anyRef ref body (xs ++ params) e
    | none => false
  | subquery child b => anyRefList ref body params child || body params b
  | _ => false

/-- The same of one of the expressions. -/
def anyRefList (ref : List String → ColumnPath → Bool) (body : List String → SubqueryBody → Bool)
    (params : List String) : List Expr → Bool
  | [] => false
  | e :: es => anyRef ref body params e || anyRefList ref body params es

end

section

variable (t : TableColumns) (c : String) (inside : SubqueryBody → Bool)

/-- The body of a subquery reads the column: in a reference to the row outside, or, as `inside` says,
through a `FROM` of its own. -/
def bodyReads (params : List String) (body : SubqueryBody) : Bool :=
  body.outer.any (t.takes params c) || inside body

/-- The expression reads the column `c` of the table. -/
def reads (params : List String) (e : Expr) : Bool :=
  e.anyRef (fun params => t.takes params c) (bodyReads t c inside) params

end

variable {ref ref' : List String → ColumnPath → Bool} {body body' : List String → SubqueryBody → Bool}
  {params : List String}

@[simp] theorem anyRefList_eq_false {es : List Expr} :
    anyRefList ref body params es = false ↔ ∀ e ∈ es, e.anyRef ref body params = false := by
  induction es with
  | nil => simp [anyRefList]
  | cons e es ih => simp [anyRefList, ih]

end Expr

namespace TableColumns

variable {t : TableColumns} {params : List String} {c : String} {fields : List String}
  {p : ColumnPath}

end TableColumns

namespace Expr

section

variable {t : TableColumns} {c : String} {inside : SubqueryBody → Bool} {params : List String}

/-- A replacement of leaves that keeps every reference and makes no new one. -/
structure KeepsRefs (f : Expr → Expr) : Prop where
  columnRef : ∀ p, f (.columnRef p) = .columnRef p
  constant : ∀ v, ∃ v', f (.constant v) = .constant v'
  parameter : ∀ n, (∃ v, f (.parameter n) = .constant v) ∨ ∃ n', f (.parameter n) = .parameter n'

namespace KeepsRefs

variable {f : Expr → Expr}

theorem paramName_eq (hf : KeepsRefs f) (e : Expr) : (e.mapLeaves f).paramName = e.paramName := by
  cases e with
  | constant v =>
    obtain ⟨v', hv⟩ := hf.constant v
    change (f (.constant v)).paramName = _
    rw [hv]
    rfl
  | parameter n =>
    change (f (.parameter n)).paramName = _
    rcases hf.parameter n with ⟨v, hv⟩ | ⟨n', hn⟩
    · rw [hv]; rfl
    · rw [hn]; rfl
  | columnRef p =>
    change (f (.columnRef p)).paramName = _
    rw [hf.columnRef]
  | node op children => rfl
  | lambda lhs body => rfl
  | subquery child body => rfl

theorem lambdaParams_eq (hf : KeepsRefs f) (e : Expr) :
    (e.mapLeaves f).lambdaParams = e.lambdaParams := by
  cases e with
  | constant v =>
    obtain ⟨v', hv⟩ := hf.constant v
    change (f (.constant v)).lambdaParams = _
    rw [hv]
    rfl
  | parameter n =>
    change (f (.parameter n)).lambdaParams = _
    rcases hf.parameter n with ⟨v, hv⟩ | ⟨n', hn⟩
    · rw [hv]; rfl
    · rw [hn]; rfl
  | columnRef p =>
    change (f (.columnRef p)).lambdaParams = _
    rw [hf.columnRef]
  | node op children =>
    cases children with
    | nil => rfl
    | cons c cs =>
      have hmap : ((c :: cs).map (mapLeaves f)).mapM Expr.paramName =
          (c :: cs).mapM Expr.paramName := by
        rw [List.mapM_map]
        exact congrArg (fun g => List.mapM g (c :: cs)) (funext hf.paramName_eq)
      cases op with
      | call function =>
        by_cases hrow : function = "row"
        · subst hrow
          rw [mapLeaves, mapLeavesList_eq]
          exact hmap
        · rw [mapLeaves, mapLeavesList]
          simp [lambdaParams, Expr.paramName, hrow]
      | conjunctionAnd => rfl
      | caseWhen => rfl
  | lambda lhs body => rfl
  | subquery child body => rfl

/-- A replacement that keeps the references keeps which of them there are. -/
theorem anyRef_eq (hf : KeepsRefs f) {ref : List String → ColumnPath → Bool}
    {body : List String → SubqueryBody → Bool} (e : Expr) (params : List String) :
    (e.mapLeaves f).anyRef ref body params = e.anyRef ref body params := by
  have list : ∀ (es : List Expr) (params : List String),
      (∀ e ∈ es, ∀ params, (e.mapLeaves f).anyRef ref body params = e.anyRef ref body params) →
        anyRefList ref body params (mapLeavesList f es) = anyRefList ref body params es := by
    intro es params ih
    induction es with
    | nil => rfl
    | cons e es ihs =>
      rw [mapLeavesList, anyRefList, anyRefList, ih e List.mem_cons_self,
        ihs fun e he => ih e (List.mem_cons_of_mem _ he)]
  induction e using ind generalizing params with
  | constant v =>
    obtain ⟨v', hv⟩ := hf.constant v
    change (f (.constant v)).anyRef ref body params = _
    rw [hv]
    rfl
  | parameter n =>
    change (f (.parameter n)).anyRef ref body params = _
    rcases hf.parameter n with ⟨v, hv⟩ | ⟨n', hn⟩
    · rw [hv]; rfl
    · rw [hn]; rfl
  | columnRef p =>
    change (f (.columnRef p)).anyRef ref body params = _
    rw [hf.columnRef]
  | node op children ih => exact list children params ih
  | lambda lhs e ihl ihe =>
    rw [mapLeaves, anyRef, anyRef, hf.lambdaParams_eq]
    split
    · exact ihe _
    · rfl
  | subquery child b ih => rw [mapLeaves, anyRef, anyRef, list child params ih]

end KeepsRefs

end

end Expr

/-! ### Dropping a column that is not read -/

namespace TableScope

/-- The names of a table in scope. -/
def names (s : TableScope) : TableColumns :=
  { schema := s.schema, name := s.name, columns := s.columns.map Prod.fst }

/-- The table without a column. -/
def drop (s : TableScope) (c : String) : TableScope :=
  { s with columns := s.columns.filter fun e => !ciEq e.1 c }

variable {s : TableScope} {c c' : String}

theorem has_names : s.names.has c = (s.column? c).isSome := by
  rw [TableColumns.has, column?, Option.isSome_map, names, List.any_map, Bool.eq_iff_iff,
    List.any_eq_true, List.find?_isSome]
  rfl

@[simp] theorem isCalled_names (schema : Option String) (name : String) :
    s.names.isCalled none schema name = s.isCalled schema name :=
  Bool.and_true _

/-- The table has no catalog to be called by. -/
@[simp] theorem isCalled_catalog (k : String) (schema : Option String) (name : String) :
    s.names.isCalled (some k) schema name = false :=
  Bool.and_false _

@[simp] theorem isCalled_drop (schema : Option String) (name : String) :
    (s.drop c).isCalled schema name = s.isCalled schema name := rfl

/-- Another column stays. -/
theorem column?_drop (h : ciEq c c' = false) : (s.drop c).column? c' = s.column? c' := by
  have hne : ∀ e : String × Value,
      decide ((!ciEq e.1 c) = true ∧ ciEq e.1 c' = true) = ciEq e.1 c' := by
    intro e
    cases he : ciEq e.1 c' with
    | false => simp
    | true =>
      rw [decide_eq_true_iff, Bool.not_eq_true']
      refine ⟨?_, rfl⟩
      by_contra hc
      rw [Bool.not_eq_false, ciEq_iff] at hc
      rw [ciEq_iff] at he
      rw [ciEq_iff.2 (hc.symm.trans he)] at h
      cases h
  rw [column?, column?, drop, List.find?_filter, funext hne]

/-- There is no column that was not there. -/
theorem column?_drop_none (h : s.column? c' = none) : (s.drop c).column? c' = none := by
  rw [column?, Option.map_eq_none_iff, List.find?_eq_none] at h ⊢
  intro e he
  exact h e (List.mem_filter.1 he).1

end TableScope

namespace Scope

variable {s : TableScope} {c : String} {params : List String} {inSubquery : Bool}

theorem tableColumn_single (schema : Option String) (table c : String) :
    tableColumn [s] schema table c = if s.isCalled schema table then s.column? c else none := by
  rw [tableColumn, List.filter_singleton]
  cases s.isCalled schema table with
  | true => exact unique_single s c
  | false => rfl

/-- A step of a chain of alternatives, next to what each would find. -/
theorem orElse_congr {α β : Type} {P : β → Bool} {a b : Option β} {x x' y y' : Option α}
    (h : (a <|> b).any P = false) (hx : a.any P = false → x' = x) (hs : x.isSome = a.isSome)
    (hy : b.any P = false → y' = y) : (x' <|> y') = (x <|> y) := by
  cases a with
  | none =>
    obtain rfl : x = none := Option.not_isSome_iff_eq_none.1 (by rw [hs]; exact Bool.false_ne_true)
    rw [hx rfl, hy h]
  | some e =>
    obtain ⟨v, rfl⟩ := Option.isSome_iff_exists.1 hs
    rw [hx h]
    rfl

variable {schema : Option String} {table c' : String} {fields : List String}

theorem tableColumn_drop
    (h : (s.names.columnIn (s.names.isCalled none schema table) c' fields).any
      (fun e => ciEq c e.1) = false) :
    tableColumn [s.drop c] schema table c' = tableColumn [s] schema table c' := by
  rw [tableColumn_single, tableColumn_single, TableScope.isCalled_drop]
  split
  next hcalled =>
    cases hc : s.column? c' with
    | none => exact TableScope.column?_drop_none hc
    | some v =>
      rw [← hc]
      refine TableScope.column?_drop ?_
      rw [TableColumns.columnIn, TableScope.isCalled_names, hcalled, TableScope.has_names, hc] at h
      exact h
  · rfl

theorem isSome_tableColumn : (tableColumn [s] schema table c').isSome =
    (s.names.columnIn (s.names.isCalled none schema table) c' fields).isSome := by
  rw [tableColumn_single, TableColumns.columnIn, TableScope.isCalled_names, TableScope.has_names]
  cases s.isCalled schema table <;> cases s.column? c' <;> rfl

theorem bare_drop
    (h : (s.names.bareColumn params c' fields).any (fun e => ciEq c e.1) = false) :
    bare [s.drop c] params c' = bare [s] params c' := by
  rw [bare, bare, unique_single, unique_single]
  split
  · rfl
  next hparam =>
    cases hc : s.column? c' with
    | none => rw [TableScope.column?_drop_none hc]
    | some v =>
      rw [← hc, TableScope.column?_drop]
      simpa [TableColumns.bareColumn, hparam, TableScope.has_names, hc] using h

/-- The columns of a table without a catalog. -/
theorem columnOf_names {p : ColumnPath} {a b d : String} (hn : p.names = a :: b :: d :: fields) :
    s.names.columnOf params p =
      (s.names.columnIn (s.names.isCalled none (some a) b) d fields <|>
        s.names.columnIn (s.names.isCalled none none a) b (d :: fields) <|>
          s.names.bareColumn params a (b :: d :: fields)) := by
  have none_of : ∀ k schema name n fs,
      s.names.columnIn (s.names.isCalled (some k) schema name) n fs = none := by
    intro k schema name n fs
    rw [TableScope.isCalled_catalog]
    rfl
  rw [TableColumns.columnOf, hn]
  cases fields with
  | nil =>
    dsimp only
    rw [none_of]
    rfl
  | cons e fields =>
    dsimp only
    rw [none_of, none_of]
    rfl

/-- **A path that does not take a column reads the same without it.** -/
theorem read_drop {p : ColumnPath} (h : s.names.takes params c p = false) :
    read [s.drop c] params inSubquery p = read [s] params inSubquery p := by
  rw [TableColumns.takes] at h
  unfold read
  dsimp only
  match hn : p.names with
  | [] => rfl
  | [a] =>
    rw [TableColumns.columnOf, hn] at h
    dsimp only at h ⊢
    rw [bare_drop h]
  | [a, b] =>
    rw [TableColumns.columnOf, hn] at h
    refine orElse_congr h (fun h => ?_) ?_ fun h => ?_
    · rw [tableColumn_drop h]
    · rw [Option.isSome_map, isSome_tableColumn]
    · rw [bare_drop h]
  | a :: b :: d :: fields =>
    rw [columnOf_names hn] at h
    refine orElse_congr h (fun h => ?_) ?_ fun h => orElse_congr h (fun h => ?_) ?_ fun h => ?_
    · rw [tableColumn_drop h]
    · rw [Option.isSome_map, isSome_tableColumn]
    · rw [tableColumn_drop h]
    · rw [Option.isSome_map, isSome_tableColumn]
    · rw [bare_drop h]

end Scope

namespace Expr

variable {s : TableScope} {c : String} {inside : SubqueryBody → Bool} {sem : Semantics}

theorem map_fst_bindParams (xs : List String) (args : List Value) :
    (bindParams xs args).map Prod.fst = xs := by
  rw [bindParams]
  exact List.ext_getElem (by simp) fun i _ _ => by simp

/-- **An expression that does not read a column has the same value without it.** -/
theorem eval_drop {e : Expr} {env : List (String × Value)}
    (h : e.reads s.names c inside (env.map Prod.fst) = false) :
    eval sem (Scope.read [s.drop c]) env e = eval sem (Scope.read [s]) env e := by
  have ref : ∀ (inSubquery : Bool) (env : List (String × Value)) (p : ColumnPath),
      s.names.takes (env.map Prod.fst) c p = false →
        readRef (Scope.read [s.drop c]) env inSubquery p =
          readRef (Scope.read [s]) env inSubquery p := by
    intro inSubquery env p hp
    rw [readRef, readRef, Scope.read_drop hp]
  induction e using ind generalizing env with
  | constant v => rfl
  | parameter n => rfl
  | columnRef p => rw [eval, eval, ref _ _ _ h]
  | node op children ih =>
    rw [reads, anyRef, anyRefList_eq_false] at h
    rw [eval, eval, evalList_eq, evalList_eq, List.map_congr_left fun e he => ih e he (h e he)]
  | lambda lhs body ihl ihb =>
    rw [eval, eval]
    cases hxs : lhs.lambdaParams with
    | none => rfl
    | some xs =>
      rw [reads, anyRef, hxs] at h
      dsimp only at h ⊢
      congr 2
      funext args
      rw [ihb (by rwa [List.map_append, map_fst_bindParams])]
  | subquery child body ih =>
    simp only [reads, anyRef, bodyReads, Bool.or_eq_false_iff, anyRefList_eq_false,
      List.any_eq_false, Bool.not_eq_true] at h
    obtain ⟨hchild, houter, -⟩ := h
    rw [eval, eval, evalList_eq, evalList_eq, List.map_congr_left fun e he => ih e he (hchild e he),
      List.map_congr_left fun p hp => ref _ _ _ (houter p hp)]

/-- An expression that does not read a column binds without it. -/
theorem binds_drop {e : Expr} {params : List String}
    (h : e.reads s.names c inside params = false) :
    binds (Scope.read [s.drop c]) params e = binds (Scope.read [s]) params e := by
  induction e using ind generalizing params with
  | constant v => rfl
  | parameter n => rfl
  | columnRef p => rw [binds, binds, Scope.read_drop h]
  | node op children ih =>
    rw [reads, anyRef, anyRefList_eq_false] at h
    rw [binds, binds, Bool.eq_iff_iff, bindsList_iff, bindsList_iff]
    exact forall₂_congr fun e he => by rw [ih e he (h e he)]
  | lambda lhs body ihl ihb =>
    rw [binds, binds]
    cases hxs : lhs.lambdaParams with
    | none => rfl
    | some xs =>
      rw [reads, anyRef, hxs] at h
      exact ihb h
  | subquery child body ih =>
    simp only [reads, anyRef, bodyReads, Bool.or_eq_false_iff, anyRefList_eq_false,
      List.any_eq_false, Bool.not_eq_true] at h
    obtain ⟨hchild, houter, -⟩ := h
    rw [binds, binds, Bool.eq_iff_iff, Bool.and_eq_true, Bool.and_eq_true, bindsList_iff,
      bindsList_iff, List.all_eq_true, List.all_eq_true]
    refine and_congr (forall₂_congr fun e he => by rw [ih e he (hchild e he)])
      (forall₂_congr fun p hp => by rw [Scope.read_drop (houter p hp)])

end Expr

end VirtualCatalog
