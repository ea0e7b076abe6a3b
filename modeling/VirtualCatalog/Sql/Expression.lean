import VirtualCatalog.Names.CaseInsensitive

/-!
# Parsed SQL expressions

The tree a policy predicate is stored as, and the one traversal that every pass over it uses.

* `Expr` : constants, parameters (`$name`), column references, operators and functions, lambdas,
  subqueries.  A subquery shows its child (`x` in `x IN (SELECT …)`) but not its body, of which
  the tree keeps the references that reach the row outside.
* `Expr.leaves`, `Expr.mapLeaves`, `Expr.traverseLeaves` : the leaves a recursion over
  `EnumerateChildren` meets, and their replacement, without and with a failure.
* `Expr.ind` : induction over a tree, one case for each constructor.
-/

namespace VirtualCatalog

/-- A value of the source. -/
inductive Value where
  | null
  | boolean (b : Bool)
  | integer (i : Int)
  | varchar (s : String)
  | list (elements : List Value)
  | struct (fields : List (String × Value))

/-- The path of a column reference: what qualifies it, then its last name. -/
structure ColumnPath where
  qualifiers : List String
  name : String
deriving DecidableEq

/-- `IsQualified`. -/
def ColumnPath.isQualified (p : ColumnPath) : Bool := !p.qualifiers.isEmpty

/-- The names of the path in order. -/
def ColumnPath.names (p : ColumnPath) : List String := p.qualifiers ++ [p.name]

/-- An unqualified path. -/
def ColumnPath.plain (name : String) : ColumnPath := ⟨[], name⟩

@[simp] theorem ColumnPath.isQualified_plain (c : String) : (plain c).isQualified = false := rfl

@[simp] theorem ColumnPath.names_plain (c : String) : (plain c).names = [c] := rfl

theorem ColumnPath.eq_plain {p : ColumnPath} (h : p.isQualified = false) : p = plain p.name := by
  obtain ⟨q, c⟩ := p
  cases q with
  | nil => rfl
  | cons a q => cases h

/-- What a function or operator node computes. -/
inductive Op where
  /-- A function, cast, comparison or operator, by name. -/
  | call (function : String)
  /-- `CONJUNCTION_AND`. -/
  | conjunctionAnd
  /-- `CASE WHEN … THEN … ELSE … END`, its children in that order. -/
  | caseWhen
deriving DecidableEq

/-- The body of a subquery: its text and the references in it that reach the row outside. -/
structure SubqueryBody where
  sql : String
  outer : List ColumnPath
deriving DecidableEq

/-- A parsed expression. -/
inductive Expr where
  | constant (v : Value)
  | parameter (name : String)
  | columnRef (path : ColumnPath)
  | node (op : Op) (children : List Expr)
  | lambda (lhs body : Expr)
  | subquery (child : List Expr) (body : SubqueryBody)

namespace Expr

/-- Induction over a tree. -/
@[elab_as_elim]
theorem ind {P : Expr → Prop} (constant : ∀ v, P (constant v)) (parameter : ∀ n, P (parameter n))
    (columnRef : ∀ p, P (columnRef p))
    (node : ∀ op children, (∀ e ∈ children, P e) → P (node op children))
    (lambda : ∀ lhs body, P lhs → P body → P (lambda lhs body))
    (subquery : ∀ child body, (∀ e ∈ child, P e) → P (subquery child body)) : ∀ e, P e :=
  @Expr.rec P (fun es => ∀ e ∈ es, P e) constant parameter columnRef node lambda subquery
    (fun _ h => absurd h List.not_mem_nil) fun _ _ h hs e he => by
      rcases List.mem_cons.1 he with rfl | he
      · exact h
      · exact hs e he

mutual

/-- The leaves of a tree, left to right. -/
def leaves : Expr → List Expr
  | node _ children => leavesList children
  | lambda lhs body => leaves lhs ++ leaves body
  | subquery child _ => leavesList child
  | e => [e]

/-- The leaves of the trees of a list. -/
def leavesList : List Expr → List Expr
  | [] => []
  | e :: es => leaves e ++ leavesList es

end

mutual

/-- Replace every leaf of a tree. -/
def mapLeaves (f : Expr → Expr) : Expr → Expr
  | node op children => node op (mapLeavesList f children)
  | lambda lhs body => lambda (mapLeaves f lhs) (mapLeaves f body)
  | subquery child body => subquery (mapLeavesList f child) body
  | e => f e

/-- Replace every leaf of the trees of a list. -/
def mapLeavesList (f : Expr → Expr) : List Expr → List Expr
  | [] => []
  | e :: es => mapLeaves f e :: mapLeavesList f es

end

mutual

/-- Replace every leaf of a tree, stopping at the first that has no replacement. -/
def traverseLeaves {ε : Type} (f : Expr → Except ε Expr) : Expr → Except ε Expr
  | node op children => return node op (← traverseLeavesList f children)
  | lambda lhs body => return lambda (← traverseLeaves f lhs) (← traverseLeaves f body)
  | subquery child body => return subquery (← traverseLeavesList f child) body
  | e => f e

/-- Replace every leaf of the trees of a list, stopping at the first that has no replacement. -/
def traverseLeavesList {ε : Type} (f : Expr → Except ε Expr) : List Expr → Except ε (List Expr)
  | [] => return []
  | e :: es => return (← traverseLeaves f e) :: (← traverseLeavesList f es)

end

mutual

/-- No lambda stands outside the bodies of subqueries. -/
def lambdaFree : Expr → Bool
  | node _ children => lambdaFreeList children
  | lambda _ _ => false
  | subquery child _ => lambdaFreeList child
  | _ => true

/-- No lambda stands in the trees of a list. -/
def lambdaFreeList : List Expr → Bool
  | [] => true
  | e :: es => lambdaFree e && lambdaFreeList es

end

mutual

/-- No subquery. -/
def subqueryFree : Expr → Bool
  | node _ children => subqueryFreeList children
  | lambda lhs body => subqueryFree lhs && subqueryFree body
  | subquery _ _ => false
  | _ => true

/-- No subquery in the trees of a list. -/
def subqueryFreeList : List Expr → Bool
  | [] => true
  | e :: es => subqueryFree e && subqueryFreeList es

end

@[simp] theorem leavesList_eq (es : List Expr) : leavesList es = es.flatMap leaves := by
  induction es with
  | nil => rfl
  | cons e es ih => rw [leavesList, ih, List.flatMap_cons]

@[simp] theorem mapLeavesList_eq (f : Expr → Expr) (es : List Expr) :
    mapLeavesList f es = es.map (mapLeaves f) := by
  induction es with
  | nil => rfl
  | cons e es ih => rw [mapLeavesList, ih, List.map_cons]

@[simp] theorem lambdaFreeList_iff {es : List Expr} :
    lambdaFreeList es = true ↔ ∀ e ∈ es, e.lambdaFree = true := by
  induction es with
  | nil => simp [lambdaFreeList]
  | cons e es ih => simp [lambdaFreeList, ih]

@[simp] theorem subqueryFreeList_iff {es : List Expr} :
    subqueryFreeList es = true ↔ ∀ e ∈ es, e.subqueryFree = true := by
  induction es with
  | nil => simp [subqueryFreeList]
  | cons e es ih => simp [subqueryFreeList, ih]

/-- The error a leaf raises. -/
def leafError {ε : Type} (f : Expr → Except ε Expr) (l : Expr) : Option ε :=
  match f l with
  | .ok _ => none
  | .error x => some x

/-- The replacement of a leaf, or the leaf itself if it raises an error. -/
def leafValue {ε : Type} (f : Expr → Except ε Expr) (l : Expr) : Expr :=
  match f l with
  | .ok l' => l'
  | .error _ => l

/-- The result `a` unless there is an error. -/
def orError {ε α : Type} (a : α) : Option ε → Except ε α
  | none => .ok a
  | some x => .error x

theorem orError_bind {ε α β γ : Type} (o o' : Option ε) (a : α) (b : β) (k : α → β → γ) :
    (do let x ← orError a o; let y ← orError b o'; return k x y) = orError (k a b) (o.or o') := by
  cases o <;> cases o' <;> rfl

theorem orError_map {ε α β : Type} (o : Option ε) (a : α) (k : α → β) :
    (do let x ← orError a o; return k x) = orError (k a) o := by
  cases o <;> rfl

/-- **A traversal is a replacement, or the error of the first leaf that raises one.** -/
theorem traverseLeaves_eq {ε : Type} (f : Expr → Except ε Expr) (e : Expr) :
    e.traverseLeaves f = orError (e.mapLeaves (leafValue f)) (e.leaves.findSome? (leafError f)) := by
  have leaf : ∀ e, f e = orError (leafValue f e) ([e].findSome? (leafError f)) := by
    intro e
    rw [List.findSome?_singleton, leafValue, leafError]
    cases f e <;> rfl
  have list : ∀ es : List Expr,
      (∀ e ∈ es, e.traverseLeaves f =
        orError (e.mapLeaves (leafValue f)) (e.leaves.findSome? (leafError f))) →
      traverseLeavesList f es =
        orError (mapLeavesList (leafValue f) es) ((leavesList es).findSome? (leafError f)) := by
    intro es hes
    induction es with
    | nil => rfl
    | cons e es ih =>
      rw [traverseLeavesList, hes e List.mem_cons_self,
        ih fun e he => hes e (List.mem_cons_of_mem _ he), leavesList, List.findSome?_append]
      exact orError_bind _ _ _ _ List.cons
  induction e using ind with
  | constant v => exact leaf _
  | parameter n => exact leaf _
  | columnRef p => exact leaf _
  | node op children ih =>
    rw [traverseLeaves, list children ih]
    exact orError_map _ _ _
  | lambda lhs body ihl ihb =>
    rw [traverseLeaves, ihl, ihb, leaves, List.findSome?_append]
    exact orError_bind _ _ _ _ lambda
  | subquery child body ih =>
    rw [traverseLeaves, list child ih]
    exact orError_map _ _ fun c => subquery c body

/-- Two replacements that agree on the leaves give the same tree. -/
theorem mapLeaves_congr {f g : Expr → Expr} {e : Expr} (h : ∀ l ∈ e.leaves, f l = g l) :
    e.mapLeaves f = e.mapLeaves g := by
  induction e using ind with
  | constant v => exact h _ (List.mem_singleton_self _)
  | parameter n => exact h _ (List.mem_singleton_self _)
  | columnRef p => exact h _ (List.mem_singleton_self _)
  | node op children ih =>
    simp only [mapLeaves, mapLeavesList_eq, node.injEq, true_and]
    exact List.map_congr_left fun e he => ih e he fun l hl => h l (by
      simpa [leaves] using ⟨e, he, hl⟩)
  | lambda lhs body ihl ihb =>
    rw [mapLeaves, mapLeaves, ihl fun l hl => h l (List.mem_append_left _ hl),
      ihb fun l hl => h l (List.mem_append_right _ hl)]
  | subquery child body ih =>
    simp only [mapLeaves, mapLeavesList_eq, subquery.injEq, and_true]
    exact List.map_congr_left fun e he => ih e he fun l hl => h l (by
      simpa [leaves] using ⟨e, he, hl⟩)

@[simp] theorem mapLeaves_id (e : Expr) : e.mapLeaves (fun l => l) = e := by
  induction e using ind with
  | constant v => rfl
  | parameter n => rfl
  | columnRef p => rfl
  | node op children ih =>
    rw [mapLeaves, mapLeavesList_eq, List.map_congr_left ih, List.map_id']
  | lambda lhs body ihl ihb => rw [mapLeaves, ihl, ihb]
  | subquery child body ih =>
    rw [mapLeaves, mapLeavesList_eq, List.map_congr_left ih, List.map_id']

/-- The leaves of a replacement are those of the replaced leaves. -/
theorem leaves_mapLeaves (f : Expr → Expr) (e : Expr) :
    (e.mapLeaves f).leaves = e.leaves.flatMap fun l => (f l).leaves := by
  have list : ∀ es : List Expr, (∀ e ∈ es,
      (e.mapLeaves f).leaves = e.leaves.flatMap fun l => (f l).leaves) →
      (es.map (mapLeaves f)).flatMap leaves = (es.flatMap leaves).flatMap fun l => (f l).leaves := by
    intro es hes
    rw [List.flatMap_map, List.flatMap_assoc]
    exact List.flatMap_congr hes
  induction e using ind with
  | constant v => simp [mapLeaves, leaves]
  | parameter n => simp [mapLeaves, leaves]
  | columnRef p => simp [mapLeaves, leaves]
  | node op children ih =>
    simpa only [mapLeaves, leaves, leavesList_eq, mapLeavesList_eq] using list children ih
  | lambda lhs body ihl ihb => rw [mapLeaves, leaves, leaves, ihl, ihb, List.flatMap_append]
  | subquery child body ih =>
    simpa only [mapLeaves, leaves, leavesList_eq, mapLeavesList_eq] using list child ih

theorem lambdaFree_mapLeaves {f : Expr → Expr} {e : Expr}
    (h : ∀ l ∈ e.leaves, (f l).lambdaFree = true) : (e.mapLeaves f).lambdaFree = e.lambdaFree := by
  have list : ∀ es : List Expr, (∀ e ∈ es, (e.mapLeaves f).lambdaFree = e.lambdaFree) →
      lambdaFreeList (es.map (mapLeaves f)) = lambdaFreeList es := by
    intro es hes
    rw [Bool.eq_iff_iff, lambdaFreeList_iff, lambdaFreeList_iff, List.forall_mem_map]
    exact forall₂_congr fun e he => by rw [hes e he]
  induction e using ind with
  | constant v => exact h _ (List.mem_singleton_self _)
  | parameter n => exact h _ (List.mem_singleton_self _)
  | columnRef p => exact h _ (List.mem_singleton_self _)
  | node op children ih =>
    simp only [leaves, leavesList_eq, List.mem_flatMap] at h
    simpa only [mapLeaves, lambdaFree, mapLeavesList_eq] using
      list children fun e he => ih e he fun l hl => h l ⟨e, he, hl⟩
  | lambda lhs body => rfl
  | subquery child body ih =>
    simp only [leaves, leavesList_eq, List.mem_flatMap] at h
    simpa only [mapLeaves, lambdaFree, mapLeavesList_eq] using
      list child fun e he => ih e he fun l hl => h l ⟨e, he, hl⟩

theorem subqueryFree_mapLeaves {f : Expr → Expr} {e : Expr}
    (h : ∀ l ∈ e.leaves, (f l).subqueryFree = true) :
    (e.mapLeaves f).subqueryFree = e.subqueryFree := by
  induction e using ind with
  | constant v => exact h _ (List.mem_singleton_self _)
  | parameter n => exact h _ (List.mem_singleton_self _)
  | columnRef p => exact h _ (List.mem_singleton_self _)
  | node op children ih =>
    simp only [leaves, leavesList_eq, List.mem_flatMap] at h
    rw [mapLeaves, mapLeavesList_eq, subqueryFree, subqueryFree, Bool.eq_iff_iff,
      subqueryFreeList_iff, subqueryFreeList_iff, List.forall_mem_map]
    exact forall₂_congr fun e he => by rw [ih e he fun l hl => h l ⟨e, he, hl⟩]
  | lambda lhs body ihl ihb =>
    rw [mapLeaves, subqueryFree, subqueryFree, ihl fun l hl => h l (List.mem_append_left _ hl),
      ihb fun l hl => h l (List.mem_append_right _ hl)]
  | subquery child body => rfl

theorem findSome?_leafError_congr {ε : Type} {f g : Expr → Except ε Expr} {ls : List Expr}
    (h : ∀ l ∈ ls, f l = g l) : ls.findSome? (leafError f) = ls.findSome? (leafError g) := by
  induction ls with
  | nil => rfl
  | cons l ls ih =>
    have hl : leafError f l = leafError g l := by rw [leafError, leafError, h l List.mem_cons_self]
    rw [List.findSome?_cons, List.findSome?_cons, hl, ih fun l hl => h l (List.mem_cons_of_mem _ hl)]

/-- Two traversals that agree on the leaves have the same outcome. -/
theorem traverseLeaves_congr {ε : Type} {f g : Expr → Except ε Expr} {e : Expr}
    (h : ∀ l ∈ e.leaves, f l = g l) : e.traverseLeaves f = e.traverseLeaves g := by
  have hv : e.mapLeaves (leafValue f) = e.mapLeaves (leafValue g) :=
    mapLeaves_congr fun l hl => by rw [leafValue, leafValue, h l hl]
  rw [traverseLeaves_eq, traverseLeaves_eq, findSome?_leafError_congr h, hv]

end Expr

end VirtualCatalog
