import VirtualCatalog.Bridge.Rows

/-!
# Checks of written rows

`guardStatement` guards the first value of an `INSERT` or `UPDATE` with the check predicate, pointed
at the row as it will be: an unqualified reference outside subqueries becomes the written value, or
the column of the row on the source.  Every other reference is left as it stands and reads the row
that is still there.

* `SeamWrite` : one row of a write, with the seam that carries its new values.
* `SeamWrite.reading` : what the references of the check stand for once the guard is built.
* `SeamWrite.ReadsAfter` : a reference reads the row after the write.
* `SeamWrite.guard_decides` : if all references of a check do, the guard lets the row through exactly if
  the check is `TRUE` on the written row.
* `SeamWrite.guard_decides_iff` : the guard decides every check over the references of a check so exactly
  if all of them do.
-/

namespace VirtualCatalog

/-- One row of an `INSERT` or `UPDATE` of a table, as the source evaluates it. -/
structure SeamWrite (t : SourceTable) where
  target : CrossingWriteTarget
  built : CrossingWriteStatement
  /-- The row that is there before an update; the defaults of an insert. -/
  base : t.Row
  keys : List Value
  newValues : List Value
  /-- The first value, which the guard stands in front of, and the others. -/
  value : Expr
  more : List Expr
  table_eq : target.table = t.name
  verb_eq : target.verb = .insert ∨ target.verb = .update
  keys_length : keys.length = if target.verb = .update then target.keyColumns.length else 0
  carries : Carries built target.setColumns keys newValues
  expressions_eq : built.expressions = value :: more

namespace SeamWrite

variable {t : SourceTable} (w : SeamWrite t)

/-- The rows beside the seam: the row of an update, none for an insert. -/
def rows : Scope := if w.target.verb = .update then [w.base.scope] else []

/-- What the written expressions are evaluated over. -/
def scope : Scope := w.rows ++ [w.built.seamScope (w.keys ++ w.newValues)]

/-- The row as it stands after the write. -/
def after : t.Row := w.base.write w.target.setColumns w.newValues

/-- The check as the guard holds it. -/
def pointed (check : Expr) : Expr :=
  pointCheckAtUpdatedRow check w.target.table w.target.setColumns w.built w.keys.length

/-- The first written value once the policy is grafted on. -/
def guarded (check : Expr) : Option Expr :=
  (graft w.target none (some check) w.built).expressions.head?

/-- How the guard reads the check: a bare name outside subqueries is the written value of its
column, or a column of the row on the source; all else is read over the row on the source. -/
def reading : Reading := fun params inSubquery p =>
  if inSubquery = false ∧ p.isQualified = false then
    match w.target.setColumns.findIdx? (ciEq · p.name) with
    | some i => (w.newValues[i]?).map fun v => (.column v, [])
    | none => w.rows.read params false ⟨[w.target.table], p.name⟩
  else w.rows.read params inSubquery p

end SeamWrite

/-- The check failed: `FALSE` or `NULL`. -/
def Violated (outcome : Except EvalError Den) : Prop :=
  outcome = .ok (.value (.boolean false)) ∨ outcome = .ok (.value .null)

/-- The guard decides the write of `value` as a check with the given outcome should. -/
structure GuardDecides (sem : Semantics) (scope : Scope) (guard value : Expr)
    (outcome : Except EvalError Den) : Prop where
  binds : guard.binds scope.read [] = true
  passes : IsTrue outcome → guard.eval sem scope.read [] = value.eval sem scope.read []
  only : ∀ d, guard.eval sem scope.read [] = .ok d → IsTrue outcome
  refuses : Violated outcome → guard.eval sem scope.read [] = .error (.raised checkViolation)

section

variable {sem : Semantics} {read : Reading} {check value : Expr}

/-- The guard is the value if the check is `TRUE`, and the policy error if it is anything else. -/
theorem eval_guardWithCheck : (guardWithCheck check value).eval sem read [] =
    (check.eval sem read []).bind fun d =>
      if d.isTrue then value.eval sem read [] else .error (.raised checkViolation) := by
  have herror : Expr.eval sem read [] (.node (.call "error") [.constant (.varchar checkViolation)]) =
      .error (.raised checkViolation) := by
    have := sem.call_error checkViolation
    simp [Expr.eval, Expr.evalList, Op.result, bind, Except.bind, pure, Except.pure, this]
  rw [guardWithCheck, Expr.eval, Expr.evalList, Expr.evalList, Expr.evalList, Expr.evalList,
    herror]
  rfl

theorem binds_guardWithCheck {params : List String} : (guardWithCheck check value).binds read params =
    (check.binds read params && value.binds read params) := by
  simp [guardWithCheck, Expr.binds, Expr.bindsList]

end

namespace SeamWrite

variable {t : SourceTable} {w : SeamWrite t} {sem : Semantics} {check : Expr}

theorem guarded_eq (w : SeamWrite t) (check : Expr) :
    w.guarded check = some (guardWithCheck (w.pointed check) w.value) := by
  rcases w.verb_eq with hv | hv
  · have hk : w.keys.length = 0 := by simp [w.keys_length, hv]
    simp [guarded, graft, hv, guardStatement, guardFirst, w.expressions_eq, pointed, hk]
  · have hk : w.target.keyColumns.length = w.keys.length := by simp [w.keys_length, hv]
    simp [guarded, graft, hv, guardStatement, guardFirst, narrow, w.expressions_eq, pointed, hk]

theorem rows_not_seam (w : SeamWrite t) (h : FreshName w.built w.target.table) :
    ∀ r ∈ w.rows, ciEq r.name w.built.seamAlias = false := by
  intro r hr
  rw [rows] at hr
  split_ifs at hr
  · rw [List.mem_singleton.1 hr, SourceTable.Row.scope, ← w.table_eq]
    simpa [ciEq] using Ne.symm h.1
  · cases hr

/-- A reference without the seam's names is read over the rows beside the seam. -/
theorem scope_read {params : List String} {inSubquery : Bool} {p : ColumnPath}
    (h : ∀ n ∈ p.names, FreshName w.built n) :
    w.scope.read params inSubquery p = w.rows.read params inSubquery p :=
  Scope.read_append fun n hn => ⟨CrossingWriteStatement.seamScope_not_called (h n hn),
    CrossingWriteStatement.seamScope_column?_none (h n hn)⟩

/-- A pointed reference means what the reading says. -/
theorem read_pointLeaf (params : List String) {p : ColumnPath}
    (hf : FreshName w.built w.target.table) (hp : ∀ n ∈ p.names, FreshName w.built n) :
    ∃ p', pointLeaf w.target.table w.target.setColumns w.built w.keys.length (.columnRef p) =
        .columnRef p' ∧ w.scope.read params false p' = w.reading params false p := by
  by_cases hq : p.isQualified = true
  · refine ⟨p, by simp [pointLeaf, hq], ?_⟩
    rw [scope_read hp, reading, if_neg (by simp [hq])]
  · have hq : p.isQualified = false := by simpa using hq
    rw [pointLeaf, if_neg (by simp [hq]), reading, if_pos ⟨rfl, hq⟩]
    cases hi : w.target.setColumns.findIdx? (ciEq · p.name) with
    | some i =>
      have hlt : i < w.target.setColumns.length := (List.findIdx?_eq_some_iff_getElem.1 hi).1
      have hv : i < w.newValues.length := by rw [w.carries.values]; exact hlt
      refine ⟨_, rfl, ?_⟩
      have hcol := CrossingWriteStatement.seamScope_column? w.carries hlt
      dsimp only
      rw [List.getElem?_eq_getElem hv] at hcol ⊢
      exact Scope.read_seam (rows_not_seam w hf) hcol
    | none =>
      refine ⟨_, rfl, scope_read fun n hn => ?_⟩
      rcases List.mem_cons.1 hn with rfl | hn
      · exact hf
      · rw [List.mem_singleton.1 hn]
        exact hp _ (by simp [ColumnPath.names])

/-- The pointed check binds only without lambdas, and then as the reading says. -/
theorem binds_pointed (hf : FreshSeam w.built w.target.table check) :
    (w.pointed check).binds w.scope.read [] = true ↔
      check.lambdaFree = true ∧ check.binds w.reading [] = true := by
  have same (hl : check.lambdaFree = true) :
      (w.pointed check).binds w.scope.read [] = check.binds w.reading [] := by
    refine Expr.binds_mapLeaves hl (fun l hl => ?_) fun p hp => ?_
    · rcases Expr.leaf_cases hl with ⟨v, rfl⟩ | ⟨n, rfl⟩ | ⟨p, rfl⟩
      · rfl
      · rfl
      · obtain ⟨p', hp', hr⟩ := read_pointLeaf [] hf.table (hf.leaves p hl)
        rw [hp', Expr.binds, Expr.binds, hr]
    · rw [scope_read (hf.outer p hp), reading, if_neg (by simp)]
  constructor
  · intro h
    have hl := Expr.lambdaFree_of_binds_mapLeaves
      (fun l hl => lambdaParams_pointLeaf hl _ _ _ _) h
    exact ⟨hl, same hl ▸ h⟩
  · rintro ⟨hl, h⟩
    rw [same hl, h]

/-- Without lambdas, the pointed check has the value of the check under the reading. -/
theorem eval_pointed (hf : FreshSeam w.built w.target.table check)
    (hl : check.lambdaFree = true) :
    (w.pointed check).eval sem w.scope.read [] = check.eval sem w.reading [] := by
  refine Expr.eval_mapLeaves hl (fun l hl => ?_) fun p hp => ?_
  · rcases Expr.leaf_cases hl with ⟨v, rfl⟩ | ⟨n, rfl⟩ | ⟨p, rfl⟩
    · rfl
    · rfl
    · obtain ⟨p', hp', hr⟩ := read_pointLeaf [] hf.table (hf.leaves p hl)
      rw [hp', Expr.eval, Expr.eval, Expr.readRef, Expr.readRef]
      exact congrArg _ (by rw [List.map_nil, hr])
  · rw [Expr.readRef, Expr.readRef, List.map_nil, scope_read (hf.outer p hp), reading,
      if_neg (by simp)]

/-- The guard over the scope of the write. -/
theorem eval_guarded (w : SeamWrite t) (sem : Semantics) (check : Expr) :
    (guardWithCheck (w.pointed check) w.value).eval sem w.scope.read [] =
      ((w.pointed check).eval sem w.scope.read []).bind fun d =>
        if d.isTrue then w.value.eval sem w.scope.read [] else .error (.raised checkViolation) :=
  eval_guardWithCheck

/-! ### Which references read the row after the write -/

/-- The reference reads the row after the write: it is the bare name, outside subqueries, of a column
that is written, or the update leaves what it refers to as it was. -/
def ReadsAfter (w : SeamWrite t) (inSubquery : Bool) (p : ColumnPath) : Prop :=
  (inSubquery = false ∧ p.isQualified = false ∧
    w.target.setColumns.any (ciEq · p.name) = true) ∨
  (w.target.verb = .update ∧ Expr.readRef (Scope.read [w.base.scope]) [] inSubquery p =
    Expr.readRef (Scope.read [w.after.scope]) [] inSubquery p)

/-- The check has no lambda outside subqueries, and all its references read the row after the write. -/
structure ChecksAfter (w : SeamWrite t) (check : Expr) : Prop where
  lambdaFree : check.lambdaFree = true
  leaves : ∀ p, .columnRef p ∈ check.leaves → w.ReadsAfter false p
  outer : ∀ p ∈ check.outerRefs, w.ReadsAfter true p

/-- The written columns are stored ones. -/
def SetsStored (w : SeamWrite t) : Prop := ∀ c ∈ w.target.setColumns, t.isStored c = true

/-- The row after the write has the columns of the row before. -/
theorem isSome_read_after {inSubquery : Bool} {p : ColumnPath} :
    (Scope.read [w.base.scope] [] inSubquery p).isSome =
      (Scope.read [w.after.scope] [] inSubquery p).isSome := by
  have hcolumns : ∀ c, (w.base.scope.column? c).isSome = (w.after.scope.column? c).isSome :=
    fun c => (w.base.isSome_column? c).trans (w.after.isSome_column? c).symm
  exact Scope.isSome_read_congr (by rfl) (by rfl) hcolumns

/-- A bare name of a stored column is read on the row after the write, of an insert if it lists the
column. -/
theorem reading_stored {p : ColumnPath} (hq : p.isQualified = false) (hst : t.isStored p.name = true)
    (hins : w.target.verb = .insert → w.target.setColumns.any (ciEq · p.name) = true) :
    w.reading [] false p = Scope.read [w.after.scope] [] false p := by
  rw [ColumnPath.eq_plain hq]
  generalize p.name = c at hst hins
  obtain ⟨e, he⟩ := w.base.find?_stored hst
  have hbase : w.base.scope.column? c = some e.2 := by
    rw [SourceTable.Row.column?_stored _ hst, he]
    rfl
  rw [Scope.read_bare, after, SourceTable.Row.column?_write _ _ _ hst, hbase, reading,
    if_pos ⟨rfl, ColumnPath.isQualified_plain c⟩]
  change (match w.target.setColumns.findIdx? (ciEq · c) with | some i => _ | none => _) = _
  cases hi : w.target.setColumns.findIdx? (ciEq · c) with
  | some i =>
    have hv : i < w.newValues.length := by
      rw [w.carries.values]
      exact (List.findIdx?_eq_some_iff_getElem.1 hi).1
    simp [SourceTable.written, hi, List.getElem?_eq_getElem hv]
  | none =>
    -- a column that is not written is one of the row that an update keeps
    have hupd : w.target.verb = .update := by
      refine w.verb_eq.resolve_left fun hv => ?_
      obtain ⟨s, hs, hc⟩ := List.any_eq_true.1 (hins hv)
      rw [List.findIdx?_eq_none_iff] at hi
      exact absurd hc (by simp [hi s hs])
    have hcalled : w.base.scope.isCalled none w.target.table = true := by
      simp [TableScope.isCalled, SourceTable.Row.scope, w.table_eq]
    rw [rows, if_pos hupd]
    simpa [SourceTable.written, hi, ColumnPath.plain] using Scope.read_qualified hcalled hbase

/-- A bare name of a written column is read as its new value. -/
theorem reading_written (hset : w.SetsStored) {p : ColumnPath} (hq : p.isQualified = false)
    (hw : w.target.setColumns.any (ciEq · p.name) = true) :
    w.reading [] false p = Scope.read [w.after.scope] [] false p := by
  obtain ⟨c, hc, heq⟩ := List.any_eq_true.1 hw
  refine reading_stored hq ?_ fun _ => hw
  rw [← SourceTable.isStored_congr (ciEq_iff.1 heq)]
  exact hset c hc

/-- Every other reference is read over the row that is there. -/
theorem reading_other {inSubquery : Bool} {p : ColumnPath}
    (h : ¬(inSubquery = false ∧ p.isQualified = false ∧
      w.target.setColumns.any (ciEq · p.name) = true))
    (hbind : (Scope.read [w.after.scope] [] inSubquery p).isSome = true) :
    w.reading [] inSubquery p =
      if w.target.verb = .update then Scope.read [w.base.scope] [] inSubquery p else none := by
  rw [reading, rows]
  by_cases hbare : inSubquery = false ∧ p.isQualified = false
  · obtain ⟨rfl, hq⟩ := hbare
    have hnone : w.target.setColumns.findIdx? (ciEq · p.name) = none := by
      rw [List.findIdx?_eq_none_iff]
      intro c hc
      by_contra hne
      exact h ⟨rfl, hq, List.any_eq_true.2 ⟨c, hc, by simpa using hne⟩⟩
    rw [if_pos ⟨rfl, hq⟩, hnone]
    dsimp only
    split_ifs with hupd
    · rw [← isSome_read_after, ColumnPath.eq_plain hq, Scope.read_bare, Option.isSome_map,
        Option.isSome_iff_exists] at hbind
      obtain ⟨v, hv⟩ := hbind
      have hcalled : w.base.scope.isCalled none w.target.table = true := by
        simp [TableScope.isCalled, SourceTable.Row.scope, w.table_eq]
      rw [Scope.read_qualified hcalled hv, ColumnPath.eq_plain hq, Scope.read_bare, hv]
      rfl
    · exact Scope.read_nil
  · rw [if_neg hbare]
    split_ifs
    · rfl
    · exact Scope.read_nil

/-- A reference reads the row after the write exactly if the guard binds it, to the value that it has
there. -/
theorem readsAfter_iff (hset : w.SetsStored) {inSubquery : Bool} {p : ColumnPath}
    (hbind : (Scope.read [w.after.scope] [] inSubquery p).isSome = true) :
    w.ReadsAfter inSubquery p ↔ (w.reading [] inSubquery p).isSome = true ∧
      Expr.readRef w.reading [] inSubquery p =
        Expr.readRef (Scope.read [w.after.scope]) [] inSubquery p := by
  by_cases hw : inSubquery = false ∧ p.isQualified = false ∧
      w.target.setColumns.any (ciEq · p.name) = true
  · obtain ⟨rfl, hq, hw⟩ := hw
    refine iff_of_true (.inl ⟨rfl, hq, hw⟩) ?_
    have hread := reading_written hset hq hw
    rw [hread]
    exact ⟨hbind, by rw [Expr.readRef, Expr.readRef, List.map_nil, hread]⟩
  · have hread := reading_other hw hbind
    rw [ReadsAfter, or_iff_right hw]
    by_cases hupd : w.target.verb = .update
    · rw [if_pos hupd] at hread
      have hreading : Expr.readRef w.reading [] inSubquery p =
          Expr.readRef (Scope.read [w.base.scope]) [] inSubquery p := by
        rw [Expr.readRef, Expr.readRef, List.map_nil, hread]
      rw [hread, hreading, isSome_read_after]
      exact (and_iff_right hupd).trans (and_iff_right hbind).symm
    · rw [if_neg hupd] at hread
      rw [hread]
      exact iff_of_false (fun h => hupd h.1) fun h => by cases h.1

/-! ### Deciding -/

/-- **If all references of a check read the row after the write, the guard decides** whether the row is
written as the check does on the row after the write. -/
theorem guard_decides (hset : w.SetsStored) (hf : FreshSeam w.built w.target.table check)
    (hb : w.value.binds w.scope.read [] = true)
    (hbind : check.binds (Scope.read [w.after.scope]) [] = true) (h : w.ChecksAfter check) :
    GuardDecides sem w.scope (guardWithCheck (w.pointed check) w.value) w.value
      (check.eval sem (Scope.read [w.after.scope]) []) := by
  have hleaf := fun p hp => (readsAfter_iff hset (Expr.isSome_of_binds h.lambdaFree hbind hp)).1
    (h.leaves p hp)
  have houter := fun p hp => (readsAfter_iff hset
    (Expr.isSome_outer_of_binds h.lambdaFree hbind hp)).1 (h.outer p hp)
  have hpointed : (w.pointed check).eval sem w.scope.read [] =
      check.eval sem (Scope.read [w.after.scope]) [] :=
    (eval_pointed hf h.lambdaFree).trans
      (Expr.eval_congr h.lambdaFree (fun p hp => (hleaf p hp).2) fun p hp => (houter p hp).2)
  have hguard := w.eval_guarded sem check
  rw [hpointed] at hguard
  refine ⟨?_, fun ho => ?_, fun d hd => ?_, fun ho => ?_⟩
  · rw [binds_guardWithCheck, hb, Bool.and_true, binds_pointed hf]
    refine ⟨h.lambdaFree, (Expr.binds_congr h.lambdaFree (fun p hp => ?_) fun p hp => ?_).trans hbind⟩
    · rw [(hleaf p hp).1, Expr.isSome_of_binds h.lambdaFree hbind hp]
    · rw [(houter p hp).1, Expr.isSome_outer_of_binds h.lambdaFree hbind hp]
  · obtain ⟨m, hm, htrue⟩ := ho
    rw [hguard, hm]
    simp [Except.bind, htrue]
  · cases hm : check.eval sem (Scope.read [w.after.scope]) [] with
    | error e =>
      rw [hguard, hm] at hd
      cases hd
    | ok m =>
      rw [isTrue_ok]
      by_contra hne
      rw [hguard, hm] at hd
      simp [Except.bind, hne] at hd
  · rw [hguard]
    rcases ho with ho | ho
    · rw [ho]
      rfl
    · rw [ho]
      rfl

/-- A check with a lambda outside subqueries does not bind as a guard. -/
theorem lambdaFree_of_decides {outcome : Except EvalError Den}
    (hf : FreshSeam w.built w.target.table check)
    (h : GuardDecides sem w.scope (guardWithCheck (w.pointed check) w.value) w.value outcome) :
    check.lambdaFree = true ∧ check.binds w.reading [] = true := by
  have hbinds := h.binds
  rw [binds_guardWithCheck, Bool.and_eq_true] at hbinds
  exact (binds_pointed hf).1 hbinds.1

end SeamWrite

/-! ### A check of a single reference -/

namespace Expr

/-- A predicate of a reference, by a function of the source or a subquery. -/
def probe (inSubquery : Bool) (p : ColumnPath) : Expr :=
  if inSubquery then .subquery [] ⟨"probe", [p]⟩ else .node (.call "probe") [.columnRef p]

/-- A source whose function and subquery of this name decide by the value of the reference. -/
def probing (f : Value → Bool) : Semantics where
  call name args :=
    match name, args with
    | "error", [.value (.varchar m)] => .error (.raised m)
    | "probe", [.value v] => .ok (.boolean (f v))
    | _, _ => .ok .null
  subquery _ _ outer := .ok (.boolean (f (outer.headD .null)))
  call_error _ := rfl

variable {inSubquery : Bool} {p : ColumnPath} {read : Reading}

theorem lambdaFree_probe : (probe inSubquery p).lambdaFree = true := by
  cases inSubquery <;> rfl

theorem binds_probe : (probe inSubquery p).binds read [] = (read [] inSubquery p).isSome := by
  cases inSubquery <;> simp [probe, binds, bindsList]

theorem eval_probe (f : Value → Bool) : (probe inSubquery p).eval (probing f) read [] =
    (readRef read [] inSubquery p).map fun v => .value (.boolean (f v)) := by
  cases inSubquery with
  | false =>
    rw [probe, if_neg (by decide), eval, evalList, evalList, eval]
    cases readRef read [] false p <;> rfl
  | true =>
    rw [probe, if_pos rfl, eval, evalList]
    cases h : readRef read [] true p <;> simp [h, probing, bind, Except.bind, pure, Except.pure,
      Except.map]

/-- An expression that has no more than another: its references, and a lambda only if that has one. -/
structure Within (e check : Expr) : Prop where
  lambdaFree : check.lambdaFree = true → e.lambdaFree = true
  leaves : ∀ p, .columnRef p ∈ e.leaves → .columnRef p ∈ check.leaves
  outer : ∀ p ∈ e.outerRefs, p ∈ check.outerRefs

theorem Within.refl (e : Expr) : e.Within e := ⟨id, fun _ h => h, fun _ h => h⟩

theorem within_probe_leaf {check : Expr} (h : .columnRef p ∈ check.leaves) :
    (probe false p).Within check where
  lambdaFree _ := rfl
  leaves q hq := by
    have : q = p := by simpa [probe, Expr.leaves] using hq
    rwa [this]
  outer q hq := by
    simp [probe, outerRefs] at hq

theorem within_probe_outer {check : Expr} (h : p ∈ check.outerRefs) :
    (probe true p).Within check where
  lambdaFree _ := rfl
  leaves q hq := by
    simp [probe, Expr.leaves] at hq
  outer q hq := by
    have : q = p := by simpa [probe, outerRefs] using hq
    rwa [this]

end Expr

theorem FreshSeam.mono {built : CrossingWriteStatement} {table : String} {e check : Expr}
    (h : FreshSeam built table check) (he : e.Within check) : FreshSeam built table e where
  table := h.table
  leaves p hp := h.leaves p (he.leaves p hp)
  outer p hp := h.outer p (he.outer p hp)

namespace SeamWrite

variable {t : SourceTable} {w : SeamWrite t} {check : Expr}

/-- **A reference that the guard misreads lets it go wrong**: with some function of the source it
refuses a row that the check permits, or the other way round. -/
theorem readsAfter_of_probes (hset : w.SetsStored) {inSubquery : Bool} {p : ColumnPath}
    (hf : FreshSeam w.built w.target.table (.probe inSubquery p))
    (hd : ∀ sem, ∃ d, w.value.eval sem w.scope.read [] = .ok d)
    (hbind : (Scope.read [w.after.scope] [] inSubquery p).isSome = true)
    (h : ∀ sem, GuardDecides sem w.scope
      (guardWithCheck (w.pointed (.probe inSubquery p)) w.value) w.value
      ((Expr.probe inSubquery p).eval sem (Scope.read [w.after.scope]) [])) :
    w.ReadsAfter inSubquery p := by
  classical
  rw [readsAfter_iff hset hbind]
  have hbinds := (lambdaFree_of_decides hf (h (Expr.probing fun _ => true))).2
  rw [Expr.binds_probe] at hbinds
  refine ⟨hbinds, ?_⟩
  -- what the guard computes of a function of the reference
  have hguard : ∀ f : Value → Bool, ∃ d, w.value.eval (Expr.probing f) w.scope.read [] = .ok d ∧
      (guardWithCheck (w.pointed (.probe inSubquery p)) w.value).eval (Expr.probing f)
        w.scope.read [] = (Expr.readRef w.reading [] inSubquery p).bind fun v =>
          if f v then .ok d else .error (.raised checkViolation) := by
    intro f
    obtain ⟨d, hd⟩ := hd (Expr.probing f)
    refine ⟨d, hd, ?_⟩
    rw [w.eval_guarded, eval_pointed hf Expr.lambdaFree_probe, Expr.eval_probe, hd]
    cases Expr.readRef w.reading [] inSubquery p <;> rfl
  cases hafter : Expr.readRef (Scope.read [w.after.scope]) [] inSubquery p with
  | ok v =>
    -- a function that is false of the value after the write only
    obtain ⟨d, -, hg⟩ := hguard fun x => !decide (x = v)
    have hrefuses := (h (Expr.probing fun x => !decide (x = v))).refuses (.inl (by
      rw [Expr.eval_probe, hafter]
      simp [Except.map]))
    rw [hg] at hrefuses
    cases hread : Expr.readRef w.reading [] inSubquery p with
    | error e =>
      rw [hread] at hrefuses
      obtain rfl := Except.error.inj hrefuses
      exact absurd hread (Expr.readRef_ne_raised _)
    | ok v' =>
      rw [hread] at hrefuses
      by_contra hne
      have hne' : v' ≠ v := fun heq => hne (by rw [heq])
      simp [Except.bind, hne'] at hrefuses
  | error e =>
    obtain ⟨d, -, hg⟩ := hguard fun _ => true
    cases hread : Expr.readRef w.reading [] inSubquery p with
    | error e' => rw [Expr.readRef_error hread, Expr.readRef_error hafter]
    | ok v' =>
      -- the guard lets the row through, and the check has no outcome
      rw [hread] at hg
      have htrue := (h (Expr.probing fun _ => true)).only d hg
      rw [Expr.eval_probe, hafter] at htrue
      cases isTrue_error htrue

/-- **The guard decides every check over the references of a check**, whatever the functions and
subqueries of the source compute, exactly if there is no lambda outside subqueries and all references
read the row after the write. -/
theorem guard_decides_iff (hset : w.SetsStored) (hf : FreshSeam w.built w.target.table check)
    (hb : w.value.binds w.scope.read [] = true)
    (hd : ∀ sem, ∃ d, w.value.eval sem w.scope.read [] = .ok d)
    (hbind : check.binds (Scope.read [w.after.scope]) [] = true) :
    (∀ e : Expr, e.Within check → e.binds (Scope.read [w.after.scope]) [] = true → ∀ sem,
      ∃ guard, w.guarded e = some guard ∧ GuardDecides sem w.scope guard w.value
        (e.eval sem (Scope.read [w.after.scope]) [])) ↔ w.ChecksAfter check := by
  constructor
  · intro h
    have hdecides : ∀ e : Expr, e.Within check → e.binds (Scope.read [w.after.scope]) [] = true →
        ∀ sem, GuardDecides sem w.scope (guardWithCheck (w.pointed e) w.value) w.value
          (e.eval sem (Scope.read [w.after.scope]) []) := by
      intro e he hbinds sem
      obtain ⟨guard, hguard, hdec⟩ := h e he hbinds sem
      rw [guarded_eq] at hguard
      obtain rfl := Option.some.inj hguard
      exact hdec
    have hl := (lambdaFree_of_decides hf
      (hdecides check (.refl check) hbind (Expr.probing fun _ => true))).1
    refine ⟨hl, fun p hp => ?_, fun p hp => ?_⟩
    · have hp' := Expr.within_probe_leaf hp
      have hsome := Expr.isSome_of_binds hl hbind hp
      exact readsAfter_of_probes hset (hf.mono hp') hd hsome
        (hdecides _ hp' (by rw [Expr.binds_probe, hsome]))
    · have hp' := Expr.within_probe_outer hp
      have hsome := Expr.isSome_outer_of_binds hl hbind hp
      exact readsAfter_of_probes hset (hf.mono hp') hd hsome
        (hdecides _ hp' (by rw [Expr.binds_probe, hsome]))
  · intro h e he hbinds sem
    have he' : w.ChecksAfter e := ⟨he.lambdaFree h.lambdaFree,
      fun p hp => h.leaves p (he.leaves p hp), fun p hp => h.outer p (he.outer p hp)⟩
    exact ⟨_, guarded_eq w e, guard_decides hset (hf.mono he) hb hbinds he'⟩

end SeamWrite

namespace Sample

/-- `UPDATE orders SET tenant = 2` of a row of tenant 1. -/
def reassign : SeamWrite ordersTable where
  target := { target with setColumns := ["tenant"] }
  built := built
  base := ⟨[.integer 1, .integer 5], rfl⟩
  keys := []
  newValues := [.integer 2]
  value := .columnRef ⟨["seam"], "s0"⟩
  more := []
  table_eq := rfl
  verb_eq := .inr rfl
  keys_length := rfl
  carries := ⟨rfl, rfl, by decide⟩
  expressions_eq := rfl

/-- `orders.tenant = 1`. -/
def qualifiedRows : Expr :=
  .node (.call "=") [.columnRef ⟨["orders"], "tenant"⟩, .constant (.integer 1)]

theorem reassign_stored : reassign.SetsStored := fun c hc => by
  rw [List.mem_singleton.1 hc]
  decide

theorem reassign_fresh {e : Expr} (h : ∀ p, .columnRef p ∈ e.leaves → ∀ n ∈ p.names,
    FreshName built n) (ho : e.outerRefs = []) : FreshSeam reassign.built reassign.target.table e :=
  ⟨⟨by decide, by decide⟩, h, by simp [ho]⟩

end Sample

/-- A qualified reference lets an update move a row out of the policy that permitted it. -/
theorem guard_not_decides :
    ¬ ∀ (t : SourceTable) (w : SeamWrite t) (sem : Semantics) (check : Expr),
      w.SetsStored → FreshSeam w.built w.target.table check →
        w.value.binds w.scope.read [] = true →
        (∃ d, w.value.eval sem w.scope.read [] = .ok d) →
        check.binds (Scope.read [w.after.scope]) [] = true →
        ∀ guard, w.guarded check = some guard → GuardDecides sem w.scope guard w.value
          (check.eval sem (Scope.read [w.after.scope]) []) := by
  intro h
  have hfresh : FreshSeam Sample.reassign.built Sample.reassign.target.table
      Sample.qualifiedRows := by
    refine Sample.reassign_fresh (fun p hp n hn => ?_) rfl
    simp [Sample.qualifiedRows, Expr.leaves] at hp
    subst hp
    simp [ColumnPath.names] at hn
    rcases hn with rfl | rfl <;> exact ⟨by decide, by decide⟩
  have hdec := h _ Sample.reassign Sample.semantics Sample.qualifiedRows Sample.reassign_stored
    hfresh rfl ⟨_, rfl⟩ rfl _ rfl
  have hrefused := hdec.refuses (.inl rfl)
  cases hrefused

/-- A check with a bare name reads the written row. -/
theorem guard_decides_iff_reassign :
    ∃ guard, Sample.reassign.guarded Sample.ownRows = some guard ∧
      GuardDecides Sample.semantics Sample.reassign.scope guard Sample.reassign.value
        (Sample.ownRows.eval Sample.semantics (Scope.read [Sample.reassign.after.scope]) []) := by
  have hleaf : ∀ p, Expr.columnRef p ∈ Sample.ownRows.leaves → p = .plain "tenant" := by
    intro p hp
    simpa [Sample.ownRows, Sample.tenantIs, Expr.leaves] using hp
  have hfresh : FreshSeam Sample.reassign.built Sample.reassign.target.table Sample.ownRows := by
    refine Sample.reassign_fresh (fun p hp n hn => ?_) rfl
    rw [hleaf p hp, ColumnPath.names_plain, List.mem_singleton] at hn
    subst hn
    exact ⟨by decide, by decide⟩
  have hafter : Sample.reassign.ChecksAfter Sample.ownRows := by
    refine ⟨rfl, fun p hp => ?_, fun p hp => ?_⟩
    · rw [hleaf p hp]
      exact .inl ⟨rfl, rfl, by decide⟩
    · cases hp
  exact (@SeamWrite.guard_decides_iff _ Sample.reassign _ Sample.reassign_stored hfresh rfl
    (fun _ => ⟨_, rfl⟩) rfl).2 hafter Sample.ownRows (.refl _) rfl Sample.semantics

end VirtualCatalog
