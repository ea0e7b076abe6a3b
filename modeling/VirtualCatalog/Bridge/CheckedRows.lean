import VirtualCatalog.Bridge.HiddenRows
import VirtualCatalog.Bridge.UpdatedRow

/-!
# Rows that a guest writes

`PolicyShaper` guards the first value of an `INSERT` or `UPDATE` with the check of the verb.  A row
can come into a table only through such a value, so over a whole session every row was there before
or passes a check.

* `SeamStatement` : a statement whose values are the columns of the seam, as they are built.
* `BareCheck` : a check that names written and kept columns without a qualifier.
* `SeamWrite.checked` : the values of a guarded row are those of the seam, and the row passes.
* `applied_adds`, `perform_adds` : the rows of a table after one statement.
* `checked_rows` : every row was there at the beginning or passes the check.
-/

namespace VirtualCatalog

/-- How many columns of the seam precede the written ones. -/
def CrossingWriteTarget.keyCount (target : CrossingWriteTarget) : Nat :=
  if target.verb = .update then target.keyColumns.length else 0

/-- The seam column of the `i`-th written column. -/
def CrossingWriteStatement.seamColumn (built : CrossingWriteStatement) (keyCount i : Nat) : Expr :=
  .columnRef ⟨[built.seamAlias], built.seamColumns.getD (keyCount + i) ""⟩

/-- A statement that writes the columns of its seam. -/
structure SeamStatement (target : CrossingWriteTarget) (built : CrossingWriteStatement) : Prop where
  columns : built.seamColumns.length = target.keyCount + target.setColumns.length
  nodup : (built.seamColumns.map fold).Nodup
  expressions : built.expressions =
    (List.range target.setColumns.length).map (built.seamColumn target.keyCount)
  writes : target.setColumns ≠ []
  table : FreshName built target.table

/-- A check over written and kept columns that it names without a qualifier, outside subqueries and
lambdas. -/
structure BareCheck (t : SourceTable) (target : CrossingWriteTarget)
    (built : CrossingWriteStatement) (check : Expr) : Prop where
  lambdaFree : check.lambdaFree = true
  outer : check.outerRefs = []
  columns : ∀ path, .columnRef path ∈ check.leaves → path.isQualified = false ∧
    t.isStored path.name = true ∧
    (target.verb = .insert → target.setColumns.any (ciEq · path.name) = true) ∧
    ∀ n ∈ path.names, FreshName built n

/-- Filling keeps a check bare. -/
theorem BareCheck.fill {t : SourceTable} {target : CrossingWriteTarget}
    {built : CrossingWriteStatement} {values : ContextValues} {c e : Expr}
    (h : BareCheck t target built c) (he : fillContext values c = .ok e) :
    BareCheck t target built e where
  lambdaFree := (shape_of_fillContext he).1.trans h.lambdaFree
  outer := (shape_of_fillContext he).2.2.trans h.outer
  columns path hp := h.columns path (columnRef_of_fillContext he hp)

/-! ### One row -/

theorem valueOf_eq_ok {sem : Semantics} {scope : Scope} {e : Expr} {v : Value} :
    valueOf sem scope e = .ok v ↔ e.binds scope.read [] = true ∧
      ∃ d, e.eval sem scope.read [] = .ok d ∧ d.toValue = .ok v := by
  rw [valueOf]
  split_ifs with h
  · cases he : e.eval sem scope.read [] <;> simp [Except.bind, h]
  · simp [h]

namespace SeamWrite

variable {t : SourceTable} {w : SeamWrite t} {sem : Semantics} {check : Expr}

/-- A column of the seam has the value that the seam carries. -/
theorem valueOf_seamColumn (hstatement : SeamStatement w.target w.built) {i : Nat}
    (hi : i < w.target.setColumns.length) {v : Value}
    (h : valueOf sem w.scope (w.built.seamColumn w.target.keyCount i) = .ok v) :
    w.newValues[i]? = some v := by
  have hkeys : w.keys.length = w.target.keyCount := w.keys_length
  have hlt : i < w.newValues.length := by rw [w.carries.values]; exact hi
  have hcolumn := CrossingWriteStatement.seamScope_column? w.carries hi
  rw [hkeys, List.getElem?_eq_getElem hlt] at hcolumn
  have hread : w.scope.read [] false ⟨[w.built.seamAlias],
      w.built.seamColumns.getD (w.target.keyCount + i) ""⟩ =
        some (.column w.newValues[i], []) :=
    Scope.read_seam (rows_not_seam w hstatement.table) hcolumn
  obtain ⟨-, d, hd, hv⟩ := valueOf_eq_ok.1 h
  rw [CrossingWriteStatement.seamColumn, Expr.eval, Expr.readRef, List.map_nil, hread] at hd
  cases hd
  cases hv
  rw [List.getElem?_eq_getElem hlt]

/-- The columns of the seam have the values that it carries. -/
theorem values_eq (hstatement : SeamStatement w.target w.built) {values : List Value}
    (h : (w.value :: w.more).mapM (valueOf sem w.scope) = .ok values) : values = w.newValues := by
  rw [← w.expressions_eq, hstatement.expressions, mapM_eq_ok, List.forall₂_map_left_iff,
    List.forall₂_iff_get] at h
  obtain ⟨hlength, hget⟩ := h
  rw [List.length_range] at hlength
  refine List.ext_getElem (by rw [← hlength, w.carries.values]) fun i hi hi' => ?_
  have hvalue := hget i (by rwa [List.length_range, hlength]) hi
  simp only [List.get_eq_getElem, List.getElem_range] at hvalue
  have hcarried := valueOf_seamColumn hstatement (by rwa [hlength]) hvalue
  rw [List.getElem?_eq_getElem hi', Option.some_inj] at hcarried
  exact hcarried.symm

/-- **A guarded row** is written as the seam says, and passes the check. -/
theorem checked (hstatement : SeamStatement w.target w.built)
    (hbare : BareCheck t w.target w.built check) {values : List Value}
    (h : (guardWithCheck (w.pointed check) w.value :: w.more).mapM (valueOf sem w.scope) =
      .ok values) :
    w.base.write w.target.setColumns values = w.after ∧
      IsTrue (check.eval sem (Scope.read [w.after.scope]) []) := by
  have hf : FreshSeam w.built w.target.table check :=
    ⟨hstatement.table, fun p hp => (hbare.columns p hp).2.2.2, fun p hp => by
      rw [hbare.outer] at hp
      cases hp⟩
  rw [mapM_eq_ok] at h
  cases h with
  | @cons _ v _ rest hguard hrest =>
    obtain ⟨hbinds, d, hd, hv⟩ := valueOf_eq_ok.1 hguard
    rw [binds_guardWithCheck, Bool.and_eq_true] at hbinds
    rw [w.eval_guarded sem check, eval_pointed hf hbare.lambdaFree] at hd
    -- the guard has a value only if the check is true
    obtain ⟨m, hm, hd⟩ := bind_eq_ok hd
    have htrue : m.isTrue = true := by
      by_contra hne
      rw [if_neg hne] at hd
      cases hd
    rw [if_pos htrue] at hd
    constructor
    · rw [values_eq hstatement
        (mapM_eq_ok.2 (.cons (valueOf_eq_ok.2 ⟨hbinds.2, d, hd, hv⟩) hrest))]
      rfl
    · have hreads : check.eval sem w.reading [] =
          check.eval sem (Scope.read [w.after.scope]) [] := by
        refine Expr.eval_congr hbare.lambdaFree (fun p hp => ?_) fun p hp => ?_
        · obtain ⟨hq, hst, hins, -⟩ := hbare.columns p hp
          rw [Expr.readRef, Expr.readRef, List.map_nil, SeamWrite.reading_stored hq hst hins]
        · rw [hbare.outer] at hp
          cases hp
      rw [← hreads, hm]
      exact isTrue_ok.2 htrue

end SeamWrite

/-! ### The shaped statement -/

section

variable {t : SourceTable} {s : Store} {sem : Semantics} {target : CrossingWriteTarget}
  {built : CrossingWriteStatement} {plan : Option (List CrossingFloor)} {plans : List FloorPlan}
  {shaped : ShapedWrite} {c : Expr}

/-- The write of one row of the seam. -/
def SeamStatement.write (h : SeamStatement target built) (base : t.Row)
    (htable : target.table = t.name)
    (hverb : target.verb = .insert ∨ target.verb = .update) {values : List Value}
    (hlength : values.length = built.seamColumns.length) {value : Expr} {more : List Expr}
    (hexpressions : built.expressions = value :: more) : SeamWrite t where
  target := target
  built := built
  base := base
  keys := values.take target.keyCount
  newValues := values.drop target.keyCount
  value := value
  more := more
  table_eq := htable
  verb_eq := hverb
  keys_length := by
    rw [List.length_take, hlength, h.columns, Nat.min_eq_left (Nat.le_add_right _ _)]
    rfl
  carries := ⟨by
      rw [List.length_take, hlength, h.columns, Nat.min_eq_left (Nat.le_add_right _ _)],
    by rw [List.length_drop, hlength, h.columns, Nat.add_sub_cancel_left], h.nodup⟩
  expressions_eq := hexpressions

/-- A check is pointed at the seam, whatever the condition. -/
theorem pointLeaf_condition (table : String) (setColumns : List String) (condition : Option Expr)
    (keyCount : Nat) : pointLeaf table setColumns { built with condition } keyCount =
      pointLeaf table setColumns built keyCount := by
  funext l
  cases l <;> rfl

/-- What a shaped `INSERT` or `UPDATE` keeps of its statement, and how it is guarded. -/
theorem shaped_guarded (hverb : target.verb = .insert ∨ target.verb = .update)
    (hcheck : s.book.checkFor target.schema target.table target.verb = some c)
    (h : (write target plan built).run s = .ok (plans, shaped)) :
    ∃ e, fillContext s.context.values c = .ok e ∧
      shaped.statement.seamAlias = built.seamAlias ∧
      shaped.statement.seamColumns = built.seamColumns ∧
      shaped.statement.expressions = guardFirst (pointCheckAtUpdatedRow e target.table
        target.setColumns built target.keyCount) built.expressions := by
  rw [Prog.run_write] at h
  obtain ⟨values, hvalues, h⟩ := bind_eq_ok h
  have hv : values = s.context.values := by
    rw [Prog.run_policyShaper] at hvalues
    split_ifs at hvalues
    exact (Except.ok.inj hvalues).symm
  subst hv
  obtain ⟨plans', -, h⟩ := bind_eq_ok h
  cases hs : (shape target s.context.values built).run s with
  | error e =>
    rw [hs] at h
    cases h
  | ok shaped' =>
    rw [hs] at h
    cases h
    rw [Prog.run_shape] at hs
    obtain ⟨restriction, -, hs⟩ := bind_eq_ok hs
    obtain ⟨filled, hfilled, hs⟩ := bind_eq_ok hs
    cases hs
    rw [show s.book.lookup target.checkLookup = some c from hcheck, fillOption] at hfilled
    cases he : fillContext s.context.values c with
    | error e =>
      rw [he] at hfilled
      cases hfilled
    | ok e =>
      rw [he] at hfilled
      cases hfilled
      refine ⟨e, rfl, ?_⟩
      rcases hverb with hverb | hverb <;> cases restriction <;>
        simp [graft, hverb, narrow, guardStatement, CrossingWriteTarget.keyCount,
          pointCheckAtUpdatedRow, pointLeaf_condition]

end

/-! ### Rows that come in -/

/-- Every row was there before or passes. -/
def Adds (passes : (t : SourceTable) → t.Row → Prop) (t : SourceTable) (rows rows' : List t.Row) :
    Prop := ∀ r ∈ rows', r ∈ rows ∨ passes t r

/-- An insert or update is built over its seam, and the policy's check lets only rows through that
pass. -/
structure ChecksRows (engine : SourceEngine) (s : Store) (tables : List SourceTable)
    (passes : (t : SourceTable) → t.Row → Prop) (target : CrossingWriteTarget) (seam : WriteSeam)
    (built : CrossingWriteStatement) : Prop where
  statement : SeamStatement target built
  fits : ∀ yielded rows, seam.rows yielded = .ok (some rows) →
    ∀ values ∈ rows, values.length = built.seamColumns.length
  isFed : seam ≠ .absent
  check : ∀ t ∈ tables, t.schema = target.schema → t.name = target.table →
    ∃ c, s.book.checkFor t.schema t.name target.verb = some c ∧ BareCheck t target built c ∧
      ∀ e, fillContext s.context.values c = .ok e →
        ∀ r : t.Row, IsTrue (e.eval engine.sem (Scope.read [r.scope]) []) → passes t r

/-- The rows that the statement writes are checked. -/
def GuestStatement.Checked (engine : SourceEngine) (s : Store) (tables : List SourceTable)
    (passes : (t : SourceTable) → t.Row → Prop) : GuestStatement → Prop
  | read _ => True
  | write target seam built => target.verb = .insert ∨ target.verb = .update →
      ChecksRows engine s tables passes target seam built

section

variable {passes : (t : SourceTable) → t.Row → Prop} {engine : SourceEngine} {s : Store}
  {tables : List SourceTable}
  {data data' : SourceData} {st : GuestStatement} {answer : GuestAnswer}

theorem adds_refl (t : SourceTable) (rows : List t.Row) : Adds passes t rows rows :=
  fun _ hr => .inl hr

theorem adds_trans {t : SourceTable} {rows rows' rows'' : List t.Row}
    (h : Adds passes t rows rows') (h' : Adds passes t rows' rows'') :
    Adds passes t rows rows'' :=
  fun r hr => (h' r hr).elim (h r) .inr

/-- A seam that is there has rows. -/
theorem rows_of_fed {seam : WriteSeam} {yielded : List (List (List Value))}
    {rows : Option (List (List Value))} (hfed : seam ≠ .absent)
    (h : seam.rows yielded = .ok rows) : ∃ given, rows = some given := by
  cases seam with
  | absent => exact absurd rfl hfed
  | constant given =>
    cases h
    exact ⟨given, rfl⟩
  | plan floors work =>
    rw [WriteSeam.rows] at h
    cases hwork : work yielded with
    | error e =>
      rw [hwork] at h
      cases h
    | ok given =>
      rw [hwork] at h
      cases h
      exact ⟨given, rfl⟩

section

variable {t : SourceTable} {target : CrossingWriteTarget} {seam : WriteSeam}
  {built : CrossingWriteStatement} {plans : List FloorPlan} {shaped : ShapedWrite}

/-- **A row that a shaped insert or update writes passes.** -/
theorem written_passes (hverb : target.verb = .insert ∨ target.verb = .update)
    (hchecks : ChecksRows engine s tables passes target seam built)
    (hshaped : (VirtualCatalog.write target seam.floors built).run s = .ok (plans, shaped))
    (ht : t ∈ tables) (hschema : t.schema = target.schema) (htable : t.name = target.table)
    {base : t.Row} {values written : List Value}
    (hlength : values.length = built.seamColumns.length)
    (hwritten : shaped.statement.expressions.mapM (valueOf engine.sem
      ((if target.verb = .update then [base.scope] else []) ++
        [shaped.statement.seamScope values])) = .ok written) :
    passes t (base.write target.setColumns written) := by
  obtain ⟨c, hcheck, hbare, hpasses⟩ := hchecks.check t ht hschema htable
  rw [hschema, htable] at hcheck
  obtain ⟨e, he, halias, hcolumns, hexpressions⟩ := shaped_guarded hverb hcheck hshaped
  cases hbuilt : built.expressions with
  | nil =>
    have hexpr := hchecks.statement.expressions
    rw [hbuilt, eq_comm, List.map_eq_nil_iff, List.range_eq_nil, List.length_eq_zero_iff] at hexpr
    exact absurd hexpr hchecks.statement.writes
  | cons value more =>
    let w := hchecks.statement.write base htable.symm hverb hlength hbuilt
    have hscope : w.scope = (if target.verb = .update then [base.scope] else []) ++
        [shaped.statement.seamScope values] := by
      rw [CrossingWriteStatement.seamScope, halias, hcolumns]
      exact congrArg (fun vs => _ ++ [built.seamScope vs]) (List.take_append_drop _ values)
    have hkeys : w.keys.length = target.keyCount := w.keys_length
    have hpointed : w.pointed e = pointCheckAtUpdatedRow e target.table target.setColumns built
        target.keyCount := by
      rw [SeamWrite.pointed, hkeys]
      rfl
    rw [hexpressions, hbuilt, guardFirst, ← hpointed, ← hscope] at hwritten
    obtain ⟨hafter, htrue⟩ := w.checked hchecks.statement (hbare.fill he) hwritten
    rw [show base.write target.setColumns written = w.after from hafter]
    exact hpasses e he w.after htrue

/-- **A shaped statement** puts only rows into a table that pass. -/
theorem applied_adds {yielded : List (List (List Value))} {rows : Option (List (List Value))}
    (hchecks : target.verb = .insert ∨ target.verb = .update →
      ChecksRows engine s tables passes target seam built)
    (hshaped : (VirtualCatalog.write target seam.floors built).run s = .ok (plans, shaped))
    (hrows : seam.rows yielded = .ok rows) {x : StoredTable} (ht : x.table ∈ tables)
    (hnamed : x.IsNamed target.schema target.table) {out : List x.table.Row} {n : Nat}
    (h : shaped.statement.applied engine target rows x = .ok (out, n)) :
    Adds passes x.table x.rows out := by
  intro r hr
  have hedited (hverb : target.verb = .update ∨ target.verb = .delete)
      (hedit : editAll (shaped.statement.edit engine target rows) x.rows = .ok (out, n)) :
      r ∈ x.rows ∨ passes x.table r := by
    refine (mem_editAll hedit hr).imp_right ?_
    rintro ⟨base, -, replaced, hedit, hr⟩
    obtain ⟨kept, hkept, hchange⟩ := bind_eq_ok hedit
    cases kept with
    | nil => cases hchange
    | cons scope more =>
      dsimp only at hchange
      by_cases hdelete : target.verb = .delete
      · rw [if_pos hdelete] at hchange
        cases hchange
        cases hr
      · have hupdate := hverb.resolve_right hdelete
        have hc := hchecks (.inr hupdate)
        obtain ⟨given, rfl⟩ := rows_of_fed hc.isFed hrows
        rw [if_neg hdelete] at hchange
        obtain ⟨written, hwritten, hchange⟩ := bind_eq_ok hchange
        cases hchange
        rw [List.mem_singleton.1 hr]
        -- the values are those of one of the joins of the row
        have hjoin := engine.choose_mem scope more
        rw [(keep_eq_ok_iff.1 hkept).2] at hjoin
        obtain ⟨values, hvalues, heq⟩ := List.mem_map.1 (List.mem_of_mem_filter hjoin)
        rw [← heq] at hwritten
        exact written_passes (.inr hupdate) hc hshaped ht hnamed.1 hnamed.2
          (hc.fits yielded given hrows values hvalues) (by rwa [if_pos hupdate])
  rw [CrossingWriteStatement.applied] at h
  cases hverb : target.verb with
  | insert =>
    simp only [hverb] at h
    obtain ⟨fresh, hfresh, h⟩ := bind_eq_ok h
    cases h
    refine (List.mem_append.1 hr).imp_right fun hr => ?_
    have hc := hchecks (.inl hverb)
    obtain ⟨given, rfl⟩ := rows_of_fed hc.isFed hrows
    obtain ⟨scope, hscope, hr⟩ := exists_of_mapM hfresh hr
    obtain ⟨values, hvalues, rfl⟩ := List.mem_map.1 hscope
    obtain ⟨written, hwritten, hr⟩ := bind_eq_ok hr
    cases hr
    exact written_passes (.inl hverb) hc hshaped ht hnamed.1 hnamed.2
      (hc.fits yielded given hrows values hvalues) (by rwa [if_neg (by simp [hverb])])
  | update =>
    simp only [hverb] at h
    exact hedited (.inl hverb) h
  | delete =>
    simp only [hverb] at h
    exact hedited (.inr hverb) h
  | select | create | alter | drop =>
    simp only [hverb] at h
    cases h

end

/-- **One statement** puts only rows into the tables that pass. -/
theorem perform_adds (hchecked : st.Checked engine s (data.map (·.table)) passes)
    (h : st.perform engine s data = .ok (data', answer)) :
    List.Forall₂ (TableRel (Adds passes)) data data' := by
  cases st with
  | read fragments =>
    obtain ⟨-, -, -, -, rfl, -⟩ := perform_read.1 h
    exact tableRel_refl adds_refl _
  | write target seam built =>
    obtain ⟨count, plans, shaped, yielded, rows, -, hwrites⟩ := perform_write.1 h
    exact change_rel adds_refl (fun x hx hnamed out k happlied =>
      applied_adds hchecked hwrites.isShaped hwrites.isFed (List.mem_map_of_mem hx) hnamed happlied)
      hwrites.isChanged

end

/-- **Every row was there at the beginning or passes the check.**  In every session of a guest
whose writes meet checks that let only rows through that pass, the committed tables and the tables
that the transaction sees hold no other rows. -/
theorem checked_rows {passes : (t : SourceTable) → t.Row → Prop} {data : SourceData}
    {steps : List GuestStep} {g : GuestSession}
    (hchecked : ∀ engine policy st, .statement engine policy st ∈ steps →
      st.Checked engine policy (data.map (·.table)) passes)
    (h : guestRuns.Run Machine.Free ⟨data, data, []⟩ steps g) :
    List.Forall₂ (TableRel (Adds passes)) data g.committed ∧
      List.Forall₂ (TableRel (Adds passes)) data g.current :=
  run_tables adds_refl (fun _ _ _ _ => adds_trans) (fun engine policy st hst _ _ _ htables =>
    perform_adds (htables ▸ hchecked engine policy st hst)) h

namespace Sample

/-- The order is one of tenant 1. -/
def IsOwn (t : SourceTable) (r : t.Row) : Prop :=
  IsTrue (ownRows.eval semantics (Scope.read [r.scope]) [])

theorem bare_ownRows : BareCheck ordersTable target built ownRows where
  lambdaFree := rfl
  outer := rfl
  columns path hp := by
    have hfree := bareOver_ownRows.2 path hp
    rw [columnRef_ownRows hp] at hfree ⊢
    exact ⟨rfl, by decide, (fun h => by cases h), hfree⟩

theorem checksRows_orders : ChecksRows engine ownStore [ordersTable] IsOwn target
    (.constant [[.integer 7]]) built where
  statement := ⟨rfl, by decide, rfl, by decide, by decide, by decide⟩
  fits yielded rows h values hvalues := by
    cases h
    rw [List.mem_singleton.1 hvalues]
    rfl
  isFed h := by cases h
  check t ht _ _ := by
    obtain rfl := List.mem_singleton.1 ht
    refine ⟨ownRows, rfl, bare_ownRows, fun e he r hr => ?_⟩
    cases he
    exact hr

end Sample

/-- An update of the orders writes only orders of tenant 1. -/
theorem checked_rows_orders : ∃ g : GuestSession,
    guestRuns.exec ⟨Sample.ordersData [Sample.row 1, Sample.row 2],
      Sample.ordersData [Sample.row 1, Sample.row 2], []⟩ Sample.ordersSteps = some g ∧
    List.Forall₂ (TableRel (Adds Sample.IsOwn)) (Sample.ordersData [Sample.row 1, Sample.row 2])
      g.committed := by
  obtain ⟨g, hg⟩ : ∃ g, guestRuns.exec ⟨Sample.ordersData [Sample.row 1, Sample.row 2],
    Sample.ordersData [Sample.row 1, Sample.row 2], []⟩ Sample.ordersSteps = some g := ⟨_, rfl⟩
  refine ⟨g, hg, (checked_rows (fun e policy st hst => ?_) (Machine.run_of_exec hg)).1⟩
  simp only [Sample.ordersSteps, List.mem_cons, GuestStep.statement.injEq, reduceCtorEq,
    List.not_mem_nil, or_false] at hst
  rcases hst with ⟨rfl, rfl, rfl⟩ | ⟨-, -, rfl⟩
  · exact fun _ => Sample.checksRows_orders
  · trivial

end VirtualCatalog
