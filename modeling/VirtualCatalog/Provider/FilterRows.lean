import VirtualCatalog.Provider.FilterMeaning

/-!
# The rows that Python keeps

`filters_from_wire` rebuilds the clauses of a scan, and `filter_and_project` keeps the rows on which
all of them hold.

* `clauseFromWire_spec` : a clause arrives if its constants do.
* `clausesExpression` : the expression that Python asks of the table.
* `Refused` : the clauses that Python does not answer at all.
* `LosesRow`, `GainsRow` : the rows that it keeps otherwise than DuckDB.
* `filters_mean_the_same_iff` : Python keeps the rows that DuckDB keeps exactly if there is no such
  row.
-/

namespace VirtualCatalog

namespace Provider

/-! ### The clauses as they arrive -/

/-- The clause that arrives for a clause. -/
def Clause.received : Clause → FilterClause
  | comparison column type value => ⟨column, comparisonOp type, value.carried.getD .none⟩
  | isNull column => ⟨column, "is_null", .none⟩
  | isNotNull column => ⟨column, "is_not_null", .none⟩
  | isIn column values => ⟨column, "in", .list (values.map fun v => v.carried.getD .none)⟩

/-- What Python may have for a clause. -/
inductive Clause.Arrives : Clause → FilterClause → Prop
  | comparison {column : String} {type : ComparisonType} {v : FilterValue} {p : PyValue}
      (h : v.Arrives p) : Arrives (.comparison column type v) ⟨column, comparisonOp type, p⟩
  | isNull (column : String) : Arrives (.isNull column) ⟨column, "is_null", .none⟩
  | isNotNull (column : String) : Arrives (.isNotNull column) ⟨column, "is_not_null", .none⟩
  | isIn {column : String} {values : List FilterValue} {ps : List PyValue}
      (h : List.Forall₂ FilterValue.Arrives values ps) :
      Arrives (.isIn column values) ⟨column, "in", .list ps⟩

section

variable {toString : FilterValue → String} {column op : String}

/-- A value on its own. -/
theorem clauseFromWire_value {tag : Option String} {value : PyValue}
    (hlist : ∀ items, value ≠ .list items) :
    clauseFromWire (.str column :: .str op :: value :: tag.toList.map .str) =
      (fun value => ⟨column, op, value⟩) <$> rebuildTagged tag column value := by
  cases tag with
  | none => rfl
  | some tag =>
    cases value with
    | list items => exact absurd rfl (hlist items)
    | _ => rfl

/-- A list of values. -/
theorem clauseFromWire_list {tag : Option String} {items : List PyValue} :
    clauseFromWire (.str column :: .str "in" :: .list items :: tag.toList.map .str) =
      (fun items => ⟨column, "in", .list items⟩) <$> items.mapM (rebuildTagged tag column) := by
  cases tag with
  | none =>
    have hall : items.mapM (rebuildTagged none column) = .ok items := by
      have hmap := mapM_eq_ok_map (f := rebuildTagged none column) (g := id) fun p
          (_ : p ∈ items) =>
        rfl
      rwa [List.map_id] at hmap
    rw [hall]
    rfl
  | some tag => rfl

theorem loads_valueNode (v : FilterValue) (items : List PyValue) :
    (valueNode toString v).loads ≠ .list items := by
  cases v <;> exact fun h => by cases h

theorem loads_comparison (type : ComparisonType) (v : FilterValue) :
    clauseFromWire (((Clause.comparison column type v).wire toString).map WireValue.loads) =
      (fun value => ⟨column, comparisonOp type, value⟩) <$>
        rebuildTagged (valueTypeTag v) column (valueNode toString v).loads := by
  rw [← clauseFromWire_value (loads_valueNode v)]
  cases htag : valueTypeTag v <;> simp [Clause.wire, Clause.make, htag, WireValue.loads]

theorem loads_isIn (values : List FilterValue) :
    clauseFromWire (((Clause.isIn column values).wire toString).map WireValue.loads) =
      (fun items => ⟨column, "in", .list items⟩) <$>
        (values.map fun v => (valueNode toString v).loads).mapM
          (rebuildTagged (values.findSome? valueTypeTag) column) := by
  rw [← clauseFromWire_list]
  cases htag : values.findSome? valueTypeTag <;>
    simp [Clause.wire, Clause.make, htag, WireValue.loads, WireValue.loadsList_eq,
      Function.comp_def]

theorem column_of_clauseFromWire {c : Clause} {f : FilterClause}
    (h : clauseFromWire ((c.wire toString).map WireValue.loads) = .ok f) : f.column = c.column := by
  cases c with
  | comparison column type v =>
    rw [loads_comparison] at h
    obtain ⟨p, -, h⟩ := bind_eq_ok (x := rebuildTagged _ _ _) h
    cases h
    rfl
  | isNull column =>
    cases h
    rfl
  | isNotNull column =>
    cases h
    rfl
  | isIn column values =>
    rw [loads_isIn] at h
    obtain ⟨ps, -, h⟩ := bind_eq_ok (x := List.mapM _ _) h
    cases h
    rfl

/-- The tag depends on the type. -/
theorem valueTypeTag_eq {type : ColumnType} {v w : FilterValue} (hv : v.Of type) (hw : w.Of type)
    (hvnull : v.isNull = false) (hwnull : w.isNull = false) : valueTypeTag v = valueTypeTag w := by
  have htype : v.type = w.type := hv.type_eq.trans hw.type_eq.symm
  rw [valueTypeTag, valueTypeTag, hvnull, hwnull, htype]

/-- The tag of a list is that of each of its values. -/
theorem valueTypeTag_of_mem {type : ColumnType} {values : List FilterValue}
    (hvalues : ∀ v ∈ values, v.Of type) {v : FilterValue} (hv : v ∈ values) :
    v.isNull = true ∨ valueTypeTag v = values.findSome? valueTypeTag := by
  cases hnull : v.isNull with
  | true => exact .inl rfl
  | false =>
    refine .inr ?_
    cases hfound : values.findSome? valueTypeTag with
    | none => exact List.findSome?_eq_none_iff.1 hfound v hv
    | some tag =>
      obtain ⟨w, hw, htag⟩ := List.exists_of_findSome?_eq_some hfound
      have hwnull : w.isNull = false := by
        cases hwnull : w.isNull with
        | false => rfl
        | true =>
          rw [valueTypeTag, hwnull, if_pos rfl] at htag
          cases htag
      rw [valueTypeTag_eq (hvalues v hv) (hvalues w hw) hnull hwnull, htag]

/-- **A clause that arrives** comes from the clause that was sent, and each arrives whose constants
do. -/
theorem clauseFromWire_spec {type : ColumnType} {c : Clause}
    (htext : ∀ v : FilterValue, v.IsText (toString v))
    (hconstants : ∀ v ∈ c.constants, v.Of type) :
    (∀ f, clauseFromWire ((c.wire toString).map WireValue.loads) = .ok f → c.Arrives f) ∧
      ((∀ v ∈ c.constants, v.carried ≠ none) →
        clauseFromWire ((c.wire toString).map WireValue.loads) = .ok c.received) := by
  cases c with
  | comparison column c v =>
    obtain ⟨hsome, harrives⟩ := rebuildTagged_spec column (htext v)
      (hconstants v List.mem_cons_self) (.inr rfl)
    rw [loads_comparison]
    constructor
    · intro f hf
      obtain ⟨p, hp, hf⟩ := bind_eq_ok (x := rebuildTagged _ _ _) hf
      cases hf
      exact .comparison (harrives p hp)
    · intro hcarried
      obtain ⟨p, hp⟩ := Option.ne_none_iff_exists'.1 (hcarried v List.mem_cons_self)
      rw [hsome p hp, Clause.received, hp]
      rfl
  | isNull column => exact ⟨fun f hf => (by cases hf; exact .isNull column), fun _ => rfl⟩
  | isNotNull column => exact ⟨fun f hf => (by cases hf; exact .isNotNull column), fun _ => rfl⟩
  | isIn column values =>
    have hvalues : ∀ v ∈ values, v.Of type := hconstants
    have hspec : ∀ v ∈ values, _ := fun v hv => rebuildTagged_spec column (htext v)
      (hvalues v hv) (valueTypeTag_of_mem hvalues hv)
    rw [loads_isIn]
    constructor
    · intro f hf
      obtain ⟨ps, hps, hf⟩ := bind_eq_ok (x := List.mapM _ _) hf
      cases hf
      refine .isIn ?_
      rw [mapM_eq_ok, List.forall₂_map_left_iff] at hps
      have hmem := (List.forall₂_and_left values ps).2 ⟨fun v (hv : v ∈ values) => hv, hps⟩
      exact hmem.imp fun v p hp => (hspec v hp.1).2 p hp.2
    · intro hcarried
      have hall : (values.map fun v => (valueNode toString v).loads).mapM
          (rebuildTagged (values.findSome? valueTypeTag) column) =
          .ok (values.map fun v => v.carried.getD .none) := by
        rw [mapM_eq_ok, List.forall₂_map_left_iff, List.forall₂_map_right_iff, List.forall₂_same]
        intro v hv
        obtain ⟨p, hp⟩ := Option.ne_none_iff_exists'.1 (hcarried v hv)
        rw [(hspec v hv).1 p hp, hp]
        rfl
      rw [hall]
      rfl

end

/-! ### The expression -/

/-- One more condition. -/
def joinCondition (expr : Option ComputeExpression) (c : String × ColumnCondition) :
    Option ComputeExpression :=
  some (expr.elim (.column c.1 c.2) (.and · (.column c.1 c.2)))

/-- What Python asks of the table, if all constants arrive. -/
def clausesExpression (clauses : List Clause) : Option ComputeExpression :=
  (clauses.map fun c => (c.column, c.condition)).foldl joinCondition none

theorem foldlM_addClause {fs : List FilterClause} {cs : List (String × ColumnCondition)}
    (h : List.Forall₂ (fun f c => f.column = c.1 ∧ f.condition = .ok c.2) fs cs)
    (expr : Option ComputeExpression) :
    fs.foldlM addClause expr = .ok (cs.foldl joinCondition expr) := by
  induction h generalizing expr with
  | nil => rfl
  | @cons f c fs cs hf _ ih =>
    have hstep : addClause expr f = .ok (joinCondition expr c) := by
      rw [addClause, hf.2, hf.1]
      rfl
    rw [List.foldlM_cons, hstep, List.foldl_cons]
    exact ih (joinCondition expr c)

theorem foldlM_addClause_eq_ok {fs : List FilterClause} {expr expr' : Option ComputeExpression}
    (h : fs.foldlM addClause expr = .ok expr') : ∃ cs : List (String × ColumnCondition),
      List.Forall₂ (fun f c => f.column = c.1 ∧ f.condition = .ok c.2) fs cs ∧
        expr' = cs.foldl joinCondition expr := by
  induction fs generalizing expr with
  | nil =>
    cases h
    exact ⟨[], .nil, rfl⟩
  | cons f fs ih =>
    rw [List.foldlM_cons] at h
    obtain ⟨next, hnext, h⟩ := bind_eq_ok h
    obtain ⟨condition, hcondition, hnext⟩ := bind_eq_ok hnext
    cases hnext
    obtain ⟨cs, hcs, rfl⟩ := ih h
    exact ⟨(f.column, condition) :: cs, .cons ⟨rfl, hcondition⟩ hcs, rfl⟩

theorem conditions_foldl (cs : List (String × ColumnCondition)) (e : ComputeExpression) :
    ∃ e', cs.foldl joinCondition (some e) = some e' ∧ e'.conditions = e.conditions ++ cs := by
  induction cs generalizing e with
  | nil => exact ⟨e, rfl, (List.append_nil _).symm⟩
  | cons c cs ih =>
    obtain ⟨e', he', hconditions⟩ := ih (.and e (.column c.1 c.2))
    refine ⟨e', he', ?_⟩
    rw [hconditions, ComputeExpression.conditions, ComputeExpression.conditions, List.append_assoc]
    rfl

/-- The conditions of the expression are those that were joined. -/
theorem exists_expression {cs : List (String × ColumnCondition)} (hne : cs ≠ []) :
    ∃ e, cs.foldl joinCondition none = some e ∧ e.conditions = cs := by
  cases cs with
  | nil => exact absurd rfl hne
  | cons c cs => exact conditions_foldl cs (.column c.1 c.2)

/-- A row is kept if every condition is true on it. -/
theorem eval_eq_true {pa : Pyarrow} {row : String → FilterValue} {e : ComputeExpression} :
    e.eval pa row = some true ↔ ∀ c ∈ e.conditions, c.2.eval pa (row c.1) = some true := by
  induction e with
  | column name condition =>
    rw [ComputeExpression.conditions, List.forall_mem_singleton]
    rfl
  | and left right ihl ihr =>
    rw [ComputeExpression.eval, Truth.and_eq_true, ihl, ihr, ComputeExpression.conditions,
      List.forall_mem_append]

/-- A constant that does not arrive, but is read: a time with a zone. -/
theorem Clause.Arrives.timeTz {c : Clause} {f : FilterClause} {condition : ColumnCondition}
    (h : c.Arrives f) (hcondition : f.condition = .ok condition) {v : FilterValue}
    (hv : v ∈ c.constants) (hnone : v.carried = none) :
    v.type = .timeTz ∧ condition.hasValue = true := by
  cases h with
  | @comparison column type w p hp =>
    rw [List.mem_singleton.1 hv] at hnone ⊢
    rcases hp with hp | ⟨htype, t, rfl⟩
    · rw [hnone] at hp
      cases hp
    · refine ⟨htype, ?_⟩
      cases type <;> cases hcondition <;> rfl
  | isNull column => cases hv
  | isNotNull column => cases hv
  | @isIn column values ps hps =>
    obtain ⟨p, hmem, hp⟩ := exists_of_forall₂ hps.flip hv
    rcases hp with hp | ⟨htype, t, rfl⟩
    · rw [hnone] at hp
      cases hp
    · cases hcondition
      exact ⟨htype, List.any_eq_true.2 ⟨_, hmem, rfl⟩⟩

theorem condition_received {c : Clause} (hemitted : c.Emitted) :
    c.received.column = c.column ∧ c.received.condition = .ok c.condition := by
  cases c with
  | comparison column type v =>
    refine ⟨rfl, ?_⟩
    cases type with
    | distinctFrom => exact absurd rfl hemitted.1
    | notDistinctFrom => exact absurd rfl hemitted.1
    | _ => rfl
  | _ => exact ⟨rfl, rfl⟩

/-! ### A table -/

/-- The cells are of the types of their columns. -/
def ArrowTable.Typed (table : ArrowTable) : Prop :=
  ∀ c ∈ table.columns, ∀ row ∈ table.rows, (row c.1).Of c.2

/-- The constants of a clause are of the type that its column has. -/
def Clause.Fits (table : ArrowTable) (c : Clause) : Prop :=
  ∀ type, (c.column, type) ∈ table.columns → ∀ v ∈ c.constants, v.Of type

/-- DuckDB's own comparison is true on the row for every clause. -/
def keepsRow (le : FilterValue → FilterValue → Bool) (clauses : List Clause)
    (row : String → FilterValue) : Bool :=
  clauses.all fun c => c.truth le (row c.column) == some true

/-- Python does not answer the clauses: a column is missing, a constant does not arrive, pyarrow
refuses the expression, or a column to project on is missing. -/
def Refused (pa : Pyarrow) (table : ArrowTable) (names : Option (List String))
    (clauses : List Clause) : Prop :=
  (∃ c ∈ clauses, c.column ∉ table.columns.map (·.1) ∨ ∃ v ∈ c.constants, v.carried = none) ∨
  (∃ expr, clausesExpression clauses = some expr ∧ pa.refuses table.columns expr = true) ∨
  ∃ ns, names = some ns ∧ table.columns.map (·.1) ≠ ns ∧ ∃ n ∈ ns, n ∉ table.columns.map (·.1)

/-- A row that Python loses: every clause is true on it, and one is misread. -/
def LosesRow (le : FilterValue → FilterValue → Bool) (clauses : List Clause)
    (row : String → FilterValue) : Prop :=
  (∀ c ∈ clauses, c.truth le (row c.column) = some true) ∧
    ∃ c ∈ clauses, c.Misread le (row c.column)

/-- A row that Python gains: some clause is not true on it, and just these are misread. -/
def GainsRow (le : FilterValue → FilterValue → Bool) (clauses : List Clause)
    (row : String → FilterValue) : Prop :=
  (∃ c ∈ clauses, c.truth le (row c.column) ≠ some true) ∧
    ∀ c ∈ clauses, c.truth le (row c.column) = some true ↔ ¬ c.Misread le (row c.column)

section

variable {pa : Pyarrow} {le : FilterValue → FilterValue → Bool} {toString : FilterValue → String}
  {table : ArrowTable} {names : Option (List String)} {clauses : List Clause}

theorem project_eq_ok {t : ArrowTable} (h : table.project names = .ok t) : t.rows = table.rows := by
  cases names with
  | none =>
    cases h
    rfl
  | some ns =>
    rw [ArrowTable.project] at h
    split_ifs at h
    · cases h
      rfl
    · rw [ArrowTable.select] at h
      split_ifs at h
      cases h
      rfl

theorem project_eq_error_iff : (∃ e, table.project names = .error e) ↔
    ∃ ns, names = some ns ∧ table.columns.map (·.1) ≠ ns ∧
      ∃ n ∈ ns, n ∉ table.columns.map (·.1) := by
  constructor
  · rintro ⟨e, h⟩
    cases names with
    | none => cases h
    | some ns =>
      rw [ArrowTable.project] at h
      split_ifs at h with hsame
      rw [ArrowTable.select] at h
      split_ifs at h with hall
      refine ⟨ns, rfl, hsame, ?_⟩
      by_contra hno
      push Not at hno
      exact hall (List.all_eq_true.2 fun n hn => List.contains_iff_mem.2 (hno n hn))
  · rintro ⟨ns, rfl, hne, n, hn, hmissing⟩
    have hall : ¬ (ns.all fun name => (table.columns.map (·.1)).contains name) = true := fun hall =>
      hmissing (List.contains_iff_mem.1 (List.all_eq_true.1 hall n hn))
    refine ⟨.pyarrow, ?_⟩
    rw [ArrowTable.project, if_neg hne, ArrowTable.select, if_neg hall]

/-- All constants arrive. -/
theorem applyWireFilters_of_carried (htext : ∀ v : FilterValue, v.IsText (toString v))
    (hemitted : ∀ c ∈ clauses, c.Emitted)
    (hcolumn : ∀ c ∈ clauses, ∃ type, ∀ v ∈ c.constants, v.Of type)
    (hcarried : ∀ c ∈ clauses, ∀ v ∈ c.constants, v.carried ≠ none) :
    applyWireFilters pa table names (clauses.map (Clause.wire toString)) =
      table.filterBy pa (clausesExpression clauses) >>= fun t => t.project names := by
  have hreceived : (clauses.map fun c => (c.wire toString).map WireValue.loads).mapM
      clauseFromWire = .ok (clauses.map Clause.received) := by
    rw [mapM_eq_ok, List.forall₂_map_left_iff, List.forall₂_map_right_iff, List.forall₂_same]
    intro c hc
    obtain ⟨type, htype⟩ := hcolumn c hc
    exact (clauseFromWire_spec htext htype).2 (hcarried c hc)
  have hexpr : (clauses.map Clause.received).foldlM addClause none =
      .ok (clausesExpression clauses) := by
    refine foldlM_addClause ?_ none
    rw [List.forall₂_map_left_iff, List.forall₂_map_right_iff, List.forall₂_same]
    exact fun c hc => condition_received (hemitted c hc)
  have hwire : filtersFromWire ((clauses.map (Clause.wire toString)).map
      (·.map WireValue.loads)) = .ok (if clauses.isEmpty then none
        else some (clauses.map Clause.received)) := by
    rw [filtersFromWire, List.map_map]
    cases hempty : clauses.isEmpty with
    | true =>
      rw [List.isEmpty_iff.1 hempty]
      rfl
    | false =>
      rw [List.isEmpty_map, hempty, if_neg Bool.false_ne_true, if_neg Bool.false_ne_true]
      exact congrArg (some <$> ·) hreceived
  rw [applyWireFilters, hwire]
  show (applyFilters pa table _ >>= fun t => t.project names) = _
  have hfilters : ((if clauses.isEmpty then none else some (clauses.map Clause.received)).getD []) =
      clauses.map Clause.received := by
    split_ifs with hempty
    · rw [List.isEmpty_iff.1 hempty]
      rfl
    · rfl
  rw [applyFilters, hfilters, hexpr]
  rfl

/-- A column is missing, or a constant does not arrive. -/
theorem not_applyWireFilters (hpa : pa.Documented)
    (htext : ∀ v : FilterValue, v.IsText (toString v)) (hfits : ∀ c ∈ clauses, c.Fits table)
    (hmissing : ∃ c ∈ clauses, c.column ∉ table.columns.map (·.1) ∨
      ∃ v ∈ c.constants, v.carried = none) (t : ArrowTable) :
    applyWireFilters pa table names (clauses.map (Clause.wire toString)) ≠ .ok t := by
  intro h
  obtain ⟨c, hc, hmissing⟩ := hmissing
  obtain ⟨filters, hfilters, h⟩ := bind_eq_ok h
  obtain ⟨kept, hkept, -⟩ := bind_eq_ok h
  obtain ⟨expr, hexpr, hkept⟩ := bind_eq_ok hkept
  -- the clause has arrived, and its condition is one of those that are joined
  have hne :
      ((clauses.map (Clause.wire toString)).map (·.map WireValue.loads)).isEmpty = false := by
    rw [List.isEmpty_map, List.isEmpty_map, List.isEmpty_eq_false_iff]
    exact List.ne_nil_of_mem hc
  rw [filtersFromWire, hne, if_neg Bool.false_ne_true, List.map_map] at hfilters
  obtain ⟨fs, hfs, hfilters⟩ := bind_eq_ok (x := List.mapM _ _) hfilters
  cases hfilters
  rw [mapM_eq_ok, List.forall₂_map_left_iff] at hfs
  obtain ⟨f, hf, hread⟩ := exists_of_forall₂ hfs.flip hc
  obtain ⟨cs, hcs, rfl⟩ := foldlM_addClause_eq_ok hexpr
  obtain ⟨k, hk, hcolumn, hcondition⟩ := exists_of_forall₂ hcs.flip hf
  obtain ⟨e, he, hconditions⟩ := exists_expression (List.ne_nil_of_mem hk)
  have haccepted : pa.refuses table.columns e ≠ true := by
    intro hrefuses
    rw [he, ArrowTable.filterBy, ArrowTable.filter, if_pos hrefuses] at hkept
    cases hkept
  have hname : k.1 = c.column := hcolumn.symm.trans (column_of_clauseFromWire hread)
  by_cases hin : c.column ∈ table.columns.map (·.1)
  · obtain ⟨v, hv, hnone⟩ := hmissing.resolve_left (not_not.2 hin)
    obtain ⟨column, hmem, hcolumn⟩ := List.mem_map.1 hin
    have htype : (c.column, column.2) ∈ table.columns := by
      rw [← hcolumn]
      exact hmem
    have hof := hfits c hc column.2 htype
    obtain ⟨hvtype, hvalue⟩ :=
      ((clauseFromWire_spec htext hof).1 f hread).timeTz hcondition hv hnone
    refine haccepted (hpa.refuses_extension _ e c.column k.2 column.2 ?_ hvalue htype ?_)
    · rw [hconditions, ← hname]
      exact hk
    · rw [← (hof v hv).type_eq, hvtype]
  · refine haccepted (hpa.refuses_missing _ e ⟨k, ?_, ?_⟩)
    · rw [hconditions]
      exact hk
    · rw [hname]
      exact hin

/-- A row is kept alike exactly if it is neither lost nor gained. -/
theorem keeps_alike_iff {row : String → FilterValue} :
    ((∀ c ∈ clauses, c.truth le (row c.column) = some true ↔ ¬ c.Misread le (row c.column)) ↔
      ∀ c ∈ clauses, c.truth le (row c.column) = some true) ↔
    ¬ LosesRow le clauses row ∧ ¬ GainsRow le clauses row := by
  constructor
  · intro h
    refine ⟨?_, ?_⟩
    · rintro ⟨htrue, c, hc, hmisread⟩
      exact (h.2 htrue c hc).1 (htrue c hc) hmisread
    · rintro ⟨⟨c, hc, hnot⟩, hreads⟩
      exact hnot (h.1 hreads c hc)
  · rintro ⟨hloses, hgains⟩
    constructor
    · intro hreads
      by_contra hno
      push Not at hno
      exact hgains ⟨hno, hreads⟩
    · intro htrue c hc
      refine ⟨fun _ hmisread => hloses ⟨htrue, c, hc, hmisread⟩, fun _ => htrue c hc⟩

/-- Two filters of a list keep the same exactly if they agree on its elements. -/
theorem filter_eq_filter_iff {α : Type} {p q : α → Bool} {as : List α} :
    as.filter p = as.filter q ↔ ∀ a ∈ as, (p a = true ↔ q a = true) := by
  constructor
  · intro h a ha
    have hmem : a ∈ as.filter p ↔ a ∈ as.filter q := by rw [h]
    rw [List.mem_filter, List.mem_filter] at hmem
    exact ⟨fun hp => (hmem.1 ⟨ha, hp⟩).2, fun hq => (hmem.2 ⟨ha, hq⟩).2⟩
  · intro h
    exact List.filter_congr fun a ha => Bool.eq_iff_iff.2 (h a ha)

/-- What Python keeps, if it answers. -/
theorem rows_of_applyWireFilters (hpa : pa.Documented) (hduck : DuckDBDocumented le toString)
    (htable : table.Typed) (hemitted : ∀ c ∈ clauses, c.Emitted)
    (hfits : ∀ c ∈ clauses, c.Fits table) (h : ¬ Refused pa table names clauses) :
    ∃ t, applyWireFilters pa table names (clauses.map (Clause.wire toString)) = .ok t ∧
      (t.rows = table.rows.filter (keepsRow le clauses) ↔
        ∀ row ∈ table.rows, ¬ LosesRow le clauses row ∧ ¬ GainsRow le clauses row) := by
  rw [Refused, not_or, not_or] at h
  obtain ⟨hmissing, hrefuses, hproject⟩ := h
  push Not at hmissing
  have htyped : ∀ c ∈ clauses, ∃ type, (c.column, type) ∈ table.columns ∧
      ∀ v ∈ c.constants, v.Of type := by
    intro c hc
    obtain ⟨column, hmem, hcolumn⟩ := List.mem_map.1 (hmissing c hc).1
    have htype : (c.column, column.2) ∈ table.columns := by
      rw [← hcolumn]
      exact hmem
    exact ⟨column.2, htype, hfits c hc column.2 htype⟩
  have hrun : applyWireFilters pa table names (clauses.map (Clause.wire toString)) =
      table.filterBy pa (clausesExpression clauses) >>= fun t => t.project names :=
    applyWireFilters_of_carried hduck.text hemitted
      (fun c hc => (htyped c hc).imp fun _ h => h.2) fun c hc => (hmissing c hc).2
  -- the rows that the expression keeps
  obtain ⟨filtered, hfiltered, hcolumns, hrows⟩ : ∃ filtered,
      table.filterBy pa (clausesExpression clauses) = .ok filtered ∧
        filtered.columns = table.columns ∧ ∃ keeps : (String → FilterValue) → Bool,
          filtered.rows = table.rows.filter keeps ∧ ∀ row, keeps row = true ↔
            ∀ c ∈ clauses, c.condition.eval pa (row c.column) = some true := by
    cases clauses with
    | nil =>
      refine ⟨table, rfl, rfl, fun _ => true, (List.filter_true _).symm, fun row => ?_⟩
      exact ⟨fun _ c hc => absurd hc List.not_mem_nil, fun _ => rfl⟩
    | cons c cs =>
      have hne : ((c :: cs).map fun c => (c.column, c.condition)) ≠ [] := List.cons_ne_nil _ _
      obtain ⟨e, he, hconditions⟩ := exists_expression hne
      have haccepted : ¬ pa.refuses table.columns e = true := fun hr => hrefuses ⟨e, he, hr⟩
      refine ⟨{ table with rows := table.rows.filter fun row => e.eval pa row = some true }, ?_,
        rfl, fun row => decide (e.eval pa row = some true), rfl, fun row => ?_⟩
      · rw [clausesExpression, he, ArrowTable.filterBy, ArrowTable.filter, if_neg haccepted]
      · rw [decide_eq_true_iff, eval_eq_true, hconditions, List.forall_mem_map]
  obtain ⟨keeps, hrows, hkeeps⟩ := hrows
  cases hselected : filtered.project names with
  | error e =>
    obtain ⟨ns, hns⟩ := project_eq_error_iff.1 ⟨e, hselected⟩
    rw [hcolumns] at hns
    exact absurd ⟨ns, hns⟩ hproject
  | ok t =>
    refine ⟨t, by rw [hrun, hfiltered]; exact hselected, ?_⟩
    rw [project_eq_ok hselected, hrows, filter_eq_filter_iff]
    refine forall₂_congr fun row hrow => ?_
    have hduckKeeps : keepsRow le clauses row = true ↔
        ∀ c ∈ clauses, c.truth le (row c.column) = some true := by
      rw [keepsRow, List.all_eq_true]
      simp only [beq_iff_eq]
    rw [hkeeps, hduckKeeps, ← keeps_alike_iff]
    refine iff_congr (forall₂_congr fun c hc => ?_) Iff.rfl
    obtain ⟨type, htype, hof⟩ := htyped c hc
    exact condition_eval_iff hpa hduck (htable _ htype row hrow) (hemitted c hc) hof
      (hmissing c hc).2

theorem error_of_refused (hpa : pa.Documented) (htext : ∀ v : FilterValue, v.IsText (toString v))
    (hemitted : ∀ c ∈ clauses, c.Emitted) (hfits : ∀ c ∈ clauses, c.Fits table)
    (h : Refused pa table names clauses) :
    ∃ e, applyWireFilters pa table names (clauses.map (Clause.wire toString)) = .error e := by
  by_contra hno
  cases hrun : applyWireFilters pa table names (clauses.map (Clause.wire toString)) with
  | error e => exact hno ⟨e, hrun⟩
  | ok t =>
    by_cases hmissing : ∃ c ∈ clauses, c.column ∉ table.columns.map (·.1) ∨
        ∃ v ∈ c.constants, v.carried = none
    · exact not_applyWireFilters hpa htext hfits hmissing t hrun
    · have hrest := h.resolve_left hmissing
      push Not at hmissing
      have htyped : ∀ c ∈ clauses, ∃ type, ∀ v ∈ c.constants, v.Of type := by
        intro c hc
        obtain ⟨column, hmem, hcolumn⟩ := List.mem_map.1 (hmissing c hc).1
        refine ⟨column.2, hfits c hc column.2 ?_⟩
        rw [← hcolumn]
        exact hmem
      rw [applyWireFilters_of_carried htext hemitted htyped fun c hc => (hmissing c hc).2] at hrun
      obtain ⟨filtered, hfiltered, hproject⟩ := bind_eq_ok hrun
      rcases hrest with ⟨expr, hexpr, hrefuses⟩ | hnames
      · rw [hexpr, ArrowTable.filterBy, ArrowTable.filter, if_pos hrefuses] at hfiltered
        cases hfiltered
      · have hcolumns : filtered.columns = table.columns := by
          cases hexpr : clausesExpression clauses with
          | none =>
            rw [hexpr] at hfiltered
            cases hfiltered
            rfl
          | some expr =>
            rw [hexpr, ArrowTable.filterBy, ArrowTable.filter] at hfiltered
            split_ifs at hfiltered
            cases hfiltered
            rfl
        rw [← hcolumns] at hnames
        obtain ⟨e, he⟩ := project_eq_error_iff.2 hnames
        rw [he] at hproject
        cases hproject

/-- Python raises, or keeps exactly the rows on which DuckDB's own comparison is true, in order. -/
def MeansTheSame (pa : Pyarrow) (le : FilterValue → FilterValue → Bool)
    (toString : FilterValue → String) (table : ArrowTable) (names : Option (List String))
    (clauses : List Clause) : Prop :=
  (∃ e, applyWireFilters pa table names (clauses.map (Clause.wire toString)) = .error e) ∨
    ∃ t, applyWireFilters pa table names (clauses.map (Clause.wire toString)) = .ok t ∧
      t.rows = table.rows.filter (keepsRow le clauses)

/-- **Filters mean the same in Python** exactly if the clauses are refused, or no row of the table
is lost or gained by clauses that are misread on it. -/
theorem filters_mean_the_same_iff {filterToCol : Nat → Option Nat} {columns : ScanColumns}
    {filterSet : TableFilterSet} (hpa : pa.Documented) (hduck : DuckDBDocumented le toString)
    (htable : table.Typed)
    (hfits : ∀ c ∈ (serializeFiltersInto filterToCol columns filterSet).1, c.Fits table) :
    MeansTheSame pa le toString table names
        (serializeFiltersInto filterToCol columns filterSet).1 ↔
      Refused pa table names (serializeFiltersInto filterToCol columns filterSet).1 ∨
        ∀ row ∈ table.rows,
          ¬ LosesRow le (serializeFiltersInto filterToCol columns filterSet).1 row ∧
            ¬ GainsRow le (serializeFiltersInto filterToCol columns filterSet).1 row := by
  have hemitted := emitted_serializeFiltersInto filterToCol columns filterSet
  generalize (serializeFiltersInto filterToCol columns filterSet).1 = clauses at hfits hemitted ⊢
  by_cases hrefused : Refused pa table names clauses
  · have herror := error_of_refused hpa hduck.text hemitted hfits hrefused
    exact ⟨fun _ => .inl hrefused, fun _ => .inl herror⟩
  · obtain ⟨t, hrun, hiff⟩ := rows_of_applyWireFilters hpa hduck htable hemitted hfits hrefused
    rw [or_iff_right hrefused, ← hiff]
    constructor
    · rintro (⟨e, he⟩ | ⟨t', ht', hrows⟩)
      · rw [hrun] at he
        cases he
      · rw [hrun] at ht'
        cases ht'
        exact hrows
    · exact fun hrows => .inr ⟨t, hrun, hrows⟩

end

namespace Sample

/-- DuckDB's order. -/
def duckLe : FilterValue → FilterValue → Bool
  | .enum _ p, .enum _ q => decide (p ≤ q)
  | a, b => (a.scalar.bind fun s => b.scalar.map s.le).getD false

/-- A time of day, with nine digits behind the point if there are any. -/
def clockText (nanos : Nat) : List Char :=
  padded 2 (nanos / 3600000000000) ++ ':' :: (padded 2 (nanos / 60000000000 % 60) ++
    ':' :: (padded 2 (nanos / 1000000000 % 60) ++
      if nanos % 1000000000 = 0 then [] else '.' :: padded 9 (nanos % 1000000000)))

/-- DuckDB's texts. -/
def duckText : FilterValue → String
  | .varchar s => s
  | .enum labels position => labels.getD position ""
  | .date d => .ofList (timedText dateText d)
  | .time micros => .ofList (clockText (micros * 1000))
  | .timestamp type (.at (d, nanos)) => .ofList
      (dateText d ++ ' ' :: (clockText nanos ++ if type = .tz then ['+', '0', '0'] else []))
  | .timestamp _ .beforeAll => .ofList (timedText dateText .beforeAll)
  | .timestamp _ .afterAll => .ofList (timedText dateText .afterAll)
  | .decimal width scale unscaled => .ofList (decimalText width scale unscaled)
  | .hugeint z => .ofList (intText z)
  | .uhugeint n => .ofList (intText n)
  | _ => ""

/-- pyarrow, that accepts every other expression. -/
def pyarrow : Pyarrow where
  refuses columns expr := expr.conditions.any fun c =>
    !(columns.map (·.1)).contains c.1 ||
      c.2.hasValue && columns.any fun column => column.1 = c.1 && column.2.id = .timeTz
  compare type x value :=
    if x.isNull || value.isNone then none
    else if x.isNaN then some (decide (type = .notEqual))
    else x.scalar.bind fun s => value.scalar.map fun t => type.testScalars s t
  isIn x values :=
    if x.isNull then some (values.any PyValue.isNone)
    else some (values.any fun v => v.scalar.isSome && decide (v.scalar = x.scalar))
  isNull x := x.isNull
  isValid x := !x.isNull

theorem isClock_clockText (nanos : Nat) : IsClock nanos (clockText nanos) := by
  refine ⟨_, ?_, rfl⟩
  split_ifs with hzero
  · exact .inl ⟨hzero, rfl⟩
  · refine .inr ⟨_, rfl, ?_, (length_padded _ _).le, isDigit_padded _ _, ?_⟩
    · intro hnil
      have hlength := length_padded 9 (nanos % 1000000000)
      rw [hnil] at hlength
      cases hlength
    · have hlt : nanos % 1000000000 < 10 ^ 9 := Nat.mod_lt _ (by decide)
      rw [length_padded, ofDigitChars_padded hlt]
      exact Nat.mul_one _

theorem duckDB_documented : DuckDBDocumented duckLe duckText where
  le_scalar a b s t htype hne hs ht := by
    unfold duckLe
    split
    · exact absurd rfl hne
    · rw [hs, ht]
      rfl
  le_enum labels p q := rfl
  text v := by
    cases v with
    | date d => exact String.toList_ofList
    | time micros =>
      show IsClock _ (String.ofList _).toList
      rw [String.toList_ofList]
      exact isClock_clockText _
    | timestamp type t =>
      cases t with
      | «at» t => exact ⟨clockText t.2, isClock_clockText _, String.toList_ofList⟩
      | beforeAll => exact String.toList_ofList
      | afterAll => exact String.toList_ofList
    | decimal width scale unscaled => exact String.toList_ofList
    | hugeint z => exact String.toList_ofList
    | uhugeint n => exact String.toList_ofList
    | varchar s => rfl
    | enum labels position => rfl
    | _ => trivial

theorem pyarrow_documented : pyarrow.Documented where
  refuses_missing columns expr h := by
    obtain ⟨c, hc, hmissing⟩ := h
    refine List.any_eq_true.2 ⟨c, hc, ?_⟩
    rw [Bool.or_eq_true]
    exact .inl (by simpa using hmissing)
  refuses_extension columns expr name condition type hc hvalue hmem hid := by
    refine List.any_eq_true.2 ⟨_, hc, ?_⟩
    rw [Bool.or_eq_true, Bool.and_eq_true]
    exact .inr ⟨hvalue, List.any_eq_true.2 ⟨_, hmem, by simp [hid]⟩⟩
  compare_null type x value h := by
    refine if_pos ?_
    rw [Bool.or_eq_true]
    exact h
  compare_nan type x value hnan hvalue := by
    have hneither : ¬ (x.isNull || value.isNone) = true := by
      rw [Bool.or_eq_true]
      rintro (hnull | hnone)
      · cases x with
        | null t => cases hnan
        | _ => cases hnull
      · cases value with
        | none => cases hvalue
        | _ => cases hnone
    exact (if_neg hneither).trans (if_pos hnan)
  compare_scalar type x value s t hnan hs ht _ _ _ := by
    have hneither : ¬ (x.isNull || value.isNone) = true := by
      rw [Bool.or_eq_true]
      rintro (hnull | hnone)
      · cases x with
        | null t => cases hs
        | _ => cases hnull
      · cases value with
        | none => cases ht
        | _ => cases hnone
    refine (if_neg hneither).trans ((if_neg (by rw [hnan]; decide)).trans ?_)
    rw [hs, ht]
    rfl
  isIn_null x values h := if_pos h
  isIn_value x values h _ := if_neg (by rw [h]; decide)
  isNull x := rfl
  isValid x := rfl

/-- A column of floats. -/
def floats : ScanColumns := ⟨["x"], List.nodup_singleton "x"⟩

/-- The values above 1. -/
def aboveOne : TableFilterSet :=
  ⟨[], [(0, .expression (.comparison .greaterThan (.columnRef 0)
    (.constant (.floating .double (.finite 1)))))]⟩

/-- A table of these floats. -/
def tableOf (xs : List FloatValue) : ArrowTable :=
  ⟨[("x", ⟨.floating .double, []⟩)], xs.map fun x _ => .floating .double x⟩

theorem of_floating {type : FloatType} {x : FloatValue} :
    (FilterValue.floating type x).Of ⟨.floating type, []⟩ where
  type_eq := rfl
  labels _ _ h := by cases h
  date _ h := by cases h
  time _ h := by cases h
  timestamp _ _ _ h := by cases h
  decimal _ _ _ h := by cases h

theorem tableOf_typed (xs : List FloatValue) : (tableOf xs).Typed := by
  intro c hc row hrow
  obtain ⟨x, -, rfl⟩ := List.mem_map.1 hrow
  rw [List.mem_singleton.1 hc]
  exact of_floating

theorem fits_aboveOne (xs : List FloatValue) :
    ∀ c ∈ (serializeFiltersInto some floats aboveOne).1, c.Fits (tableOf xs) := by
  have hclauses : (serializeFiltersInto some floats aboveOne).1 =
      [.comparison "x" .greaterThan (.floating .double (.finite 1))] := rfl
  rw [hclauses]
  intro c hc type htype v hv
  rw [List.mem_singleton.1 hc] at htype hv
  rw [List.mem_singleton.1 hv]
  cases List.mem_singleton.1 htype
  exact of_floating

end Sample

/-- A row whose value is NaN is above 1 in DuckDB; Python does not keep it. -/
theorem not_filters_mean_the_same : ¬ ∀ (pa : Pyarrow) (le : FilterValue → FilterValue → Bool)
    (toString : FilterValue → String) (table : ArrowTable) (names : Option (List String))
    (filterToCol : Nat → Option Nat) (columns : ScanColumns) (filterSet : TableFilterSet),
    pa.Documented → DuckDBDocumented le toString → table.Typed →
    (∀ c ∈ (serializeFiltersInto filterToCol columns filterSet).1, c.Fits table) →
      MeansTheSame pa le toString table names
        (serializeFiltersInto filterToCol columns filterSet).1 := by
  intro h
  have hmeans := h Sample.pyarrow Sample.duckLe Sample.duckText (Sample.tableOf [.nan]) none some
    Sample.floats Sample.aboveOne Sample.pyarrow_documented Sample.duckDB_documented
    (Sample.tableOf_typed _) (Sample.fits_aboveOne _)
  rcases hmeans with ⟨e, he⟩ | ⟨t, ht, hrows⟩
  · cases he
  · cases ht
    cases hrows

/-- A row above 1, and one that is not. -/
theorem filters_mean_the_same_iff_aboveOne :
    MeansTheSame Sample.pyarrow Sample.duckLe Sample.duckText
        (Sample.tableOf [.finite 2, .finite 0]) none
        (serializeFiltersInto some Sample.floats Sample.aboveOne).1 ↔
      Refused Sample.pyarrow (Sample.tableOf [.finite 2, .finite 0]) none
          (serializeFiltersInto some Sample.floats Sample.aboveOne).1 ∨
        ∀ row ∈ (Sample.tableOf [.finite 2, .finite 0]).rows,
          ¬ LosesRow Sample.duckLe (serializeFiltersInto some Sample.floats Sample.aboveOne).1 row ∧
            ¬ GainsRow Sample.duckLe
              (serializeFiltersInto some Sample.floats Sample.aboveOne).1 row :=
  filters_mean_the_same_iff Sample.pyarrow_documented Sample.duckDB_documented
    (Sample.tableOf_typed _) (Sample.fits_aboveOne _)

end Provider

end VirtualCatalog
