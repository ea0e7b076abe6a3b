import VirtualCatalog.Provider.FilterJson

/-!
# What rendered filters say

DuckDB does not apply a pushed filter again above the scan, so what is rendered is the filter.  A
filter that is optional or a hint may be left out; any other that cannot be rendered as a whole is
reported.

* `Renders` : the expressions that have a rendering.
* `FilterExpr.parts` : the operands of the conjunction that a filter is.
* `Says` : what the clauses of an expression say of a value; `SaysOnRow` : of a row.
* `serializeFilters_faithful` : what the clauses say of a row, and what is reported.
-/

namespace VirtualCatalog

namespace Provider

/-! ### Expressions that have a rendering -/

/-- The expression can be rendered, or may be left out. -/
inductive Renders : FilterExpr → Prop
  | optional (child : FilterExpr) : Renders (.optional child)
  | rootOptional (id : Nat) : Renders (.rootOptional id)
  | hint {f : FilterFunction} (args : List FilterExpr) (h : f.isInternalHint = true) :
      Renders (.function f args)
  | columnConstant {type : ComparisonType} (i : Nat) {value : FilterValue}
      (hop : comparisonOp type ≠ "") (hnan : value.isNaN = false) :
      Renders (.comparison type (.columnRef i) (.constant value))
  | constantColumn {type : ComparisonType} (i : Nat) {value : FilterValue}
      (hop : comparisonOp type ≠ "") (hnan : value.isNaN = false) :
      Renders (.comparison type (.constant value) (.columnRef i))
  | isNull (i : Nat) (rest : List FilterExpr) : Renders (.operator .isNull (.columnRef i :: rest))
  | isNotNull (i : Nat) (rest : List FilterExpr) :
      Renders (.operator .isNotNull (.columnRef i :: rest))
  | isIn (i : Nat) {values : List FilterValue} (hnan : ∀ v ∈ values, v.isNaN = false) :
      Renders (.operator .compareIn (.columnRef i :: values.map .constant))
  | and {children : List FilterExpr} (h : ∀ e ∈ children, Renders e) :
      Renders (.conjunction .and children)

theorem comparisonOp_flip (type : ComparisonType) :
    comparisonOp type.flip = "" ↔ comparisonOp type = "" := by
  cases type <;> decide

theorem inConstants_eq_some {es : List FilterExpr} {values : List FilterValue} :
    inConstants es = some values ↔
      es = values.map .constant ∧ ∀ v ∈ values, v.isNaN = false := by
  fun_induction inConstants es generalizing values with
  | case1 =>
    constructor
    · rintro ⟨⟩
      exact ⟨rfl, fun v h => absurd h List.not_mem_nil⟩
    · rintro ⟨h, -⟩
      rw [List.map_eq_nil_iff.1 h.symm]
  | case2 value es hnan =>
    refine ⟨nofun, ?_⟩
    rintro ⟨h, hvalues⟩
    obtain ⟨v, vs, rfl, hv, -⟩ := List.map_eq_cons_iff.1 h.symm
    have hvalue := hvalues v List.mem_cons_self
    rw [FilterExpr.constant.inj hv, hnan] at hvalue
    cases hvalue
  | case3 value es hnan ih =>
    rw [Option.map_eq_some_iff]
    constructor
    · rintro ⟨vs, hvs, rfl⟩
      obtain ⟨rfl, hall⟩ := ih.1 hvs
      exact ⟨rfl, List.forall_mem_cons.2 ⟨Bool.of_not_eq_true hnan, hall⟩⟩
    · rintro ⟨h, hvalues⟩
      obtain ⟨v, vs, rfl, hv, hes⟩ := List.map_eq_cons_iff.1 h.symm
      rw [FilterExpr.constant.inj hv] at hvalues ⊢
      exact ⟨vs, ih.2 ⟨hes.symm, (List.forall_mem_cons.1 hvalues).2⟩, rfl⟩
  | case4 e es he =>
    refine ⟨nofun, ?_⟩
    rintro ⟨h, -⟩
    obtain ⟨v, vs, rfl, hv, -⟩ := List.map_eq_cons_iff.1 h.symm
    exact absurd hv.symm (he v)

/-- What a comparison that is rendered looks like. -/
theorem buildComparison_cases (column : String) (type : ComparisonType) (l r : FilterExpr) :
    (buildComparison column type l r = (.unsupported, []) ∧ ¬Renders (.comparison type l r)) ∨
      ∃ type' value, tryGetColumnConstantComparison type l r = some (type', value) ∧
        buildComparison column type l r = (.exact, [.comparison column type' value]) ∧
        Renders (.comparison type l r) := by
  unfold buildComparison
  cases hc : tryGetColumnConstantComparison type l r with
  | none =>
    refine .inl ⟨rfl, fun h => ?_⟩
    cases h <;> cases hc
  | some p =>
    obtain ⟨type', value⟩ := p
    have hrenders : Renders (.comparison type l r) ↔
        comparisonOp type' ≠ "" ∧ value.isNaN = false := by
      unfold tryGetColumnConstantComparison at hc
      split at hc
      · cases hc
        constructor
        · rintro (_ | _ | _ | ⟨_, hop, hnan⟩)
          exact ⟨hop, hnan⟩
        · rintro ⟨hop, hnan⟩
          exact .columnConstant _ hop hnan
      · cases hc
        rw [Ne, comparisonOp_flip]
        constructor
        · rintro (_ | _ | _ | _ | ⟨_, hop, hnan⟩)
          exact ⟨hop, hnan⟩
        · rintro ⟨hop, hnan⟩
          exact .constantColumn _ hop hnan
      · cases hc
    dsimp only
    split_ifs with h
    · refine .inl ⟨rfl, fun hr => ?_⟩
      obtain ⟨hop, hnan⟩ := hrenders.1 hr
      rw [Bool.or_eq_true, hnan, String.isEmpty_iff] at h
      exact h.elim hop Bool.false_ne_true
    · rw [Bool.or_eq_true, not_or, String.isEmpty_iff] at h
      exact .inr ⟨type', value, rfl, rfl, hrenders.2 ⟨h.1, Bool.of_not_eq_true h.2⟩⟩

/-- What an operator that is rendered looks like. -/
theorem buildOperator_cases (column : String) (type : FilterOperator)
    (children : List FilterExpr) :
    (buildOperator column type children = (.unsupported, []) ∧
        ¬Renders (.operator type children)) ∨
      ∃ i rest clause, children = .columnRef i :: rest ∧
        buildOperator column type children = (.exact, [clause]) ∧
        Renders (.operator type children) ∧
        (type = .isNull ∧ clause = .isNull column ∨
          type = .isNotNull ∧ clause = .isNotNull column ∨
          ∃ values : List FilterValue, type = .compareIn ∧ rest = values.map .constant ∧
            clause = .isIn column values) := by
  cases children with
  | nil => exact .inl ⟨by cases type <;> rfl, nofun⟩
  | cons child rest =>
    cases child with
    | columnRef i =>
      cases type with
      | isNull => exact .inr ⟨i, rest, _, rfl, rfl, .isNull i rest, .inl ⟨rfl, rfl⟩⟩
      | isNotNull => exact .inr ⟨i, rest, _, rfl, rfl, .isNotNull i rest, .inr (.inl ⟨rfl, rfl⟩)⟩
      | compareIn =>
        cases hvalues : inConstants rest with
        | none =>
          refine .inl ⟨by simp [buildOperator, FilterExpr.isSimpleColumnRef, hvalues], ?_⟩
          generalize hrest : FilterExpr.columnRef i :: rest = es
          rintro (_ | _ | _ | _ | _ | _ | _ | ⟨_, hnan⟩)
          rw [inConstants_eq_some.2 ⟨(List.cons.inj hrest).2, hnan⟩] at hvalues
          cases hvalues
        | some values =>
          obtain ⟨rfl, hnan⟩ := inConstants_eq_some.1 hvalues
          exact .inr ⟨i, _, .isIn column values, rfl,
            by simp [buildOperator, FilterExpr.isSimpleColumnRef, hvalues], .isIn i hnan,
            .inr (.inr ⟨values, rfl, rfl, rfl⟩)⟩
      | other name => exact .inl ⟨rfl, nofun⟩
    | _ => exact .inl ⟨by cases type <;> rfl, nofun⟩

/-! ### The conjunction that a filter is -/

mutual

/-- The operands of the conjunction, through nested ones. -/
def FilterExpr.parts : FilterExpr → List FilterExpr
  | conjunction .and children => partsList children
  | e => [e]

/-- The operands of the expressions of a list. -/
def FilterExpr.partsList : List FilterExpr → List FilterExpr
  | [] => []
  | e :: es => parts e ++ partsList es

end

/-- The expression is optional, or a hint. -/
def FilterExpr.isHint : FilterExpr → Bool
  | optional _ => true
  | rootOptional _ => true
  | function f _ => f.isInternalHint
  | _ => false

theorem FilterExpr.evalList_eq (sem : FilterSemantics) (columns : Nat → FilterValue)
    (es : List FilterExpr) : evalList sem columns es = es.map (eval sem columns) := by
  induction es with
  | nil => rfl
  | cons e es ih => rw [evalList, ih, List.map_cons]

section

variable {sem : FilterSemantics} {x : FilterValue} {column : String} {e : FilterExpr}
  {es : List FilterExpr} {clauses : List Clause}

theorem FilterExpr.truth_and (columns : Nat → FilterValue) :
    (conjunction .and es).truth sem columns = Truth.all (es.map (truth sem columns)) := by
  show (evalConjunction _ _).truth = _
  rw [evalList_eq, evalConjunction, FilterValue.truth_ofTruth, List.map_map]
  rfl

/-- What the clauses of an expression say of a value of its column. -/
structure Says (sem : FilterSemantics) (x : FilterValue) (e : FilterExpr) (clauses : List Clause) :
    Prop where
  sound : e.truth sem (fun _ => x) = some true → ∀ c ∈ clauses, c.truth sem.le x = some true
  complete : (∀ c ∈ clauses, c.truth sem.le x = some true) →
    ∀ p ∈ e.parts, p.isHint = false → p.truth sem (fun _ => x) = some true
  exact : (∀ p ∈ e.parts, p.isHint = false) →
    Truth.all (clauses.map (Clause.truth sem.le x)) = e.truth sem fun _ => x

/-- One clause says what the expression says. -/
theorem Says.single {c : Clause} (hparts : e.parts = [e])
    (h : c.truth sem.le x = e.truth sem fun _ => x) : Says sem x e [c] := by
  refine ⟨fun he c' hc' => ?_, fun hc p hp _ => ?_, fun _ => ?_⟩
  · rw [List.mem_singleton.1 hc', h, he]
  · rw [hparts] at hp
    rw [List.mem_singleton.1 hp, ← h]
    exact hc c List.mem_cons_self
  · rw [List.map_singleton, Truth.all_cons, Truth.all_nil, Truth.and_true, h]

/-- What is optional or a hint says nothing that has to be kept. -/
theorem Says.hint (hparts : e.parts = [e]) (hhint : e.isHint = true)
    (h : e.truth sem (fun _ => x) = some true → ∀ c ∈ clauses, c.truth sem.le x = some true) :
    Says sem x e clauses := by
  refine ⟨h, fun _ p hp hnot => ?_, fun hnone => ?_⟩
  · rw [hparts] at hp
    rw [List.mem_singleton.1 hp, hhint] at hnot
    cases hnot
  · have hnot := hnone e (by rw [hparts]; exact List.mem_singleton_self e)
    rw [hhint] at hnot
    cases hnot

theorem Says.nil : Says sem x (.conjunction .and []) [] where
  sound _ _ hc := absurd hc List.not_mem_nil
  complete _ _ hp := absurd hp List.not_mem_nil
  exact _ := rfl

/-- A conjunction says what its first operand and the others say. -/
theorem Says.cons {ds : List Clause} (h : Says sem x e clauses)
    (hs : Says sem x (.conjunction .and es) ds) :
    Says sem x (.conjunction .and (e :: es)) (clauses ++ ds) := by
  have hparts : (FilterExpr.conjunction .and (e :: es)).parts =
      e.parts ++ (FilterExpr.conjunction .and es).parts := rfl
  have htruth : (FilterExpr.conjunction .and (e :: es)).truth sem (fun _ => x) =
      Truth.and (e.truth sem fun _ => x)
        ((FilterExpr.conjunction .and es).truth sem fun _ => x) := by
    rw [FilterExpr.truth_and, FilterExpr.truth_and, List.map_cons, Truth.all_cons]
  refine ⟨fun hboth c hc => ?_, fun hc p hp hnot => ?_, fun hnone => ?_⟩
  · rw [htruth, Truth.and_eq_true] at hboth
    rcases List.mem_append.1 hc with hc | hc
    · exact h.sound hboth.1 c hc
    · exact hs.sound hboth.2 c hc
  · rw [List.forall_mem_append] at hc
    rw [hparts] at hp
    rcases List.mem_append.1 hp with hp | hp
    · exact h.complete hc.1 p hp hnot
    · exact hs.complete hc.2 p hp hnot
  · rw [hparts, List.forall_mem_append] at hnone
    rw [htruth, List.map_append, Truth.all_append, h.exact hnone.1, hs.exact hnone.2]

/-- What `TryBuildClauses` makes of an expression: nothing if it has no rendering, and else clauses
about the column that say what it says. -/
inductive BuiltAs (sem : FilterSemantics) (column : String) (e : FilterExpr) :
    FilterFidelity × List Clause → Prop
  | unsupported (h : ¬Renders e) : BuiltAs sem column e (.unsupported, [])
  | rendered {fidelity : FilterFidelity} {clauses : List Clause} (hf : fidelity ≠ .unsupported)
      (h : Renders e) (hcolumn : ∀ c ∈ clauses, c.column = column)
      (hmeans : ∀ x, Says sem x e clauses) : BuiltAs sem column e (fidelity, clauses)

/-- What is optional or a hint is left out. -/
theorem BuiltAs.skipped (h : Renders e) (hparts : e.parts = [e]) (hhint : e.isHint = true) :
    BuiltAs sem column e (.optionalSkipped, []) :=
  .rendered nofun h (fun _ hc => absurd hc List.not_mem_nil) fun _ =>
    .hint hparts hhint fun _ _ hc => absurd hc List.not_mem_nil

/-- One clause renders the expression. -/
theorem BuiltAs.clause {c : Clause} (h : Renders e) (hcolumn : c.column = column)
    (hparts : e.parts = [e]) (hmeans : ∀ x, c.truth sem.le x = e.truth sem fun _ => x) :
    BuiltAs sem column e (.exact, [c]) := by
  refine .rendered nofun h (fun c' hc' => ?_) fun x => .single hparts (hmeans x)
  rw [List.mem_singleton.1 hc', hcolumn]

theorem builtAs_comparison (type : ComparisonType) (l r : FilterExpr) :
    BuiltAs sem column (.comparison type l r) (buildComparison column type l r) := by
  rcases buildComparison_cases column type l r with ⟨hbuilt, hnot⟩ | ⟨type', value, hc, hbuilt, h⟩
  · rw [hbuilt]
    exact .unsupported hnot
  · rw [hbuilt]
    refine .clause h rfl rfl fun x => ?_
    show _ = (FilterValue.ofTruth (compareValues sem.le type _ _)).truth
    rw [FilterValue.truth_ofTruth]
    unfold tryGetColumnConstantComparison at hc
    split at hc
    · cases hc
      rfl
    · cases hc
      exact compareValues_flip ..
    · cases hc

theorem builtAs_operator (type : FilterOperator) (children : List FilterExpr) :
    BuiltAs sem column (.operator type children) (buildOperator column type children) := by
  rcases buildOperator_cases column type children with
    ⟨hbuilt, hnot⟩ | ⟨i, rest, clause, rfl, hbuilt, h, hclause⟩
  · rw [hbuilt]
    exact .unsupported hnot
  · rw [hbuilt]
    rcases hclause with ⟨rfl, rfl⟩ | ⟨rfl, rfl⟩ | ⟨values, rfl, rfl, rfl⟩
    · exact .clause h rfl rfl fun x => rfl
    · exact .clause h rfl rfl fun x => rfl
    · refine .clause h rfl rfl fun x => ?_
      have hvalues : FilterExpr.evalList sem (fun _ => x) (values.map .constant) = values := by
        rw [FilterExpr.evalList_eq, List.map_map]
        exact List.map_id' values
      show isIn sem.le x values = (FilterValue.ofTruth (isIn sem.le x
        (FilterExpr.evalList sem (fun _ => x) (values.map .constant)))).truth
      rw [hvalues, FilterValue.truth_ofTruth]

theorem collectClauses_cons {fidelity : FilterFidelity}
    (h : tryBuildClauses column e = (fidelity, clauses)) (hf : fidelity ≠ .unsupported) :
    collectClauses column (e :: es) = (collectClauses column es).map (clauses ++ ·) := by
  rw [collectClauses, h]
  cases fidelity with
  | unsupported => exact absurd rfl hf
  | exact => rfl
  | optionalSkipped => rfl

/-- The operands of a conjunction are collected if each of them has a rendering. -/
theorem collectClauses_cases (hes : ∀ e ∈ es, BuiltAs sem column e (tryBuildClauses column e)) :
    (collectClauses column es = none ∧ ¬∀ e ∈ es, Renders e) ∨
      ∃ clauses, collectClauses column es = some clauses ∧ (∀ e ∈ es, Renders e) ∧
        (∀ c ∈ clauses, c.column = column) ∧ ∀ x, Says sem x (.conjunction .and es) clauses := by
  induction es with
  | nil =>
    exact .inr ⟨[], rfl, fun e he => absurd he List.not_mem_nil,
      fun c hc => absurd hc List.not_mem_nil, fun x => .nil⟩
  | cons e es ih =>
    obtain ⟨he, hes⟩ := List.forall_mem_cons.1 hes
    generalize hbuilt : tryBuildClauses column e = built at he
    cases he with
    | unsupported hnot =>
      exact .inl ⟨by rw [collectClauses, hbuilt], fun h => hnot (List.forall_mem_cons.1 h).1⟩
    | @rendered fidelity clauses hf h hcolumn hmeans =>
      rw [collectClauses_cons hbuilt hf]
      rcases ih hes with ⟨hnone, hnot⟩ | ⟨ds, hds, hall, hcolumns, hmeansAll⟩
      · exact .inl ⟨by rw [hnone]; rfl, fun h => hnot (List.forall_mem_cons.1 h).2⟩
      · refine .inr ⟨clauses ++ ds, by rw [hds]; rfl, List.forall_mem_cons.2 ⟨h, hall⟩, ?_,
          fun x => (hmeans x).cons (hmeansAll x)⟩
        exact List.forall_mem_append.2 ⟨hcolumn, hcolumns⟩

theorem builtAs (sem : FilterSemantics) (column : String) (e : FilterExpr) :
    BuiltAs sem column e (tryBuildClauses column e) := by
  induction e using FilterExpr.ind with
  | columnRef i => exact .unsupported nofun
  | constant v => exact .unsupported nofun
  | comparison type l r => exact builtAs_comparison type l r
  | optional child ih =>
    rw [tryBuildClauses]
    generalize tryBuildClauses column child = built at ih
    cases ih with
    | unsupported _ => exact .skipped (.optional child) rfl rfl
    | @rendered fidelity clauses hf h hcolumn hmeans =>
      have hbuilt : BuiltAs sem column (.optional child) (fidelity, clauses) :=
        .rendered hf (.optional child) hcolumn fun x => .hint rfl rfl (hmeans x).sound
      cases fidelity with
      | unsupported => exact absurd rfl hf
      | exact => exact hbuilt
      | optionalSkipped => exact hbuilt
  | rootOptional id => exact .skipped (.rootOptional id) rfl rfl
  | function f args =>
    rw [tryBuildClauses]
    split_ifs with hf
    · exact .skipped (.hint args hf) rfl hf
    · refine .unsupported fun h => ?_
      cases h with
      | hint _ h => exact hf h
  | operator type children => exact builtAs_operator type children
  | conjunction type children ih =>
    cases type with
    | or => exact .unsupported nofun
    | and =>
      rw [tryBuildClauses]
      rcases collectClauses_cases ih with ⟨hnone, hnot⟩ | ⟨clauses, hsome, hall, hcolumns, hmeans⟩
      · rw [hnone]
        refine .unsupported fun h => ?_
        cases h with
        | and h => exact hnot h
      · rw [hsome]
        cases clauses with
        | nil => exact .rendered nofun (.and hall) hcolumns hmeans
        | cons c cs => exact .rendered nofun (.and hall) hcolumns hmeans
  | other id => exact .unsupported nofun

end

/-! ### The filters of a scan -/

/-- The operands of the conjunction that a filter is. -/
def TableFilter.parts : TableFilter → List TableFilter
  | expression e => e.parts.map .expression
  | other id => [.other id]

/-- The filter is optional, or a hint. -/
def TableFilter.isHint : TableFilter → Bool
  | expression e => e.isHint
  | other _ => false

/-- A row of the table: the values of its columns, and what a filter without a column is about. -/
structure FilterRow where
  column : Nat → FilterValue
  unmapped : Nat → FilterValue

section

variable (sem : FilterSemantics) (filterToCol : Nat → Option Nat) (columns : ScanColumns)
  (row : FilterRow)

/-- The value of the row that the filter of this index is about. -/
def FilterRow.at (index : Nat) : FilterValue :=
  match (filterToCol index).filter (· < columns.names.length) with
  | some i => row.column i
  | none => row.unmapped index

/-- The columns of a part: those of the scan, or the one that the filter of this index is about. -/
def FilterRow.scope : Option Nat → Nat → FilterValue
  | none => row.at filterToCol columns
  | some index => fun _ => row.at filterToCol columns index

/-- What a clause says of the row; its column is found by name. -/
def Clause.onRow (c : Clause) : Option Bool :=
  c.truth sem.le (row.column (columns.names.idxOf c.column))

/-- The filters of a set, each with the index of its column unless it is about several. -/
def TableFilterSet.indexed (filterSet : TableFilterSet) : List (Option Nat × TableFilter) :=
  filterSet.multiColumn.map (none, ·) ++ filterSet.filters.map fun entry => (some entry.1, entry.2)

/-- What one of them says of the row. -/
def truthOnRow (filter : Option Nat × TableFilter) : Option Bool :=
  filter.2.truth sem (row.scope filterToCol columns filter.1)

/-- What the filter set says of the row. -/
def TableFilterSet.truth (filterSet : TableFilterSet) : Option Bool :=
  Truth.all (filterSet.indexed.map (truthOnRow sem filterToCol columns row))

/-- The parts of a filter set, with the columns they are about. -/
def TableFilterSet.parts (filterSet : TableFilterSet) : List (Option Nat × TableFilter) :=
  filterSet.indexed.flatMap fun filter => filter.2.parts.map (filter.1, ·)

/-- The filter is about a column of the table and can be rendered. -/
inductive EntryRenders : Nat × TableFilter → Prop
  | intro {index : Nat} {column : String} {e : FilterExpr}
      (hcolumn : columnOfFilter filterToCol columns index = some column) (h : Renders e) :
      EntryRenders (index, .expression e)

/-- The clauses of one filter. -/
def entryClauses (entry : Nat × TableFilter) : List Clause :=
  (serializeEntry filterToCol columns ([], {}) entry).1

/-- The filter was rendered, or left out as optional. -/
def entryExact (entry : Nat × TableFilter) : Bool :=
  (serializeEntry filterToCol columns ([], {}) entry).2.allExact

/-- What clauses say of a row, when none of the filters they come from is one that cannot be
rendered. -/
structure SaysOnRow (filters : List (Option Nat × TableFilter)) (clauses : List Clause) :
    Prop where
  sound : Truth.all (filters.map (truthOnRow sem filterToCol columns row)) = some true →
    ∀ c ∈ clauses, c.onRow sem columns row = some true
  complete : (∀ c ∈ clauses, c.onRow sem columns row = some true) →
    ∀ filter ∈ filters, ∀ p ∈ filter.2.parts, p.isHint = false →
      truthOnRow sem filterToCol columns row (filter.1, p) = some true
  exact : (∀ filter ∈ filters, ∀ p ∈ filter.2.parts, p.isHint = false) →
    Truth.all (clauses.map (Clause.onRow sem columns row)) =
      Truth.all (filters.map (truthOnRow sem filterToCol columns row))

end

section

variable {sem : FilterSemantics} {filterToCol : Nat → Option Nat} {columns : ScanColumns}
  {row : FilterRow}

theorem serializeEntry_fst (acc : List Clause × FilterSerializeResult) (entry : Nat × TableFilter) :
    (serializeEntry filterToCol columns acc entry).1 =
      acc.1 ++ entryClauses filterToCol columns entry := by
  unfold entryClauses serializeEntry
  cases columnOfFilter filterToCol columns entry.1 with
  | none => exact (List.append_nil _).symm
  | some column =>
    dsimp only
    cases entry.2.build column with
    | mk fidelity clauses =>
      cases fidelity with
      | unsupported => exact (List.append_nil _).symm
      | exact => rfl
      | optionalSkipped => rfl

theorem serializeEntry_snd (acc : List Clause × FilterSerializeResult) (entry : Nat × TableFilter) :
    (serializeEntry filterToCol columns acc entry).2.allExact =
      (acc.2.allExact && entryExact filterToCol columns entry) := by
  unfold entryExact serializeEntry
  cases columnOfFilter filterToCol columns entry.1 with
  | none => exact (Bool.and_false _).symm
  | some column =>
    dsimp only
    cases entry.2.build column with
    | mk fidelity clauses =>
      cases fidelity with
      | unsupported => exact (Bool.and_false _).symm
      | exact => exact (Bool.and_true _).symm
      | optionalSkipped => exact (Bool.and_true _).symm

/-- The clauses of the filters, one filter after another. -/
theorem foldl_serializeEntry (entries : List (Nat × TableFilter))
    (acc : List Clause × FilterSerializeResult) :
    (entries.foldl (serializeEntry filterToCol columns) acc).1 =
        acc.1 ++ entries.flatMap (entryClauses filterToCol columns) ∧
      (entries.foldl (serializeEntry filterToCol columns) acc).2.allExact =
        (acc.2.allExact && entries.all (entryExact filterToCol columns)) := by
  induction entries generalizing acc with
  | nil => exact ⟨(List.append_nil _).symm, (Bool.and_true _).symm⟩
  | cons entry entries ih =>
    obtain ⟨hclauses, hexact⟩ := ih (serializeEntry filterToCol columns acc entry)
    rw [List.foldl_cons]
    constructor
    · rw [hclauses, serializeEntry_fst, List.flatMap_cons, List.append_assoc]
    · rw [hexact, serializeEntry_snd, List.all_cons, Bool.and_assoc]

theorem foldl_checkMultiColumn (filters : List TableFilter) (result : FilterSerializeResult) :
    (filters.foldl checkMultiColumn result).allExact =
      (result.allExact && filters.all TableFilter.isOptional) := by
  induction filters generalizing result with
  | nil => exact (Bool.and_true _).symm
  | cons filter filters ih =>
    rw [List.foldl_cons, ih, List.all_cons, checkMultiColumn]
    cases hopt : filter.isOptional with
    | true => rw [if_pos rfl, Bool.true_and]
    | false => rw [if_neg Bool.false_ne_true, Bool.false_and, Bool.and_false]; rfl

theorem serializeFiltersInto_fst (filterSet : TableFilterSet) :
    (serializeFiltersInto filterToCol columns filterSet).1 =
      filterSet.filters.flatMap (entryClauses filterToCol columns) :=
  (foldl_serializeEntry ..).1

theorem serializeFiltersInto_allExact (filterSet : TableFilterSet) :
    (serializeFiltersInto filterToCol columns filterSet).2.allExact =
      (filterSet.multiColumn.all TableFilter.isOptional &&
        filterSet.filters.all (entryExact filterToCol columns)) := by
  rw [serializeFiltersInto, (foldl_serializeEntry ..).2, foldl_checkMultiColumn]
  rfl

theorem serializeFilters_snd {toString : FilterValue → String}
    {write : List (List WireValue) → Option String} {filterSet : TableFilterSet}
    {sent : String × FilterSerializeResult}
    (h : serializeFilters filterToCol columns toString write filterSet = .ok sent) :
    sent.2 = (serializeFiltersInto filterToCol columns filterSet).2 := by
  unfold serializeFilters at h
  generalize serializeFiltersInto filterToCol columns filterSet = serialized at h ⊢
  obtain ⟨clauses, result⟩ := serialized
  cases clauses with
  | nil =>
    cases h
    rfl
  | cons c cs =>
    dsimp only at h
    split at h
    · cases h
      rfl
    · cases h

/-- A scan that is not refused sends filters that were reported exact. -/
theorem allExact_of_sent {toString : FilterValue → String}
    {write : List (List WireValue) → Option String} {filterSet : TableFilterSet} {json : String}
    (h : serializeFlatFiltersOrThrow filterToCol columns toString write (some filterSet) = .ok json) :
    (serializeFiltersInto filterToCol columns filterSet).2.allExact = true := by
  unfold serializeFlatFiltersOrThrow at h
  dsimp only at h
  cases hs : serializeFilters filterToCol columns toString write filterSet with
  | error e =>
    rw [hs] at h
    cases h
  | ok sent =>
    rw [hs] at h
    rw [← serializeFilters_snd hs]
    dsimp only at h
    split_ifs at h with hexact
    exact hexact

/-! ### What the clauses say of a row -/

theorem SaysOnRow.nil : SaysOnRow sem filterToCol columns row [] [] where
  sound _ _ hc := absurd hc List.not_mem_nil
  complete _ _ hf := absurd hf List.not_mem_nil
  exact _ := rfl

theorem SaysOnRow.append {filters filters' : List (Option Nat × TableFilter)}
    {clauses clauses' : List Clause} (h : SaysOnRow sem filterToCol columns row filters clauses)
    (h' : SaysOnRow sem filterToCol columns row filters' clauses') :
    SaysOnRow sem filterToCol columns row (filters ++ filters') (clauses ++ clauses') := by
  refine ⟨fun htrue c hc => ?_, fun hc filter hf => ?_, fun hnone => ?_⟩
  · rw [List.map_append, Truth.all_append, Truth.and_eq_true] at htrue
    rcases List.mem_append.1 hc with hc | hc
    · exact h.sound htrue.1 c hc
    · exact h'.sound htrue.2 c hc
  · rw [List.forall_mem_append] at hc
    rcases List.mem_append.1 hf with hf | hf
    · exact h.complete hc.1 filter hf
    · exact h'.complete hc.2 filter hf
  · rw [List.forall_mem_append] at hnone
    rw [List.map_append, List.map_append, Truth.all_append, Truth.all_append, h.exact hnone.1,
      h'.exact hnone.2]

/-- A clause about a column of the table finds the value that the filter is about. -/
theorem onRow_of_column {index : Nat} {column : String} {c : Clause}
    (hcolumn : columnOfFilter filterToCol columns index = some column) (hc : c.column = column) :
    c.onRow sem columns row = c.truth sem.le (row.at filterToCol columns index) := by
  obtain ⟨i, hi, hname⟩ := Option.bind_eq_some_iff.1 hcolumn
  obtain ⟨hlt, rfl⟩ := List.getElem?_eq_some_iff.1 hname
  have hat : row.at filterToCol columns index = row.column i := by
    unfold FilterRow.at
    rw [hi, Option.filter_some_pos (by simpa using hlt)]
  rw [Clause.onRow, hc, List.Nodup.idxOf_getElem columns.nodup, hat]

/-- The clauses of the filter of one column say of a row what they say of its value. -/
theorem Says.onRow {index : Nat} {column : String} {e : FilterExpr} {clauses : List Clause}
    (hcolumn : columnOfFilter filterToCol columns index = some column)
    (hclauses : ∀ c ∈ clauses, c.column = column)
    (h : Says sem (row.at filterToCol columns index) e clauses) :
    SaysOnRow sem filterToCol columns row [(some index, .expression e)] clauses := by
  have hrow : ∀ c ∈ clauses,
      c.onRow sem columns row = c.truth sem.le (row.at filterToCol columns index) :=
    fun c hc => onRow_of_column hcolumn (hclauses c hc)
  have htruth : Truth.all ([(some index, TableFilter.expression e)].map
      (truthOnRow sem filterToCol columns row)) =
      e.truth sem fun _ => row.at filterToCol columns index := Truth.and_true _
  refine ⟨fun he c hc => ?_, fun hc filter hf p hp hnot => ?_, fun hnone => ?_⟩
  · rw [hrow c hc]
    exact h.sound (htruth ▸ he) c hc
  · rw [List.mem_singleton.1 hf] at hp ⊢
    obtain ⟨part, hpart, rfl⟩ := List.mem_map.1 hp
    exact h.complete (fun c hmem => (hrow c hmem).symm.trans (hc c hmem)) part hpart hnot
  · rw [htruth, List.map_congr_left hrow]
    exact h.exact fun part hpart =>
      hnone _ List.mem_cons_self (.expression part) (List.mem_map_of_mem hpart)

variable (sem) in
/-- One filter: it has no rendering, adds nothing and is reported, or its clauses say what it
says. -/
theorem entry_cases (entry : Nat × TableFilter) :
    (¬EntryRenders filterToCol columns entry ∧ entryClauses filterToCol columns entry = [] ∧
        entryExact filterToCol columns entry = false) ∨
      (EntryRenders filterToCol columns entry ∧ entryExact filterToCol columns entry = true ∧
        ∀ row, SaysOnRow sem filterToCol columns row [(some entry.1, entry.2)]
          (entryClauses filterToCol columns entry)) := by
  obtain ⟨index, filter⟩ := entry
  unfold entryClauses entryExact serializeEntry
  cases hcolumn : columnOfFilter filterToCol columns index with
  | none =>
    refine .inl ⟨fun h => ?_, rfl, rfl⟩
    cases h with
    | intro hsome h =>
      rw [hcolumn] at hsome
      cases hsome
  | some column =>
    dsimp only
    cases filter with
    | other id =>
      refine .inl ⟨fun h => ?_, rfl, rfl⟩
      cases h
    | expression e =>
      rw [TableFilter.build]
      have hbuilt := builtAs sem column e
      generalize tryBuildClauses column e = built at hbuilt
      cases hbuilt with
      | unsupported hnot =>
        refine .inl ⟨fun h => ?_, rfl, rfl⟩
        cases h with
        | intro _ h => exact hnot h
      | @rendered fidelity clauses hf h hclauses hmeans =>
        have hsaysRow := fun row : FilterRow => Says.onRow hcolumn hclauses
          (hmeans (row.at filterToCol columns index))
        cases fidelity with
        | unsupported => exact absurd rfl hf
        | exact => exact .inr ⟨.intro hcolumn h, rfl, hsaysRow⟩
        | optionalSkipped => exact .inr ⟨.intro hcolumn h, rfl, hsaysRow⟩

/-- The filters of a scan are all rendered: their clauses say what they say. -/
theorem saysOnRow_entries {entries : List (Nat × TableFilter)}
    (h : entries.all (entryExact filterToCol columns) = true) :
    SaysOnRow sem filterToCol columns row (entries.map fun entry => (some entry.1, entry.2))
      (entries.flatMap (entryClauses filterToCol columns)) := by
  induction entries with
  | nil => exact .nil
  | cons entry entries ih =>
    rw [List.all_cons, Bool.and_eq_true] at h
    rw [List.map_cons, List.flatMap_cons]
    rcases entry_cases sem entry with ⟨-, -, hfalse⟩ | ⟨-, -, hmeans⟩
    · rw [h.1] at hfalse
      cases hfalse
    · exact (hmeans row).append (ih h.2)

/-- Filters of several columns are left out if they are optional. -/
theorem saysOnRow_multiColumn {filters : List TableFilter}
    (h : filters.all TableFilter.isOptional = true) :
    SaysOnRow sem filterToCol columns row (filters.map (none, ·)) [] := by
  have hparts : ∀ filter ∈ filters, filter.parts = [filter] ∧ filter.isHint = true := by
    intro filter hmem
    have hopt := List.all_eq_true.1 h filter hmem
    unfold TableFilter.isOptional at hopt
    split at hopt
    · exact ⟨rfl, rfl⟩
    · exact ⟨rfl, rfl⟩
    · cases hopt
  refine ⟨fun _ c hc => absurd hc List.not_mem_nil, fun _ filter hf p hp hnot => ?_, fun hnone => ?_⟩
  · obtain ⟨f, hmem, rfl⟩ := List.mem_map.1 hf
    obtain ⟨hself, hhint⟩ := hparts f hmem
    rw [hself, List.mem_singleton] at hp
    rw [hp, hhint] at hnot
    cases hnot
  · cases filters with
    | nil => rfl
    | cons f fs =>
      obtain ⟨hself, hhint⟩ := hparts f List.mem_cons_self
      have hnot := hnone (none, f) List.mem_cons_self f (by rw [hself]; exact List.mem_cons_self)
      rw [hhint] at hnot
      cases hnot

/-- Whatever is rendered, a row on which every filter is `TRUE` is not lost. -/
theorem sound_entries {entries : List (Nat × TableFilter)}
    (h : ∀ entry ∈ entries,
      truthOnRow sem filterToCol columns row (some entry.1, entry.2) = some true) :
    ∀ c ∈ entries.flatMap (entryClauses filterToCol columns),
      c.onRow sem columns row = some true := by
  intro c hc
  obtain ⟨entry, hmem, hc⟩ := List.mem_flatMap.1 hc
  rcases entry_cases sem entry with ⟨-, hnil, -⟩ | ⟨-, -, hmeans⟩
  · rw [hnil] at hc
    cases hc
  · refine (hmeans row).sound ?_ c hc
    rw [List.map_singleton, Truth.all_cons, h entry hmem]
    rfl

end

/-- **The clauses are the filter**: they hold on every row the filters hold on; if the filter set is
reported exact they imply every part that is neither optional nor a hint, and are the filter set if
every part is such; and a filter that cannot be rendered adds no clause and is reported. -/
theorem serializeFilters_faithful (sem : FilterSemantics) (filterToCol : Nat → Option Nat)
    (columns : ScanColumns) (filterSet : TableFilterSet) :
    (∀ row, filterSet.truth sem filterToCol columns row = some true →
      Truth.all ((serializeFiltersInto filterToCol columns filterSet).1.map
        (Clause.onRow sem columns row)) = some true) ∧
    ((serializeFiltersInto filterToCol columns filterSet).2.allExact = true →
      (∀ row, Truth.all ((serializeFiltersInto filterToCol columns filterSet).1.map
          (Clause.onRow sem columns row)) = some true →
        ∀ p ∈ filterSet.parts, p.2.isHint = false →
          truthOnRow sem filterToCol columns row p = some true) ∧
      ((∀ p ∈ filterSet.parts, p.2.isHint = false) → ∀ row,
        Truth.all ((serializeFiltersInto filterToCol columns filterSet).1.map
          (Clause.onRow sem columns row)) = filterSet.truth sem filterToCol columns row)) ∧
    ∀ before entry after, filterSet.filters = before ++ entry :: after →
      ¬EntryRenders filterToCol columns entry →
      (serializeFiltersInto filterToCol columns filterSet).1 =
          (serializeFiltersInto filterToCol columns
            ⟨filterSet.multiColumn, before ++ after⟩).1 ∧
        (serializeFiltersInto filterToCol columns filterSet).2.allExact = false := by
  rw [serializeFiltersInto_fst, serializeFiltersInto_allExact]
  refine ⟨fun row htrue => ?_, fun hexact => ?_, fun before entry after hfilters hnot => ?_⟩
  · rw [TableFilterSet.truth, TableFilterSet.indexed, Truth.all_eq_true, List.forall_mem_map] at htrue
    rw [Truth.all_eq_true, List.forall_mem_map]
    exact sound_entries fun entry hmem =>
      htrue _ (List.mem_append_right _ (List.mem_map_of_mem hmem))
  · rw [Bool.and_eq_true] at hexact
    have hmeans : ∀ row, SaysOnRow sem filterToCol columns row filterSet.indexed
        (filterSet.filters.flatMap (entryClauses filterToCol columns)) := fun row =>
      (saysOnRow_multiColumn hexact.1).append (saysOnRow_entries hexact.2)
    refine ⟨fun row htrue p hp hnot => ?_, fun hnone row => (hmeans row).exact fun filter hf p hp => ?_⟩
    · obtain ⟨filter, hf, hp⟩ := List.mem_flatMap.1 hp
      obtain ⟨part, hpart, rfl⟩ := List.mem_map.1 hp
      rw [Truth.all_eq_true, List.forall_mem_map] at htrue
      exact (hmeans row).complete htrue filter hf part hpart hnot
    · exact hnone (filter.1, p) (List.mem_flatMap.2 ⟨filter, hf, List.mem_map_of_mem hp⟩)
  · rcases entry_cases sem entry with ⟨-, hnil, hfalse⟩ | ⟨h, -, -⟩
    · rw [hfilters]
      constructor
      · rw [serializeFiltersInto_fst, List.flatMap_append, List.flatMap_cons, hnil,
          List.nil_append, List.flatMap_append]
      · rw [List.all_append, List.all_cons, hfalse, Bool.false_and, Bool.and_false, Bool.and_false]
    · exact absurd h hnot

end Provider

end VirtualCatalog
