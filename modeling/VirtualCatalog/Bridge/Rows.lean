import VirtualCatalog.Bridge.Statement

/-!
# Rows of the source under a write

A write runs over the join of a source table with the seam, a relation that carries the keys and
the new values of the rows to write.

* `SourceTable`, `SourceTable.Row` : a table with stored and generated columns, and its rows; a row
  has a value for every stored column by construction.
* `SourceTable.Row.write` : the row after a write, its generated columns computed anew.
* `CrossingWriteStatement.seamScope` : one row of the seam.
* `Scope.read_append`, `Scope.read_seam` : what a reference means once the seam is in scope.
-/

namespace VirtualCatalog

/-- A table of the source. -/
structure SourceTable where
  schema : String
  name : String
  stored : List String
  /-- Generated columns, each computed from the stored ones. -/
  generated : List (String × (List (String × Value) → Value))

namespace SourceTable

/-- A row: one value for each stored column. -/
structure Row (t : SourceTable) where
  values : List Value
  length_eq : values.length = t.stored.length

variable {t : SourceTable}

/-- The stored columns of a row. -/
def Row.stored (r : t.Row) : List (String × Value) := t.stored.zip r.values

/-- The columns of a row. -/
def Row.columns (r : t.Row) : List (String × Value) :=
  r.stored ++ t.generated.map fun g => (g.1, g.2 r.stored)

/-- A row in scope under the name of its table. -/
def Row.scope (r : t.Row) : TableScope := ⟨some t.schema, t.name, r.columns⟩

/-- The new value of a column, if it is one of the written columns. -/
def written (setColumns : List String) (newValues : List Value) (c : String) : Option Value :=
  (setColumns.findIdx? (ciEq · c)).bind (newValues[·]?)

/-- The row after a write: the written columns new, all others as they were. -/
def Row.write (r : t.Row) (setColumns : List String) (newValues : List Value) : t.Row where
  values := r.stored.map fun e => (written setColumns newValues e.1).getD e.2
  length_eq := by simp [Row.stored, r.length_eq]

/-- `c` is a stored column. -/
def isStored (t : SourceTable) (c : String) : Bool := t.stored.any (ciEq · c)

theorem Row.map_fst_stored (r : t.Row) : r.stored.map Prod.fst = t.stored :=
  List.map_fst_zip (le_of_eq r.length_eq.symm)

theorem written_congr {setColumns : List String} {newValues : List Value} {c c' : String}
    (h : fold c = fold c') : written setColumns newValues c = written setColumns newValues c' := by
  simp only [written, ciEq, h]

theorem Row.stored_write (r : t.Row) (setColumns : List String) (newValues : List Value) :
    (r.write setColumns newValues).stored =
      r.stored.map fun e => (e.1, (written setColumns newValues e.1).getD e.2) := by
  rw [Row.stored, ← r.map_fst_stored, Row.write, List.zip_map']

theorem Row.find?_stored (r : t.Row) {c : String} (h : t.isStored c = true) :
    ∃ e, r.stored.find? (fun e => ciEq e.1 c) = some e := by
  rw [← Option.isSome_iff_exists, List.find?_isSome]
  rw [isStored, ← r.map_fst_stored, List.any_map, List.any_eq_true] at h
  exact h

/-- The value of a stored column. -/
theorem Row.column?_stored (r : t.Row) {c : String} (h : t.isStored c = true) :
    r.scope.column? c = (r.stored.find? fun e => ciEq e.1 c).map Prod.snd := by
  obtain ⟨e, he⟩ := r.find?_stored h
  rw [TableScope.column?, Row.scope, Row.columns, List.find?_append, he, Option.some_or]

theorem isStored_congr {c c' : String} (h : fold c = fold c') : t.isStored c = t.isStored c' := by
  simp only [isStored, ciEq, h]

/-- Rows have the same columns. -/
theorem Row.isSome_column? (r : t.Row) (c : String) : (r.scope.column? c).isSome =
    (t.stored ++ t.generated.map Prod.fst).any (ciEq · c) := by
  have hnames : t.stored ++ t.generated.map Prod.fst = r.columns.map Prod.fst := by
    rw [Row.columns, List.map_append, r.map_fst_stored, List.map_map]
    rfl
  rw [hnames, List.any_map, TableScope.column?, Option.isSome_map, List.isSome_find?]
  rfl

/-- A stored column after a write. -/
theorem Row.column?_write (r : t.Row) (setColumns : List String) (newValues : List Value)
    {c : String} (h : t.isStored c = true) :
    (r.write setColumns newValues).scope.column? c =
      (r.scope.column? c).map fun v => (written setColumns newValues c).getD v := by
  obtain ⟨e, he⟩ := r.find?_stored h
  have hc : fold e.1 = fold c := by
    have := List.find?_some he
    exact ciEq_iff.1 this
  rw [Row.column?_stored _ h, Row.column?_stored _ h, Row.stored_write, List.find?_map]
  change Option.map Prod.snd (Option.map _ (r.stored.find? fun e => ciEq e.1 c)) = _
  rw [he]
  simp [written_congr hc]

end SourceTable

/-- A row of the seam in scope. -/
def CrossingWriteStatement.seamScope (built : CrossingWriteStatement) (values : List Value) :
    TableScope := ⟨none, built.seamAlias, built.seamColumns.zip values⟩

/-- The values of the seam: first the keys, then the new value of each written column. -/
structure Carries (built : CrossingWriteStatement) (setColumns : List String)
    (keys newValues : List Value) : Prop where
  columns : built.seamColumns.length = keys.length + setColumns.length
  values : newValues.length = setColumns.length
  nodup : (built.seamColumns.map fold).Nodup

/-- The name is neither the alias nor a column of the seam. -/
def FreshName (built : CrossingWriteStatement) (n : String) : Prop :=
  fold built.seamAlias ≠ fold n ∧ ∀ c ∈ built.seamColumns, fold c ≠ fold n

/-- The seam's names occur neither as the table's name nor in the predicate. -/
structure FreshSeam (built : CrossingWriteStatement) (table : String) (e : Expr) : Prop where
  table : FreshName built table
  leaves : ∀ p, Expr.columnRef p ∈ e.leaves → ∀ n ∈ p.names, FreshName built n
  outer : ∀ p ∈ e.outerRefs, ∀ n ∈ p.names, FreshName built n

namespace Scope

variable {scope : Scope} {seam : TableScope}

theorem tableColumn_append {s : Option String} {t c : String} (h : seam.isCalled s t = false) :
    tableColumn (scope ++ [seam]) s t c = tableColumn scope s t c := by
  rw [tableColumn, tableColumn, List.filter_append, List.filter_singleton, h]
  simp

theorem bare_append {params : List String} {c : String} (h : seam.column? c = none) :
    bare (scope ++ [seam]) params c = bare scope params c := by
  rw [bare, bare, unique, unique, List.filterMap_append]
  simp [h]

/-- A reference none of whose names the seam has does not see the seam. -/
theorem read_append {params : List String} {inSubquery : Bool} {p : ColumnPath}
    (h : ∀ n ∈ p.names, (∀ s, seam.isCalled s n = false) ∧ seam.column? n = none) :
    read (scope ++ [seam]) params inSubquery p = read scope params inSubquery p := by
  have hb : ∀ c ∈ p.names, bare (scope ++ [seam]) params c = bare scope params c :=
    fun c hc => bare_append (h c hc).2
  have ht : ∀ (s : Option String) (c : String), ∀ t ∈ p.names,
      tableColumn (scope ++ [seam]) s t c = tableColumn scope s t c :=
    fun s c t ht => tableColumn_append ((h t ht).1 s)
  rw [read, read]
  split
  · rfl
  next c hn =>
    dsimp only
    rw [hb c (by simp [hn])]
  next t c hn =>
    dsimp only
    rw [ht none c t (by simp [hn]), hb t (by simp [hn])]
  next s t c fields hn =>
    dsimp only
    rw [ht (some s) c t (by simp [hn]), ht none t s (by simp [hn]), hb s (by simp [hn])]

/-- A bare name over one row. -/
theorem read_bare (s : TableScope) (inSubquery : Bool) (c : String) :
    read [s] [] inSubquery (.plain c) = (s.column? c).map fun v => (.column v, []) := by
  simp only [read, ColumnPath.names_plain, bare, List.any_nil, Bool.false_eq_true, if_false,
    unique_single, Option.map_map]
  rfl

/-- A column, by its qualified name. -/
theorem read_of_tableColumn {params : List String} {inSubquery : Bool} {t c : String} {v : Value}
    (h : tableColumn scope none t c = some v) :
    read scope params inSubquery ⟨[t], c⟩ = some (.column v, []) := by
  simp [read, ColumnPath.names, h]

/-- A column of one row, by its qualified name. -/
theorem read_qualified {s : TableScope} {params : List String} {inSubquery : Bool} {t c : String}
    {v : Value} (ht : s.isCalled none t = true) (hv : s.column? c = some v) :
    read [s] params inSubquery ⟨[t], c⟩ = some (.column v, []) :=
  read_of_tableColumn (by simp [tableColumn, ht, unique_single, hv])

/-- Nothing is read where no table is in scope. -/
theorem read_nil {inSubquery : Bool} {p : ColumnPath} : read [] [] inSubquery p = none := by
  simp only [read]
  split <;> rfl

/-- Two tables of one name with the same columns bind the same references. -/
theorem isSome_read_congr {s s' : TableScope} (hschema : s.schema = s'.schema)
    (hname : s.name = s'.name) (h : ∀ c, (s.column? c).isSome = (s'.column? c).isSome)
    {inSubquery : Bool} {p : ColumnPath} :
    (read [s] [] inSubquery p).isSome = (read [s'] [] inSubquery p).isSome := by
  have hbare : ∀ c, (bare [s] [] c).isSome = (bare [s'] [] c).isSome := fun c => by
    simp [bare, unique_single, h]
  have htable : ∀ a b c, (tableColumn [s] a b c).isSome = (tableColumn [s'] a b c).isSome := by
    intro a b c
    have hcalled : s.isCalled a b = s'.isCalled a b := by
      rw [TableScope.isCalled, TableScope.isCalled, hschema, hname]
    rw [tableColumn, tableColumn, List.filter_singleton, List.filter_singleton, hcalled]
    cases s'.isCalled a b with
    | true => simp [unique_single, h]
    | false => rfl
  simp only [read]
  split
  · rfl
  · simp [hbare]
  · simp [hbare, htable]
  · simp [hbare, htable]

/-- A table without the column does not make its qualified name ambiguous. -/
theorem tableColumn_append_of_none {s : Option String} {t c : String} (h : seam.column? c = none) :
    tableColumn (scope ++ [seam]) s t c = tableColumn scope s t c := by
  rw [tableColumn, tableColumn, List.filter_append, unique, unique, List.filterMap_append,
    List.filter_singleton]
  cases seam.isCalled s t <;> simp [h]

/-- A column of the seam, by its qualified name. -/
theorem read_seam {params : List String} {inSubquery : Bool} {c : String} {v : Value}
    (hs : ∀ t ∈ scope, ciEq t.name seam.name = false) (hv : seam.column? c = some v) :
    read (scope ++ [seam]) params inSubquery ⟨[seam.name], c⟩ = some (.column v, []) := by
  have hnone : scope.filter (·.isCalled none seam.name) = [] := by
    rw [List.filter_eq_nil_iff]
    intro t ht
    simp [TableScope.isCalled, hs t ht]
  refine read_of_tableColumn ?_
  rw [tableColumn, List.filter_append, hnone, List.filter_singleton]
  simp [TableScope.isCalled, unique, hv]

end Scope

namespace CrossingWriteStatement

variable {built : CrossingWriteStatement} {values : List Value}

theorem seamScope_not_called {n : String} (h : FreshName built n) (s : Option String) :
    (built.seamScope values).isCalled s n = false := by
  have : ciEq built.seamAlias n = false := by simpa [ciEq] using h.1
  simp [TableScope.isCalled, seamScope, this]

theorem seamScope_column?_none {n : String} (h : FreshName built n) :
    (built.seamScope values).column? n = none := by
  rw [TableScope.column?, Option.map_eq_none_iff, List.find?_eq_none]
  rintro ⟨c, v⟩ hm
  have hc : c ∈ built.seamColumns := (List.of_mem_zip hm).1
  simpa [ciEq] using h.2 c hc

/-- The seam column of the `i`-th written column carries its new value. -/
theorem seamScope_column? {setColumns : List String} {keys newValues : List Value} {i : Nat}
    (h : Carries built setColumns keys newValues) (hi : i < setColumns.length) :
    (built.seamScope (keys ++ newValues)).column? (built.seamColumns.getD (keys.length + i) "") =
        newValues[i]? := by
  have hk : keys.length + i < built.seamColumns.length := by rw [h.columns]; omega
  have hv : i < newValues.length := by rw [h.values]; exact hi
  have hfind : (built.seamColumns.zip (keys ++ newValues)).find?
      (fun e => ciEq e.1 built.seamColumns[keys.length + i]) =
        some (built.seamColumns[keys.length + i], newValues[i]) := by
    rw [List.find?_eq_some_iff_getElem]
    refine ⟨by simp, keys.length + i, by simp [h.columns, h.values, hi], by simp, fun j hj => ?_⟩
    -- an earlier column has another name
    have hne : fold built.seamColumns[j] ≠ fold built.seamColumns[keys.length + i] := by
      intro heq
      have hlt : j < (built.seamColumns.map fold).length := by rw [List.length_map]; omega
      have hlt' : keys.length + i < (built.seamColumns.map fold).length := by
        rwa [List.length_map]
      have : (built.seamColumns.map fold)[j] = (built.seamColumns.map fold)[keys.length + i] := by
        simpa using heq
      exact absurd ((h.nodup.getElem_inj_iff).1 this) (Nat.ne_of_lt hj)
    simpa [ciEq] using hne
  rw [List.getD_eq_getElem?_getD, List.getElem?_eq_getElem hk, Option.getD_some,
    TableScope.column?, seamScope, hfind, List.getElem?_eq_getElem hv]
  rfl

end CrossingWriteStatement

namespace Sample

/-- The functions of a source, as far as the examples use them. -/
def semantics : Semantics where
  call f args :=
    match f, args with
    | "=", [.value (.integer a), .value (.integer b)] => .ok (.boolean (decide (a = b)))
    | "error", [.value (.varchar m)] => .error (.raised m)
    | _, _ => .ok .null
  subquery _ _ _ := .ok .null
  call_error _ := rfl

/-- The table of the examples. -/
def ordersTable : SourceTable := ⟨"main", "orders", ["tenant", "amount"], []⟩

end Sample

end VirtualCatalog
