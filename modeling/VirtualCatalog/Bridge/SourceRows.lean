import VirtualCatalog.Bridge.Reach
import VirtualCatalog.Machine.Lockstep

/-!
# The source's tables under the statements of a guest

`DuckDBSession::Read` and `DuckDBSession::Write` run on the source, in the transaction of the
session: a statement that throws rolls it back.

* `StoredTable`, `SourceData` : the tables of the source with their rows.
* `SourceEngine` : what is the source's own affair when it evaluates a statement.
* `CrossingWriteStatement.applied` : the rows of a table after a statement.
* `GuestStatement.perform` : a statement of the guest, under the policy of a store.
* `guestRuns` : the statements of a guest one after the other, with the policies they meet.
* `perform_read`, `perform_write` : what a statement did that was not refused.
* `run_tables` : what every statement respects table by table, a session does.
-/

namespace VirtualCatalog

/-! ### Tables with their rows -/

/-- A table of the source with its rows. -/
structure StoredTable where
  table : SourceTable
  /-- What an insert writes to the columns that it does not set. -/
  defaults : table.Row
  rows : List table.Row

/-- The tables of the source. -/
abbrev SourceData := List StoredTable

/-- The table has this name. -/
def StoredTable.IsNamed (x : StoredTable) (schema name : String) : Prop :=
  x.table.schema = schema ∧ x.table.name = name

instance (x : StoredTable) (schema name : String) : Decidable (x.IsNamed schema name) :=
  inferInstanceAs (Decidable (_ ∧ _))

/-- Replace the rows of the table of this name; the count is of the rows changed. -/
def SourceData.change (schema name : String)
    (work : (x : StoredTable) → Except EvalError (List x.table.Row × Nat)) :
    SourceData → Except EvalError (SourceData × Nat)
  | [] => .error .unbound
  | x :: data =>
    if x.IsNamed schema name then
      (work x).map fun out => ({ x with rows := out.1 } :: data, out.2)
    else (SourceData.change schema name work data).map fun out => (x :: out.1, out.2)

/-- How the source evaluates: its functions and subqueries, and which of several joins of a row an
update takes its values from. -/
structure SourceEngine where
  sem : Semantics
  choose : Scope → List Scope → Scope
  choose_mem : ∀ scope more, choose scope more ∈ scope :: more

/-- The value of an expression of a statement. -/
def valueOf (sem : Semantics) (scope : Scope) (e : Expr) : Except EvalError Value :=
  if e.binds scope.read [] = true then (e.eval sem scope.read []).bind Den.toValue
  else .error .unbound

/-! ### Statements -/

section

variable {t : SourceTable}

/-- The value of a column of a row. -/
def SourceTable.Row.valueAt (r : t.Row) (c : String) : Except EvalError Value :=
  match r.scope.column? c with
  | some v => .ok v
  | none => .error .unbound

/-- The rows a floor yields: the columns it selects, of the rows its restriction keeps. -/
def FloorPlan.yields (plan : FloorPlan) (sem : Semantics) (data : SourceData) :
    Except EvalError (List (List Value)) :=
  match data.find? fun x => decide (x.IsNamed plan.floor.schema plan.floor.table) with
  | none => .error .unbound
  | some x => do
    let kept ← plan.rows sem x.rows
    kept.mapM fun r => plan.floor.columnNames.mapM r.valueAt

namespace CrossingWriteStatement

variable (statement : CrossingWriteStatement)

/-- The joins of a row that the condition selects. -/
def selected (sem : Semantics) (seam : Option (List (List Value))) (r : t.Row) :
    Except EvalError (List Scope) :=
  keep (selects sem · statement.condition) (statement.joins seam r)

/-- What an `UPDATE` or `DELETE` does to a row: nothing, if no join is selected. -/
def edit (engine : SourceEngine) (target : CrossingWriteTarget)
    (seam : Option (List (List Value))) (r : t.Row) : Except EvalError (Option (List t.Row)) := do
  match ← statement.selected engine.sem seam r with
  | [] => return none
  | scope :: more =>
    if target.verb = .delete then return some []
    else
      let values ← statement.expressions.mapM (valueOf engine.sem (engine.choose scope more))
      return some [r.write target.setColumns values]

/-- What the values of an `INSERT` are evaluated over. -/
def insertScopes (seam : Option (List (List Value))) : List Scope :=
  match seam with
  | none => [[]]
  | some seam => seam.map fun values => [statement.seamScope values]

/-- The rows that an `INSERT` adds. -/
def inserted (sem : Semantics) (target : CrossingWriteTarget) (seam : Option (List (List Value)))
    (defaults : t.Row) : Except EvalError (List t.Row) :=
  (statement.insertScopes seam).mapM fun scope => do
    let values ← statement.expressions.mapM (valueOf sem scope)
    return defaults.write target.setColumns values

/-- The rows of a table after a statement, and how many it inserted or changed. -/
def applied (engine : SourceEngine) (target : CrossingWriteTarget)
    (seam : Option (List (List Value))) (x : StoredTable) :
    Except EvalError (List x.table.Row × Nat) :=
  match target.verb with
  | .insert => do
    let fresh ← statement.inserted engine.sem target seam x.defaults
    return (x.rows ++ fresh, fresh.length)
  | .update | .delete => editAll (statement.edit engine target seam) x.rows
  | _ => .error .unbound

end CrossingWriteStatement

end

/-- Where the seam of a write comes from: there is none, its rows are constants, or a plan of the
guest makes them of what its floors yield. -/
inductive WriteSeam where
  | absent
  | constant (rows : List (List Value))
  | plan (floors : List CrossingFloor)
      (work : List (List (List Value)) → Except EvalError (List (List Value)))

/-- The floors of the plan that feeds the seam. -/
def WriteSeam.floors : WriteSeam → Option (List CrossingFloor)
  | absent | constant _ => none
  | plan floors _ => some floors

/-- The rows of the seam. -/
def WriteSeam.rows (yielded : List (List (List Value))) :
    WriteSeam → Except EvalError (Option (List (List Value)))
  | absent => .ok none
  | constant rows => .ok (some rows)
  | plan _ work => (work yielded).map some

/-- A statement of the guest that reads or writes rows. -/
inductive GuestStatement where
  | read (fragments : List (List CrossingFloor))
  | write (target : CrossingWriteTarget) (seam : WriteSeam) (built : CrossingWriteStatement)

/-- What the guest is told: the rows that its floors yield, or how many rows were written. -/
inductive GuestAnswer where
  | rows (fragments : List (List (List (List Value))))
  | count (n : Nat)

/-- Why a statement fails: the bridge refuses it, or the source fails to evaluate it. -/
inductive Refusal where
  | bridge (e : BridgeError)
  | source (e : EvalError)

/-- What the bridge does, or refuses. -/
def byBridge {α : Type} (x : Except BridgeError α) : Except Refusal α := x.mapError .bridge

/-- What the source does, or fails to do. -/
def bySource {α : Type} (x : Except EvalError α) : Except Refusal α := x.mapError .source

/-- A statement, under the policy of the store. -/
def GuestStatement.perform (engine : SourceEngine) (s : Store) (data : SourceData) :
    GuestStatement → Except Refusal (SourceData × GuestAnswer)
  | read fragments => do
    let plans ← byBridge ((VirtualCatalog.read fragments).run s)
    let yielded ← bySource (plans.mapM (·.mapM (·.yields engine.sem data)))
    return (data, .rows yielded)
  | write target seam built => do
    byBridge ((bindWrite target).run s)
    let (plans, shaped) ← byBridge ((VirtualCatalog.write target seam.floors built).run s)
    let yielded ← bySource (plans.mapM (·.yields engine.sem data))
    let rows ← bySource (seam.rows yielded)
    let (data, count) ← bySource
      (data.change target.schema target.table (shaped.statement.applied engine target rows))
    return (data, .count count)

/-! ### Runs -/

/-- What happens in the session of a guest. -/
inductive GuestStep where
  /-- A statement, with the policy that it meets. -/
  | statement (engine : SourceEngine) (policy : Store) (statement : GuestStatement)
  | commit
  | rollback

/-- The tables as they were committed and as the transaction sees them, and what the guest was
told. -/
structure GuestSession where
  committed : SourceData
  current : SourceData
  answers : List (Except Refusal GuestAnswer) := []

/-- The session of a guest: a statement that fails rolls its transaction back. -/
def guestRuns : Machine GuestSession GuestStep where
  next g
    | .statement engine policy st =>
      match st.perform engine policy g.current with
      | .ok (data, answer) => some { g with current := data, answers := g.answers ++ [.ok answer] }
      | .error e => some { g with current := g.committed, answers := g.answers ++ [.error e] }
    | .commit => some { g with committed := g.current }
    | .rollback => some { g with current := g.committed }

/-! ### What a statement did -/

section

variable {engine : SourceEngine} {s : Store} {data data' : SourceData} {answer : GuestAnswer}

theorem byBridge_eq_ok {α : Type} {x : Except BridgeError α} {a : α} :
    byBridge x = .ok a ↔ x = .ok a := by
  cases x <;> simp [byBridge, Except.mapError]

theorem bySource_eq_ok {α : Type} {x : Except EvalError α} {a : α} :
    bySource x = .ok a ↔ x = .ok a := by
  cases x <;> simp [bySource, Except.mapError]

/-- A bound write is granted. -/
theorem run_bindWrite {target : CrossingWriteTarget} :
    (bindWrite target).run s = .ok () ↔
      s.book.grants target.schema target.table target.verb = true := by
  rw [bindWrite, Prog.run, GrantBook.grants]
  cases s.book.tables.findGrant target.schema target.table with
  | none => simp [Prog.run]
  | some g =>
    rw [Prog.run_ofExcept]
    cases h : g.has target.verb <;> simp [throwIf, h]

/-- The floors of a write are bound. -/
theorem plans_of_run_write {target : CrossingWriteTarget} {plan : Option (List CrossingFloor)}
    {built : CrossingWriteStatement} {plans : List FloorPlan} {shaped : ShapedWrite}
    (h : (write target plan built).run s = .ok (plans, shaped)) :
    (plan.getD []).mapM s.bindFloor = .ok plans := by
  rw [Prog.run_write] at h
  obtain ⟨values, -, h⟩ := bind_eq_ok h
  obtain ⟨plans', hplans, h⟩ := bind_eq_ok h
  cases hs : (shape target values built).run s with
  | error e =>
    rw [hs] at h
    cases h
  | ok shaped' =>
    rw [hs] at h
    cases h
    exact hplans

/-- A read answers with what its plans yield and changes nothing. -/
theorem perform_read {fragments : List (List CrossingFloor)} :
    (GuestStatement.read fragments).perform engine s data = .ok (data', answer) ↔
      ∃ plans yielded, (VirtualCatalog.read fragments).run s = .ok plans ∧
        plans.mapM (·.mapM (·.yields engine.sem data)) = .ok yielded ∧
        data' = data ∧ answer = .rows yielded := by
  rw [GuestStatement.perform, bind_eq_ok_iff]
  constructor
  · rintro ⟨plans, hplans, h⟩
    obtain ⟨yielded, hyielded, h⟩ := bind_eq_ok h
    cases h
    exact ⟨plans, yielded, byBridge_eq_ok.1 hplans, bySource_eq_ok.1 hyielded, rfl, rfl⟩
  · rintro ⟨plans, yielded, hplans, hyielded, rfl, rfl⟩
    exact ⟨plans, byBridge_eq_ok.2 hplans,
      bind_eq_ok_iff.2 ⟨yielded, bySource_eq_ok.2 hyielded, rfl⟩⟩

/-- What a write goes through. -/
structure Writes (engine : SourceEngine) (s : Store) (target : CrossingWriteTarget)
    (seam : WriteSeam) (built : CrossingWriteStatement) (data data' : SourceData) (count : Nat)
    (plans : List FloorPlan) (shaped : ShapedWrite) (yielded : List (List (List Value)))
    (rows : Option (List (List Value))) : Prop where
  isGranted : s.book.grants target.schema target.table target.verb = true
  isShaped : (VirtualCatalog.write target seam.floors built).run s = .ok (plans, shaped)
  isRead : plans.mapM (·.yields engine.sem data) = .ok yielded
  isFed : seam.rows yielded = .ok rows
  isChanged : data.change target.schema target.table (shaped.statement.applied engine target rows) =
    .ok (data', count)

/-- A write is granted, shaped, fed and applied. -/
theorem perform_write {target : CrossingWriteTarget} {seam : WriteSeam}
    {built : CrossingWriteStatement} :
    (GuestStatement.write target seam built).perform engine s data = .ok (data', answer) ↔
      ∃ count plans shaped yielded rows, answer = .count count ∧
        Writes engine s target seam built data data' count plans shaped yielded rows := by
  rw [GuestStatement.perform, bind_eq_ok_iff]
  constructor
  · rintro ⟨_, hbind, h⟩
    obtain ⟨⟨plans, shaped⟩, hshaped, h⟩ := bind_eq_ok h
    obtain ⟨yielded, hyielded, h⟩ := bind_eq_ok h
    obtain ⟨rows, hrows, h⟩ := bind_eq_ok h
    obtain ⟨⟨data₁, count⟩, hchanged, h⟩ := bind_eq_ok h
    cases h
    exact ⟨count, plans, shaped, yielded, rows, rfl, run_bindWrite.1 (byBridge_eq_ok.1 hbind),
      byBridge_eq_ok.1 hshaped, bySource_eq_ok.1 hyielded, bySource_eq_ok.1 hrows,
      bySource_eq_ok.1 hchanged⟩
  · rintro ⟨count, plans, shaped, yielded, rows, rfl, h⟩
    exact ⟨(), byBridge_eq_ok.2 (run_bindWrite.2 h.isGranted),
      bind_eq_ok_iff.2 ⟨_, byBridge_eq_ok.2 h.isShaped,
        bind_eq_ok_iff.2 ⟨_, bySource_eq_ok.2 h.isRead,
          bind_eq_ok_iff.2 ⟨_, bySource_eq_ok.2 h.isFed,
            bind_eq_ok_iff.2 ⟨_, bySource_eq_ok.2 h.isChanged, rfl⟩⟩⟩⟩⟩

end

/-! ### Sources table by table -/

/-- The same table, its rows related by `R`. -/
inductive TableRel (R : (t : SourceTable) → List t.Row → List t.Row → Prop) :
    StoredTable → StoredTable → Prop
  | mk {t : SourceTable} {defaults : t.Row} {rows rows' : List t.Row} (h : R t rows rows') :
    TableRel R ⟨t, defaults, rows⟩ ⟨t, defaults, rows'⟩

section

variable {R : (t : SourceTable) → List t.Row → List t.Row → Prop} {data data' out out' : SourceData}
  {schema name : String}
  {work work' : (x : StoredTable) → Except EvalError (List x.table.Row × Nat)} {n n' : Nat}

theorem tableRel_refl (hrefl : ∀ t rows, R t rows rows) (data : SourceData) :
    List.Forall₂ (TableRel R) data data :=
  List.forall₂_same.2 fun x _ => ⟨hrefl x.table x.rows⟩

theorem tableRel_trans (htrans : ∀ t a b c, R t a b → R t b c → R t a c)
    {data'' : SourceData} (h : List.Forall₂ (TableRel R) data data')
    (h' : List.Forall₂ (TableRel R) data' data'') : List.Forall₂ (TableRel R) data data'' := by
  induction h generalizing data'' with
  | nil => exact h'
  | cons hx _ ih =>
    cases h' with
    | cons hy hrest =>
      refine .cons ?_ (ih hrest)
      obtain ⟨hx⟩ := hx
      obtain ⟨hy⟩ := hy
      exact ⟨htrans _ _ _ _ hx hy⟩

/-- Related sources have the same tables. -/
theorem tables_eq (h : List.Forall₂ (TableRel R) data data') :
    data'.map (·.table) = data.map (·.table) := by
  induction h with
  | nil => rfl
  | cons hx _ ih =>
    obtain ⟨hx⟩ := hx
    rw [List.map_cons, List.map_cons, ih]

/-- Changing a table relates the source to what it was. -/
theorem change_rel (hrefl : ∀ t rows, R t rows rows)
    (hwork : ∀ x ∈ data, x.IsNamed schema name → ∀ rows k, work x = .ok (rows, k) →
      R x.table x.rows rows)
    (h : data.change schema name work = .ok (out, n)) : List.Forall₂ (TableRel R) data out := by
  induction data generalizing out with
  | nil => cases h
  | cons x data ih =>
    rw [SourceData.change] at h
    split_ifs at h with hx
    · cases hdone : work x with
      | error e =>
        rw [hdone] at h
        cases h
      | ok done =>
        rw [hdone] at h
        cases h
        exact .cons ⟨hwork x List.mem_cons_self hx _ _ hdone⟩ (tableRel_refl hrefl data)
    · cases hrest : SourceData.change schema name work data with
      | error e =>
        rw [hrest] at h
        cases h
      | ok rest =>
        rw [hrest] at h
        cases h
        exact .cons ⟨hrefl x.table x.rows⟩
          (ih (fun y hy => hwork y (List.mem_cons_of_mem x hy)) hrest)

/-- Changing the same table of two sources keeps them related. -/
theorem change_lockstep (hrel : List.Forall₂ (TableRel R) data data')
    (hwork : ∀ t defaults rows rows' done done' k k', t ∈ data.map (·.table) →
      t.schema = schema → t.name = name → R t rows rows' →
      work ⟨t, defaults, rows⟩ = .ok (done, k) → work' ⟨t, defaults, rows'⟩ = .ok (done', k') →
      R t done done' ∧ k = k')
    (h : data.change schema name work = .ok (out, n))
    (h' : data'.change schema name work' = .ok (out', n')) :
    List.Forall₂ (TableRel R) out out' ∧ n = n' := by
  induction hrel generalizing out out' with
  | nil => cases h
  | @cons x x' data data' hx hdata ih =>
    obtain ⟨hrows⟩ := hx
    rename_i t defaults rows rows'
    rw [SourceData.change] at h h'
    -- only the named table changes
    by_cases hnamed : StoredTable.IsNamed ⟨t, defaults, rows⟩ schema name
    · have hnamed' : StoredTable.IsNamed ⟨t, defaults, rows'⟩ schema name := hnamed
      rw [if_pos hnamed] at h
      rw [if_pos hnamed'] at h'
      cases hdone : work ⟨t, defaults, rows⟩ with
      | error e =>
        rw [hdone] at h
        cases h
      | ok done =>
        cases hdone' : work' ⟨t, defaults, rows'⟩ with
        | error e =>
          rw [hdone'] at h'
          cases h'
        | ok done' =>
          rw [hdone] at h
          rw [hdone'] at h'
          cases h
          cases h'
          obtain ⟨hR, hcount⟩ := hwork t defaults rows rows' _ _ _ _ List.mem_cons_self hnamed.1
            hnamed.2 hrows hdone hdone'
          exact ⟨.cons ⟨hR⟩ hdata, hcount⟩
    -- another one stays, and the rest by induction
    · have hnamed' : ¬StoredTable.IsNamed ⟨t, defaults, rows'⟩ schema name := hnamed
      rw [if_neg hnamed] at h
      rw [if_neg hnamed'] at h'
      cases hrest : SourceData.change schema name work data with
      | error e =>
        rw [hrest] at h
        cases h
      | ok rest =>
        cases hrest' : SourceData.change schema name work' data' with
        | error e =>
          rw [hrest'] at h'
          cases h'
        | ok rest' =>
          rw [hrest] at h
          rw [hrest'] at h'
          cases h
          cases h'
          obtain ⟨hrest, hcount⟩ := ih (fun t defaults as as' bs bs' k k' ht =>
            hwork t defaults as as' bs bs' k k' (List.mem_cons_of_mem _ ht)) hrest hrest'
          exact ⟨.cons ⟨hrows⟩ hrest, hcount⟩

/-- A table is found in both sources or in neither. -/
theorem find?_rel (schema name : String) (hrel : List.Forall₂ (TableRel R) data data') :
    (data.find? (fun x => decide (x.IsNamed schema name)) = none ∧
        data'.find? (fun x => decide (x.IsNamed schema name)) = none) ∨
      ∃ t defaults rows rows', t.schema = schema ∧ t.name = name ∧ R t rows rows' ∧
        data.find? (fun x => decide (x.IsNamed schema name)) = some ⟨t, defaults, rows⟩ ∧
        data'.find? (fun x => decide (x.IsNamed schema name)) = some ⟨t, defaults, rows'⟩ := by
  induction hrel with
  | nil => exact .inl ⟨rfl, rfl⟩
  | @cons x x' data data' hx _ ih =>
    obtain ⟨hrows⟩ := hx
    rename_i t defaults rows rows'
    rw [List.find?_cons, List.find?_cons]
    by_cases hnamed : StoredTable.IsNamed ⟨t, defaults, rows⟩ schema name
    · have hnamed' : StoredTable.IsNamed ⟨t, defaults, rows'⟩ schema name := hnamed
      rw [decide_eq_true hnamed, decide_eq_true hnamed']
      exact .inr ⟨t, defaults, rows, rows', hnamed.1, hnamed.2, hrows, rfl, rfl⟩
    · have hnamed' : ¬StoredTable.IsNamed ⟨t, defaults, rows'⟩ schema name := hnamed
      rw [decide_eq_false hnamed, decide_eq_false hnamed']
      exact ih

end

/-- A statement keeps the tables. -/
theorem perform_tables {engine : SourceEngine} {s : Store} {st : GuestStatement}
    {data data' : SourceData} {answer : GuestAnswer}
    (h : st.perform engine s data = .ok (data', answer)) :
    data'.map (·.table) = data.map (·.table) := by
  cases st with
  | read fragments =>
    obtain ⟨-, -, -, -, rfl, -⟩ := perform_read.1 h
    rfl
  | write target seam built =>
    obtain ⟨count, plans, shaped, yielded, rows, -, hwrites⟩ := perform_write.1 h
    exact tables_eq (R := fun _ _ _ => True)
      (change_rel (fun _ _ => trivial) (fun _ _ _ _ _ _ => trivial) hwrites.isChanged)

/-- **A relation that every statement respects** holds between the tables at the beginning of a
session and those at its end. -/
theorem run_tables {R : (t : SourceTable) → List t.Row → List t.Row → Prop}
    (hrefl : ∀ t rows, R t rows rows) (htrans : ∀ t a b c, R t a b → R t b c → R t a c)
    {data : SourceData} {steps : List GuestStep} {g : GuestSession}
    (hstep : ∀ engine policy st, .statement engine policy st ∈ steps → ∀ now now' answer,
      now.map StoredTable.table = data.map StoredTable.table →
      st.perform engine policy now = .ok (now', answer) → List.Forall₂ (TableRel R) now now')
    (h : guestRuns.Run Machine.Free ⟨data, data, []⟩ steps g) :
    List.Forall₂ (TableRel R) data g.committed ∧ List.Forall₂ (TableRel R) data g.current := by
  refine h.invariant_mem (I := fun g => List.Forall₂ (TableRel R) data g.committed ∧
    List.Forall₂ (TableRel R) data g.current)
    ⟨tableRel_refl hrefl data, tableRel_refl hrefl data⟩ ?_
  rintro g (⟨engine, policy, st⟩ | _ | _) g' hl ⟨hcommitted, hcurrent⟩ - hnext
  · simp only [guestRuns] at hnext
    cases hdone : st.perform engine policy g.current with
    | error e =>
      rw [hdone] at hnext
      cases hnext
      exact ⟨hcommitted, hcommitted⟩
    | ok done =>
      rw [hdone] at hnext
      cases hnext
      exact ⟨hcommitted, tableRel_trans htrans hcurrent
        (hstep _ _ _ hl _ _ _ (tables_eq hcurrent) hdone)⟩
  · cases hnext
    exact ⟨hcurrent, hcurrent⟩
  · cases hnext
    exact ⟨hcommitted, hcommitted⟩

end VirtualCatalog
